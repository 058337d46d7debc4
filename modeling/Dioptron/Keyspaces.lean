import Mathlib

/-! # Ordered keyspaces

An embedded key-value database: a family of keyspaces, each an ordered map from
keys to values.  Later modules reason about it only through what a read returns
after a write, what an iteration yields and in which order, and how a sum over a
keyspace moves when one entry is written.
-/
namespace Dioptron

/-- A family of ordered keyspaces, named by `ι`. -/
structure Keyspaces (ι κ ν : Type) [Ord κ] : Type where
  space : ι → Std.ExtTreeMap κ ν compare

namespace Keyspaces

variable {ι κ ν : Type} [Ord κ] [Std.TransOrd κ]

/-- The database with every keyspace empty. -/
def empty : Keyspaces ι κ ν := ⟨fun _ => ∅⟩

/-- The value stored at `k` in keyspace `i`. -/
def get (d : Keyspaces ι κ ν) (i : ι) (k : κ) : Option ν := (d.space i)[k]?

/-- `d` with `v` at `k` in keyspace `i`. -/
def insert [DecidableEq ι] (d : Keyspaces ι κ ν) (i : ι) (k : κ) (v : ν) : Keyspaces ι κ ν :=
  ⟨Function.update d.space i ((d.space i).insert k v)⟩

/-- `d` without the entry at `k` in keyspace `i`. -/
def remove [DecidableEq ι] (d : Keyspaces ι κ ν) (i : ι) (k : κ) : Keyspaces ι κ ν :=
  ⟨Function.update d.space i ((d.space i).erase k)⟩

/-- The entries of keyspace `i` in ascending key order. -/
def entries (d : Keyspaces ι κ ν) (i : ι) : List (κ × ν) := (d.space i).toList

/-- The keys of keyspace `i`, ascending. -/
def keys (d : Keyspaces ι κ ν) (i : ι) : List κ := (d.entries i).map Prod.fst

/-- The entries of keyspace `i` with a key beyond `cursor`, in ascending key
order; every entry when there is no cursor. -/
def entriesAfter (d : Keyspaces ι κ ν) (i : ι) : Option κ → List (κ × ν)
  | none => d.entries i
  | some cursor => (d.entries i).filter fun e => compare cursor e.1 == .lt

variable {d e : Keyspaces ι κ ν} {i j : ι} {k l : κ} {v w : ν}

@[simp] theorem get_empty : (empty : Keyspaces ι κ ν).get i k = none := by
  simp [empty, get]

section Reading

variable [Std.LawfulEqOrd κ]

/-- Databases that answer every read alike are equal. -/
theorem ext_get (h : ∀ i k, d.get i k = e.get i k) : d = e := by
  obtain ⟨d⟩ := d
  obtain ⟨e⟩ := e
  congr
  exact funext fun i => Std.ExtTreeMap.ext_getElem? fun {k} => h i k

theorem mem_entries : (k, v) ∈ d.entries i ↔ d.get i k = some v :=
  Std.ExtTreeMap.mem_toList_iff_getElem?_eq_some

/-- A keyspace that answers every read alike lists the same entries. -/
theorem entries_congr (h : ∀ k, d.get i k = e.get i k) : d.entries i = e.entries i := by
  have hspace : d.space i = e.space i := Std.ExtTreeMap.ext_getElem? fun {k} => h k
  rw [entries, entries, hspace]

omit [Std.LawfulEqOrd κ] in
/-- Iteration is in strictly ascending key order. -/
theorem entries_sorted (d : Keyspaces ι κ ν) (i : ι) :
    (d.entries i).Pairwise fun a b => compare a.1 b.1 = .lt :=
  (d.space i).ordered_keys_toList

omit [Std.LawfulEqOrd κ] in
/-- An ascending list lists no key twice. -/
theorem keys_nodup_of_sorted {l : List (κ × ν)} (h : l.Pairwise fun a b => compare a.1 b.1 = .lt) :
    (l.map Prod.fst).Nodup := by
  rw [List.nodup_iff_pairwise_ne, List.pairwise_map]
  refine h.imp ?_
  rintro ⟨k, v⟩ ⟨l, w⟩ hlt hkl
  simp only at hlt hkl
  rw [hkl, Std.ReflOrd.compare_self] at hlt
  exact absurd hlt (by decide)

omit [Std.LawfulEqOrd κ] in
theorem entries_keys_nodup (d : Keyspaces ι κ ν) (i : ι) :
    ((d.entries i).map Prod.fst).Nodup := keys_nodup_of_sorted (entries_sorted d i)

omit [Std.LawfulEqOrd κ] in
theorem entries_nodup (d : Keyspaces ι κ ν) (i : ι) : (d.entries i).Nodup :=
  List.Nodup.of_map _ (entries_keys_nodup d i)

theorem mem_entriesAfter {c : Option κ} :
    (k, v) ∈ d.entriesAfter i c ↔ d.get i k = some v ∧ ∀ x, c = some x → compare x k = .lt := by
  cases c with
  | none => simp [entriesAfter, mem_entries]
  | some => simp [entriesAfter, mem_entries]

omit [Std.LawfulEqOrd κ] in
theorem entriesAfter_sorted (d : Keyspaces ι κ ν) (i : ι) (c : Option κ) :
    (d.entriesAfter i c).Pairwise fun a b => compare a.1 b.1 = .lt := by
  cases c with
  | none => exact entries_sorted d i
  | some => exact (entries_sorted d i).filter _

omit [Std.LawfulEqOrd κ] in
/-- A stretch of an iteration holds every entry up to its last one. -/
theorem mem_take_of_le_last {c : Option κ} {b : Nat} {x : κ} {u : ν}
    (hlast : ((d.entriesAfter i c).take b).getLast? = some (x, u))
    (hmem : (k, v) ∈ d.entriesAfter i c) (hle : (compare k x).isLE) :
    (k, v) ∈ (d.entriesAfter i c).take b := by
  have hsorted := entriesAfter_sorted d i c
  rw [← List.take_append_drop b (d.entriesAfter i c), List.pairwise_append] at hsorted
  rw [← List.take_append_drop b (d.entriesAfter i c), List.mem_append] at hmem
  refine hmem.resolve_right fun hdrop => ?_
  have hlt : compare x k = .lt := hsorted.2.2 _ (List.mem_of_getLast? hlast) _ hdrop
  rw [Std.OrientedOrd.eq_swap, hlt] at hle
  cases hle

omit [Std.LawfulEqOrd κ] in
/-- Ascending lists with the same entries are the same. -/
theorem eq_of_ascending {l l' : List (κ × ν)} (h : l.Pairwise fun a b => compare a.1 b.1 = .lt)
    (h' : l'.Pairwise fun a b => compare a.1 b.1 = .lt) (hmem : ∀ x, x ∈ l ↔ x ∈ l') : l = l' := by
  have hperm : l.Perm l' :=
    (List.perm_ext_iff_of_nodup (List.Nodup.of_map _ (keys_nodup_of_sorted h))
      (List.Nodup.of_map _ (keys_nodup_of_sorted h'))).mpr hmem
  refine hperm.eq_of_pairwise (fun a b _ _ hab hba => ?_) h h'
  rw [Std.OrientedOrd.eq_swap, hba] at hab
  cases hab

/-- Beyond the last entry of a stretch lies what the stretch left out. -/
theorem entriesAfter_last {c : Option κ} {b : Nat} {x : κ} {u : ν}
    (hlast : ((d.entriesAfter i c).take b).getLast? = some (x, u)) :
    d.entriesAfter i (some x) = (d.entriesAfter i c).drop b := by
  have hsorted := entriesAfter_sorted d i c
  have hx := mem_entriesAfter.mp (List.mem_of_mem_take (List.mem_of_getLast? hlast))
  refine eq_of_ascending (entriesAfter_sorted d i (some x))
    (hsorted.sublist (List.drop_sublist _ _)) ?_
  rintro ⟨l, w⟩
  have hsplit := hsorted
  rw [← List.take_append_drop b (d.entriesAfter i c), List.pairwise_append] at hsplit
  constructor
  · intro hl
    obtain ⟨hget, hlt⟩ := mem_entriesAfter.mp hl
    have hlt := hlt x rfl
    have hall : (l, w) ∈ d.entriesAfter i c :=
      mem_entriesAfter.mpr ⟨hget, fun y hy => Std.TransCmp.lt_trans (hx.2 y hy) hlt⟩
    rw [← List.take_append_drop b (d.entriesAfter i c), List.mem_append] at hall
    refine hall.resolve_left fun htake => ?_
    -- Nothing of the stretch lies beyond its last entry.
    obtain ⟨front, hfront⟩ := List.getLast?_eq_some_iff.mp hlast
    rw [hfront, List.pairwise_append] at hsplit
    rw [hfront, List.mem_append, List.mem_singleton] at htake
    rcases htake with hin | heq
    · have hbefore := hsplit.1.2.2 _ hin (x, u) List.mem_cons_self
      rw [Std.OrientedOrd.eq_swap, hlt] at hbefore
      cases hbefore
    · cases heq
      rw [Std.ReflOrd.compare_self] at hlt
      cases hlt
  · intro hl
    refine mem_entriesAfter.mpr ⟨(mem_entriesAfter.mp (List.mem_of_mem_drop hl)).1, ?_⟩
    rintro y ⟨⟩
    exact hsplit.2.2 _ (List.mem_of_getLast? hlast) _ hl

omit [Std.LawfulEqOrd κ] in
theorem length_entries_of_keys (h : d.keys i = e.keys i) :
    (d.entries i).length = (e.entries i).length := by
  have hlen := congrArg List.length h
  rwa [keys, keys, List.length_map, List.length_map] at hlen

omit [Std.LawfulEqOrd κ] in
/-- How many entries are beyond a cursor is a matter of the keys. -/
theorem length_entriesAfter_of_keys (h : d.keys i = e.keys i) (c : Option κ) :
    (d.entriesAfter i c).length = (e.entriesAfter i c).length := by
  cases c with
  | none => exact length_entries_of_keys h
  | some x =>
    have hcount (d : Keyspaces ι κ ν) : (d.entriesAfter i (some x)).length =
        ((d.keys i).filter fun k => compare x k == .lt).length := by
      rw [keys, List.filter_map, List.length_map]
      rfl
    rw [hcount, hcount, h]

theorem get_of_entries_nil (h : d.entries i = []) (k : κ) : d.get i k = none := by
  cases hget : d.get i k with
  | none => rfl
  | some =>
    have hmem := mem_entries.mpr hget
    rw [h] at hmem
    cases hmem

/-- The last entry has the greatest key. -/
theorem last_entry (h : (d.entries i).getLast? = some (k, v)) :
    d.get i k = some v ∧ ∀ l w, d.get i l = some w → (compare l k).isLE := by
  obtain ⟨front, hfront⟩ := List.getLast?_eq_some_iff.mp h
  have hsorted := entries_sorted d i
  rw [hfront, List.pairwise_append] at hsorted
  refine ⟨mem_entries.mp (by rw [hfront]; simp), ?_⟩
  intro l w hget
  have hmem := mem_entries.mpr hget
  rw [hfront, List.mem_append, List.mem_singleton] at hmem
  rcases hmem with hmem | hmem
  · rw [hsorted.2.2 (l, w) hmem (k, v) (by simp)]
    rfl
  · cases hmem
    rw [Std.ReflOrd.compare_self]
    rfl

end Reading

section Writing

variable [DecidableEq ι]

theorem entries_insert_of_ne (h : i ≠ j) : (d.insert i k v).entries j = d.entries j := by
  simp only [entries, insert, Function.update_of_ne (Ne.symm h)]

variable [Std.LawfulEqOrd κ]

theorem get_insert [DecidableEq κ] :
    (d.insert i k v).get j l = if i = j ∧ k = l then some v else d.get j l := by
  unfold get insert
  by_cases hij : i = j
  · subst hij
    simp [Std.ExtTreeMap.getElem?_insert]
  · simp [hij, Function.update_of_ne (Ne.symm hij)]

theorem get_remove [DecidableEq κ] :
    (d.remove i k).get j l = if i = j ∧ k = l then none else d.get j l := by
  unfold get remove
  by_cases hij : i = j
  · subst hij
    simp [Std.ExtTreeMap.getElem?_erase]
  · simp [hij, Function.update_of_ne (Ne.symm hij)]

@[simp] theorem get_insert_self : (d.insert i k v).get i k = some v := by
  classical simp [get_insert]

@[simp] theorem get_remove_self : (d.remove i k).get i k = none := by
  classical simp [get_remove]

theorem get_insert_of_ne (h : i ≠ j ∨ k ≠ l) : (d.insert i k v).get j l = d.get j l := by
  classical
  rw [get_insert, if_neg]
  rintro ⟨hij, hkl⟩
  exact h.elim (absurd hij) (absurd hkl)

theorem get_remove_of_ne (h : i ≠ j ∨ k ≠ l) : (d.remove i k).get j l = d.get j l := by
  classical
  rw [get_remove, if_neg]
  rintro ⟨hij, hkl⟩
  exact h.elim (absurd hij) (absurd hkl)

/-- A keyspace with `v` written at `k` lists that entry and the others. -/
theorem entries_insert_perm :
    ((d.insert i k v).entries i).Perm ((k, v) :: (d.remove i k).entries i) := by
  classical
  refine (List.perm_ext_iff_of_nodup (entries_nodup _ _) ?_).mpr ?_
  · refine List.nodup_cons.mpr ⟨?_, entries_nodup _ _⟩
    rw [mem_entries, get_remove_self]
    simp
  · rintro ⟨l, w⟩
    rw [List.mem_cons, mem_entries, mem_entries, get_insert, get_remove, Prod.mk.injEq]
    by_cases hkl : k = l
    · subst hkl; simp [eq_comm]
    · simp [hkl, Ne.symm hkl]

/-- A keyspace lists what it stores at `k` and the other entries. -/
theorem entries_perm_of_get (h : d.get i k = some v) :
    (d.entries i).Perm ((k, v) :: (d.remove i k).entries i) := by
  classical
  refine (List.perm_ext_iff_of_nodup (entries_nodup _ _) ?_).mpr ?_
  · refine List.nodup_cons.mpr ⟨?_, entries_nodup _ _⟩
    rw [mem_entries, get_remove_self]
    simp
  · rintro ⟨l, w⟩
    rw [List.mem_cons, mem_entries, mem_entries, get_remove, Prod.mk.injEq]
    by_cases hkl : k = l
    · subst hkl; simp [h, eq_comm]
    · simp [hkl, Ne.symm hkl]

/-- Writing at a key that is there adds none. -/
theorem keys_insert (h : d.get i k = some v) : (d.insert i k w).keys j = d.keys j := by
  by_cases hij : i = j
  · subst hij
    have hperm : ((d.insert i k w).keys i).Perm (d.keys i) :=
      (entries_insert_perm.map Prod.fst).trans ((entries_perm_of_get h).map Prod.fst).symm
    have hsorted (d : Keyspaces ι κ ν) : (d.keys i).Pairwise fun a b => compare a b = .lt :=
      List.pairwise_map.mpr (entries_sorted d i)
    refine hperm.eq_of_pairwise (fun a b _ _ hab hba => ?_) (hsorted _) (hsorted _)
    rw [Std.OrientedOrd.eq_swap, hba] at hab
    cases hab
  · rw [keys, keys, entries_insert_of_ne hij]

/-! ## Batches of writes -/

section Batches

variable {α : Type} {xs : List α} {f : α → ι} {g : α → κ} {u : α → ν} {x : α}

theorem get_foldl_remove_of_not (h : ∀ x ∈ xs, f x ≠ j ∨ g x ≠ l) :
    (xs.foldl (fun d x => d.remove (f x) (g x)) d).get j l = d.get j l := by
  induction xs generalizing d with
  | nil => rfl
  | cons x _ ih =>
    rw [List.foldl_cons, ih fun y hy => h y (List.mem_cons_of_mem _ hy),
      get_remove_of_ne (h x List.mem_cons_self)]

theorem get_foldl_remove_of_none (h : d.get j l = none) :
    (xs.foldl (fun d x => d.remove (f x) (g x)) d).get j l = none := by
  classical
  induction xs generalizing d with
  | nil => exact h
  | cons _ _ ih =>
    refine ih ?_
    rw [get_remove, h, ite_self]

theorem get_foldl_remove_of_mem (hx : x ∈ xs) :
    (xs.foldl (fun d x => d.remove (f x) (g x)) d).get (f x) (g x) = none := by
  induction xs generalizing d with
  | nil => cases hx
  | cons _ _ ih =>
    rw [List.foldl_cons]
    rcases List.mem_cons.mp hx with rfl | hx
    · exact get_foldl_remove_of_none get_remove_self
    · exact ih hx

theorem get_foldl_insert_of_not (h : ∀ x ∈ xs, f x ≠ j ∨ g x ≠ l) :
    (xs.foldl (fun d x => d.insert (f x) (g x) (u x)) d).get j l = d.get j l := by
  induction xs generalizing d with
  | nil => rfl
  | cons x _ ih =>
    rw [List.foldl_cons, ih fun y hy => h y (List.mem_cons_of_mem _ hy),
      get_insert_of_ne (h x List.mem_cons_self)]

/-- Of several insertions at one place the last one counts. -/
theorem get_foldl_insert_of_mem (hx : x ∈ xs) : ∃ y ∈ xs, f y = f x ∧ g y = g x ∧
    (xs.foldl (fun d x => d.insert (f x) (g x) (u x)) d).get (f x) (g x) = some (u y) := by
  induction xs generalizing d x with
  | nil => cases hx
  | cons z xs ih =>
    rw [List.foldl_cons]
    by_cases hlater : ∃ y ∈ xs, f y = f x ∧ g y = g x
    · obtain ⟨y, hy, hf, hg⟩ := hlater
      obtain ⟨w, hw, hfw, hgw, hget⟩ := ih (d := d.insert (f z) (g z) (u z)) hy
      rw [hf, hg] at hget
      exact ⟨w, List.mem_cons_of_mem _ hw, hfw.trans hf, hgw.trans hg, hget⟩
    · have hz : x = z := by
        rcases List.mem_cons.mp hx with rfl | hx
        · rfl
        · exact absurd ⟨x, hx, rfl, rfl⟩ hlater
      subst hz
      refine ⟨x, List.mem_cons_self, rfl, rfl, ?_⟩
      rw [get_foldl_insert_of_not, get_insert_self]
      intro y hy
      by_contra hne
      rw [not_or, not_not, not_not] at hne
      exact hlater ⟨y, hy, hne⟩

end Batches

/-! ## Sums over a keyspace -/

/-- The sum of `f` over the entries of keyspace `i`. -/
def total (d : Keyspaces ι κ ν) (i : ι) (f : κ × ν → Nat) : Nat :=
  ((d.entries i).map f).sum

theorem total_insert_add {f : κ × ν → Nat} (h : d.get i k = some v) :
    (d.insert i k w).total i f + f (k, v) = d.total i f + f (k, w) := by
  unfold total
  rw [(entries_insert_perm.map f).sum_eq, ((entries_perm_of_get h).map f).sum_eq]
  simp only [List.map_cons, List.sum_cons]
  omega

end Writing
end Keyspaces
end Dioptron
