import Dioptron.Store

/-! # Compaction

A compaction copies every entry of every keyspace into a fresh database, up to `copyBatch`
entries a transaction, and swaps it in.  The loop looks one entry ahead: the last chunk of
a keyspace is written whether it is full or not, and none is empty.
-/
namespace Dioptron

variable {C : Crypto}

/-- Entries copied per transaction. -/
def copyBatch : Nat := 1024

/-- The target of a copy, with the transactions committed to it in order. -/
structure Copy (C : Crypto) where
  target : Database C
  transactions : List (Keyspace × List (Str C.Block × Value C))

namespace Copy

/-- One transaction: every entry of the chunk is inserted. -/
def commit (dest : Keyspace) (st : Copy C) (chunk : List (Str C.Block × Value C)) : Copy C where
  target := chunk.foldl (fun d e => d.insert dest e.1 e.2) st.target
  transactions := st.transactions ++ [(dest, chunk)]

/-- The loop over the entries of one keyspace. -/
def copyEntries (dest : Keyspace) : List (Str C.Block × Value C) → Copy C →
    List (Str C.Block × Value C) → Copy C
  | _, st, [] => st
  | chunk, st, entry :: entries =>
    let chunk := chunk ++ [entry]
    if chunk.length = copyBatch ∨ entries.head? = none then
      copyEntries dest [] (st.commit dest chunk) entries
    else
      copyEntries dest chunk st entries

end Copy

/-- Copies every entry of every keyspace into a new database. -/
def Store.copyInto (s : Store C) : Copy C :=
  Keyspace.all.foldl (fun st keyspace => Copy.copyEntries keyspace [] st (s.db.entries keyspace))
    ⟨Keyspaces.empty, []⟩

/-- The store reopened on its copy.  A compaction that fails or is cut off before the swap
leaves the store as it was. -/
def Store.compact (s : Store C) : Store C := { s with db := s.copyInto.target }

/-! ## Chunks -/

/-- The chunks the loop writes, from a chunk that is already begun. -/
def chunks {α : Type} (batch : Nat) : List α → List α → List (List α)
  | _, [] => []
  | chunk, x :: xs =>
    if (chunk ++ [x]).length = batch ∨ xs.head? = none then
      (chunk ++ [x]) :: chunks batch [] xs
    else
      chunks batch (chunk ++ [x]) xs

/-- **The chunks are the list**: nothing is dropped, moved or written twice, and only the
last one may be partial. -/
theorem chunks_spec {α : Type} {batch : Nat} {chunk xs : List α} (hroom : chunk.length < batch)
    (hnone : xs = [] → chunk = []) :
    (chunks batch chunk xs).flatten = chunk ++ xs ∧
      (chunks batch chunk xs).length = (chunk.length + xs.length + (batch - 1)) / batch := by
  induction xs generalizing chunk with
  | nil =>
    rw [hnone rfl, chunks]
    refine ⟨rfl, (Nat.div_eq_of_lt ?_).symm⟩
    simp only [List.length_nil]
    omega
  | cons x xs ih =>
    have hlen : (chunk ++ [x]).length = chunk.length + 1 := by simp
    have hbatch : 0 < batch := by omega
    rw [chunks]
    split_ifs with hfull
    · obtain ⟨hflat, hcount⟩ := @ih [] hbatch fun _ => rfl
      refine ⟨by rw [List.flatten_cons, hflat, List.append_assoc]; rfl, ?_⟩
      rw [List.length_cons, hcount, List.length_cons, List.length_nil, Nat.zero_add]
      rcases hfull with hfull | hlast
      · -- A full chunk takes `batch` entries away.
        have hsum : chunk.length + (xs.length + 1) + (batch - 1) =
            xs.length + (batch - 1) + batch := by omega
        rw [hsum, Nat.add_div_right _ hbatch]
      · obtain rfl : xs = [] := List.head?_eq_none_iff.mp hlast
        have hempty : (([] : List α).length + (batch - 1)) / batch = 0 :=
          Nat.div_eq_of_lt (by simp only [List.length_nil]; omega)
        have hone : (chunk.length + (([] : List α).length + 1) + (batch - 1)) / batch = 1 := by
          refine Nat.div_eq_of_lt_le ?_ ?_ <;> simp only [List.length_nil] <;> omega
        rw [hempty, hone]
    · rw [not_or] at hfull
      obtain ⟨hflat, hcount⟩ := @ih (chunk ++ [x]) (by omega) fun hnil => by
        rw [hnil] at hfull
        exact absurd rfl hfull.2
      refine ⟨by rw [hflat, List.append_assoc]; rfl, ?_⟩
      rw [hcount, hlen, List.length_cons]
      congr 1
      omega

theorem chunks_copyBatch {α : Type} (xs : List α) : (chunks copyBatch [] xs).flatten = xs ∧
    (chunks copyBatch [] xs).length = (xs.length + copyBatch - 1) / copyBatch := by
  obtain ⟨hflat, hcount⟩ := @chunks_spec α copyBatch [] xs (Nat.succ_pos _) fun _ => rfl
  exact ⟨hflat, by rw [hcount, List.length_nil, Nat.zero_add]; rfl⟩

/-- What is tagged with `j` among lists tagged with different tags. -/
theorem filter_tagged {ι α : Type} [DecidableEq ι] {tags : List ι} (f : ι → List α)
    (hnodup : tags.Nodup) {j : ι} (hj : j ∈ tags) :
    ((tags.flatMap fun i => (f i).map (i, ·)).filter fun t => t.1 = j).map Prod.snd = f j := by
  have hnone {tags : List ι} (h : j ∉ tags) :
      ((tags.flatMap fun i => (f i).map (i, ·)).filter fun t => t.1 = j) = [] := by
    rw [List.filter_eq_nil_iff]
    rintro ⟨i, x⟩ hmem
    obtain ⟨i', hi', hx⟩ := List.mem_flatMap.mp hmem
    obtain ⟨y, -, heq⟩ := List.mem_map.mp hx
    cases heq
    simpa using fun heq : i = j => h (heq ▸ hi')
  induction tags with
  | nil => cases hj
  | cons i _ ih =>
    obtain ⟨hi, hnodup⟩ := List.nodup_cons.mp hnodup
    rw [List.flatMap_cons, List.filter_append, List.map_append]
    by_cases hij : i = j
    · subst hij
      rw [hnone hi, List.map_nil, List.append_nil, List.filter_eq_self.mpr, List.map_map]
      · exact List.map_id _
      · intro t ht
        obtain ⟨y, -, rfl⟩ := List.mem_map.mp ht
        exact decide_eq_true rfl
    · rw [ih hnodup ((List.mem_cons.mp hj).resolve_left (Ne.symm hij)), List.filter_eq_nil_iff.mpr,
        List.map_nil, List.nil_append]
      intro t ht
      obtain ⟨y, -, rfl⟩ := List.mem_map.mp ht
      simpa using hij

namespace Copy

/-- The loop commits the chunks. -/
theorem copyEntries_eq (dest : Keyspace) (chunk : List (Str C.Block × Value C)) (st : Copy C)
    (entries : List (Str C.Block × Value C)) :
    copyEntries dest chunk st entries =
      (chunks copyBatch chunk entries).foldl (commit dest) st := by
  induction entries generalizing chunk st with
  | nil => rfl
  | cons _ _ ih =>
    rw [copyEntries, chunks]
    split_ifs with hfull
    · rw [ih, List.foldl_cons]
    · rw [ih]

theorem transactions_foldl (dest : Keyspace) (st : Copy C)
    (cs : List (List (Str C.Block × Value C))) :
    (cs.foldl (commit dest) st).transactions = st.transactions ++ cs.map (dest, ·) := by
  induction cs generalizing st with
  | nil => simp
  | cons _ _ ih =>
    rw [List.foldl_cons, ih, commit, List.append_assoc]
    rfl

/-- Writing chunks is writing their entries. -/
theorem target_foldl (dest : Keyspace) (st : Copy C) (cs : List (List (Str C.Block × Value C))) :
    (cs.foldl (commit dest) st).target =
      cs.flatten.foldl (fun d e => d.insert dest e.1 e.2) st.target := by
  induction cs generalizing st with
  | nil => rfl
  | cons _ _ ih =>
    rw [List.foldl_cons, ih, List.flatten_cons, List.foldl_append]
    rfl

variable {d : Database C} {st : Copy C} {dest keyspace : Keyspace} {k : Str C.Block}

/-- A keyspace that was copied into an empty one. -/
theorem get_foldl_insert_entries (hnew : ∀ k, st.target.get dest k = none) :
    ((d.entries dest).foldl (fun t e => t.insert dest e.1 e.2) st.target).get dest k =
      d.get dest k := by
  cases hk : d.get dest k with
  | some =>
    obtain ⟨e, he, -, hkey, hget⟩ := Keyspaces.get_foldl_insert_of_mem (d := st.target)
      (f := fun _ => dest) (g := Prod.fst) (u := Prod.snd) (Keyspaces.mem_entries.mpr hk)
    have hv : d.get dest e.1 = some e.2 := Keyspaces.mem_entries.mp he
    rw [show e.1 = k from hkey, hk] at hv
    rw [hget, hv]
  | none =>
    rw [Keyspaces.get_foldl_insert_of_not (f := fun _ => dest) (g := Prod.fst)
      (u := Prod.snd), hnew]
    rintro ⟨k', v⟩ he
    right
    rintro rfl
    rw [Keyspaces.mem_entries.mp he] at hk
    cases hk

/-- Copying some keyspaces that are still empty, one after the other. -/
theorem copyAll_spec {keyspaces : List Keyspace} (hnodup : keyspaces.Nodup)
    (hnew : ∀ dest ∈ keyspaces, ∀ k, st.target.get dest k = none) :
    let copied := keyspaces.foldl (fun st dest => copyEntries dest [] st (d.entries dest)) st
    (∀ dest k, copied.target.get dest k =
      if dest ∈ keyspaces then d.get dest k else st.target.get dest k) ∧
    copied.transactions = st.transactions ++
      keyspaces.flatMap fun dest => (chunks copyBatch [] (d.entries dest)).map (dest, ·) := by
  induction keyspaces generalizing st with
  | nil => simp
  | cons first _ ih =>
    obtain ⟨hfirst, hnodup⟩ := List.nodup_cons.mp hnodup
    set st' := copyEntries first [] st (d.entries first) with hst'
    have hflat : (chunks copyBatch [] (d.entries first)).flatten = d.entries first :=
      (chunks_copyBatch _).1
    have htarget : st'.target =
        (d.entries first).foldl (fun t e => t.insert first e.1 e.2) st.target := by
      rw [hst', copyEntries_eq, target_foldl, hflat]
    have hother {dest : Keyspace} (hne : first ≠ dest) (k : Str C.Block) :
        st'.target.get dest k = st.target.get dest k := by
      rw [htarget]
      exact Keyspaces.get_foldl_insert_of_not (f := fun _ => first) (g := Prod.fst) (u := Prod.snd)
        fun _ _ => .inl hne
    obtain ⟨hget, htransactions⟩ := @ih st' hnodup fun dest hdest k => by
      rw [hother (fun heq => hfirst (heq ▸ hdest))]
      exact hnew dest (List.mem_cons_of_mem _ hdest) k
    refine ⟨fun dest k => ?_, ?_⟩
    · rw [List.foldl_cons, hget]
      by_cases hdest : first = dest
      · subst hdest
        rw [if_neg hfirst, if_pos List.mem_cons_self, htarget,
          get_foldl_insert_entries (hnew first List.mem_cons_self)]
      · rw [hother hdest]
        simp only [List.mem_cons, Ne.symm hdest, false_or]
    · rw [List.foldl_cons, htransactions, hst', copyEntries_eq, transactions_foldl,
        List.append_assoc]
      rfl

end Copy

theorem Keyspace.mem_all (keyspace : Keyspace) : keyspace ∈ Keyspace.all := by
  cases keyspace <;> decide

theorem Store.copyInto_spec (s : Store C) : s.copyInto.target = s.db ∧
    s.copyInto.transactions = Keyspace.all.flatMap fun dest =>
      (chunks copyBatch [] (s.db.entries dest)).map (dest, ·) := by
  obtain ⟨hget, htransactions⟩ := @Copy.copyAll_spec C s.db ⟨Keyspaces.empty, []⟩ Keyspace.all
    (by decide) fun _ _ _ => Keyspaces.get_empty
  refine ⟨Keyspaces.ext_get fun keyspace k => ?_, htransactions⟩
  rw [Store.copyInto, hget, if_pos keyspace.mem_all]

/-- A compaction keeps the store. -/
theorem Store.compact_eq (s : Store C) : s.compact = s := by
  rw [Store.compact, s.copyInto_spec.1]

/-- The transactions of a copy that write one keyspace. -/
def Copy.transactionsOf (st : Copy C) (keyspace : Keyspace) : List (List (Str C.Block × Value C)) :=
  (st.transactions.filter fun t => t.1 = keyspace).map Prod.snd

/-- **The copy is exact.**  The fresh database ends up with the entries of the copied one and
nothing else; the transactions on a keyspace write its entries once each, in order; and
there are as many of them as chunks of `copyBatch` entries cover the keyspace. -/
theorem copy_exact (s : Store C) :
    s.copyInto.target = s.db ∧
    (∀ keyspace, s.copyInto.target.entries keyspace = s.db.entries keyspace) ∧
    (∀ keyspace, (s.copyInto.transactionsOf keyspace).flatten = s.db.entries keyspace) ∧
    ∀ keyspace, (s.copyInto.transactionsOf keyspace).length ≤
      (s.db.entries keyspace).length ⌈/⌉ 1024 := by
  obtain ⟨htarget, htransactions⟩ := s.copyInto_spec
  have hof (keyspace : Keyspace) : s.copyInto.transactionsOf keyspace =
      chunks copyBatch [] (s.db.entries keyspace) := by
    rw [Copy.transactionsOf, htransactions]
    exact filter_tagged _ (by decide) keyspace.mem_all
  refine ⟨htarget, fun keyspace => by rw [htarget], fun keyspace => ?_, fun keyspace => ?_⟩
  · rw [hof]
    exact (chunks_copyBatch _).1
  · rw [hof, (chunks_copyBatch _).2, Nat.ceilDiv_eq_add_pred_div]
    exact le_rfl

end Dioptron
