import Mathlib.Data.List.Sort
import Mathlib.Data.List.Perm.Subperm

/-! # Merging the fronts of sorted lists

Several lists, each in the order of a key, are cut to their first `n` elements, put
together, sorted and cut again.  Nothing is lost on the way: the result is the first `n`
elements of all of them together.
-/
namespace Dioptron

variable {α κ : Type} [LinearOrder κ] {key : α → κ}

/-- A list in the strict order of a key. -/
def Ascending (key : α → κ) (l : List α) : Prop := l.Pairwise fun a b => key a < key b

/-- Of a list without repetition whose first elements all are in a sublist, the first
elements are those of the sublist. -/
theorem take_eq_of_sublist {A B : List α} (hsub : B.Sublist A) (hA : A.Nodup) {n : Nat}
    (h : ∀ x ∈ A.take n, x ∈ B) : B.take n = A.take n := by
  induction A generalizing B n with
  | nil => rw [List.sublist_nil.mp hsub]
  | cons a A ih =>
    cases n with
    | zero => rfl
    | succ =>
      obtain ⟨hfresh, hA⟩ := List.nodup_cons.mp hA
      have ha : a ∈ B := h a (by simp)
      cases hsub with
      | cons _ hsub => exact absurd (hsub.subset ha) hfresh
      | cons_cons _ hsub =>
        rw [List.take_succ_cons, List.take_succ_cons, ih hsub hA]
        intro x hx
        rcases List.mem_cons.mp (h x (by simp [hx])) with rfl | hmem
        · exact absurd (List.mem_of_mem_take hx) hfresh
        · exact hmem

namespace Ascending

variable {A B xs : List α}

theorem nodup (h : Ascending key A) : A.Nodup := by
  refine List.Pairwise.imp (fun {a b} hlt heq => ?_) h
  rw [heq] at hlt
  exact lt_irrefl _ hlt

theorem antisymm (key : α → κ) : Std.Antisymm fun a b : α => key a < key b :=
  ⟨fun _ _ h h' => absurd h (lt_asymm h')⟩

/-- Lists in order with the same elements are the same. -/
theorem eq_of_mem_iff (hA : Ascending key A) (hB : Ascending key B) (h : ∀ x, x ∈ A ↔ x ∈ B) :
    A = B := by
  have := antisymm key
  exact ((List.perm_ext_iff_of_nodup hA.nodup hB.nodup).mpr h).eq_of_pairwise' hA hB

theorem sublist (hA : Ascending key A) (hB : Ascending key B) (h : B ⊆ A) : B.Sublist A := by
  have := antisymm key
  exact List.sublist_of_subperm_of_pairwise (List.Nodup.subperm hB.nodup h) hB hA

theorem take (h : Ascending key A) (n : Nat) : Ascending key (A.take n) := List.Pairwise.take h

theorem filter (h : Ascending key A) (p : α → Bool) : Ascending key (A.filter p) :=
  List.Pairwise.filter p h

/-- Sorting by the key, when it tells the elements apart. -/
theorem of_mergeSort {le : α → α → Bool} (hle : ∀ a b, le a b = true ↔ key a ≤ key b)
    (h : A.Pairwise fun a b => key a ≠ key b) : Ascending key (A.mergeSort le) := by
  have hsorted : (A.mergeSort le).Pairwise fun a b => le a b = true := by
    refine List.pairwise_mergeSort (fun a b c hab hbc => ?_) (fun a b => ?_) A
    · rw [hle] at hab hbc ⊢
      exact le_trans hab hbc
    · rw [Bool.or_eq_true, hle, hle]
      exact le_total _ _
  have hne : (A.mergeSort le).Pairwise fun a b => key a ≠ key b :=
    (List.mergeSort_perm A le).symm.pairwise h fun h => h.symm
  refine hsorted.imp₂ (fun a b hab hne => ?_) hne
  exact lt_of_le_of_ne ((hle a b).mp hab) hne

/-- Among the first `n` elements of all, an element is among the first `n` of any list it
is in. -/
theorem mem_take (hA : Ascending key A) (hxs : Ascending key xs) (hsub : xs ⊆ A) {n : Nat} {x : α}
    (hx : x ∈ A.take n) (hmem : x ∈ xs) : x ∈ xs.take n := by
  by_contra hlate
  have hsplit := List.take_append_drop n xs
  have hdrop : x ∈ xs.drop n := by
    rw [← hsplit, List.mem_append] at hmem
    exact hmem.resolve_left hlate
  have hlt : ∀ y ∈ xs.take n, key y < key x := by
    intro y hy
    have hpair : (xs.take n ++ xs.drop n).Pairwise fun a b => key a < key b := hsplit.symm ▸ hxs
    exact (List.pairwise_append.mp hpair).2.2 y hy x hdrop
  -- Everything before `x` is among the first elements of all, which are too few for it.
  have hfront : ∀ y ∈ xs.take n, y ∈ A.take n := by
    intro y hy
    have hyA : y ∈ A := hsub (List.mem_of_mem_take hy)
    rw [← List.take_append_drop n A, List.mem_append] at hyA
    refine hyA.resolve_right fun hydrop => ?_
    have hpair : (A.take n ++ A.drop n).Pairwise fun a b => key a < key b :=
      (List.take_append_drop n A).symm ▸ hA
    exact lt_asymm (hlt y hy) ((List.pairwise_append.mp hpair).2.2 x hx y hydrop)
  have hall : (x :: xs.take n).Nodup := List.nodup_cons.mpr ⟨hlate, (hxs.take n).nodup⟩
  have hlen := (List.Nodup.subperm hall fun y hy => by
    rcases List.mem_cons.mp hy with rfl | hy
    · exact hx
    · exact hfront y hy).length_le
  have hdroplen := List.length_pos_of_mem hdrop
  simp only [List.length_cons, List.length_take, List.length_drop] at hlen hdroplen
  omega

end Ascending

/-- **Merging fronts.**  Cutting each list first does not change the front of the merge. -/
theorem take_mergeSort_take {le : α → α → Bool} (hle : ∀ a b, le a b = true ↔ key a ≤ key b)
    {pages : List (List α)} (hpages : ∀ xs ∈ pages, Ascending key xs)
    (hdistinct : pages.flatten.Pairwise fun a b => key a ≠ key b) (n : Nat) :
    ((pages.map (List.take n)).flatten.mergeSort le).take n =
    (pages.flatten.mergeSort le).take n := by
  have hcut : (pages.map (List.take n)).flatten.Sublist pages.flatten := by
    clear hpages hdistinct
    induction pages with
    | nil => exact .slnil
    | cons xs _ ih =>
      rw [List.map_cons, List.flatten_cons, List.flatten_cons]
      exact (List.take_sublist n xs).append ih
  have hA := Ascending.of_mergeSort hle hdistinct
  have hB := Ascending.of_mergeSort hle (hdistinct.sublist hcut)
  have hmemA {x : α} : x ∈ pages.flatten.mergeSort le ↔ x ∈ pages.flatten :=
    (List.mergeSort_perm _ le).mem_iff
  have hmemB {x : α} : x ∈ (pages.map (List.take n)).flatten.mergeSort le ↔
      x ∈ (pages.map (List.take n)).flatten := (List.mergeSort_perm _ le).mem_iff
  refine take_eq_of_sublist (hA.sublist hB fun x hx => ?_) hA.nodup fun x hx => ?_
  · exact hmemA.mpr (hcut.subset (hmemB.mp hx))
  · obtain ⟨xs, hxs, hx'⟩ := List.mem_flatten.mp (hmemA.mp (List.mem_of_mem_take hx))
    refine hmemB.mpr (List.mem_flatten.mpr ⟨xs.take n, List.mem_map_of_mem hxs, ?_⟩)
    refine hA.mem_take (hpages xs hxs) (fun y hy => ?_) hx hx'
    exact hmemA.mpr (List.mem_flatten.mpr ⟨xs, hxs, hy⟩)

end Dioptron
