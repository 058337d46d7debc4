import Mathlib

/-! # Accounts kept as totals

Accounts that store a total next to the charges the total is made of.  A total is
balanced when it is the sum of the charges; a change of one charge keeps it so exactly
when the total moves by the difference.
-/
namespace Dioptron

variable {ι κ α : Type} [Fintype ι]

/-- The stored totals are the sums of the charges. -/
def Balanced (used : κ → ℕ) (charge : ι → κ → ℕ) : Prop := ∀ k, used k = ∑ i, charge i k

namespace Balanced

variable {used used' : κ → ℕ} {charge charge' : ι → κ → ℕ}

/-- One charge changes and every total moves by the difference. -/
theorem move [DecidableEq ι] (h : Balanced used charge) (i : ι)
    (hcharge : ∀ j, j ≠ i → charge' j = charge j)
    (hused : ∀ k, used' k + charge i k = used k + charge' i k) : Balanced used' charge' := by
  intro k
  have hsum := h k
  have hrest : ∑ j ∈ Finset.univ.erase i, charge' j k = ∑ j ∈ Finset.univ.erase i, charge j k :=
    Finset.sum_congr rfl fun j hj => by rw [hcharge j (Finset.ne_of_mem_erase hj)]
  rw [← Finset.add_sum_erase _ _ (Finset.mem_univ i)] at hsum ⊢
  have hk := hused k
  omega

/-- A total is at least each of its charges. -/
theorem charge_le (h : Balanced used charge) (i : ι) (k : κ) : charge i k ≤ used k := by
  rw [h k]
  exact Finset.single_le_sum (f := fun j => charge j k) (fun _ _ => Nat.zero_le _)
    (Finset.mem_univ i)

end Balanced

/-- A sum over everything there could be is the sum over a list of what there is. -/
theorem sum_eq_sum_map [DecidableEq ι] {xs : List α} {name : α → ι} {amount : α → ℕ} {f : ι → ℕ}
    (hnodup : (xs.map name).Nodup) (hin : ∀ x ∈ xs, f (name x) = amount x)
    (hout : ∀ i, i ∉ xs.map name → f i = 0) : ∑ i, f i = (xs.map amount).sum := by
  have hlisted : ∑ i, f i = ∑ i ∈ (xs.map name).toFinset, f i := by
    refine (Finset.sum_subset (Finset.subset_univ _) fun i _ hi => hout i ?_).symm
    rwa [List.mem_toFinset] at hi
  rw [hlisted, List.sum_toFinset f hnodup, List.map_map]
  congr 1
  exact List.map_congr_left hin

/-- Amounts that count for some elements only. -/
theorem sum_map_ite {p : α → Prop} [DecidablePred p] {amount : α → ℕ} {xs : List α} :
    (xs.map fun x => if p x then amount x else 0).sum = ((xs.filter p).map amount).sum := by
  induction xs with
  | nil => rfl
  | cons x _ ih =>
    by_cases hx : p x
    · simp [hx, ih]
    · simp [hx, ih]

end Dioptron
