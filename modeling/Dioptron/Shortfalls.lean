import Dioptron.Decisions

/-! # Shortfalls

What the reservation planner answers, for every list of ledgers: it visits ledgers in
order and the dimensions of each in order, fails on a dimension without a ceiling that
would pass the word size, names the first shortfall of an own ledger, and otherwise says
only that some other ledger falls short.
-/
namespace Dioptron

namespace LedgerState

/-- The ceiling that `ledger` sets on `d` does not cover the declared amount. -/
def Short (ledger : LedgerState) (declared : Cost) (d : Dimension) : Prop :=
  ∃ ceiling ∈ ledger.ceilings.get d,
    ceiling.toNat < (ledger.used.get d).toNat + (declared.get d).toNat

instance (ledger : LedgerState) (declared : Cost) (d : Dimension) :
    Decidable (ledger.Short declared d) :=
  inferInstanceAs (Decidable (∃ ceiling ∈ ledger.ceilings.get d,
    ceiling.toNat < (ledger.used.get d).toNat + (declared.get d).toNat))

/-- `ledger` sets no ceiling on `d`, and the declared amount would pass the word size. -/
def Overflows (ledger : LedgerState) (declared : Cost) (d : Dimension) : Prop :=
  ledger.ceilings.get d = none ∧
    2 ^ 64 ≤ (ledger.used.get d).toNat + (declared.get d).toNat

variable {ledger : LedgerState} {declared : Cost} {d : Dimension}

theorem covers_iff : ledger.Covers declared ↔
    ∀ d, ¬ ledger.Short declared d ∧ ¬ ledger.Overflows declared d := by
  refine forall_congr' fun d => ?_
  unfold Short Overflows
  cases hceiling : ledger.ceilings.get d with
  | none => simp
  | some ceiling =>
    have hlt := ceiling.toNat_lt
    simp only [Option.some.injEq, forall_eq', Option.mem_def, exists_eq_left', not_lt, reduceCtorEq,
      false_and, not_false_eq_true, and_true, and_iff_right_iff_imp]
    omega

end LedgerState

variable {ledger : LedgerState} {declared : Cost} {d : Dimension} {ledgers : List LedgerState}

theorem coversDimension_of_overflows (h : ledger.Overflows declared d) :
    coversDimension ledger declared d = .error (.ledgerOverflow d) := by
  unfold coversDimension
  rw [h.1, checkedAdd_eq_none.mpr h.2]

theorem coversDimension_of_not_overflows (h : ¬ ledger.Overflows declared d) :
    coversDimension ledger declared d = .ok (!decide (ledger.Short declared d)) := by
  unfold coversDimension
  split
  · rename_i hceiling _
    simp [LedgerState.Short, hceiling]
  · rename_i hceiling hsum
    exact absurd ⟨hceiling, checkedAdd_eq_none.mp hsum⟩ h
  · rename_i ceiling total hceiling hsum
    have hshort : ledger.Short declared d ↔ ¬ total ≤ ceiling := by
      simp [LedgerState.Short, hceiling, UInt64.le_iff_toNat_le, checkedAdd_eq_some.mp hsum]
    by_cases hle : total ≤ ceiling
    · rw [decide_eq_true hle, decide_eq_false fun h => hshort.mp h hle]
      rfl
    · rw [decide_eq_false hle, decide_eq_true (hshort.mpr hle)]
      rfl
  · rename_i ceiling hceiling hsum
    have hbig := checkedAdd_eq_none.mp hsum
    have hlt := ceiling.toNat_lt
    have hshort : ledger.Short declared d := ⟨ceiling, hceiling, by omega⟩
    simp [hshort]

/-- A list with a member that passes has a first one. -/
theorem exists_first {T : Type} {P : T → Prop} {xs : List T} (h : ∃ x ∈ xs, P x) :
    ∃ pre x post, xs = pre ++ x :: post ∧ (∀ y ∈ pre, ¬ P y) ∧ P x := by
  induction xs with
  | nil => simp at h
  | cons x rest ih =>
    by_cases hx : P x
    · exact ⟨[], x, rest, rfl, by simp, hx⟩
    · obtain ⟨y, hy, hP⟩ := h
      obtain rfl | hy := List.mem_cons.mp hy
      · exact absurd hP hx
      · obtain ⟨pre, z, post, rfl, hpre, hz⟩ := ih ⟨y, hy, hP⟩
        exact ⟨x :: pre, z, post, rfl, List.forall_mem_cons.mpr ⟨hx, hpre⟩, hz⟩

/-- The visits of the planner, in order. -/
def visits (ledgers : List LedgerState) : List (LedgerState × Dimension) :=
  ledgers.flatMap fun ledger => Dimension.all.map fun d => (ledger, d)

theorem mem_visits {visit : LedgerState × Dimension} :
    visit ∈ visits ledgers ↔ visit.1 ∈ ledgers := by
  obtain ⟨ledger, d⟩ := visit
  simp [visits]

/-- An own ledger falls short at a visit. -/
def ownShort (declared : Cost) (visit : LedgerState × Dimension) : Bool :=
  visit.1.own && decide (visit.1.Short declared visit.2)

/-- Another ledger falls short at a visit. -/
def upstreamShort (declared : Cost) (visit : LedgerState × Dimension) : Bool :=
  !visit.1.own && decide (visit.1.Short declared visit.2)

/-- One turn of the planner's loop at a visit that does not overflow. -/
theorem planDimension_of_not_overflows (h : ¬ ledger.Overflows declared d)
    (acc : Option BudgetRefusal × Bool) :
    planDimension declared ledger acc d =
      .ok (acc.1.or (if ownShort declared (ledger, d) then some (.own ledger.id d) else none),
        acc.2 || upstreamShort declared (ledger, d)) := by
  obtain ⟨own, upstream⟩ := acc
  simp only [planDimension, coversDimension_of_not_overflows h, ownShort, upstreamShort, bind,
    Except.bind, pure, Except.pure]
  by_cases hshort : ledger.Short declared d
  · by_cases hown : ledger.own = true <;> simp [hshort, hown]
  · simp [hshort]

/-- The two nested loops are one loop over the visits. -/
theorem foldlM_visits_eq {T : Type} (f : T → LedgerState × Dimension → Except AuthzError T)
    (ledgers : List LedgerState) (acc : T) :
    ledgers.foldlM (fun acc ledger => Dimension.all.foldlM (fun acc d => f acc (ledger, d)) acc)
      acc = (visits ledgers).foldlM f acc := by
  induction ledgers generalizing acc with
  | nil => rfl
  | cons _ _ ih =>
    rw [List.foldlM_cons, visits, List.flatMap_cons, List.foldlM_append, List.foldlM_map]
    exact bind_congr fun acc => ih acc

/-- A run of the planner's loop over visits that do not overflow keeps the first own
shortfall and remembers whether any other ledger fell short. -/
theorem foldlM_visits {vs : List (LedgerState × Dimension)}
    (hroom : ∀ v ∈ vs, ¬ v.1.Overflows declared v.2) (acc : Option BudgetRefusal × Bool) :
    vs.foldlM (fun acc v => planDimension declared v.1 acc v.2) acc =
      .ok (acc.1.or ((vs.find? (ownShort declared)).map fun v => .own v.1.id v.2),
        acc.2 || vs.any (upstreamShort declared)) := by
  induction vs generalizing acc with
  | nil => simp [pure, Except.pure]
  | cons v _ ih =>
    obtain ⟨hv, hrest⟩ := List.forall_mem_cons.mp hroom
    rw [List.foldlM_cons, planDimension_of_not_overflows hv]
    refine (ih hrest _).trans ?_
    rw [List.find?_cons, List.any_cons, Option.or_assoc, Bool.or_assoc]
    cases ownShort declared v <;> simp

/-- **What the planner answers** when no dimension passes the word size. -/
theorem planReservation_eq (hroom : ∀ ledger ∈ ledgers, ∀ d, ¬ ledger.Overflows declared d) :
    planReservation ledgers declared = .ok
      (match (visits ledgers).find? (ownShort declared) with
      | some v => .exceeded (.own v.1.id v.2)
      | none =>
        if (visits ledgers).any (upstreamShort declared) then .exceeded .upstream
        else .fits ⟨declared, ledgers.map LedgerState.id⟩) := by
  unfold planReservation
  rw [foldlM_visits_eq (fun acc v => planDimension declared v.1 acc v.2),
    foldlM_visits fun v hv => hroom v.1 (mem_visits.mp hv) v.2]
  cases (visits ledgers).find? (ownShort declared) with
  | some => rfl
  | none => cases (visits ledgers).any (upstreamShort declared) <;> rfl

/-- The first visit that overflows ends the planner with that fault, whatever fell short
before it. -/
theorem planReservation_overflow {pre post : List (LedgerState × Dimension)}
    {v : LedgerState × Dimension} (hvisits : visits ledgers = pre ++ v :: post)
    (hpre : ∀ u ∈ pre, ¬ u.1.Overflows declared u.2) (hv : v.1.Overflows declared v.2) :
    planReservation ledgers declared = .error (.ledgerOverflow v.2) := by
  unfold planReservation
  rw [foldlM_visits_eq (fun acc v => planDimension declared v.1 acc v.2), hvisits,
    List.foldlM_append, foldlM_visits hpre]
  simp only [List.foldlM_cons, planDimension, coversDimension_of_overflows hv, bind, Except.bind]

/-- A shortfall the planner names is one of an own ledger. -/
theorem exists_ownShort {id : LedgerId}
    (h : planReservation ledgers declared = .ok (.exceeded (.own id d))) :
    ∃ ledger ∈ ledgers, ledger.own = true ∧ ledger.Short declared d := by
  by_cases hover : ∃ v ∈ visits ledgers, v.1.Overflows declared v.2
  · obtain ⟨pre, v, post, hvisits, hpre, hv⟩ := exists_first hover
    rw [planReservation_overflow hvisits hpre hv] at h
    cases h
  · rw [planReservation_eq fun ledger hledger d hv =>
      hover ⟨(ledger, d), mem_visits.mpr hledger, hv⟩, Except.ok.injEq] at h
    split at h
    · rename_i v hfirst
      cases h
      have hv := List.find?_some hfirst
      simp only [ownShort, Bool.and_eq_true, decide_eq_true_eq] at hv
      exact ⟨v.1, mem_visits.mp (List.mem_of_find?_eq_some hfirst), hv⟩
    · split at h <;> cases h

end Dioptron
