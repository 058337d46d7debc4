import Dioptron.Lifecycle

/-! # Reservation and settlement arithmetic

Each dimension is a separate ceiling.  A reservation debits the declared maximum
on every dimension against every ledger the call touches; a settlement keeps the
actual consumption, at most the reservation, and returns the rest.  All of the
arithmetic is checked, and the lemmas read it back over the natural numbers.
-/
namespace Dioptron

/-! ## Checked words -/

def checkedAdd (a b : UInt64) : Option UInt64 :=
  if a.toNat + b.toNat < 2 ^ 64 then some (a + b) else none

def checkedSub (a b : UInt64) : Option UInt64 :=
  if b ≤ a then some (a - b) else none

def saturatingSub (a b : UInt64) : UInt64 :=
  if b ≤ a then a - b else 0

theorem checkedAdd_eq_some {a b c : UInt64} :
    checkedAdd a b = some c ↔ c.toNat = a.toNat + b.toNat := by
  have hc := c.toNat_lt
  unfold checkedAdd
  constructor
  · intro h
    split at h
    · cases h
      rw [UInt64.toNat_add, Nat.mod_eq_of_lt ‹_›]
    · cases h
  · intro h
    rw [if_pos (by omega), Option.some.injEq, ← UInt64.toNat_inj, UInt64.toNat_add,
      Nat.mod_eq_of_lt (by omega), h]

theorem checkedAdd_eq_none {a b : UInt64} : checkedAdd a b = none ↔ 2 ^ 64 ≤ a.toNat + b.toNat := by
  unfold checkedAdd
  split <;> simp <;> omega

theorem checkedSub_eq_some {a b c : UInt64} :
    checkedSub a b = some c ↔ c.toNat + b.toNat = a.toNat := by
  unfold checkedSub
  constructor
  · intro h
    split at h
    · rename_i hle
      cases h
      rw [UInt64.toNat_sub_of_le _ _ hle]
      have := UInt64.le_iff_toNat_le.mp hle
      omega
    · cases h
  · intro h
    have hle : b ≤ a := UInt64.le_iff_toNat_le.mpr (by omega)
    rw [if_pos hle, Option.some.injEq, ← UInt64.toNat_inj, UInt64.toNat_sub_of_le _ _ hle]
    omega

theorem toNat_saturatingSub (a b : UInt64) : (saturatingSub a b).toNat = a.toNat - b.toNat := by
  unfold saturatingSub
  split
  · rw [UInt64.toNat_sub_of_le _ _ ‹_›]
  · rename_i h
    rw [UInt64.le_iff_toNat_le] at h
    simp
    omega

theorem toNat_min (a b : UInt64) : (min a b).toNat = min a.toNat b.toNat := by
  rw [UInt64.min_def]
  split
  · rename_i h
    rw [UInt64.le_iff_toNat_le] at h
    omega
  · rename_i h
    rw [UInt64.le_iff_toNat_le] at h
    omega

/-! ## Ledgers and reservations -/

/-- One budget ledger. -/
inductive LedgerId
  | grant (id : GrantId)
  | session (id : SessionId)
  | tenant (id : TenantId)
  deriving DecidableEq, Repr

/-- One ledger as the planner sees it. -/
structure LedgerState where
  id : LedgerId
  ceilings : Ceilings
  used : Cost
  own : Bool
  deriving DecidableEq, Repr

/-- A reservation that fits: debit `cost` from every ledger, in one transaction. -/
structure ReservationPlan where
  cost : Cost
  ledgers : List LedgerId
  deriving DecidableEq, Repr

inductive BudgetRefusal
  | own (ledger : LedgerId) (dimension : Dimension)
  | upstream
  deriving DecidableEq, Repr

inductive BudgetCheck
  | fits (plan : ReservationPlan)
  | exceeded (refusal : BudgetRefusal)
  deriving DecidableEq, Repr

/-- Whether `ledger` covers `declared` on one dimension. -/
def coversDimension (ledger : LedgerState) (declared : Cost) (d : Dimension) :
    Except AuthzError Bool :=
  match ledger.ceilings.get d, checkedAdd (ledger.used.get d) (declared.get d) with
  | none, some _ => .ok true
  | none, none => .error (.ledgerOverflow d)
  | some ceiling, some total => .ok (decide (total ≤ ceiling))
  | some _, none => .ok false

/-- One turn of the planner's inner loop: the first own refusal is kept, and any
other shortfall is only remembered as upstream. -/
def planDimension (declared : Cost) (ledger : LedgerState)
    (acc : Option BudgetRefusal × Bool) (d : Dimension) :
    Except AuthzError (Option BudgetRefusal × Bool) := do
  if ← coversDimension ledger declared d then
    return acc
  else if ledger.own then
    return (acc.1.or (some (.own ledger.id d)), acc.2)
  else
    return (acc.1, true)

/-- Checks that every ledger covers `declared` on every dimension. -/
def planReservation (ledgers : List LedgerState) (declared : Cost) :
    Except AuthzError BudgetCheck := do
  let acc ← ledgers.foldlM (fun acc ledger =>
    Dimension.all.foldlM (planDimension declared ledger) acc) (none, false)
  return match acc with
  | (some refusal, _) => .exceeded refusal
  | (none, true) => .exceeded .upstream
  | (none, false) => .fits ⟨declared, ledgers.map LedgerState.id⟩

/-- `ledger` covers `declared`: no dimension passes its ceiling or the word size. -/
def LedgerState.Covers (ledger : LedgerState) (declared : Cost) : Prop :=
  ∀ d, (ledger.used.get d).toNat + (declared.get d).toNat < 2 ^ 64 ∧
    ∀ ceiling, ledger.ceilings.get d = some ceiling →
      (ledger.used.get d).toNat + (declared.get d).toNat ≤ ceiling.toNat

variable {declared amount : Cost}

theorem coversDimension_eq_true {ledger : LedgerState} {d : Dimension} :
    coversDimension ledger declared d = .ok true ↔
      (ledger.used.get d).toNat + (declared.get d).toNat < 2 ^ 64 ∧
      ∀ ceiling, ledger.ceilings.get d = some ceiling →
        (ledger.used.get d).toNat + (declared.get d).toNat ≤ ceiling.toNat := by
  unfold coversDimension
  cases hsum : checkedAdd (ledger.used.get d) (declared.get d) with
  | none =>
    have hbig := checkedAdd_eq_none.mp hsum
    cases ledger.ceilings.get d <;> simp <;> omega
  | some total =>
    have htotal := checkedAdd_eq_some.mp hsum
    have hlt := total.toNat_lt
    cases ledger.ceilings.get d with
    | none => simp; omega
    | some =>
      simp only [Except.ok.injEq, decide_eq_true_eq, UInt64.le_iff_toNat_le, htotal,
        Option.some.injEq, forall_eq', iff_and_self]
      omega

/-- A turn of the loop ends with no shortfall exactly when it started so and the
ledger covers that dimension. -/
theorem planDimension_noShortfall {ledger : LedgerState} {acc : Option BudgetRefusal × Bool}
    {d : Dimension} :
    planDimension declared ledger acc d = .ok (none, false) ↔
      acc = (none, false) ∧ coversDimension ledger declared d = .ok true := by
  unfold planDimension
  cases coversDimension ledger declared d with
  | error => simp
  | ok covers =>
    obtain ⟨own, upstream⟩ := acc
    cases covers <;> cases ledger.own <;> cases own <;> simp [pure, Except.pure]

/-- **A plan fits exactly when every ledger covers the declared cost**, and then it
debits that cost from exactly the ledgers it was given. -/
theorem planReservation_fits {ledgers : List LedgerState} {plan : ReservationPlan} :
    planReservation ledgers declared = .ok (.fits plan) ↔
      plan = ⟨declared, ledgers.map LedgerState.id⟩ ∧
        ∀ ledger ∈ ledgers, ledger.Covers declared := by
  have hledger (acc : Option BudgetRefusal × Bool) (ledger : LedgerState) :
      Dimension.all.foldlM (planDimension declared ledger) acc = .ok (none, false) ↔
        acc = (none, false) ∧ ledger.Covers declared := by
    rw [foldlM_clean (f := planDimension declared ledger) fun _ _ => planDimension_noShortfall]
    simp only [Dimension.mem_all, forall_const, LedgerState.Covers, coversDimension_eq_true]
  have hfold := foldlM_clean hledger ledgers (none, false)
  unfold planReservation
  rw [bind_eq_ok]
  constructor
  · rintro ⟨⟨own, upstream⟩, hacc, hplan⟩
    cases own <;> cases upstream <;> simp only [pure, Except.pure, Except.ok.injEq,
      BudgetCheck.fits.injEq, reduceCtorEq] at hplan
    exact ⟨hplan.symm, (hfold.mp hacc).2⟩
  · rintro ⟨rfl, hall⟩
    exact ⟨(none, false), hfold.mpr ⟨rfl, hall⟩, rfl⟩

/-- The smallest remaining ceiling on each dimension among the caller's own
ledgers; no ceiling where none of them sets one. -/
def ownRemaining (ledgers : List LedgerState) : Ceilings :=
  PerDimension.from_ fun d =>
    ((ledgers.filter LedgerState.own).filterMap fun ledger =>
      (ledger.ceilings.get d).map fun ceiling => saturatingSub ceiling (ledger.used.get d)).min?

/-! ## Settlement -/

/-- The settlement `settle` computes before it looks for an overrun. -/
def clampedSettlement (reserved actual : Cost) : Settlement :=
  let debit := PerDimension.from_ fun d => min (reserved.get d) (actual.get d)
  ⟨debit, PerDimension.from_ fun d => saturatingSub (reserved.get d) (debit.get d)⟩

/-- Settles `reserved` against the `actual` consumption.  An overrun is an error
that carries the clamped settlement, which the caller still applies. -/
def settle (reserved actual : Cost) : Except AuthzError Settlement :=
  match Dimension.all.find? fun d => decide (reserved.get d < actual.get d) with
  | some d =>
    .error (.settleOverrun d (reserved.get d) (actual.get d) (clampedSettlement reserved actual))
  | none => .ok (clampedSettlement reserved actual)

/-- The settlement of an unknown effect: everything is charged. -/
def unknownEffectSettlement (reserved : Cost) : Settlement := ⟨reserved, Cost.zero⟩

/-- A ledger's `used` after reserving `amount`. -/
def reserve (used amount : Cost) : Except AuthzError Cost :=
  PerDimension.tryFrom fun d =>
    match checkedAdd (used.get d) (amount.get d) with
    | some total => .ok total
    | none => .error (.ledgerOverflow d)

/-- A ledger's `used` after releasing `amount`. -/
def release (used amount : Cost) : Except AuthzError Cost :=
  PerDimension.tryFrom fun d =>
    match checkedSub (used.get d) (amount.get d) with
    | some rest => .ok rest
    | none => .error (.ledgerUnderflow d)

/-- A settlement splits a reservation when what it keeps and what it returns add
up to the reservation on every dimension. -/
def Settlement.Splits (s : Settlement) (reserved : Cost) : Prop :=
  ∀ d, (s.debit.get d).toNat + (s.release.get d).toNat = (reserved.get d).toNat

theorem clampedSettlement_splits (reserved actual : Cost) :
    (clampedSettlement reserved actual).Splits reserved := by
  intro d
  simp only [clampedSettlement, PerDimension.get_from, toNat_saturatingSub, toNat_min]
  omega

theorem unknownEffectSettlement_splits (reserved : Cost) :
    (unknownEffectSettlement reserved).Splits reserved := by
  intro d
  simp [unknownEffectSettlement]

theorem reserve_eq_ok {used total : Cost} :
    reserve used amount = .ok total ↔
      ∀ d, (total.get d).toNat = (used.get d).toNat + (amount.get d).toNat := by
  unfold reserve
  rw [PerDimension.tryFrom_eq_ok]
  refine forall_congr' fun d => ?_
  rw [← checkedAdd_eq_some]
  cases checkedAdd (used.get d) (amount.get d) <;> simp

theorem release_eq_ok {used rest : Cost} :
    release used amount = .ok rest ↔
      ∀ d, (rest.get d).toNat + (amount.get d).toNat = (used.get d).toNat := by
  unfold release
  rw [PerDimension.tryFrom_eq_ok]
  refine forall_congr' fun d => ?_
  rw [← checkedSub_eq_some]
  cases checkedSub (used.get d) (amount.get d) <;> simp

/-- Reserving succeeds whenever no dimension passes the word size. -/
theorem exists_reserve {used : Cost} (h : ∀ d, (used.get d).toNat + (amount.get d).toNat < 2 ^ 64) :
    ∃ total, reserve used amount = .ok total := by
  refine ⟨PerDimension.from_ fun d => used.get d + amount.get d, reserve_eq_ok.mpr fun d => ?_⟩
  rw [PerDimension.get_from, UInt64.toNat_add, Nat.mod_eq_of_lt (h d)]

/-- Releasing succeeds whenever no dimension goes below zero. -/
theorem exists_release {used : Cost} (h : ∀ d, (amount.get d).toNat ≤ (used.get d).toNat) :
    ∃ rest, release used amount = .ok rest := by
  refine ⟨PerDimension.from_ fun d => used.get d - amount.get d, release_eq_ok.mpr fun d => ?_⟩
  rw [PerDimension.get_from, UInt64.toNat_sub_of_le _ _ (UInt64.le_iff_toNat_le.mpr (h d))]
  have := h d
  omega

end Dioptron
