import Dioptron.Outcomes
import Dioptron.Vocabulary

/-! # The invocation lifecycle

The transition table of an invocation, the recovery action for each state found
after a restart, and the faults a decision can raise.  A refusal is a decision
and not a fault; every caller of a faulting decision fails closed.
-/
namespace Dioptron

/-- One step an invocation may take. -/
inductive Step
  | deny
  | persistIntent
  | dispatch
  | completeTransfer
  | publish
  | settle
  | release (reason : ReleaseReason)
  | markUnknownEffect
  deriving DecidableEq, Repr

/-- How a settled reservation moves every ledger it debited. -/
structure Settlement where
  debit : Cost
  release : Cost
  deriving DecidableEq, Repr

/-- Faults raised while deciding.  A failed read of the underlying view keeps no
description here, because no decision looks at it. -/
inductive AuthzError
  | view
  | chainBroken (grant : GrantId)
  | chainMalformed (grant : GrantId)
  | tenantLineage (tenant : TenantId)
  | originSyntax (reason : String)
  | ledgerOverflow (dimension : Dimension)
  | ledgerUnderflow (dimension : Dimension)
  | settleOverrun (dimension : Dimension) (reserved actual : UInt64) (settlement : Settlement)
  | sessionNotApplicable (capability : Capability)
  | illegalTransition (source : InvocationState) (step : Step)
  deriving DecidableEq, Repr

/-- The state `step` leads to, when the table lists it. -/
def stepTarget : InvocationState → Step → Option InvocationState
  | .planned, .deny => some .denied
  | .planned, .persistIntent => some .intentPersisted
  | .intentPersisted, .dispatch => some .dispatched
  | .intentPersisted, .release .abandoned
  | .intentPersisted, .release .revoked
  | .intentPersisted, .release .expired
  | .intentPersisted, .release .cancelled
  | .intentPersisted, .release .deadlineExceeded => some .released
  | .dispatched, .release .revoked
  | .dispatched, .release .expired
  | .dispatched, .release .cancelled
  | .dispatched, .release .deadlineExceeded
  | .dispatched, .release .producerUnavailable => some .released
  | .dispatched, .completeTransfer => some .transferComplete
  | .dispatched, .settle => some .settled
  | .published, .settle => some .settled
  | .dispatched, .markUnknownEffect => some .unknownEffect
  | .transferComplete, .publish => some .published
  | _, _ => none

/-- The state `step` leads to from `source`; every step the table does not list is
an illegal transition. -/
def nextState (source : InvocationState) (step : Step) : Except AuthzError InvocationState :=
  match stepTarget source step with
  | some target => .ok target
  | none => .error (.illegalTransition source step)

theorem nextState_eq_ok {source target : InvocationState} {step : Step} :
    nextState source step = .ok target ↔ stepTarget source step = some target := by
  unfold nextState
  cases stepTarget source step <;> simp

/-- How far along its life a state is; every terminal state is last. -/
def InvocationState.rank : InvocationState → Nat
  | planned => 0
  | intentPersisted => 1
  | dispatched => 2
  | transferComplete => 3
  | published => 4
  | denied | settled | released | unknownEffect => 5

/-- **Every step moves forward.** -/
theorem stepTarget_rank_lt {source target : InvocationState} {step : Step}
    (h : stepTarget source step = some target) : source.rank < target.rank := by
  unfold stepTarget at h
  split at h <;> cases h <;> decide

theorem isTerminal_iff_rank (s : InvocationState) : s.isTerminal = true ↔ s.rank = 5 := by
  cases s <;> decide

/-- No step leaves a terminal state. -/
theorem stepTarget_terminal {source : InvocationState} (h : source.isTerminal = true)
    (step : Step) : stepTarget source step = none := by
  cases htarget : stepTarget source step with
  | none => rfl
  | some target =>
    have hlt := stepTarget_rank_lt htarget
    have hle : target.rank ≤ 5 := by cases target <;> decide
    rw [(isTerminal_iff_rank source).mp h] at hlt
    omega

/-- Where each step starts and ends. -/
theorem stepTarget_dispatch {source target : InvocationState}
    (h : stepTarget source .dispatch = some target) :
    source = .intentPersisted ∧ target = .dispatched := by
  cases source <;> simp_all [stepTarget]

theorem stepTarget_completeTransfer {source target : InvocationState}
    (h : stepTarget source .completeTransfer = some target) :
    source = .dispatched ∧ target = .transferComplete := by
  cases source <;> simp_all [stepTarget]

theorem stepTarget_publish {source target : InvocationState}
    (h : stepTarget source .publish = some target) :
    source = .transferComplete ∧ target = .published := by
  cases source <;> simp_all [stepTarget]

theorem stepTarget_settle {source target : InvocationState}
    (h : stepTarget source .settle = some target) :
    (source = .dispatched ∨ source = .published) ∧ target = .settled := by
  cases source <;> simp_all [stepTarget]

theorem stepTarget_release {source target : InvocationState} {reason : ReleaseReason}
    (h : stepTarget source (.release reason) = some target) :
    (source = .intentPersisted ∨ source = .dispatched) ∧ target = .released := by
  cases source <;> cases reason <;> simp_all [stepTarget]

theorem stepTarget_markUnknownEffect {source target : InvocationState}
    (h : stepTarget source .markUnknownEffect = some target) :
    source = .dispatched ∧ target = .unknownEffect := by
  cases source <;> simp_all [stepTarget]

/-- What restart recovery does with an invocation found in a state. -/
inductive RecoveryAction
  | releaseAbandoned
  | markUnknownEffect
  | rollForwardPublish
  | rollForwardSettle
  deriving DecidableEq, Repr

/-- The recovery action for an invocation found in a state after a restart. -/
def recoveryAction : InvocationState → Option RecoveryAction
  | .intentPersisted => some .releaseAbandoned
  | .dispatched => some .markUnknownEffect
  | .transferComplete => some .rollForwardPublish
  | .published => some .rollForwardSettle
  | _ => none

end Dioptron
