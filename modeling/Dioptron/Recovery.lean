import Dioptron.RootRotation

/-! # Recovery

After a restart every invocation that was left open is driven to a terminal state, one
transaction at a time: an intent is released as abandoned, a dispatched call is marked
as an unknown effect, and a completed transfer is published and settled.
-/
namespace Dioptron

variable {C : Crypto}

structure RecoveryReport where
  released : UInt32
  unknownEffect : UInt32
  published : UInt32
  settled : UInt32
  deriving DecidableEq

namespace RecoveryReport

def empty : RecoveryReport := ⟨0, 0, 0, 0⟩

def isEmpty (r : RecoveryReport) : Bool :=
  r.released = 0 ∧ r.unknownEffect = 0 ∧ r.published = 0 ∧ r.settled = 0

/-- A counter that stays at its largest value. -/
def bump (n : UInt32) : UInt32 := UInt32.ofNat (min (n.toNat + 1) (2 ^ 32 - 1))

def count (r : RecoveryReport) : RecoveryAction → RecoveryReport
  | .releaseAbandoned => { r with released := bump r.released }
  | .markUnknownEffect => { r with unknownEffect := bump r.unknownEffect }
  | .rollForwardPublish => { r with published := bump r.published }
  | .rollForwardSettle => { r with settled := bump r.settled }

end RecoveryReport

namespace Store

/-- The transactions that carry out one recovery action. -/
def recoverOne (s : Store C) (id : InvocationId) : RecoveryAction → Except Error (Store C)
  | .releaseAbandoned => do return (← s.commit (Tx.release id .abandoned)).2
  | .markUnknownEffect => do return (← s.commit (Tx.markUnknownEffect id)).2
  | .rollForwardPublish => do
    let published ← s.commit (Tx.publish id)
    return (← published.2.commit (Tx.settle id .success)).2
  | .rollForwardSettle => do return (← s.commit (Tx.settle id .success)).2

def recoverEach : List (InvocationId × RecoveryAction) → RecoveryReport → Store C →
    Except Error (RecoveryReport × Store C)
  | [], report, s => .ok (report, s)
  | (id, action) :: rest, report, s => do
    recoverEach rest (report.count action) (← s.recoverOne id action)

/-- Every open invocation with what recovery does to it, in key order. -/
def openInvocations (s : Store C) : Except Error (List (InvocationId × RecoveryAction)) := do
  return (← s.openAll InvocationRecord .invocation).filterMap fun r =>
    (recoveryAction r.state).map fun action => (r.id, action)

def recover (s : Store C) : Except Error (RecoveryReport × Store C) := do
  recoverEach (← s.openInvocations) .empty s

end Store
end Dioptron
