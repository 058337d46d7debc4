import Dioptron.Messages

/-! # Calls and the limits a capture declares

A call is what every handler uses of a request and its connection.  A limit the caller of
a capture sets is kept, lowered to the daemon's cap; one it omits becomes the smallest
remaining ceiling among the ledgers the caller owns, lowered to the same cap.
-/
namespace Dioptron

/-- The longest deadline a request may declare, in milliseconds. -/
def maxDeadlineMs : UInt32 := 120000

/-- Bytes reserved in a response frame for everything but its variable payload. -/
def frameOverhead : UInt32 := 1024

/-- The request facts every handler uses. -/
structure Call (C : Crypto) where
  tenant : TenantId
  grant : GrantId
  key : Option IdempotencyKey
  digest : C.Block
  deadlineMs : UInt32
  maxFrame : UInt32

/-- The payload bytes a response may carry beyond its fixed fields. -/
def payloadBudget (maxFrame : UInt32) : UInt32 :=
  if frameOverhead ≤ maxFrame then maxFrame - frameOverhead else 0

def Call.payloadBudget {C : Crypto} (call : Call C) : UInt32 := Dioptron.payloadBudget call.maxFrame

/-- The daemon's transfer cap. -/
def maxTransferBytes : UInt64 := UInt64.ofNat maxPlaintextLen

/-- The declared maximum cost of a capture under limits that are both set. -/
def captureCost (limits : CaptureLimits) (deadlineMs : UInt32) : Cost where
  wallTimeMs := deadlineMs.toUInt64
  fetches := 1
  bytesTransferred := limits.maxTransferBytes.getD 0
  outputBytes := limits.maxOutputBytes.getD 0
  tokens := 0
  opsBand := 0

/-- One dimension's declared limit: the caller's, else its own ledgers' remaining ceiling,
else the cap; never above the cap. -/
def declaredLimit (requested remaining : Option UInt64) (cap : UInt64) : UInt64 :=
  min ((requested.or remaining).getD cap) cap

section Limits
variable {C : Crypto}

/-- The remaining ceilings across the caller's own ledgers.  A grant that cannot authorize a
capture yields none. -/
def Call.ownRemaining (call : Call C) (view : Snapshot) (now : Timestamp) (session : SessionId) :
    Except AuthzError Ceilings := do
  match ← designatedChain view call.tenant call.grant .capture now with
  | .error _ => return PerDimension.from_ fun _ => none
  | .ok chain => callerRemaining view call.tenant chain (some session)

/-- The limits a call captures under, both set. -/
def Call.captureLimits (call : Call C) (view : Snapshot) (now : Timestamp) (session : SessionId)
    (requested : CaptureLimits) : Except AuthzError CaptureLimits := do
  let remaining ← call.ownRemaining view now session
  return {
    maxOutputBytes := some (declaredLimit requested.maxOutputBytes remaining.outputBytes
      call.payloadBudget.toUInt64)
    maxTransferBytes := some (declaredLimit requested.maxTransferBytes remaining.bytesTransferred
      maxTransferBytes) }

/-- The authorization request of a call. -/
def Call.authz (call : Call C) (capability : Capability) (target : Option Bytes)
    (session : Option SessionId) (declared : Cost) : AuthzRequest :=
  ⟨call.tenant, call.grant, capability, target, session, declared⟩

/-- The authorization request of a capture under its declared limits. -/
def Call.captureAuthz (call : Call C) (capture : CaptureRequest) (limits : CaptureLimits) :
    AuthzRequest :=
  call.authz .capture (some capture.target) (some capture.session)
    (captureCost limits call.deadlineMs)

end Limits
end Dioptron
