import Dioptron.Framing
import Dioptron.Orchestrator

/-! # Captures

The life of an executed capture: the intent, the dispatch, one producer call, then the
transfer, the publication and the settlement, or a release or an unknown effect on each
path that fails.  With it the orchestrator serves every request.
-/
namespace Dioptron

variable {C : Crypto}

/-- A byte length as a 64-bit count. -/
def lenU64 (bytes : Bytes) : UInt64 := UInt64.ofNat (min bytes.length (2 ^ 64 - 1))

/-- What a call consumed that ran for `elapsed` milliseconds and made one fetch of
`transferred` bytes. -/
def spent (elapsed transferred : UInt64) : Cost where
  wallTimeMs := elapsed
  fetches := 1
  bytesTransferred := transferred
  outputBytes := 0
  tokens := 0
  opsBand := 0

/-- Addition that stays at the largest value. -/
def saturatingAdd (a b : UInt64) : UInt64 := UInt64.ofNat (min (a.toNat + b.toNat) (2 ^ 64 - 1))

/-- Bytes the evidence identity adds to a reply. -/
def sourceLen (source : SourceRef) : UInt64 :=
  saturatingAdd (saturatingAdd (lenU64 source.fingerprint) (lenU64 source.schemaId))
    (lenU64 source.producerRevision)

/-- The release reason for a chain that stopped being usable. -/
def chainStop : DenyCode → ReleaseReason
  | .grantExpired => .expired
  | _ => .revoked

/-- The most bytes a capture's text view may have: what was reserved, and what the reply
frame has room for. -/
def outputCap (call : Call C) (limits : CaptureLimits) (source : SourceRef) : UInt64 :=
  min (limits.maxOutputBytes.getD 0) (saturatingSub call.payloadBudget.toUInt64 (sourceLen source))

/-- What a returned output delivers to the store. -/
def outputTransfer (call : Call C) (limits : CaptureLimits) (output : ProducerOutput)
    (elapsed : UInt64) (revokedAfterEffect : Bool) : Transfer :=
  let cut := cutText (output.textView.map utf8) (outputCap call limits output.source)
  let outputBytes := (cut.1.map lenU64).getD 0
  { envelope := output.envelope
    source := output.source
    textView := cut.1
    truncated := cut.2
    outputBytes := outputBytes
    actual := { spent elapsed (lenU64 output.envelope) with outputBytes := outputBytes }
    revokedAfterEffect := revokedAfterEffect }

/-- The outcome a published transfer is answered with. -/
def Transfer.outcome (transfer : Transfer) (id : InvocationId) : CaptureOutcome :=
  ⟨artifactRef id, transfer.source, transfer.textView, transfer.truncated, transfer.outputBytes,
    transfer.revokedAfterEffect⟩

namespace Orchestrator

open Program

/-- What the first boundary answered. -/
inductive Started
  | persisted (status : InvocationStatus) (limits : CaptureLimits)
  | answered (reply : Reply)

/-! ## Replays -/

/-- The capture outcome a settled invocation published. -/
def captured (status : InvocationStatus) : Orchestrator C (Option CaptureOutcome) := do
  match status.artifact with
  | none => return none
  | some artifact => do
    let info ← store (.artifact artifact)
    return info.map fun info => ⟨info.artifact, info.source, info.textView, info.truncated,
      info.outputBytes, info.revokedAfterEffect⟩

/-- The reply for a replay: the current or terminal outcome of the existing invocation. -/
def replay (status : InvocationStatus) : Orchestrator C Reply := do
  match status.terminal with
  | none => return .of status.id .inProgress
  | some (.settled none) =>
    match ← captured status with
    | some outcome => return .of status.id (.captured outcome)
    | none => return .of status.id (.failed .unknownEffect)
  | some terminal =>
    return .of status.id (.failed (terminal.replyFailure.getD .unknownEffect))

/-- The reply to a replayed capture.  The designated chain is authorized again first. -/
def replayCapture (call : Call C) (status : InvocationStatus) : Orchestrator C Reply := do
  match ← replayRefusal call .capture with
  | some failure => deny call .capture none failure
  | none => replay status

/-! ## The intent -/

def beginCapture (call : Call C) (capture : CaptureRequest) : Orchestrator C Started := do
  match call.key with
  | none => return .answered (.failed .protocolError)
  | some key => do
    let limits ← captureLimits call capture.session capture.limits
    let invocation ← freshInvocation
    let intent : Intent C := ⟨invocation, call.captureAuthz capture limits, key, call.digest⟩
    match ← store (.transact (.begin intent)) with
    | .persisted status => return .persisted status limits
    | .replayed status => do return .answered (← replayCapture call status)
    | .conflict => return .answered (.failed .idempotencyConflict)
    | .refused failure _ => return .answered (.failed failure)

/-! ## Ends of a capture -/

/-- Releases the whole reservation. -/
def release (id : InvocationId) (reason : ReleaseReason) : Orchestrator C Reply := do
  let status : InvocationStatus ← store (.transact (.release id reason))
  let terminal := status.terminal.getD (.released reason)
  return .of id (.failed (terminal.replyFailure.getD .cancelled))

/-- Settles a dispatched call whose producer started and failed. -/
def settleFailed (id : InvocationId) (failure : Failure) (actual : Cost) :
    Orchestrator C Reply := do
  let _ ← store (.transact (.settle id (.failed failure actual)))
  return .of id (.failed failure)

def markUnknownEffect (id : InvocationId) : Orchestrator C Reply := do
  let _ ← store (.transact (.markUnknownEffect id))
  return .of id (.failed .unknownEffect)

/-- The release reason when a call must stop before dispatch. -/
def preDispatch (grant : GrantId) (cancelled : Bool) : Orchestrator C (Option ReleaseReason) := do
  match ← chainRefusal grant with
  | some code => return some (chainStop code)
  | none =>
    if cancelled then
      return some .cancelled
    else if ← perform .pastDeadline then
      return some .deadlineExceeded
    else
      return none

/-- Why a dispatched call stopped, checked after the producer returned. -/
def stopReason (grant : GrantId) : Orchestrator C ReleaseReason := do
  match ← chainRefusal grant with
  | some code => return chainStop code
  | none => if ← perform .pastDeadline then return .deadlineExceeded else return .cancelled

/-- Stores, publishes and settles a returned output. -/
def publish (call : Call C) (limits : CaptureLimits) (id : InvocationId) (output : ProducerOutput)
    (elapsed : UInt64) : Orchestrator C Reply := do
  let revokedAfterEffect := (← chainRefusal call.grant).isSome
  let transfer := outputTransfer call limits output elapsed revokedAfterEffect
  let _ ← store (.transact (.completeTransfer id transfer))
  let _ ← store (.transact (.publish id))
  let _ ← store (.transact (.settle id .success))
  return .of id (.captured (transfer.outcome id))

/-- The producer returned output. -/
def finish (call : Call C) (limits : CaptureLimits) (id : InvocationId) (output : ProducerOutput)
    (elapsed : UInt64) : Orchestrator C Reply :=
  if limits.maxTransferBytes.getD 0 < lenU64 output.envelope then
    -- The source passes zero here although the length is at hand.
    settleFailed id (.transferFailed .tooLarge) (spent elapsed 0)
  else
    publish call limits id output elapsed

/-- The producer returned a failure: release when it proves no effect, settle otherwise. -/
def fail (grant : GrantId) (id : InvocationId) (elapsed : UInt64) :
    ProducerError → Orchestrator C Reply
  | .unavailable false => release id .producerUnavailable
  | .cancelled false => do release id (← stopReason grant)
  | .transfer cls => settleFailed id (.transferFailed cls) (spent elapsed 0)
  | .extraction cls => settleFailed id (.extractionFailed cls) (spent elapsed 0)
  | .unavailable true => markUnknownEffect id
  | .cancelled true => do
    let failure : Failure := if ← perform .pastDeadline then .deadlineExceeded else .cancelled
    settleFailed id failure (spent elapsed 0)

/-- The intent is persisted: check again, dispatch, call the producer and finish. -/
def runInvocation (call : Call C) (capture : CaptureRequest) (limits : CaptureLimits)
    (id : InvocationId) : Orchestrator C Reply := do
  let cancelled ← perform .isCancelled
  match ← preDispatch call.grant cancelled with
  | some reason => release id reason
  | none => do
    let _ ← store (.transact (.dispatch id))
    let produced ← perform (.produce ⟨id, capture.target, limits, capture.egressPolicy⟩)
    let elapsed ← perform .elapsedMs
    match produced with
    | .output output => finish call limits id output elapsed
    | .error error => fail call.grant id elapsed error
    | .abandoned => markUnknownEffect id

/-- Resolves an invocation one of whose steps failed inside the daemon. -/
def afterError (id : InvocationId) : Orchestrator C Reply := do
  match ← store (.invocation id) with
  | none => return .failed .unknownEffect
  | some status => do
    let status : InvocationStatus ←
      match status.state with
      | .intentPersisted => store (.transact (.release id .abandoned))
      | .dispatched => store (.transact (.markUnknownEffect id))
      | _ => pure status
    match status.terminal with
    | some _ => replay status
    | none => return .of id (.failed .unknownEffect)

/-- Runs store work; a failure inside the daemon becomes its reply. -/
def runBlocking (x : Orchestrator C Reply) : Orchestrator C Reply := do
  match ← x.attempt with
  | .ok reply => return reply
  | .error _ => return .internal

/-- Runs one executed capture to its reply. -/
def capture (call : Call C) (capture : CaptureRequest) : Orchestrator C Reply := do
  match ← (beginCapture call capture).attempt with
  | .error _ => return .internal
  | .ok (.answered reply) => return reply
  | .ok (.persisted status limits) => do
    perform (.register status.id status.grantChain)
    let result ← (runInvocation call capture limits status.id).attempt
    perform (.deregister status.id)
    match result with
    | .ok reply => return reply
    | .error _ => runBlocking (afterError status.id)

/-! ## Every request -/

/-- An executed call other than a capture. -/
def execute (call : Call C) : RequestBody → Orchestrator C Reply
  | .sessionCreate => sessionCreate call
  | .sessionFork parent => sessionFork call parent
  | .grantIssue request => grantIssue call request
  | .grantRevoke target => grantRevoke call target
  | .read request => read call request
  | .query request => query call request
  | .auditQuery request => auditQuery call request
  | .ingest _ => ingest call
  | .capture _ => return .failed .protocolError

/-- Runs one request to its reply. -/
def handle (call : Call C) : Mode → RequestBody → Orchestrator C Reply
  | .dryRun, body => runBlocking (plan call body)
  | .execute, .capture request => capture call request
  | .execute, body => runBlocking (execute call body)

end Orchestrator

/-! ## From a request to a call -/

/-- What makes two requests the same call: everything but the request id and the
deadline. -/
def Request.normalized (request : Request) : Request :=
  { request with requestId := 0, deadlineMs := 0 }

/-- The digest of a request, when it can be serialized. -/
def requestDigest (A : Archives) (request : Request) : Except WireError C.Block := do
  let encoded ← A.encode ⟨.request, request.normalized⟩
  return C.sha256 (Str.ofBytes (ascii "dioptron-request-v1") ++ Str.ofBytes encoded)

/-- A key as it came over the wire. -/
def IdempotencyKey.ofBytes (bytes : Bytes) : Option IdempotencyKey :=
  if h : 16 ≤ bytes.length ∧ bytes.length ≤ 64 then some ⟨bytes, h.1, h.2⟩ else none

/-- The facts of a request on a connection. -/
def Call.new (A : Archives) (tenant : TenantId) (maxFrame : UInt32) (request : Request) :
    Except WireError (Call C) := do
  return {
    tenant := tenant
    grant := request.grant
    key := request.idempotencyKey.bind IdempotencyKey.ofBytes
    digest := ← requestDigest A request
    deadlineMs := min request.deadlineMs maxDeadlineMs
    maxFrame := maxFrame }

end Dioptron
