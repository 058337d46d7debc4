import Dioptron.Calls
import Dioptron.TextViews
import Dioptron.Threads
import Dioptron.Writes

/-! # The orchestrator

How the daemon runs an admitted request over the custody store.  A handler is a program
over single accesses to the store, the clock, the random source, the running set and the
producer; between two of them other requests may run.  An access that fails ends the
handler, and the caller is then told that the effect is unknown.
-/
namespace Dioptron

variable {C : Crypto}

/-! ## The producer seam -/

/-- What a producer returns for a completed acquisition. -/
structure ProducerOutput where
  envelope : Bytes
  schemaId : Bytes
  producerRevision : Bytes
  fingerprint : Bytes
  textView : Option (List Char)

/-- The evidence identity the reply and the side record carry. -/
def ProducerOutput.source (output : ProducerOutput) : SourceRef :=
  ⟨output.fingerprint, output.schemaId, output.producerRevision⟩

/-- Why a producer returned no output. -/
inductive ProducerError
  | unavailable (contacted : Bool)
  | transfer (cls : TransferClass)
  | extraction (cls : ExtractionClass)
  | cancelled (effectStarted : Bool)
  deriving DecidableEq

/-- One acquisition asked of the producer. -/
structure AcquireRequest where
  invocation : InvocationId
  target : Bytes
  limits : CaptureLimits
  egressPolicy : Option Bytes

/-- How a producer call ended. -/
inductive Produced
  | output (output : ProducerOutput)
  | error (error : ProducerError)
  | abandoned

/-! ## Accesses -/

/-- One access of a handler to the world. -/
inductive Act (C : Crypto) : Type → Type
  | snapshot : Act C Snapshot
  | now : Act C Timestamp
  /-- Nothing when the random source fails. -/
  | freshInvocation : Act C (Option InvocationId)
  | transact (t : Transaction C) : Act C (Except Error t.Reply)
  | claim (claim : IdemClaim C) : Act C (Except Error Claimed)
  | claimed (claim : IdemClaim C) : Act C (Except Error (Option Claimed))
  | invocation (id : InvocationId) : Act C (Except Error (Option InvocationStatus))
  | artifact (id : ArtifactRef) : Act C (Except Error (Option ArtifactInfo))
  | readArtifact (id : ArtifactRef) (offset : UInt64) (len : UInt32) :
      Act C (Except Error (Option ReadChunk))
  | sessionArtifacts (session : SessionId) (after : Option ArtifactRef) (limit : UInt32) :
      Act C (Except Error (Option QueryPage))
  | auditQuery (query : AuditQuery) : Act C (Except Error (List AuditEvent))
  /-- Whether the caller has cancelled the request. -/
  | isCancelled : Act C Bool
  /-- Whether the request's deadline has passed. -/
  | pastDeadline : Act C Bool
  /-- Milliseconds since the call started. -/
  | elapsedMs : Act C UInt64
  | register (invocation : InvocationId) (chain : List GrantId) : Act C Unit
  | deregister (invocation : InvocationId) : Act C Unit
  /-- Cancels the running invocations whose chain contains the grant. -/
  | cancelRevoked (revoked : GrantId) : Act C Unit
  /-- Calls the producer and waits for it, at most for its grace past the deadline. -/
  | produce (request : AcquireRequest) : Act C Produced

/-- A failure inside the daemon. -/
inductive CallError
  | store (e : Error)
  | authz (e : AuthzError)
  | randomSource

/-- A response without its request id. -/
structure Reply where
  invocation : Option InvocationId
  body : ResponseBody
  deriving DecidableEq

/-- A failure that names no invocation. -/
def Reply.failed (failure : Failure) : Reply := ⟨none, .failed failure⟩

/-- A reply for a persisted invocation. -/
def Reply.of (invocation : InvocationId) (body : ResponseBody) : Reply := ⟨some invocation, body⟩

/-- The reply for a failure inside the daemon. -/
def Reply.internal : Reply := .failed .unknownEffect

/-- The dry-run plan of a call. -/
def planCall (view : Snapshot) (request : AuthzRequest) (now : Timestamp) :
    Except AuthzError Plan := do
  let decision ← authorize view request now
  let grantChain :=
    match decision with
    | .allowed chain _ => chain
    | _ => []
  return ⟨request.capability, request.declared, grantChain, [], decision.refusal⟩

/-- The scope an audit read is answered with. -/
def appliedAuditScope (requested granted : AuditScope) : AuditScope :=
  if auditScopeWithin requested granted then requested else granted

/-- The programs of the orchestrator. -/
abbrev Orchestrator (C : Crypto) := Program (Act C) CallError

namespace Orchestrator

open Program

/-! ## What every handler uses -/

/-- A store access whose failure ends the handler. -/
def store {α : Type} (p : Act C (Except Error α)) : Orchestrator C α := do
  ofExcept ((← perform p).mapError CallError.store)

/-- A decision of the authorization layer, whose failure ends the handler. -/
def authz {α : Type} (x : Except AuthzError α) : Orchestrator C α :=
  ofExcept (x.mapError CallError.authz)

def freshInvocation : Orchestrator C InvocationId := do
  expect (← perform .freshInvocation) .randomSource

/-- The dry-run decision over a fresh snapshot. -/
def decide (request : AuthzRequest) : Orchestrator C Plan := do
  let view ← perform .snapshot
  let now ← perform .now
  ofExcept ((planCall view request now).mapError fun e => .store (.authz e))

/-- Commits the audit entry of a refused call and answers it. -/
def deny (call : Call C) (capability : Capability) (session : Option SessionId)
    (failure : Failure) : Orchestrator C Reply := do
  let invocation ← freshInvocation
  let _ ← store (.transact (.recordAudit
    { tenant := call.tenant, invocation := invocation, capability := capability,
      session := session, outcome := .refused failure, grant := some call.grant,
      auditScope := none }))
  return .failed failure

/-- The refusal a replay gets, or nothing while its designated chain still authorizes the
capability. -/
def replayRefusal (call : Call C) (capability : Capability) :
    Orchestrator C (Option Failure) := do
  let view ← perform .snapshot
  let now ← perform .now
  match ← authz (designatedChain view call.tenant call.grant capability now) with
  | .ok _ => return none
  | .error refusal => return some (refusal.refusal.getD .notFoundOrDenied)

/-- Why the chain of a grant is not usable now, or nothing when it is. -/
def chainRefusal (grant : GrantId) : Orchestrator C (Option DenyCode) := do
  let view ← perform .snapshot
  match ← authz (view.grant grant) with
  | none => return some .grantRevoked
  | some leaf => do
    let now ← perform .now
    match ← authz (checkChain view leaf now) with
    | .valid _ => return none
    | .invalid code _ => return some code

/-- The limits a call captures under in a session. -/
def captureLimits (call : Call C) (session : SessionId) (requested : CaptureLimits) :
    Orchestrator C CaptureLimits := do
  let view ← perform .snapshot
  let now ← perform .now
  authz (call.captureLimits view now session requested)

/-! ## Session and grant calls -/

/-- What an idempotency key already names. -/
inductive Prior
  | unbound
  | replay (invocation : InvocationId)

def claimOf (call : Call C) (capability : Capability) (key : IdempotencyKey)
    (invocation : InvocationId) : IdemClaim C :=
  ⟨call.tenant, call.grant, capability, key, call.digest, invocation⟩

/-- The key's binding, or the conflict reply. -/
def prior (call : Call C) (capability : Capability) (key : IdempotencyKey) :
    Orchestrator C (Except Reply Prior) := do
  match ← store (.claimed (claimOf call capability key ⟨0⟩)) with
  | none => return .ok .unbound
  | some (.replay invocation) => return .ok (.replay invocation)
  | some _ => return .error (.failed .idempotencyConflict)

/-- Binds the key and returns the invocation it names, or the conflict reply. -/
def bind (call : Call C) (capability : Capability) (key : IdempotencyKey) :
    Orchestrator C (Except Reply InvocationId) := do
  let fresh ← freshInvocation
  match ← store (.claim (claimOf call capability key fresh)) with
  | .fresh invocation | .replay invocation => return .ok invocation
  | .conflict => return .error (.failed .idempotencyConflict)

/-- The session a replayed call already opened, if it is stored. -/
def storedSession (call : Call C) (invocation : InvocationId) (parent : Option SessionId) :
    Orchestrator C (Option Reply) := do
  let session : SessionId := invocation.cast
  let view ← perform .snapshot
  let owner ← authz (view.sessionOwner session)
  if owner = some call.tenant then
    return some (.of invocation (.sessionOpened ⟨session, call.tenant, parent⟩))
  else
    return none

def writeSession (new : NewSession) : Option SessionId → Orchestrator C (Option SessionOpened)
  | none => do return some (← store (.transact (.createSession new)))
  | some parent => store (.transact (.forkSession new parent))

/-- Steps two and three of a session call: authorize it, bind its key and write. -/
def openNewSession (call : Call C) (capability : Capability) (key : IdempotencyKey)
    (parent : Option SessionId) : Orchestrator C Reply := do
  match (← decide (call.authz capability none parent Cost.zero)).refusal with
  | some failure => deny call capability parent failure
  | none =>
    match ← bind call capability key with
    | .error reply => return reply
    | .ok invocation => do
      let new : NewSession := ⟨invocation.cast, call.tenant, .default, invocation⟩
      match ← writeSession new parent with
      | none => return .failed .notFoundOrDenied
      | some opened => return .of invocation (.sessionOpened opened)

def openSession (call : Call C) (parent : Option SessionId) : Orchestrator C Reply := do
  let capability : Capability := if parent.isSome then .sessionFork else .sessionCreate
  match call.key with
  | none => return .failed .protocolError
  | some key =>
    match ← prior call capability key with
    | .error reply => return reply
    | .ok .unbound => openNewSession call capability key parent
    | .ok (.replay invocation) =>
      match ← replayRefusal call capability with
      | some failure => deny call capability parent failure
      | none =>
        match ← storedSession call invocation parent with
        | some reply => return reply
        | none => openNewSession call capability key parent

def sessionCreate (call : Call C) : Orchestrator C Reply := openSession call none

def sessionFork (call : Call C) (parent : SessionId) : Orchestrator C Reply :=
  openSession call (some parent)

def issued (invocation : InvocationId) (grant parentGrant : GrantId) : Reply :=
  .of invocation (.grantIssued grant parentGrant)

/-- The refusal an issue under the designated grant would get. -/
def issueRefusal (call : Call C) (request : GrantIssueRequest) (child : GrantId) :
    Orchestrator C (Option Failure) := do
  let view ← perform .snapshot
  let now ← perform .now
  return (← authz (checkIssue view ⟨call.tenant, call.grant, child⟩ request now)).refusal

def issueNewGrant (call : Call C) (key : IdempotencyKey) (request : GrantIssueRequest) :
    Orchestrator C Reply := do
  match ← issueRefusal call request ⟨0⟩ with
  | some failure => deny call .grantIssue none failure
  | none =>
    match ← bind call .grantIssue key with
    | .error reply => return reply
    | .ok invocation => do
      let context : IssueContext := ⟨call.tenant, call.grant, invocation.cast⟩
      match ← store (.transact (.issueGrant ⟨context, request, invocation⟩)) with
      | .issued grant parent => return issued invocation grant parent
      | .refused failure => return .failed failure

def grantIssue (call : Call C) (request : GrantIssueRequest) : Orchestrator C Reply := do
  match call.key with
  | none => return .failed .protocolError
  | some key =>
    match ← prior call .grantIssue key with
    | .error reply => return reply
    | .ok .unbound => issueNewGrant call key request
    | .ok (.replay invocation) =>
      match ← replayRefusal call .grantIssue with
      | some failure => deny call .grantIssue none failure
      | none => do
        let child : GrantId := invocation.cast
        let view ← perform .snapshot
        match ← authz (view.grant child) with
        | some _ => return issued invocation child call.grant
        | none => issueNewGrant call key request

def revoked (invocation : InvocationId) (record : Revocation) : Reply :=
  .of invocation (.grantRevoked ⟨record.grant, record.atSeq, record.atTime⟩)

/-- The revocation decision of a target under the designated grant. -/
def revokeDecision (call : Call C) (target : GrantId) : Orchestrator C RevokeDecision := do
  let view ← perform .snapshot
  let now ← perform .now
  authz (checkRevoke view call.tenant call.grant target now)

def revokeNewGrant (call : Call C) (key : IdempotencyKey) (target : GrantId) :
    Orchestrator C Reply := do
  let decision ← revokeDecision call target
  match decision.refusal with
  | some failure => deny call .grantRevoke none failure
  | none =>
    match ← bind call .grantRevoke key with
    | .error reply => return reply
    | .ok invocation => do
      let record ←
        match decision with
        | .alreadyRevoked record => pure (some record)
        | _ => store (.transact (.revokeGrant ⟨call.tenant, target, invocation⟩))
      match record with
      | none => return .failed .notFoundOrDenied
      | some record => do
        perform (.cancelRevoked target)
        return revoked invocation record

def grantRevoke (call : Call C) (target : GrantId) : Orchestrator C Reply := do
  match call.key with
  | none => return .failed .protocolError
  | some key =>
    match ← prior call .grantRevoke key with
    | .error reply => return reply
    | .ok .unbound => revokeNewGrant call key target
    | .ok (.replay invocation) =>
      match ← replayRefusal call .grantRevoke with
      | some failure => deny call .grantRevoke none failure
      | none => do
        let view ← perform .snapshot
        match ← authz (view.revocation target) with
        | some record => return revoked invocation record
        | none => revokeNewGrant call key target

/-! ## Reads -/

/-- Encoded bytes one query result takes in a reply. -/
def queryRefBytes : UInt32 := 32

/-- Encoded bytes one audit record takes in a reply. -/
def auditRecordBytes : UInt32 := 160

/-- The decision for a call on an artifact, whose session is the one checked.  A missing
artifact is answered as a foreign one is. -/
def artifactPlan (call : Call C) (capability : Capability) (artifact : ArtifactRef) :
    Orchestrator C Plan := do
  let info ← store (.artifact artifact)
  let session := info.bind ArtifactInfo.session
  let plan ← decide (call.authz capability none session Cost.zero)
  if session.isNone ∧ plan.refusal = some (.deniedFor .sessionRequired) then
    return { plan with refusal := some .notFoundOrDenied }
  else
    return plan

def read (call : Call C) (request : ReadRequest) : Orchestrator C Reply := do
  match (← artifactPlan call .read request.artifactRef).refusal with
  | some failure => deny call .read none failure
  | none => do
    let len := min request.len call.payloadBudget
    match ← store (.readArtifact request.artifactRef request.offset len) with
    | none => return .failed .notFoundOrDenied
    | some chunk => return ⟨none, .chunk chunk⟩

/-- Whether the artifact's text view contains the predicate. -/
def textMatches (artifact : ArtifactRef) (predicate : Bytes) : Orchestrator C Bool := do
  if predicate = [] then
    return true
  else
    match (← store (.artifact artifact)).bind ArtifactInfo.textView with
    | none => return false
    | some text => return Decidable.decide (predicate <:+: text)

/-- The artifacts that match, in order. -/
def matching (predicate : Bytes) : List ArtifactRef → Orchestrator C (List ArtifactRef)
  | [] => pure []
  | artifact :: rest => do
    let hit ← textMatches artifact predicate
    let hits ← matching predicate rest
    return if hit then artifact :: hits else hits

def query (call : Call C) (request : QueryRequest) : Orchestrator C Reply := do
  let session := request.sessionScope
  match (← decide (call.authz .query none session Cost.zero)).refusal with
  | some failure => deny call .query session failure
  | none =>
    match session with
    | none => return .failed (.deniedFor .sessionRequired)
    | some session => do
      let limit := min request.limit (call.payloadBudget / queryRefBytes)
      match ← store (.sessionArtifacts session none 4294967295) with
      | none => return .failed .notFoundOrDenied
      | some page => do
        let hits ← matching request.predicate page.resultRefs
        return ⟨none, .queryPage
          ⟨hits.take limit.toNat, Decidable.decide (limit.toNat < hits.length)⟩⟩

/-- The scope an audit read is answered with. -/
def auditScope (call : Call C) (requested : AuditScope) : Orchestrator C AuditScope := do
  let view ← perform .snapshot
  let grant ← authz (view.grant call.grant)
  return appliedAuditScope requested ((grant.map Grant.auditScope).getD .ownAndOwnedSessions)

/-- One more than `limit`, at most the largest value. -/
def oneMore (limit : UInt32) : UInt32 := if limit < 4294967295 then limit + 1 else limit

def auditQuery (call : Call C) (request : AuditQueryRequest) : Orchestrator C Reply := do
  let session := request.session
  match (← decide (call.authz .auditQuery none session Cost.zero)).refusal with
  | some failure => deny call .auditQuery session failure
  | none => do
    let scope ← auditScope call request.auditScope
    let limit := min request.limit (call.payloadBudget / auditRecordBytes)
    let events ← store (.auditQuery ⟨call.tenant, scope, session, request.after, oneMore limit⟩)
    let records := events.map fun event : AuditEntryRecord =>
      (⟨event.seq, event.time, event.tenant, event.session, event.invocation, event.capability,
        event.state, event.outcome⟩ : AuditRecord)
    let page := records.take limit.toNat
    let invocation ← freshInvocation
    let _ ← store (.transact (.recordAudit
      { tenant := call.tenant, invocation := invocation, capability := .auditQuery,
        session := session, outcome := .completed none, grant := some call.grant,
        auditScope := some scope }))
    let nextAfter :=
      if limit.toNat < records.length then page.getLast?.map AuditRecord.seq else none
    return .of invocation (.auditPage ⟨scope, page, nextAfter⟩)

/-- The decision for an ingest: never allowed. -/
def ingestPlan (call : Call C) : Orchestrator C Plan := do
  let plan ← decide (call.authz .ingest none none Cost.zero)
  match plan.refusal with
  | some _ => return plan
  | none => return { plan with refusal := some (.deniedFor .notSupported), grantChain := [] }

def ingest (call : Call C) : Orchestrator C Reply := do
  let plan ← ingestPlan call
  deny call .ingest none (plan.refusal.getD (.deniedFor .notSupported))

/-! ## Dry runs -/

/-- A zero-cost plan that carries the refusal, or the designated grant's chain when there
is none. -/
def withRefusal (call : Call C) (capability : Capability) (refusal : Option Failure) :
    Orchestrator C Plan := do
  match refusal with
  | some refusal => return ⟨capability, Cost.zero, [], [], some refusal⟩
  | none => do
    let plan ← decide (call.authz capability none none Cost.zero)
    return { plan with refusal := none }

def issuePlan (call : Call C) (request : GrantIssueRequest) : Orchestrator C Plan := do
  withRefusal call .grantIssue (← issueRefusal call request ⟨0⟩)

/-- The plan of each body. -/
def planOf (call : Call C) : RequestBody → Orchestrator C Plan
  | .capture capture => do
    let limits ← captureLimits call capture.session capture.limits
    decide (call.captureAuthz capture limits)
  | .sessionCreate => decide (call.authz .sessionCreate none none Cost.zero)
  | .sessionFork parent => decide (call.authz .sessionFork none (some parent) Cost.zero)
  | .query request => decide (call.authz .query none request.sessionScope Cost.zero)
  | .auditQuery request => decide (call.authz .auditQuery none request.session Cost.zero)
  | .read request => artifactPlan call .read request.artifactRef
  | .ingest _ => ingestPlan call
  | .grantIssue request => issuePlan call request
  | .grantRevoke target => do
    withRefusal call .grantRevoke (← revokeDecision call target).refusal

def plan (call : Call C) (body : RequestBody) : Orchestrator C Reply := do
  return ⟨none, .plan (← planOf call body)⟩

end Orchestrator
end Dioptron
