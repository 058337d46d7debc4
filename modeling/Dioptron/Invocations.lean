import Dioptron.Directory

/-! # Invocations

The transactions of a captured call's life: `begin` decides the call and makes its
intent durable together with its reservation and its idempotency entry, and each later
transition moves the invocation one durable boundary on.
-/
namespace Dioptron

variable {C : Crypto}

/-- A call to persist. -/
structure Intent (C : Crypto) where
  invocation : InvocationId
  authz : AuthzRequest
  idempotencyKey : IdempotencyKey
  requestDigest : C.Block

/-- What callers see of an invocation. -/
structure InvocationStatus where
  id : InvocationId
  tenant : TenantId
  capability : Capability
  session : Option SessionId
  state : InvocationState
  terminal : Option Terminal
  artifact : Option ArtifactRef
  reserved : Cost
  debited : Option Cost
  grantChain : List GrantId
  revokedAfterEffect : Bool
  deriving DecidableEq

def InvocationRecord.status (r : InvocationRecord) : InvocationStatus :=
  ⟨r.id, r.tenant, r.capability, r.session, r.state, r.terminal, r.artifact, r.reserved, r.debited,
    r.grantChain, r.revokedAfterEffect⟩

/-- The record a transition to `next` writes. -/
def InvocationRecord.moved (r : InvocationRecord) (next : InvocationState) (now : Timestamp) :
    InvocationRecord :=
  { r with state := next, updatedAt := now }

/-- The outcome of `begin`. -/
inductive Begin
  | persisted (status : InvocationStatus)
  | replayed (status : InvocationStatus)
  | conflict
  | refused (failure : Failure) (auditSeq : AuditSeq)
  deriving DecidableEq

/-- What a completed transfer delivers. -/
structure Transfer where
  envelope : Bytes
  source : SourceRef
  textView : Option Bytes
  truncated : Bool
  outputBytes : UInt64
  actual : Cost
  revokedAfterEffect : Bool

/-- An artifact has the bytes of its invocation's id. -/
def artifactRef (invocation : InvocationId) : ArtifactRef := invocation.cast

inductive SettleOutcome
  | success
  | failed (failure : Failure) (actual : Cost)

/-- The text an optional field adds to a hash: a tag byte, then the field. -/
def optionalPart (x : Option (Str C.Block)) : Str C.Block :=
  match x with
  | some field => .byte 1 :: field
  | none => [.byte 0]

/-- The binding of an idempotency key to the whole request. -/
def requestBinding (intent : Intent C) : C.Block :=
  C.sha256 (Str.ofBytes (ascii "dioptron/v1/idem-binding") ++ [.block intent.requestDigest] ++
    Str.ofBytes intent.authz.grant.toBytes ++
    Str.lengthPrefixed 8 (Str.ofBytes intent.authz.capability.name) ++
    optionalPart (intent.authz.session.map fun s => Str.ofBytes s.toBytes) ++
    optionalPart (intent.authz.target.map fun t => Str.lengthPrefixed 8 (Str.ofBytes t)))

namespace Tx

open Program

def invocationRecord (id : InvocationId) : Tx C (Option InvocationRecord) :=
  record InvocationRecord (.invocation id)

def existingInvocation (id : InvocationId) : Tx C InvocationRecord := do
  expect (← invocationRecord id) (.invocationMissing id)

def putInvocation (r : InvocationRecord) : Tx C Unit := put (.invocation r)

def ledger (id : LedgerRef) : Tx C Cost := do
  return ((← record LedgerRecord (.ledger id)).map LedgerRecord.used).getD Cost.zero

def putLedger (id : LedgerRef) (used : Cost) : Tx C Unit :=
  put (.ledger id ⟨used⟩)

/-- Moves the charge of each ledger in turn. -/
def moveLedgers (move : Cost → Except AuthzError Cost) : List LedgerRef → Tx C Unit
  | [] => pure ()
  | id :: rest => do
    let used ← ledger id
    putLedger id (← decide (move used))
    moveLedgers move rest

/-! ## Persisting an intent -/

/-- Debits every ledger of the plan and returns the ledgers' stored forms. -/
def debitReservation (reservation : ReservationPlan) : Tx C (List LedgerRef) := do
  let ledgers := reservation.ledgers.map LedgerRef.fromLedgerId
  moveLedgers (fun used => reserve used reservation.cost) ledgers
  return ledgers

/-- The record of a new intent. -/
def freshInvocation (intent : Intent C) (chain : List GrantId) (ledgers : List LedgerRef)
    (reserved : Cost) (now : Timestamp) : InvocationRecord where
  id := intent.invocation
  tenant := intent.authz.tenant
  capability := intent.authz.capability
  session := intent.authz.session
  grantChain := chain
  ledgers := ledgers
  reserved := reserved
  state := .intentPersisted
  terminal := none
  actual := none
  debited := none
  artifact := none
  revokedAfterEffect := false
  createdAt := now
  updatedAt := now

def intentRecord (intent : Intent C) (chain : List GrantId) (reservation : ReservationPlan) :
    Tx C InvocationRecord := do
  let ledgers ← debitReservation reservation
  return freshInvocation intent chain ledgers reservation.cost (← now)

/-- Answers a call whose idempotency key is bound already. -/
def replay (intent : Intent C) (idem : IdemRecord C.Block) : Tx C Begin := do
  if idem.requestBinding = requestBinding intent then
    let r ← expect (← invocationRecord idem.invocation)
      (.inconsistent "idempotency entry names a missing invocation")
    return .replayed r.status
  else
    return .conflict

def refuse (intent : Intent C) (failure : Failure) : Tx C Begin := do
  let auditSeq ← appendAudit
    { tenant := intent.authz.tenant, invocation := intent.invocation,
      capability := intent.authz.capability, state := .denied, outcome := failure.kind,
      session := intent.authz.session, grant := some intent.authz.grant }
  return .refused failure auditSeq

/-- Whether the named session exists and its owner has been shredded. -/
def sessionOwnerShredded : Option SessionId → Tx C Bool
  | none => pure false
  | some session => do
    match ← sessionRecord session with
    | some r => return (← tombstone r.owner).isSome
    | none => return false

/-- Writes the debits, the invocation record and the idempotency entry. -/
def persist (intent : Intent C) (keys : KeyHandle) (chain : List GrantId)
    (reservation : ReservationPlan) : Tx C Begin := do
  let r ← intentRecord intent chain reservation
  putInvocation r
  putSealed keys (.idem intent.authz.capability intent.idempotencyKey
    ⟨intent.invocation, requestBinding intent⟩)
  return .persisted r.status

/-- Decides a call whose key is free, and persists or refuses it. -/
def decideIntent (intent : Intent C) (keys : KeyHandle) : Tx C Begin := do
  guard ((← invocationRecord intent.invocation).isNone) (.conflict "invocation")
  let v ← view
  let time ← now
  match ← decide (authorize v intent.authz time) with
  | .allowed chain reservation =>
    if ← sessionOwnerShredded intent.authz.session then
      refuse intent .notFoundOrDenied
    else
      persist intent keys chain reservation
  | refused => refuse intent (refused.refusal.getD .notFoundOrDenied)

def begin (intent : Intent C) : Tx C Begin := do
  let keys ← tenantKeys intent.authz.tenant
  match ← sealedRecord (IdemRecord C.Block) keys
      (.idem intent.authz.capability intent.idempotencyKey) with
  | some idem => replay intent idem
  | none => decideIntent intent keys

/-! ## Transitions -/

/-- Audits an invocation that reached a terminal state. -/
def auditTerminal (r : InvocationRecord) : Tx C Unit := do
  if r.state.isTerminal then
    let terminal ← expect (r.terminal.filter fun t => t.state = r.state)
      (.inconsistent "terminal state without a matching terminal record")
    let _ ← appendAudit
      { AuditEntry.ofTerminal r.tenant r.id r.capability terminal with
        session := r.session, grant := r.grantChain.head? }
  else
    return ()

/-- Moves invocation `id` along `step`; `apply` writes what goes with it. -/
def transition (id : InvocationId) (step : Step)
    (apply : InvocationRecord → Tx C InvocationRecord) : Tx C InvocationStatus := do
  let before ← existingInvocation id
  let next ← decide (nextState before.state step)
  let applied ← apply before
  let updatedAt ← now
  auditTerminal (applied.moved next updatedAt)
  putInvocation (applied.moved next updatedAt)
  return (applied.moved next updatedAt).status

def dispatch (id : InvocationId) : Tx C InvocationStatus :=
  transition id .dispatch pure

/-- The side record of a transfer before it is published. -/
def pendingArtifact (r : InvocationRecord) (transfer : Transfer) (address : C.Block) :
    ArtifactRecord C.Block where
  artifact := artifactRef r.id
  invocation := r.id
  tenant := r.tenant
  session := r.session
  grantChain := r.grantChain
  reservation := r.id
  classification := none
  lineage := none
  provenanceDigest := C.sha256 (Str.ofBytes transfer.envelope)
  blobAddress := address
  blobLen := UInt64.ofNat (min transfer.envelope.length (2 ^ 64 - 1))
  source := transfer.source
  textView := transfer.textView
  truncated := transfer.truncated
  outputBytes := transfer.outputBytes
  revokedAfterEffect := transfer.revokedAfterEffect
  publishedAt := none

/-- Seals the envelope at its address unless it is there already. -/
def storeBlob (keys : KeyHandle) (address : C.Block) (envelope : Bytes) : Tx C Unit := do
  if ← perform (.containsSealed keys (.blob address)) then
    return ()
  else
    putSealed keys (.blob address envelope)

def stageTransfer (transfer : Transfer) (r : InvocationRecord) : Tx C InvocationRecord := do
  let keys ← tenantKeys r.tenant
  let address ← perform (.blobAddress keys transfer.envelope)
  storeBlob keys address transfer.envelope
  putSealed keys (.pending (pendingArtifact r transfer address))
  return { r with
    artifact := some (artifactRef r.id)
    actual := some transfer.actual
    revokedAfterEffect := transfer.revokedAfterEffect }

def completeTransfer (id : InvocationId) (transfer : Transfer) : Tx C InvocationStatus :=
  transition id .completeTransfer (stageTransfer transfer)

/-- Indexes a published artifact under its session, for the session's owner. -/
def indexArtifact (r : InvocationRecord) (artifact : ArtifactRef) (now : Timestamp) :
    Option SessionId → Tx C Unit
  | none => pure ()
  | some session => do
    let owner ← expect (← sessionRecord session)
      (.inconsistent "invocation names a missing session")
    let ownerKeys ← tenantKeys owner.owner
    putSealed ownerKeys (.sessionIndex session ⟨artifact, r.tenant, now⟩)

def stagePublish (r : InvocationRecord) : Tx C InvocationRecord := do
  let keys ← tenantKeys r.tenant
  let pending ← expect (← sealedRecord (ArtifactRecord C.Block) keys (.pending r.id))
    (.inconsistent "transfer-complete invocation has no pending record")
  guard (¬ (← perform (.contains (.locator pending.artifact))))
    (.inconsistent "artifact is already published")
  let time ← now
  putSealed keys (.artifact { pending with publishedAt := some time })
  perform (.removeSealed keys (.pending r.id))
  put (.locator ⟨pending.artifact, r.tenant, r.session⟩)
  indexArtifact r pending.artifact time r.session
  return r

def publish (id : InvocationId) : Tx C InvocationStatus :=
  transition id .publish stagePublish

/-- Releases `settlement.release` on every ledger of the record. -/
def applySettlement (r : InvocationRecord) (settlement : Settlement) : Tx C InvocationRecord := do
  moveLedgers (fun used => Dioptron.release used settlement.release) r.ledgers
  return { r with debited := some settlement.debit }

/-- A failure of a capture that had started. -/
def startedFailure : Failure → Bool
  | .transferFailed _ | .extractionFailed _ | .deadlineExceeded | .cancelled => true
  | _ => false

/-- The consumption a settlement charges, with its failure. -/
def settledAmount (r : InvocationRecord) (outcome : SettleOutcome) :
    Except Error (Cost × Option Failure) :=
  match r.state, outcome with
  | .published, .success => do
    return (← Store.expect r.actual
      (.inconsistent "published invocation has no recorded consumption"), none)
  | .dispatched, .failed failure actual => do
    ensure (startedFailure failure) (.settleMismatch .dispatched)
    return (actual, some failure)
  | state, _ => .error (.settleMismatch state)

/-- The settlement of `actual` against `reserved`; an overrun is clamped. -/
def settlementOf (reserved actual : Cost) : Except Error Settlement :=
  match Dioptron.settle reserved actual with
  | .ok settlement => .ok settlement
  | .error (.settleOverrun _ _ _ settlement) => .ok settlement
  | .error e => .error (.authz e)

def stageSettle (outcome : SettleOutcome) (r : InvocationRecord) : Tx C InvocationRecord := do
  let amount ← ofExcept (settledAmount r outcome)
  let settlement ← ofExcept (settlementOf r.reserved amount.1)
  applySettlement { r with actual := some amount.1, terminal := some (.settled amount.2) }
    settlement

def settle (id : InvocationId) (outcome : SettleOutcome) : Tx C InvocationStatus :=
  transition id .settle (stageSettle outcome)

def stageRelease (reason : ReleaseReason) (r : InvocationRecord) : Tx C InvocationRecord :=
  applySettlement { r with terminal := some (.released reason) } ⟨Cost.zero, r.reserved⟩

def release (id : InvocationId) (reason : ReleaseReason) : Tx C InvocationStatus :=
  transition id (.release reason) (stageRelease reason)

def stageUnknownEffect (r : InvocationRecord) : Tx C InvocationRecord :=
  applySettlement { r with terminal := some .unknownEffect } (unknownEffectSettlement r.reserved)

def markUnknownEffect (id : InvocationId) : Tx C InvocationStatus :=
  transition id .markUnknownEffect stageUnknownEffect

end Tx
end Dioptron
