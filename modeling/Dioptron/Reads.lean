import Dioptron.Invocations

/-! # Reads and idempotency claims

Reads of published artifacts, of a session's index and of the audit trail, and the
claims that bind an idempotency key for calls that keep no invocation record.  A claim
opens an existing entry under the active key alone, unlike every other read of a
tenant's records, so both claims are given on the store itself.
-/
namespace Dioptron

variable {C : Crypto}

/-- A published artifact's metadata. -/
structure ArtifactInfo where
  artifact : ArtifactRef
  owner : TenantId
  session : Option SessionId
  grantChain : List GrantId
  source : SourceRef
  textView : Option Bytes
  truncated : Bool
  outputBytes : UInt64
  envelopeLen : UInt64
  revokedAfterEffect : Bool
  publishedAt : Timestamp
  deriving DecidableEq

/-- A slice of a captured envelope. -/
structure ReadChunk where
  offset : UInt64
  bytes : Bytes
  totalLen : UInt64
  deriving DecidableEq

/-- One page of a session's artifacts. -/
structure QueryPage where
  resultRefs : List ArtifactRef
  more : Bool
  deriving DecidableEq

def ArtifactRecord.info {B : Type} (r : ArtifactRecord B) (publishedAt : Timestamp) :
    ArtifactInfo :=
  ⟨r.artifact, r.tenant, r.session, r.grantChain, r.source, r.textView, r.truncated,
    r.outputBytes, r.blobLen, r.revokedAfterEffect, publishedAt⟩

namespace Tx

open Program

/-- The side record of a published artifact with its owner's keys.  Nothing for an
unknown artifact and for one of a shredded tenant. -/
def published (artifact : ArtifactRef) :
    Tx C (Option (ArtifactRecord C.Block × KeyHandle)) := do
  match ← record LocatorRecord (.locator artifact) with
  | none => return none
  | some locator =>
    match ← liveTenantKeys locator.owner with
    | none => return none
    | some keys => do
      let r ← expect (← sealedRecord (ArtifactRecord C.Block) keys (.artifact artifact))
        (.inconsistent "artifact locator has no side record")
      return some (r, keys)

def artifact (id : ArtifactRef) : Tx C (Option ArtifactInfo) := do
  match ← published id with
  | none => return none
  | some (r, _) => do
    let publishedAt ← expect r.publishedAt
      (.inconsistent "published side record has no publish time")
    return some (r.info publishedAt)

/-- The bytes of an opened envelope. -/
def blobBytes : Plain C.Block → Tx C Bytes
  | .blob bytes => pure bytes
  | _ => fail (.decode .blobs)

def chunkOf (envelope : Bytes) (offset : UInt64) (len : UInt32) : ReadChunk :=
  let start := min offset.toNat envelope.length
  let stop := min (start + len.toNat) envelope.length
  ⟨offset, (envelope.take stop).drop start, UInt64.ofNat (min envelope.length (2 ^ 64 - 1))⟩

def readArtifact (id : ArtifactRef) (offset : UInt64) (len : UInt32) :
    Tx C (Option ReadChunk) := do
  match ← published id with
  | none => return none
  | some (r, keys) => do
    let plain ← expect (← perform (.getSealed keys (.blob r.blobAddress)))
      (.inconsistent "published artifact has no blob")
    return some (chunkOf (← blobBytes plain) offset len)

end Tx

namespace Store

/-! ## Session index pages -/

/-- The entries of a keyspace from `first` on. -/
def rangeFrom (s : Store C) (keyspace : Keyspace) (first : Str C.Block) :
    List (Str C.Block × Value C) :=
  (s.db.entries keyspace).filter fun entry => (compare first entry.1).isLE

/-- Opens index entries until the session's range ends or the page is full. -/
def indexPage (keys : TenantKeyring C) (start : C.Block) :
    Nat → List (Str C.Block × Value C) → Except Error QueryPage
  | _, [] => .ok ⟨[], false⟩
  | limit, (key, sealed) :: rest =>
    if key.head? = some (.block start) then
      match limit with
      | 0 => .ok ⟨[], true⟩
      | limit + 1 => do
        let plain ← openBytes (keys.openers TenantSealingKeys.metaKey) .sessionIndex key sealed
        let entry ← decodeAs SessionIndexRecord .sessionIndex plain
        let page ← indexPage keys start limit rest
        return ⟨entry.artifact :: page.resultRefs, page.more⟩
    else
      .ok ⟨[], false⟩

/-- Where a page of a session's index starts. -/
def pageStart (start : C.Block) : Option ArtifactRef → Str C.Block
  | none => [.block start]
  | some artifact => .block start :: (Str.ofBytes artifact.toBytes ++ [.byte 0])

def sessionArtifacts (s : Store C) (session : SessionId) (after : Option ArtifactRef)
    (limit : UInt32) : Except Error (Option QueryPage) := do
  match ← s.record SessionRecord (.global (.session session)) with
  | none => return none
  | some r =>
    match ← s.liveTenantKeys r.owner with
    | none => return none
    | some keys => do
      let start := keyed keys.address.index RecordKey.Domain.sessionIndex.label
        [RecordKey.idPart r.owner, RecordKey.idPart session]
      let entries := s.rangeFrom .sessionIndex (pageStart start after)
      return some (← indexPage keys start limit.toNat entries)

/-! ## Audit queries -/

end Store

/-- An audit entry as readers see it: the stored entry, with what the wire record
leaves out beside it. -/
abbrev AuditEvent := AuditEntryRecord

/-- Which entries a query asks for. -/
structure AuditQuery where
  actor : TenantId
  scope : AuditScope
  session : Option SessionId
  after : Option AuditSeq
  limit : UInt32

namespace Store

/-- Opens audit entries and keeps those `keep` selects, up to `limit` of them.  The test
may remember what it looked up before. -/
def auditPage {σ : Type} (keys : TenantKeyring C)
    (keep : AuditEntryRecord → StateT σ (Except Error) Bool) :
    Nat → List (Str C.Block × Value C) → StateT σ (Except Error) (List AuditEvent)
  | _, [] => pure []
  | 0, _ :: _ => pure []
  | limit + 1, (key, sealed) :: rest => do
    let plain ← openBytes (keys.openers TenantSealingKeys.auditKey) .audit key sealed
    let entry ← decodeAs AuditEntryRecord .audit plain
    if ← keep entry then
      return entry :: (← auditPage keys keep limit rest)
    else
      auditPage keys keep (limit + 1) rest

/-- The audit entries of `tenant` from sequence `first` on. -/
def auditRange (s : Store C) (keys : TenantKeyring C) (tenant : TenantId) (first : Nat) :
    List (Str C.Block × Value C) :=
  let start := keyed keys.address.index RecordKey.Domain.audit.label [RecordKey.idPart tenant]
  let last : Str C.Block := .block start :: Str.ofBytes (beBytes 8 (2 ^ 64 - 1))
  (s.rangeFrom .audit (.block start :: Str.ofBytes (beBytes 8 first))).filter fun entry =>
    (compare entry.1 last).isLE

def partition {σ : Type} (s : Store C) (tenant : TenantId) (after : Option AuditSeq) (limit : Nat)
    (keep : AuditEntryRecord → StateT σ (Except Error) Bool) :
    StateT σ (Except Error) (List AuditEvent) := do
  let keys ← s.tenantKeys tenant
  let first := (after.map fun seq => seq.toNat + 1).getD 0
  if first < 2 ^ 64 then
    auditPage keys keep limit (s.auditRange keys tenant first)
  else
    return []

def auditRecords (s : Store C) (tenant : TenantId) (after : Option AuditSeq) (limit : UInt32) :
    Except Error (List AuditEvent) :=
  (s.partition tenant after limit.toNat fun _ => pure true).run' ()

/-- The session owners a query has looked up so far. -/
abbrev Owners := SessionId → Option (Option TenantId)

/-- The owner of a session, looked up once per query. -/
def ownerOf (s : Store C) (session : SessionId) :
    StateT Owners (Except Error) (Option TenantId) := do
  let owners : Owners ← StateT.get
  match owners session with
  | some owner => return owner
  | none => do
    let r ← s.record SessionRecord (.global (.session session))
    let owner := r.map SessionRecord.owner
    StateT.set (Function.update owners session (some owner))
    return owner

/-- Whether `query` selects `entry`. -/
def selected (s : Store C) (query : AuditQuery) (entry : AuditEntryRecord) :
    StateT Owners (Except Error) Bool :=
  if query.session.isSome ∧ entry.session ≠ query.session then
    pure false
  else
    match query.scope with
    | .all => pure true
    | .ownAndOwnedSessions =>
      if entry.tenant = query.actor then
        pure true
      else
        match entry.session with
        | none => pure false
        | some session => do
          let owner ← s.ownerOf session
          return decide (owner = some query.actor)

/-- The tenant of one entry of the tenants keyspace; nothing for a tombstone. -/
def tenantIdOf (s : Store C) (entry : Str C.Block × Value C) : Except Error (Option TenantId) :=
  match openBytes [s.keys.metaKey] .tenant entry.1 entry.2 with
  | .ok plain => do return some (← decodeAs TenantRecord .tenants plain).id
  | .error (.open_ _) => do
    let _ ← openBytes [s.keys.metaKey] .tombstone entry.1 entry.2
    return none
  | .error e => .error e

/-- The registered tenants, in the order of their keys. -/
def tenantIds (s : Store C) : Except Error (List TenantId) := do
  return (← (s.db.entries .tenants).mapM s.tenantIdOf).filterMap id

def auditQuery (s : Store C) (query : AuditQuery) : Except Error (List AuditEvent) := do
  let tenants ← s.tenantIds
  let pages ← (tenants.mapM fun tenant =>
    s.partition tenant query.after query.limit.toNat (s.selected query)).run' fun _ => none
  let events := pages.flatten.mergeSort fun a b => decide (a.seq ≤ b.seq)
  return events.take query.limit.toNat

end Store

/-! ## Idempotency claims -/

/-- A request to bind an idempotency key. -/
structure IdemClaim (C : Crypto) where
  tenant : TenantId
  grant : GrantId
  capability : Capability
  key : IdempotencyKey
  requestDigest : C.Block
  invocation : InvocationId

inductive Claimed
  | fresh (invocation : InvocationId)
  | replay (invocation : InvocationId)
  | conflict
  deriving DecidableEq

def IdemClaim.binding (claim : IdemClaim C) : C.Block :=
  C.sha256 (Str.ofBytes (ascii "dioptron/v1/idem-claim") ++ [.block claim.requestDigest] ++
    Str.ofBytes claim.grant.toBytes ++ Str.lengthPrefixed 8 (Str.ofBytes claim.capability.name))

def compareBinding (existing : IdemRecord C.Block) (binding : C.Block) : Claimed :=
  if existing.requestBinding = binding then .replay existing.invocation else .conflict

namespace Store

/-- The entry of a claim's key, opened under the active key only. -/
def claimEntry (s : Store C) (keys : TenantKeyring C) (claim : IdemClaim C) :
    Except Error (Option (IdemRecord C.Block)) := do
  let n : TenantName C.Block := .idem claim.capability claim.key
  match ← s.get n.slot (sealedKey keys claim.tenant n) [keys.active.metaKey] with
  | some p => return some (← decodeAs (IdemRecord C.Block) .idem p)
  | none => return none

def claim (s : Store C) (claim : IdemClaim C) : Except Error (Claimed × Store C) := do
  let keys ← s.tenantKeys claim.tenant
  match ← s.claimEntry keys claim with
  | some existing => return (compareBinding existing claim.binding, s)
  | none => do
    let r : IdemRecord C.Block := ⟨claim.invocation, claim.binding⟩
    let s ← s.putSealed keys claim.tenant (.idem claim.capability claim.key) (Stored.encode r)
    return (.fresh claim.invocation, s)

def claimed (s : Store C) (claim : IdemClaim C) : Except Error (Option Claimed) := do
  let keys ← s.tenantKeys claim.tenant
  return (← s.claimEntry keys claim).map fun existing => compareBinding existing claim.binding

end Store
end Dioptron
