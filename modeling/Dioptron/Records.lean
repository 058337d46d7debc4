import Dioptron.Decisions

/-! # Stored records

The record types of the custody store, one per record kind, and the sum `Plain` of
everything the store ever encrypts.  Hash outputs inside records are opaque blocks of
a type `B`.  A record is encoded before it is sealed; the encoding is modelled by the
constructor of `Plain` that carries the record, so decoding inverts it and a record
of one kind never decodes as another.
-/
namespace Dioptron

/-- A data-key or root-key id. -/
abbrev KeyId := UInt32

/-- How a finished invocation ended. -/
inductive Terminal
  | settled (failure : Option Failure)
  | released (reason : ReleaseReason)
  | unknownEffect
  deriving DecidableEq, Repr

namespace Terminal

def state : Terminal → InvocationState
  | settled _ => .settled
  | released _ => .released
  | unknownEffect => .unknownEffect

def releaseReason : Terminal → Option ReleaseReason
  | released reason => some reason
  | settled _ | unknownEffect => none

/-- The failure a finished call replies with, or nothing for a success. -/
def replyFailure : Terminal → Option Failure
  | settled failure => failure
  | unknownEffect => some .unknownEffect
  | released .revoked => some (.deniedFor .grantRevoked)
  | released .expired => some (.deniedFor .grantExpired)
  | released .producerUnavailable => some .producerUnavailable
  | released .deadlineExceeded => some .deadlineExceeded
  | released .abandoned => some .cancelled
  | released .cancelled => some .cancelled

def outcome (t : Terminal) : OutcomeKind :=
  match t.replyFailure with
  | some failure => failure.kind
  | none => .success

end Terminal

/-- One stored budget ledger. -/
inductive LedgerRef
  | grant (id : GrantId)
  | session (id : SessionId)
  | tenant (id : TenantId)
  deriving DecidableEq, Repr

def LedgerRef.fromLedgerId : LedgerId → LedgerRef
  | .grant id => .grant id
  | .session id => .session id
  | .tenant id => .tenant id

theorem LedgerRef.fromLedgerId_injective : Function.Injective LedgerRef.fromLedgerId := by
  intro a b h
  cases a <;> cases b <;> cases h <;> rfl

structure TenantRecord where
  id : TenantId
  cls : TenantClass
  verifyingKey : Bytes
  boundUids : List UInt32
  parent : Option TenantId
  ceilings : Ceilings
  dataKeyId : KeyId
  registeredAt : Timestamp
  deriving DecidableEq, Repr

structure GrantRecord where
  id : GrantId
  issuer : TenantId
  holder : TenantId
  capabilities : List Capability
  sessionScope : SessionScope
  targetPatterns : List Bytes
  auditScope : AuditScope
  ceilings : Ceilings
  notBefore : Timestamp
  expiresAt : Timestamp
  parent : Option GrantId
  depth : UInt8
  maxDepth : UInt8
  deriving DecidableEq, Repr

/-- Every capability, in declaration order. -/
def Capability.all : List Capability :=
  [.sessionCreate, .sessionFork, .capture, .ingest, .read, .query, .grantIssue, .grantRevoke,
    .auditQuery]

theorem Capability.mem_all (c : Capability) : c ∈ Capability.all := by
  cases c <;> decide

namespace GrantRecord

/-- The stored form of `grant`, keeping the target patterns as they were given. -/
def fromGrant (grant : Grant) (targetPatterns : List Bytes) : GrantRecord where
  id := grant.id
  issuer := grant.issuer
  holder := grant.holder
  capabilities := Capability.all.filter fun c => decide (c ∈ grant.capabilities)
  sessionScope := grant.sessionScope
  targetPatterns := targetPatterns
  auditScope := grant.auditScope
  ceilings := grant.ceilings
  notBefore := grant.notBefore
  expiresAt := grant.expiresAt
  parent := grant.parent
  depth := grant.depth
  maxDepth := grant.maxDepth

/-- The grant with this target scope. -/
def withScope (r : GrantRecord) (targetScope : TargetScope) : Grant where
  id := r.id
  issuer := r.issuer
  holder := r.holder
  capabilities := r.capabilities.toFinset
  sessionScope := r.sessionScope
  targetScope := targetScope
  auditScope := r.auditScope
  ceilings := r.ceilings
  notBefore := r.notBefore
  expiresAt := r.expiresAt
  parent := r.parent
  depth := r.depth
  maxDepth := r.maxDepth

/-- The grant a record stands for; its patterns are parsed again. -/
def toGrant (r : GrantRecord) : Except AuthzError Grant := do
  return r.withScope (← TargetScope.parse r.targetPatterns)

theorem toGrant_eq_ok {r : GrantRecord} {g : Grant} (h : r.toGrant = .ok g) :
    ∃ scope, TargetScope.parse r.targetPatterns = .ok scope ∧ g = r.withScope scope := by
  unfold toGrant at h
  obtain ⟨scope, hscope, h⟩ := bind_eq_ok.mp h
  cases h
  exact ⟨scope, hscope, rfl⟩

theorem toFinset_fromGrant (grant : Grant) (patterns : List Bytes) :
    (fromGrant grant patterns).capabilities.toFinset = grant.capabilities := by
  ext c
  simp [fromGrant, Capability.mem_all]

/-- **A stored grant reads back as itself.** -/
theorem toGrant_fromGrant {grant : Grant} {patterns : List Bytes}
    (h : TargetScope.parse patterns = .ok grant.targetScope) :
    (fromGrant grant patterns).toGrant = .ok grant := by
  have hcaps : (Capability.all.filter fun c => decide (c ∈ grant.capabilities)).toFinset =
      grant.capabilities := toFinset_fromGrant grant patterns
  obtain ⟨⟩ := grant
  simp only [toGrant, fromGrant, h, ok_bind, withScope, hcaps]
  rfl

end GrantRecord

structure RevocationRecord where
  grant : GrantId
  atSeq : AuditSeq
  atTime : Timestamp
  by_ : TenantId
  deriving DecidableEq, Repr

def RevocationRecord.toRevocation (r : RevocationRecord) : Revocation :=
  ⟨r.grant, r.atSeq, r.atTime⟩

structure SessionRecord where
  id : SessionId
  owner : TenantId
  parent : Option SessionId
  ceilings : Ceilings
  createdAt : Timestamp
  deriving DecidableEq, Repr

structure LedgerRecord where
  used : Cost
  deriving DecidableEq, Repr

structure InvocationRecord where
  id : InvocationId
  tenant : TenantId
  capability : Capability
  session : Option SessionId
  grantChain : List GrantId
  ledgers : List LedgerRef
  reserved : Cost
  state : InvocationState
  terminal : Option Terminal
  actual : Option Cost
  debited : Option Cost
  artifact : Option ArtifactRef
  revokedAfterEffect : Bool
  createdAt : Timestamp
  updatedAt : Timestamp
  deriving DecidableEq, Repr

structure IdemRecord (B : Type) where
  invocation : InvocationId
  requestBinding : B
  deriving DecidableEq, Repr

/-- The acquisition evidence identity of a capture. -/
structure SourceRef where
  fingerprint : Bytes
  schemaId : Bytes
  producerRevision : Bytes
  deriving DecidableEq, Repr

structure ArtifactRecord (B : Type) where
  artifact : ArtifactRef
  invocation : InvocationId
  tenant : TenantId
  session : Option SessionId
  grantChain : List GrantId
  reservation : InvocationId
  classification : Option Bytes
  lineage : Option ArtifactRef
  provenanceDigest : B
  blobAddress : B
  blobLen : UInt64
  source : SourceRef
  textView : Option Bytes
  truncated : Bool
  outputBytes : UInt64
  revokedAfterEffect : Bool
  publishedAt : Option Timestamp
  deriving DecidableEq, Repr

structure LocatorRecord where
  artifact : ArtifactRef
  owner : TenantId
  session : Option SessionId
  deriving DecidableEq, Repr

structure SessionIndexRecord where
  artifact : ArtifactRef
  capturedBy : TenantId
  publishedAt : Timestamp
  deriving DecidableEq, Repr

structure AuditEntryRecord where
  seq : AuditSeq
  time : Timestamp
  tenant : TenantId
  session : Option SessionId
  invocation : InvocationId
  capability : Capability
  state : InvocationState
  outcome : OutcomeKind
  releaseReason : Option ReleaseReason
  grant : Option GrantId
  auditScope : Option AuditScope
  deriving DecidableEq, Repr

structure AuditStubRecord where
  seq : AuditSeq
  invocation : InvocationId
  capability : Capability
  outcome : OutcomeKind
  time : Timestamp
  deriving DecidableEq, Repr

structure RekeyRecord (B : Type) where
  tenant : TenantId
  fromKeyId : KeyId
  toKeyId : KeyId
  keyspace : UInt8
  cursor : Option (Str B)
  visited : UInt64
  resealed : UInt64
  total : UInt64
  done : Bool
  startedAt : Timestamp
  finishedAt : Option Timestamp
  deriving DecidableEq, Repr

structure TombstoneRecord where
  tenant : TenantId
  shreddedAt : Timestamp
  deriving DecidableEq, Repr

/-- Everything the store encrypts: an encoded record, a captured envelope, a data
key, or a tenant's two addressing keys. -/
inductive Plain (B : Type)
  | tenant (r : TenantRecord)
  | tombstone (r : TombstoneRecord)
  | grant (r : GrantRecord)
  | revocation (r : RevocationRecord)
  | session (r : SessionRecord)
  | invocation (r : InvocationRecord)
  | idem (r : IdemRecord B)
  | ledger (r : LedgerRecord)
  | artifact (r : ArtifactRecord B)
  | locator (r : LocatorRecord)
  | sessionIndex (r : SessionIndexRecord)
  | audit (r : AuditEntryRecord)
  | auditStub (r : AuditStubRecord)
  | rekey (r : RekeyRecord B)
  | blob (bytes : Bytes)
  | dataKey (key : B)
  | addressKeys (index blobAddr : B)

/-- A record type with its encoding. -/
class Stored (B : Type) (T : Type) where
  encode : T → Plain B
  decode : Plain B → Option T
  decode_eq_some : ∀ p r, decode p = some r ↔ p = encode r

section

variable {B : Type}

instance : Stored B TenantRecord where
  encode := .tenant
  decode | .tenant r => some r | _ => none
  decode_eq_some p r := by cases p <;> simp

instance : Stored B TombstoneRecord where
  encode := .tombstone
  decode | .tombstone r => some r | _ => none
  decode_eq_some p r := by cases p <;> simp

instance : Stored B GrantRecord where
  encode := .grant
  decode | .grant r => some r | _ => none
  decode_eq_some p r := by cases p <;> simp

instance : Stored B RevocationRecord where
  encode := .revocation
  decode | .revocation r => some r | _ => none
  decode_eq_some p r := by cases p <;> simp

instance : Stored B SessionRecord where
  encode := .session
  decode | .session r => some r | _ => none
  decode_eq_some p r := by cases p <;> simp

instance : Stored B InvocationRecord where
  encode := .invocation
  decode | .invocation r => some r | _ => none
  decode_eq_some p r := by cases p <;> simp

instance : Stored B (IdemRecord B) where
  encode := .idem
  decode | .idem r => some r | _ => none
  decode_eq_some p r := by cases p <;> simp

instance : Stored B LedgerRecord where
  encode := .ledger
  decode | .ledger r => some r | _ => none
  decode_eq_some p r := by cases p <;> simp

instance : Stored B (ArtifactRecord B) where
  encode := .artifact
  decode | .artifact r => some r | _ => none
  decode_eq_some p r := by cases p <;> simp

instance : Stored B LocatorRecord where
  encode := .locator
  decode | .locator r => some r | _ => none
  decode_eq_some p r := by cases p <;> simp

instance : Stored B SessionIndexRecord where
  encode := .sessionIndex
  decode | .sessionIndex r => some r | _ => none
  decode_eq_some p r := by cases p <;> simp

instance : Stored B AuditEntryRecord where
  encode := .audit
  decode | .audit r => some r | _ => none
  decode_eq_some p r := by cases p <;> simp

instance : Stored B AuditStubRecord where
  encode := .auditStub
  decode | .auditStub r => some r | _ => none
  decode_eq_some p r := by cases p <;> simp

instance : Stored B (RekeyRecord B) where
  encode := .rekey
  decode | .rekey r => some r | _ => none
  decode_eq_some p r := by cases p <;> simp

end

end Dioptron
