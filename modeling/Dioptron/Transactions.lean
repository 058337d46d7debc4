import Dioptron.Programs
import Dioptron.Store

/-! # Transactions

The record-level primitives transactions are made of and their meaning on the store.
A transaction holds a tenant's keyring by the tenant's name: no primitive changes a
tenant record, a rekey record or a wrapped key, so the keyring looked up at each use is
the one looked up first.  The audit trail comes with them, since most transactions
append to it.
-/
namespace Dioptron

/-- A tenant's keyring, as a transaction holds it. -/
structure KeyHandle where
  tenant : TenantId
  deriving DecidableEq

/-- A record to seal under the store keys; what it is named by is part of it. -/
inductive GlobalEntry
  | grant (r : GrantRecord)
  | revocation (r : RevocationRecord)
  | session (r : SessionRecord)
  | invocation (r : InvocationRecord)
  | ledger (id : LedgerRef) (r : LedgerRecord)
  | locator (r : LocatorRecord)
  | auditStub (r : AuditStubRecord)

namespace GlobalEntry

def name : GlobalEntry → GlobalName
  | grant r => .grant r.id
  | revocation r => .revocation r.grant
  | session r => .session r.id
  | invocation r => .invocation r.id
  | ledger id _ => .ledger id
  | locator r => .locator r.artifact
  | auditStub r => .auditStub r.seq

def plain {B : Type} : GlobalEntry → Plain B
  | grant r => .grant r
  | revocation r => .revocation r
  | session r => .session r
  | invocation r => .invocation r
  | ledger _ r => .ledger r
  | locator r => .locator r
  | auditStub r => .auditStub r

end GlobalEntry

/-- A record to seal under a tenant's keys. -/
inductive TenantEntry (B : Type)
  | idem (capability : Capability) (key : IdempotencyKey) (r : IdemRecord B)
  | artifact (r : ArtifactRecord B)
  | pending (r : ArtifactRecord B)
  | blob (address : B) (bytes : Bytes)
  | sessionIndex (session : SessionId) (r : SessionIndexRecord)
  | audit (r : AuditEntryRecord)

namespace TenantEntry

variable {B : Type}

def name : TenantEntry B → TenantName B
  | idem capability key _ => .idem capability key
  | artifact r => .artifact r.artifact
  | pending r => .pending r.invocation
  | blob address _ => .blob address
  | sessionIndex session r => .sessionIndex session r.artifact
  | audit r => .audit r.seq

def plain : TenantEntry B → Plain B
  | idem _ _ r => .idem r
  | artifact r => .artifact r
  | pending r => .artifact r
  | blob _ bytes => .blob bytes
  | sessionIndex _ r => .sessionIndex r
  | audit r => .audit r

end TenantEntry

inductive Prim (C : Crypto) : Type → Type
  | now : Prim C Timestamp
  | view : Prim C Snapshot
  | profile (tenant : TenantId) : Prim C (Option TenantProfile)
  | tombstone (tenant : TenantId) : Prim C (Option TombstoneRecord)
  | get (n : GlobalName) : Prim C (Option (Plain C.Block))
  | contains (n : GlobalName) : Prim C Bool
  | put (entry : GlobalEntry) : Prim C Unit
  | nextAuditSeq : Prim C AuditSeq
  | tenantKeys (tenant : TenantId) : Prim C KeyHandle
  | liveTenantKeys (tenant : TenantId) : Prim C (Option KeyHandle)
  | blobAddress (keys : KeyHandle) (bytes : Bytes) : Prim C C.Block
  | getSealed (keys : KeyHandle) (n : TenantName C.Block) : Prim C (Option (Plain C.Block))
  | containsSealed (keys : KeyHandle) (n : TenantName C.Block) : Prim C Bool
  | putSealed (keys : KeyHandle) (entry : TenantEntry C.Block) : Prim C Unit
  | removeSealed (keys : KeyHandle) (n : TenantName C.Block) : Prim C Unit

variable {C : Crypto}

/-! ## The audit sequence -/

/-- The bytes of a key without hashed part. -/
def keyBytes (key : Str C.Block) : Option Bytes :=
  key.mapM fun
    | .byte b => some b
    | .block _ => none

/-- The sequence number a stub's key spells, most significant byte first. -/
def seqOfKey (key : Str C.Block) : Option Nat :=
  match keyBytes key with
  | some bytes => if bytes.length = 8 then some (readLe bytes.reverse) else none
  | none => none

namespace Store

/-- The sequence number of the last audit stub, zero before the first. -/
def lastAuditSeq (s : Store C) : Except Error Nat :=
  match (s.db.entries .auditStub).getLast? with
  | none => .ok 0
  | some entry => expect (seqOfKey entry.1) (.inconsistent "audit stub key is not a sequence")

end Store

/-- The sequence number after `last`. -/
def succAuditSeq (last : Nat) : Except Error AuditSeq := do
  ensure (last + 1 < 2 ^ 64) (.inconsistent "audit sequence is exhausted")
  return UInt64.ofNat (last + 1)

/-! ## The primitives on the store -/

def Store.handler : Handler (Prim C) Error (Store C) := fun _ p s =>
  match p with
  | .now => .ok s.now
  | .view => .ok (s.view, s)
  | .profile tenant => do return (← s.profile tenant, s)
  | .tombstone tenant => do return (← s.tombstone tenant, s)
  | .get n => do return (← s.getGlobal (.global n), s)
  | .contains n => .ok ((s.db.get n.slot.keyspace (s.globalKey (.global n))).isSome, s)
  | .put entry => do return ((), ← s.putGlobal (.global entry.name) entry.plain)
  | .nextAuditSeq => do return (← succAuditSeq (← s.lastAuditSeq), s)
  | .tenantKeys tenant => do
    let _ ← s.tenantKeys tenant
    return (⟨tenant⟩, s)
  | .liveTenantKeys tenant => do return ((← s.liveTenantKeys tenant).map fun _ => ⟨tenant⟩, s)
  | .blobAddress keys bytes => do
    return ((← s.tenantKeys keys.tenant).address.blobAddress bytes, s)
  | .getSealed keys n => do
    return (← s.getSealed (← s.tenantKeys keys.tenant) keys.tenant n, s)
  | .containsSealed keys n => do
    let ring ← s.tenantKeys keys.tenant
    return ((s.db.get n.slot.keyspace (sealedKey ring keys.tenant n)).isSome, s)
  | .putSealed keys entry => do
    let ring ← s.tenantKeys keys.tenant
    return ((), ← s.putSealed ring keys.tenant entry.name entry.plain)
  | .removeSealed keys n => do
    let ring ← s.tenantKeys keys.tenant
    return ((), s.remove n.slot.keyspace (sealedKey ring keys.tenant n))

/-- A transaction of the store. -/
abbrev Tx (C : Crypto) := Program (Prim C) Error

/-- Runs and commits a transaction. -/
def Store.commit {α : Type} (s : Store C) (tx : Tx C α) : Except Error (α × Store C) :=
  tx.run Store.handler s

namespace Tx

open Program

def now : Tx C Timestamp := perform .now

def view : Tx C Snapshot := perform .view

def profile (tenant : TenantId) : Tx C (Option TenantProfile) := perform (.profile tenant)

def tombstone (tenant : TenantId) : Tx C (Option TombstoneRecord) := perform (.tombstone tenant)

def tenantKeys (tenant : TenantId) : Tx C KeyHandle := perform (.tenantKeys tenant)

def liveTenantKeys (tenant : TenantId) : Tx C (Option KeyHandle) := perform (.liveTenantKeys tenant)

/-- Decodes what a read found. -/
def decoded (T : Type) [Stored C.Block T] (keyspace : Keyspace) :
    Option (Plain C.Block) → Tx C (Option T)
  | none => pure none
  | some p => do return some (← ofExcept (decodeAs T keyspace p))

/-- A record sealed under the store keys. -/
def record (T : Type) [Stored C.Block T] (n : GlobalName) : Tx C (Option T) := do
  decoded T n.slot.keyspace (← perform (.get n))

def put (entry : GlobalEntry) : Tx C Unit := perform (.put entry)

/-- A record sealed under a tenant's keys. -/
def sealedRecord (T : Type) [Stored C.Block T] (keys : KeyHandle) (n : TenantName C.Block) :
    Tx C (Option T) := do
  decoded T n.slot.keyspace (← perform (.getSealed keys n))

def putSealed (keys : KeyHandle) (entry : TenantEntry C.Block) : Tx C Unit :=
  perform (.putSealed keys entry)

/-- A pure decision of the authorization layer. -/
def decide {α : Type} (x : Except AuthzError α) : Tx C α := ofExcept (x.mapError Error.authz)

end Tx

/-! ## The audit trail -/

/-- One entry of the audit trail before it has a sequence number. -/
structure AuditEntry where
  tenant : TenantId
  session : Option SessionId := none
  invocation : InvocationId
  capability : Capability
  state : InvocationState
  outcome : OutcomeKind
  releaseReason : Option ReleaseReason := none
  grant : Option GrantId := none
  auditScope : Option AuditScope := none
  deriving DecidableEq

/-- The entry for a finished invocation. -/
def AuditEntry.ofTerminal (tenant : TenantId) (invocation : InvocationId)
    (capability : Capability) (terminal : Terminal) : AuditEntry where
  tenant := tenant
  invocation := invocation
  capability := capability
  state := terminal.state
  outcome := terminal.outcome
  releaseReason := terminal.releaseReason

def AuditEntry.stub (entry : AuditEntry) (seq : AuditSeq) (time : Timestamp) :
    AuditStubRecord :=
  ⟨seq, entry.invocation, entry.capability, entry.outcome, time⟩

def AuditEntry.record (entry : AuditEntry) (seq : AuditSeq) (time : Timestamp) :
    AuditEntryRecord :=
  ⟨seq, time, entry.tenant, entry.session, entry.invocation, entry.capability, entry.state,
    entry.outcome, entry.releaseReason, entry.grant, entry.auditScope⟩

namespace Tx

open Program

/-- Appends `entry`: a stub under the global sequence and the full entry in the
tenant's partition. -/
def appendAudit (entry : AuditEntry) : Tx C AuditSeq := do
  let seq ← perform .nextAuditSeq
  let time ← now
  put (.auditStub (entry.stub seq time))
  let keys ← tenantKeys entry.tenant
  putSealed keys (.audit (entry.record seq time))
  return seq

end Tx

/-- How an audited call without an invocation record ended. -/
inductive AuditOutcome
  | refused (failure : Failure)
  | completed (failure : Option Failure)
  deriving DecidableEq

/-- A call to audit on its own. -/
structure AuditNote where
  tenant : TenantId
  invocation : InvocationId
  capability : Capability
  session : Option SessionId
  outcome : AuditOutcome
  grant : Option GrantId
  auditScope : Option AuditScope

def AuditNote.entry (note : AuditNote) : AuditEntry :=
  let entry : AuditEntry :=
    match note.outcome with
    | .refused failure =>
      { tenant := note.tenant, invocation := note.invocation, capability := note.capability,
        state := .denied, outcome := failure.kind }
    | .completed failure =>
      .ofTerminal note.tenant note.invocation note.capability (.settled failure)
  { entry with session := note.session, grant := note.grant, auditScope := note.auditScope }

namespace Tx

def recordAudit (note : AuditNote) : Tx C AuditSeq := appendAudit note.entry

end Tx
end Dioptron
