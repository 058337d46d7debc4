import Dioptron.Reads

/-! # Operations on tenant keys

Registering a tenant draws its first data key; a rotation makes a new data key active,
re-seals the tenant's records in batches along five keyspaces and then retires the old
key; crypto-shredding deletes every wrapped key.  Randomness enters as an argument: the
data key the operation draws.
-/
namespace Dioptron

variable {C : Crypto}

structure TenantRegistration where
  id : TenantId
  cls : TenantClass
  verifyingKey : Bytes
  boundUids : List UInt32
  parent : Option TenantId
  ceilings : Ceilings

/-- The profile of a registration made at `now`. -/
def TenantRegistration.profile (r : TenantRegistration) (now : Timestamp) : TenantProfile :=
  ⟨r.id, r.cls, r.verifyingKey, r.boundUids, r.parent, r.ceilings, now⟩

def sameIdentity (existing : TenantRecord) (registration : TenantRegistration) : Bool :=
  existing.cls = registration.cls
    ∧ existing.verifyingKey = registration.verifyingKey
    ∧ existing.boundUids = registration.boundUids
    ∧ existing.parent = registration.parent
    ∧ existing.ceilings = registration.ceilings

namespace Store

def insertWrapped (s : Store C) (w : WrapName) (wrapped : Value C) : Store C :=
  { s with db := s.db.insert .keys (s.wrapKey w) wrapped }

def removeWrapped (s : Store C) (w : WrapName) : Store C := s.remove .keys (s.wrapKey w)

/-- Wraps and stores a data key. -/
def storeDataKey (s : Store C) (tenant : TenantId) (dk : TenantDataKey C) : Store C :=
  let w := WrapName.dataKey tenant dk.id
  s.insertWrapped w (s.keys.wrapTenantKey tenant (s.nonce .keys (s.wrapKey w)) dk)

/-- Wraps and stores addressing keys. -/
def storeAddressKeys (s : Store C) (tenant : TenantId) (address : AddressKeys C) : Store C :=
  let w := WrapName.addressKeys tenant
  s.insertWrapped w (s.keys.wrapAddressKeys tenant (s.nonce .keys (s.wrapKey w)) address)

/-! ## Registration -/

def checkParent (s : Store C) : Option TenantId → Except Error Unit
  | none => .ok ()
  | some parent => do
    let _ ← expect (← s.tenantRecord parent) (.tenantMissing parent)

def registerTenant (s : Store C) (registration : TenantRegistration) (draw : C.Block) :
    Except Error (Store C) := do
  let id := registration.id
  match ← s.tenantRecord id with
  | some existing => do
    ensure (sameIdentity existing registration) (.conflict "tenant")
    return s
  | none => do
    ensure ((← s.tombstone id).isNone) (.tenantShredded id)
    s.checkParent registration.parent
    let keyed := s.storeDataKey id ⟨initialDataKeyId, draw⟩
    let record := (registration.profile keyed.now.1).withKey initialDataKeyId
    keyed.now.2.putGlobal (.tenant id) (Stored.encode record)

/-! ## Data-key rotation -/

end Store

/-- One keyspace of the walk that re-seals a tenant's records. -/
structure WalkStep (C : Crypto) where
  keyspace : Keyspace
  slots : List Slot
  sealer : TenantSealingKeys C → SealingKey C

def walk (C : Crypto) : List (WalkStep C) :=
  [⟨.idem, [.idem], TenantSealingKeys.metaKey⟩,
    ⟨.artifacts, [.artifact, .pendingArtifact], TenantSealingKeys.metaKey⟩,
    ⟨.blobs, [.blob], TenantSealingKeys.blobKey⟩,
    ⟨.sessionIndex, [.sessionIndex], TenantSealingKeys.metaKey⟩,
    ⟨.audit, [.audit], TenantSealingKeys.auditKey⟩]

/-- The progress of a rotation. -/
structure RekeyStatus where
  tenant : TenantId
  fromKeyId : KeyId
  toKeyId : KeyId
  keyspace : Option Keyspace
  visited : UInt64
  resealed : UInt64
  total : UInt64
  done : Bool
  deriving DecidableEq

def RekeyRecord.status (r : RekeyRecord C.Block) : RekeyStatus :=
  ⟨r.tenant, r.fromKeyId, r.toKeyId, ((walk C)[r.keyspace.toNat]?).map
    WalkStep.keyspace, r.visited, r.resealed, r.total, r.done⟩

/-- Addition of a count that stays at the largest value. -/
def saturatingCount (a : UInt64) (n : Nat) : UInt64 := UInt64.ofNat (min (a.toNat + n) (2 ^ 64 - 1))

namespace Store

def ensureNoRotation (s : Store C) (tenant : TenantId) : Except Error Unit := do
  match ← s.rekeyRecord tenant with
  | some existing => ensure existing.done (.rekeyInProgress tenant)
  | none => return ()

/-- The data-key id after `id`. -/
def succKeyId (id : KeyId) (what : String) : Except Error KeyId := do
  ensure (id.toNat + 1 < 2 ^ 32) (.inconsistent what)
  return id + 1

/-- Stores the new data key and, at a tenant's first rotation, its addressing keys. -/
def stageNewKey (s : Store C) (tenant : TenantId) (target : KeyId) (current : TenantKeyring C)
    (draw : C.Block) : Except Error (Store C) := do
  match ← s.storedAddressKeys tenant with
  | some _ => return s.storeDataKey tenant ⟨target, draw⟩
  | none => return (s.storeDataKey tenant ⟨target, draw⟩).storeAddressKeys tenant current.address

/-- The number of entries the walk visits.  The source counts a keyspace in a machine word,
so the two agree for fewer than `2 ^ 64` entries. -/
def walkTotal (s : Store C) : UInt64 :=
  saturatingCount 0 ((walk C).map
    fun step => (s.db.entries step.keyspace).length).sum

def putRekey (s : Store C) (r : RekeyRecord C.Block) : Except Error (Store C) :=
  s.putGlobal (.rekey r.tenant) (Stored.encode r)

/-- The rekey record of a rotation just begun. -/
def freshRekey (tenant : TenantId) (source target : KeyId) (total : UInt64) (now : Timestamp) :
    RekeyRecord C.Block where
  tenant := tenant
  fromKeyId := source
  toKeyId := target
  keyspace := 0
  cursor := none
  visited := 0
  resealed := 0
  total := total
  done := false
  startedAt := now
  finishedAt := none

def beginRekey (s : Store C) (tenant : TenantId) (draw : C.Block) :
    Except Error (RekeyStatus × Store C) := do
  match ← s.tenantRecord tenant with
  | none => throw (s.absentTenant tenant)
  | some record => do
    s.ensureNoRotation tenant
    let current ← s.tenantKeys tenant
    let source := current.active.keyId
    let target ← succKeyId source "tenant data key ids are exhausted"
    let staged ← s.stageNewKey tenant target current draw
    let named ← staged.putGlobal (.tenant tenant)
      (Stored.encode { record with dataKeyId := target })
    let rekey := freshRekey tenant source target named.walkTotal named.now.1
    let begun ← named.now.2.putRekey rekey
    return (rekey.status, begun)

/-- Re-seals one value under the active key; nothing for a value that is not the
tenant's or is not under the retiring key. -/
def reseal (s : Store C) (step : WalkStep C) (retiring active : TenantSealingKeys C)
    (key : Str C.Block) (sealed : Value C) : Except Error (Option (Value C)) :=
  if sealed.sealedKeyId = some retiring.keyId then
    resealAs step.slots
  else
    .ok none
where
  /-- Tries the slots in turn; an authentication failure means another slot or
  another tenant. -/
  resealAs : List Slot → Except Error (Option (Value C))
    | [] => .ok none
    | slot :: slots =>
      match openBytes [step.sealer retiring] slot key sealed with
      | .ok plain => do
        return some (← sealBytes (step.sealer active) slot key (s.nonce slot.keyspace key) plain)
      | .error (.open_ _) => resealAs slots
      | .error e => .error e

/-- Re-seals a list of entries in place, counting those that changed. -/
def resealEntries (step : WalkStep C) (retiring active : TenantSealingKeys C) :
    List (Str C.Block × Value C) → Store C → Except Error (Nat × Store C)
  | [], s => .ok (0, s)
  | (key, sealed) :: rest, s => do
    match ← s.reseal step retiring active key sealed with
    | some fresh => do
      let r ← resealEntries step retiring active rest
        { s with db := s.db.insert step.keyspace key fresh }
      return (r.1 + 1, r.2)
    | none => resealEntries step retiring active rest s

/-- Ends the rotation: deletes the retired key. -/
def retire (s : Store C) (record : RekeyRecord C.Block) : Except Error (RekeyStatus × Store C) := do
  let removed := s.removeWrapped (.dataKey record.tenant record.fromKeyId)
  let finished : RekeyRecord C.Block :=
    { record with done := true, cursor := none, finishedAt := some removed.now.1 }
  return (finished.status, ← removed.now.2.putRekey finished)

/-- The progress record after a batch visited `entries`. -/
def advance (record : RekeyRecord C.Block) (batch : ℕ+) (entries : List (Str C.Block × Value C))
    (count : Nat) : RekeyRecord C.Block :=
  let counted := { record with
    visited := saturatingCount record.visited entries.length
    resealed := saturatingCount record.resealed count }
  if entries.length < batch then
    { counted with keyspace := saturatingSucc record.keyspace, cursor := none }
  else
    { counted with cursor := entries.getLast?.map Prod.fst }
where
  saturatingSucc (i : UInt8) : UInt8 := UInt8.ofNat (min (i.toNat + 1) 255)

/-- One batch of the walk at `step`. -/
def walkBatch (s : Store C) (tenant : TenantId) (record : RekeyRecord C.Block)
    (step : WalkStep C) (batch : ℕ+) : Except Error (RekeyStatus × Store C) := do
  let keys ← s.tenantKeys tenant
  let retiring ← expect keys.retiring (.inconsistent "rotation in progress without a retiring key")
  let entries := (s.db.entriesAfter step.keyspace record.cursor).take batch
  let resealed ← resealEntries step retiring keys.active entries s
  let next := advance record batch entries resealed.1
  return (next.status, ← resealed.2.putRekey next)

def rekeyBatch (s : Store C) (tenant : TenantId) (batch : ℕ+) :
    Except Error (RekeyStatus × Store C) := do
  let record ← expect ((← s.rekeyRecord tenant).filter fun r => !r.done)
    (.rekeyNotInProgress tenant)
  match (walk C)[record.keyspace.toNat]? with
  | none => s.retire record
  | some step => s.walkBatch tenant record step batch

/-! ## Crypto-shredding -/

/-- Opens and decodes every entry of a keyspace sealed under the store keys. -/
def openAll (T : Type) [Stored C.Block T] (s : Store C) (slot : Slot) : Except Error (List T) :=
  (s.db.entries slot.keyspace).mapM fun entry => do
    decodeAs T slot.keyspace (← openBytes [s.keys.metaKey] slot entry.1 entry.2)

/-- Whether an open invocation of `tenant`, or in one of the sessions `owned`, is among
the entries. -/
def anyOpen (s : Store C) (tenant : TenantId) (owned : List SessionId) :
    List (Str C.Block × Value C) → Except Error Bool
  | [] => .ok false
  | (key, sealed) :: rest => do
    let plain ← openBytes [s.keys.metaKey] .invocation key sealed
    let record ← decodeAs InvocationRecord .invocations plain
    if (record.tenant = tenant ∨ ∃ session ∈ record.session, session ∈ owned) ∧
        ¬ record.state.isTerminal then
      return true
    else
      anyOpen s tenant owned rest

def hasOpenInvocations (s : Store C) (tenant : TenantId) : Except Error Bool := do
  let sessions ← s.openAll SessionRecord .session
  let owned := (sessions.filter fun r => r.owner = tenant).map SessionRecord.id
  s.anyOpen tenant owned (s.db.entries .invocations)

/-- Deletes the rotation record and the key it retires. -/
def dropRotation (s : Store C) (tenant : TenantId) (rekey : Option (RekeyRecord C.Block)) :
    Store C :=
  match rekey with
  | none => s
  | some rekey =>
    let dropped := if rekey.done then s else s.removeWrapped (.dataKey tenant rekey.fromKeyId)
    dropped.removeGlobal (.rekey tenant)

/-- Removes every wrapped key and the record of `tenant`, and leaves a tombstone. -/
def shredWith (s : Store C) (tenant : TenantId) (record : TenantRecord)
    (rekey : Option (RekeyRecord C.Block)) : Except Error (Store C) := do
  let unkeyed := (s.removeWrapped (.dataKey tenant record.dataKeyId)).dropRotation tenant rekey
  let bare := (unkeyed.removeWrapped (.addressKeys tenant)).removeGlobal (.tenant tenant)
  let stone : TombstoneRecord := ⟨tenant, bare.now.1⟩
  bare.now.2.putGlobal (.tombstone tenant) (Stored.encode stone)

def shredTenant (s : Store C) (tenant : TenantId) : Except Error (Store C) := do
  match ← s.tombstone tenant with
  | some _ => return s
  | none => do
    let record ← expect (← s.tenantRecord tenant) (.tenantMissing tenant)
    ensure (¬ (← s.hasOpenInvocations tenant)) (.tenantBusy tenant)
    s.shredWith tenant record (← s.rekeyRecord tenant)

end Store
end Dioptron
