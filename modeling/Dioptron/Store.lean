import Dioptron.Keyspaces
import Dioptron.RecordKeys

/-! # The custody store

The open store: the database, the unlocked store keys, and what the random source and
the clock will answer next.  A write transaction reads its own writes and commits as a
whole, so an operation that writes is a function from a store to an outcome and the
store it commits; an operation that fails commits nothing.  This module has the record
reads and writes every operation is made of, and a tenant's keyring.
-/
namespace Dioptron

abbrev Database (C : Crypto) := Keyspaces Keyspace (Str C.Block) (Value C)

structure Store (C : Crypto) where
  db : Database C
  keys : StoreKeys C
  /-- The nonce the next seal or wrap at a place draws. -/
  nonce : Keyspace → Str C.Block → C.Nonce
  /-- The coming clock readings. -/
  clock : Nat → Timestamp

variable {C : Crypto}

/-- Decodes a plaintext as a record. -/
def decodeAs (T : Type) [Stored C.Block T] (keyspace : Keyspace) (p : Plain C.Block) :
    Except Error T :=
  match Stored.decode p with
  | some record => .ok record
  | none => .error (.decode keyspace)

/-- A tenant's record but for the id of its data key. -/
structure TenantProfile where
  id : TenantId
  cls : TenantClass
  verifyingKey : Bytes
  boundUids : List UInt32
  parent : Option TenantId
  ceilings : Ceilings
  registeredAt : Timestamp
  deriving DecidableEq, Repr

def TenantRecord.profile (r : TenantRecord) : TenantProfile :=
  ⟨r.id, r.cls, r.verifyingKey, r.boundUids, r.parent, r.ceilings, r.registeredAt⟩

def TenantProfile.withKey (p : TenantProfile) (dataKeyId : KeyId) : TenantRecord :=
  ⟨p.id, p.cls, p.verifyingKey, p.boundUids, p.parent, p.ceilings, dataKeyId, p.registeredAt⟩

@[simp] theorem TenantProfile.profile_withKey (p : TenantProfile) (id : KeyId) :
    (p.withKey id).profile = p := rfl

/-- The sealing subkey of a tenant-sealed record. -/
def TenantName.sealer {B : Type} : TenantName B → TenantSealingKeys C → SealingKey C
  | .blob _ => TenantSealingKeys.blobKey
  | .audit _ => TenantSealingKeys.auditKey
  | .idem .. | .artifact _ | .pending _ | .sessionIndex .. => TenantSealingKeys.metaKey

/-- The keys a store operation on one tenant's records uses. -/
structure TenantKeyring (C : Crypto) where
  active : TenantSealingKeys C
  retiring : Option (TenantSealingKeys C)
  address : AddressKeys C

namespace TenantKeyring

/-- The active key and the retiring one, or the active key twice when no rotation
runs. -/
def openers (keys : TenantKeyring C) (pick : TenantSealingKeys C → SealingKey C) :
    List (SealingKey C) :=
  [pick keys.active, (keys.retiring.map pick).getD (pick keys.active)]

end TenantKeyring

def initialDataKeyId : KeyId := 1

namespace Store

/-! ## Records -/

def get (s : Store C) (slot : Slot) (recordKey : Str C.Block) (keys : List (SealingKey C)) :
    Except Error (Option (Plain C.Block)) :=
  match s.db.get slot.keyspace recordKey with
  | none => .ok none
  | some sealed => do return some (← openBytes keys slot recordKey sealed)

theorem get_of_none {s : Store C} {slot : Slot} {recordKey : Str C.Block}
    {keys : List (SealingKey C)} (h : s.db.get slot.keyspace recordKey = none) :
    s.get slot recordKey keys = .ok none := by
  rw [get, h]

theorem get_of_some {s : Store C} {slot : Slot} {recordKey : Str C.Block}
    {keys : List (SealingKey C)} {sealed : Value C}
    (h : s.db.get slot.keyspace recordKey = some sealed) :
    s.get slot recordKey keys = do return some (← openBytes keys slot recordKey sealed) := by
  rw [get, h]

def put (s : Store C) (slot : Slot) (recordKey : Str C.Block) (key : SealingKey C)
    (p : Plain C.Block) : Except Error (Store C) := do
  let sealed ← sealBytes key slot recordKey (s.nonce slot.keyspace recordKey) p
  return { s with db := s.db.insert slot.keyspace recordKey sealed }

def remove (s : Store C) (keyspace : Keyspace) (recordKey : Str C.Block) : Store C :=
  { s with db := s.db.remove keyspace recordKey }

/-- The key of a record sealed under the store keys. -/
def globalKey (s : Store C) (n : Name C.Block) : Str C.Block := RecordKey.ofName s.keys.index n

def getGlobal (s : Store C) (n : Name C.Block) : Except Error (Option (Plain C.Block)) :=
  s.get n.slot (s.globalKey n) [s.keys.metaKey]

def putGlobal (s : Store C) (n : Name C.Block) (p : Plain C.Block) : Except Error (Store C) :=
  s.put n.slot (s.globalKey n) s.keys.metaKey p

def removeGlobal (s : Store C) (n : Name C.Block) : Store C :=
  s.remove n.slot.keyspace (s.globalKey n)

/-- A record sealed under the store keys, decoded. -/
def record (T : Type) [Stored C.Block T] (s : Store C) (n : Name C.Block) :
    Except Error (Option T) := do
  match ← s.getGlobal n with
  | some p => return some (← decodeAs T n.slot.keyspace p)
  | none => return none

def tenantRecord (s : Store C) (tenant : TenantId) : Except Error (Option TenantRecord) :=
  s.record TenantRecord (.tenant tenant)

def tombstone (s : Store C) (tenant : TenantId) : Except Error (Option TombstoneRecord) :=
  s.record TombstoneRecord (.tombstone tenant)

def rekeyRecord (s : Store C) (tenant : TenantId) : Except Error (Option (RekeyRecord C.Block)) :=
  s.record (RekeyRecord C.Block) (.rekey tenant)

/-- The current time, and the store with the clock moved on. -/
def now (s : Store C) : Timestamp × Store C :=
  (s.clock 0, { s with clock := fun i => s.clock (i + 1) })

/-! ## Keyrings -/

def wrapKey (s : Store C) (w : WrapName) : Str C.Block := RecordKey.ofWrap s.keys.index w

/-- The unwrapped data key `keyId` of `tenant`. -/
def dataKey (s : Store C) (tenant : TenantId) (keyId : KeyId) :
    Except Error (Option (TenantDataKey C)) :=
  match s.db.get .keys (s.wrapKey (.dataKey tenant keyId)) with
  | none => .ok none
  | some wrapped => do return some (← s.keys.unwrapTenantKey tenant wrapped)

/-- The stored addressing subkeys of `tenant`, present once its data key has
rotated. -/
def storedAddressKeys (s : Store C) (tenant : TenantId) :
    Except Error (Option (AddressKeys C)) :=
  match s.db.get .keys (s.wrapKey (.addressKeys tenant)) with
  | none => .ok none
  | some wrapped => do return some (← s.keys.unwrapAddressKeys tenant wrapped)

/-- The value of an option, or a failure. -/
def expect {α : Type} (x : Option α) (e : Error) : Except Error α :=
  match x with
  | some a => .ok a
  | none => .error e

/-- The id of the data key being retired, while a rotation runs. -/
def retiringId (rekey : Option (RekeyRecord C.Block)) : Option KeyId :=
  (rekey.filter fun r => !r.done).map RekeyRecord.fromKeyId

/-- The active data-key id of `tenant` and, while a rotation runs, the retiring one. -/
def keyIds (s : Store C) (tenant : TenantId) :
    Except Error (Option (KeyId × Option KeyId)) := do
  match ← s.tenantRecord tenant with
  | none => return none
  | some r => return some (r.dataKeyId, retiringId (← s.rekeyRecord tenant))

/-- The sealing keys of the retiring data key. -/
def retiringKeys (s : Store C) (tenant : TenantId) :
    Option KeyId → Except Error (Option (TenantSealingKeys C))
  | none => .ok none
  | some id => do
    let dk ← expect (← s.dataKey tenant id) (.inconsistent "retiring tenant data key is missing")
    return some dk.sealing

/-- The addressing keys: the stored ones or, before the first rotation, those the
initial data key derives. -/
def addressOf (s : Store C) (tenant : TenantId) (active : KeyId) (derived : AddressKeys C) :
    Except Error (AddressKeys C) := do
  match ← s.storedAddressKeys tenant with
  | some address => return address
  | none => do
    ensure (active = initialDataKeyId) (.inconsistent "rotated tenant has no addressing subkeys")
    return derived

def loadKeyring (s : Store C) (tenant : TenantId) (active : KeyId) (retiring : Option KeyId) :
    Except Error (TenantKeyring C) := do
  let dk ← expect (← s.dataKey tenant active) (.inconsistent "tenant data key is missing")
  let address ← s.addressOf tenant active dk.address
  return ⟨dk.sealing, ← s.retiringKeys tenant retiring, address⟩

/-- The error for a tenant with no record: shredded or never registered. -/
def absentTenant (s : Store C) (tenant : TenantId) : Error :=
  match s.tombstone tenant with
  | .ok (some _) => .tenantShredded tenant
  | .ok none => .tenantMissing tenant
  | .error e => e

/-- The keyring of `tenant`.  A cached keyring is used only when its key ids are those
of the tenant and rekey records read here, so the cache is left out. -/
def tenantKeys (s : Store C) (tenant : TenantId) : Except Error (TenantKeyring C) := do
  match ← s.keyIds tenant with
  | none => throw (s.absentTenant tenant)
  | some (active, retiring) => s.loadKeyring tenant active retiring

/-- Like `tenantKeys`, but nothing for a shredded tenant. -/
def liveTenantKeys (s : Store C) (tenant : TenantId) : Except Error (Option (TenantKeyring C)) :=
  match s.tenantKeys tenant with
  | .ok keys => .ok (some keys)
  | .error (.tenantShredded _) => .ok none
  | .error e => .error e

/-! ## Records of one tenant -/

def sealedKey (keys : TenantKeyring C) (owner : TenantId) (n : TenantName C.Block) :
    Str C.Block :=
  RecordKey.ofName keys.address.index (.sealed owner n)

/-- A tenant-sealed record, opened under either key while a rotation runs. -/
def getSealed (s : Store C) (keys : TenantKeyring C) (owner : TenantId) (n : TenantName C.Block) :
    Except Error (Option (Plain C.Block)) :=
  s.get n.slot (sealedKey keys owner n) (keys.openers n.sealer)

/-- Writers seal under the active key only. -/
def putSealed (s : Store C) (keys : TenantKeyring C) (owner : TenantId) (n : TenantName C.Block)
    (p : Plain C.Block) : Except Error (Store C) :=
  s.put n.slot (sealedKey keys owner n) (n.sealer keys.active) p

/-! ## The read view of the authorization layer -/

/-- A ledger's charge: zero on every dimension when it has no record. -/
def ledger (s : Store C) (id : LedgerRef) : Except Error Cost := do
  return ((← s.record LedgerRecord (.global (.ledger id))).map LedgerRecord.used).getD Cost.zero

/-- The grant of a stored record. -/
def grantOf (r : Option GrantRecord) : Except AuthzError (Option Grant) :=
  match r with
  | none => .ok none
  | some r => (r.toGrant.map some).mapError fun _ => .view

end Store

/-- The authorization layer's snapshot over record readers.  Every failed read is a
view error. -/
def viewOf (grants : GrantId → Except Error (Option GrantRecord))
    (revocations : GrantId → Except Error (Option RevocationRecord))
    (sessions : SessionId → Except Error (Option SessionRecord))
    (profiles : TenantId → Except Error (Option TenantProfile))
    (ledgers : LedgerRef → Except Error Cost) : Snapshot where
  grant id := do Store.grantOf (← (grants id).mapError fun _ => .view)
  revocation id :=
    ((revocations id).map fun r => r.map RevocationRecord.toRevocation).mapError fun _ => .view
  sessionOwner id := ((sessions id).map fun r => r.map SessionRecord.owner).mapError fun _ => .view
  tenantParent id :=
    ((profiles id).map fun r => r.bind TenantProfile.parent).mapError fun _ => .view
  used id := (ledgers (.fromLedgerId id)).mapError fun _ => .view
  sessionCeilings id :=
    ((sessions id).map fun r => (r.map SessionRecord.ceilings).getD Ceilings.default).mapError
      fun _ => .view
  tenantCeilings id :=
    ((profiles id).map fun r => (r.map TenantProfile.ceilings).getD Ceilings.default).mapError
      fun _ => .view

namespace Store

def profile (s : Store C) (tenant : TenantId) : Except Error (Option TenantProfile) := do
  return (← s.tenantRecord tenant).map TenantRecord.profile

def view (s : Store C) : Snapshot :=
  viewOf (fun id => s.record GrantRecord (.global (.grant id)))
    (fun id => s.record RevocationRecord (.global (.revocation id)))
    (fun id => s.record SessionRecord (.global (.session id))) s.profile s.ledger

end Store
end Dioptron
