import Dioptron.TenantKeys

/-! # Store metadata and root-key rotation

The metadata a store is unlocked by, and the rotation of its root key: every record
sealed under the store keys is opened, re-sealed and re-keyed under the subkeys of the
next root, and every wrapped tenant key is wrapped again, in one transaction.  Ledgers
and wrapped keys do not name their owners, so both are found again from the records
that own them.
-/
namespace Dioptron

variable {C : Crypto}

/-! ## Metadata -/

structure Meta (C : Crypto) where
  rootKeyId : KeyId
  salt : C.Block
  check : C.Block

namespace Meta

def formatMarker : Bytes := ascii "dioptron-custody/fjall3"

/-- The stored fields, in the order they are written. -/
def fields (m : Meta C) : List (String × Str C.Block) :=
  [("schema_version", Str.ofBytes (leBytes 4 schemaVersion)),
    ("format", Str.ofBytes formatMarker),
    ("active_root_key_id", Str.ofBytes (leBytes 4 m.rootKeyId.toNat)),
    ("kdf_salt", [.block m.salt]),
    ("key_check", [.block m.check])]

end Meta

/-- The key a metadata field is stored at. -/
def metaKeyOf (field : String) : Str C.Block := Str.ofBytes (ascii field)

namespace Store

def writeMeta (s : Store C) (m : Meta C) : Store C :=
  { s with db := m.fields.foldl (fun db f => db.insert .metadata (metaKeyOf f.1) (.raw f.2)) s.db }

def metaField (s : Store C) (field : String) : Except Error (Str C.Block) :=
  match s.db.get .metadata (metaKeyOf field) with
  | some (.raw bytes) => .ok bytes
  | some (.framed ..) => .error (.metaMalformed field)
  | none => .error (.storeMissing field)

/-- A four-byte field. -/
def metaWord (s : Store C) (field : String) : Except Error Nat := do
  let bytes ← expect (keyBytes (← s.metaField field)) (.metaMalformed field)
  ensure (bytes.length = 4) (.metaMalformed field)
  return readLe bytes

/-- A 32-byte field. -/
def metaBlock (s : Store C) (field : String) : Except Error C.Block := do
  match ← s.metaField field with
  | [.block b] => return b
  | _ => throw (.metaMalformed field)

def readMeta (s : Store C) : Except Error (Meta C) := do
  let format ← s.metaField "format"
  ensure (format = Str.ofBytes Meta.formatMarker) (.metaMalformed "format")
  let found ← s.metaWord "schema_version"
  ensure (found ≤ schemaVersion) (.schemaTooNew found schemaVersion)
  ensure (found = schemaVersion) (.migrationRequired found schemaVersion)
  let rootKeyId ← s.metaWord "active_root_key_id"
  return ⟨UInt32.ofNat rootKeyId, ← s.metaBlock "kdf_salt", ← s.metaBlock "key_check"⟩

/-- Opens the database of `s` again with a presented root key. -/
def reopen (s : Store C) (root : C.Block) : Except Error (Store C) := do
  let stored ← s.readMeta
  return { s with keys := ← StoreKeys.unlock root stored.rootKeyId stored.salt stored.check }

/-- A new store. -/
def create (root salt : C.Block) (nonce : Keyspace → Str C.Block → C.Nonce)
    (clock : Nat → Timestamp) : Store C :=
  let keys := StoreKeys.derive root 1 salt
  writeMeta ⟨.empty, keys, nonce, clock⟩ ⟨1, salt, keys.keyCheck⟩

end Store

/-! ## Moves -/

/-- One staged move: the old key goes, the new key gets the value. -/
structure Move (C : Crypto) where
  keyspace : Keyspace
  old : Str C.Block
  new : Str C.Block
  value : Value C

/-- Applies moves: every removal before every insertion. -/
def applyMoves (db : Database C) (moves : List (Move C)) : Database C :=
  moves.foldl (fun db m => db.insert m.keyspace m.new m.value)
    (moves.foldl (fun db m => db.remove m.keyspace m.old) db)

/-- What a tenants entry stands for. -/
inductive TenantOwner
  | live (record : TenantRecord)
  | shredded (tenant : TenantId)

namespace TenantOwner

def tenant : TenantOwner → TenantId
  | live record => record.id
  | shredded tenant => tenant

def liveRecord : TenantOwner → Option TenantRecord
  | live record => some record
  | shredded _ => none

end TenantOwner

/-- Entries not moved yet. -/
abbrev Remaining (C : Crypto) := List (Str C.Block × Value C)

/-- Takes the entry at `key` out of `rest`. -/
def Remaining.take (rest : Remaining C) (key : Str C.Block) : Option (Value C × Remaining C) :=
  match rest.lookup key with
  | some value => some (value, rest.filter fun entry => entry.1 ≠ key)
  | none => none

namespace Store

/-- Opens a value sealed under the store keys; nothing when it is another kind of
record or under other keys. -/
def tryOpen (s : Store C) (slot : Slot) (key : Str C.Block) (sealed : Value C) :
    Except Error (Option (Plain C.Block)) :=
  match openBytes [s.keys.metaKey] slot key sealed with
  | .ok plain => .ok (some plain)
  | .error (.open_ _) | .error (.unknownKeyId _) => .ok none
  | .error e => .error e

def stageMove (s : Store C) (next : StoreKeys C) (slot : Slot) (old new : Str C.Block)
    (plain : Plain C.Block) : Except Error (Move C) := do
  let sealed ← sealBytes next.metaKey slot new (s.nonce slot.keyspace new) plain
  return ⟨slot.keyspace, old, new, sealed⟩

/-- Moves one entry of the tenants keyspace: a tenant record or a tombstone. -/
def moveTenant (s : Store C) (next : StoreKeys C) (entry : Str C.Block × Value C) :
    Except Error (TenantOwner × Move C) := do
  match ← s.tryOpen .tenant entry.1 entry.2 with
  | some plain => do
    let record ← decodeAs TenantRecord .tenants plain
    let new := RecordKey.ofName next.index (.tenant record.id)
    return (.live record, ← s.stageMove next .tenant entry.1 new plain)
  | none => do
    let plain ← expect (← s.tryOpen .tombstone entry.1 entry.2)
      (.inconsistent "a tenants record opens as no known kind")
    let record ← decodeAs TombstoneRecord .tenants plain
    let new := RecordKey.ofName next.index (.tombstone record.tenant)
    return (.shredded record.tenant, ← s.stageMove next .tombstone entry.1 new plain)

/-- Moves every entry of a slot; `name` is the record's own name. -/
def moveAll (T : Type) [Stored C.Block T] (s : Store C) (next : StoreKeys C) (slot : Slot)
    (name : T → Name C.Block) : Except Error (List (T × Move C)) :=
  (s.db.entries slot.keyspace).mapM fun entry => do
    let plain ← expect (← s.tryOpen slot entry.1 entry.2)
      (.inconsistent "a store-sealed record does not open under the root key")
    let record ← decodeAs T slot.keyspace plain
    return (record, ← s.stageMove next slot entry.1
      (RecordKey.ofName next.index (name record)) plain)

/-- Moves a locator; other entries of the artifacts keyspace stay. -/
def moveLocator (s : Store C) (next : StoreKeys C) (entry : Str C.Block × Value C) :
    Except Error (Option (Move C)) := do
  match ← s.tryOpen .locator entry.1 entry.2 with
  | some plain => do
    let record ← decodeAs LocatorRecord .artifacts plain
    let new := RecordKey.ofName next.index (.global (.locator record.artifact))
    return some (← s.stageMove next .locator entry.1 new plain)
  | none => return none

def moveLocators (s : Store C) (next : StoreKeys C) : Except Error (List (Move C)) := do
  return (← (s.db.entries .artifacts).mapM (s.moveLocator next)).filterMap id

/-- Moves the ledger of each owner that has one; every ledger must have an owner. -/
def moveLedgersOf (s : Store C) (next : StoreKeys C) :
    List LedgerRef → Remaining C → Except Error (List (Move C))
  | [], rest => do
    ensure rest.isEmpty (.inconsistent "a ledger has no grant, session, or tenant")
    return []
  | ledger :: owners, rest =>
    let n : Name C.Block := .global (.ledger ledger)
    match rest.take (s.globalKey n) with
    | none => moveLedgersOf s next owners rest
    | some (sealed, rest) => do
      let plain ← expect (← s.tryOpen .ledger (s.globalKey n) sealed)
        (.inconsistent "a ledger does not open under the root key")
      let move ← s.stageMove next .ledger (s.globalKey n) (RecordKey.ofName next.index n) plain
      return move :: (← moveLedgersOf s next owners rest)

/-- Wraps each named data key of `tenant` again. -/
def moveDataKeys (s : Store C) (next : StoreKeys C) (tenant : TenantId) :
    List KeyId → Remaining C → Except Error (List (Move C) × Remaining C)
  | [], rest => .ok ([], rest)
  | id :: ids, rest => do
    let w := WrapName.dataKey tenant id
    let (sealed, rest) ← expect (rest.take (s.wrapKey w))
      (.inconsistent "tenant data key is missing")
    let dk ← s.keys.unwrapTenantKey tenant sealed
    let new := RecordKey.ofWrap next.index w
    let move : Move C := ⟨.keys, s.wrapKey w, new, next.wrapTenantKey tenant (s.nonce .keys new) dk⟩
    let moved ← moveDataKeys s next tenant ids rest
    return (move :: moved.1, moved.2)

/-- Wraps the addressing keys of `tenant` again, when it has any stored. -/
def moveAddressKeys (s : Store C) (next : StoreKeys C) (tenant : TenantId) (rest : Remaining C) :
    Except Error (List (Move C) × Remaining C) :=
  let w := WrapName.addressKeys tenant
  match rest.take (s.wrapKey w) with
  | none => .ok ([], rest)
  | some (sealed, rest) => do
    let address ← s.keys.unwrapAddressKeys tenant sealed
    let new := RecordKey.ofWrap next.index w
    let move : Move C :=
      ⟨.keys, s.wrapKey w, new, next.wrapAddressKeys tenant (s.nonce .keys new) address⟩
    return ([move], rest)

/-- The data keys of a live tenant: the active one and the one being retired. -/
def heldKeyIds (record : TenantRecord) (rekeys : List (RekeyRecord C.Block)) : List KeyId :=
  record.dataKeyId ::
    (rekeys.filter fun r => r.tenant = record.id ∧ !r.done).map RekeyRecord.fromKeyId

/-- Moves every wrapped key; each must belong to a live tenant. -/
def moveWrappedKeys (s : Store C) (next : StoreKeys C) (rekeys : List (RekeyRecord C.Block)) :
    List TenantRecord → Remaining C → Except Error (List (Move C))
  | [], rest => do
    ensure rest.isEmpty (.inconsistent "a wrapped key names no live tenant")
    return []
  | record :: records, rest => do
    let keys ← s.moveDataKeys next record.id (heldKeyIds record rekeys) rest
    let address ← s.moveAddressKeys next record.id keys.2
    return keys.1 ++ address.1 ++ (← moveWrappedKeys s next rekeys records address.2)

/-- Stages the move of everything sealed or wrapped under the store keys. -/
def stageRootMoves (s : Store C) (next : StoreKeys C) : Except Error (List (Move C)) := do
  let tenants ← (s.db.entries .tenants).mapM (s.moveTenant next)
  let grants ← s.moveAll GrantRecord next .grant fun r => .global (.grant r.id)
  let revocations ← s.moveAll RevocationRecord next .revocation
    fun r => .global (.revocation r.grant)
  let sessions ← s.moveAll SessionRecord next .session fun r => .global (.session r.id)
  let invocations ← s.moveAll InvocationRecord next .invocation fun r => .global (.invocation r.id)
  let stubs ← s.moveAll AuditStubRecord next .auditStub fun r => .global (.auditStub r.seq)
  let rekeys ← s.moveAll (RekeyRecord C.Block) next .rekey fun r => .rekey r.tenant
  let locators ← s.moveLocators next
  let owners := tenants.map (fun m => LedgerRef.tenant m.1.tenant) ++
    grants.map (fun m => LedgerRef.grant m.1.id) ++ sessions.map (fun m => LedgerRef.session m.1.id)
  let ledgers ← s.moveLedgersOf next owners (s.db.entries .ledgers)
  let wrapped ← s.moveWrappedKeys next (rekeys.map Prod.fst)
    (tenants.filterMap fun m => m.1.liveRecord) (s.db.entries .keys)
  return tenants.map Prod.snd ++ grants.map Prod.snd ++ revocations.map Prod.snd ++
    sessions.map Prod.snd ++ invocations.map Prod.snd ++ stubs.map Prod.snd ++
    rekeys.map Prod.snd ++ locators ++ ledgers ++ wrapped

/-- Rotates the root key from `current` to `next`, drawing a new salt. -/
def rotateRoot (s : Store C) (current next salt : C.Block) : Except Error (KeyId × Store C) := do
  let stored ← s.readMeta
  let _ ← StoreKeys.unlock current stored.rootKeyId stored.salt stored.check
  let nextId ← succKeyId stored.rootKeyId "root key ids are exhausted"
  let nextKeys := StoreKeys.derive next nextId salt
  let moves ← s.stageRootMoves nextKeys
  let moved : Store C := { s with db := applyMoves s.db moves }
  return (nextId, { moved.writeMeta ⟨nextId, salt, nextKeys.keyCheck⟩ with keys := nextKeys })

end Store
end Dioptron
