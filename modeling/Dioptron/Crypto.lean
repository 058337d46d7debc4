import Dioptron.Records

/-! # Keys, seals and wraps

The cryptographic primitives are parameters: a key derivation, a keyed hash, a plain
hash and an authenticated cipher, with the idealised behaviour the store relies on as
laws.  Over them come the key hierarchy (store subkeys from the root key, tenant
subkeys from a data key), the sealed-value format with its additional data, and the
wrapping of data keys under the store's key-encryption subkey.
-/
namespace Dioptron

/-- The largest plaintext a seal accepts, in bytes. -/
def maxPlaintextLen : Nat := 64 * 1024 * 1024

/-- The primitives of the crypto crates and of the record codec, with their ideal
behaviour: the derivation and the hashes do not collide, and a ciphertext opens only
under the key, nonce and additional data it was made with. -/
structure Crypto where
  /-- Opaque 32-byte blocks: keys, hash outputs and salts. -/
  Block : Type
  Nonce : Type
  Cipher : Type
  [decBlock : DecidableEq Block]
  [ordBlock : Ord Block]
  [transBlock : Std.TransOrd Block]
  [lawfulBlock : Std.LawfulEqOrd Block]
  /-- HKDF-SHA256 extract and expand into one 32-byte subkey. -/
  hkdf : Option Block → Block → Bytes → Block
  /-- HMAC-SHA256. -/
  hmac : Block → Str Block → Block
  sha256 : Str Block → Block
  /-- XChaCha20-Poly1305 with additional data. -/
  encrypt : Block → Nonce → Str Block → Plain Block → Cipher
  decrypt : Block → Nonce → Str Block → Cipher → Option (Plain Block)
  /-- The length of an encoded plaintext and of a ciphertext with its tag, in bytes. -/
  encodedLen : Plain Block → Nat
  cipherLen : Cipher → Nat
  hkdf_inj : ∀ {s s' k k' l l'}, hkdf s k l = hkdf s' k' l' → k = k' ∧ l = l'
  hmac_inj : ∀ {k k' m m'}, hmac k m = hmac k' m' → k = k' ∧ m = m'
  sha256_inj : ∀ {m m'}, sha256 m = sha256 m' → m = m'
  decrypt_encrypt : ∀ k n a p, decrypt k n a (encrypt k n a p) = some p
  decrypt_eq_some : ∀ {k n a c p}, decrypt k n a c = some p → c = encrypt k n a p
  encrypt_inj : ∀ {k k' n n' a a' p p'}, encrypt k n a p = encrypt k' n' a' p' →
    k = k' ∧ n = n' ∧ a = a' ∧ p = p'
  cipherLen_encrypt : ∀ k n a p, cipherLen (encrypt k n a p) = encodedLen p + 16
  encodedLen_blob : ∀ bytes, encodedLen (.blob bytes) = bytes.length
  encodedLen_dataKey : ∀ key, encodedLen (.dataKey key) = 32
  encodedLen_addressKeys : ∀ i b, encodedLen (.addressKeys i b) = 64
  -- The codec gives a record without variable-length fields a small fixed size, and the
  -- size of any other record depends on its variable-length fields only.
  encodedLen_tombstone : ∀ r, encodedLen (.tombstone r) ≤ maxPlaintextLen
  encodedLen_revocation : ∀ r, encodedLen (.revocation r) ≤ maxPlaintextLen
  encodedLen_session : ∀ r, encodedLen (.session r) ≤ maxPlaintextLen
  encodedLen_idem : ∀ r, encodedLen (.idem r) ≤ maxPlaintextLen
  encodedLen_ledger : ∀ r, encodedLen (.ledger r) ≤ maxPlaintextLen
  encodedLen_locator : ∀ r, encodedLen (.locator r) ≤ maxPlaintextLen
  encodedLen_sessionIndex : ∀ r, encodedLen (.sessionIndex r) ≤ maxPlaintextLen
  encodedLen_audit : ∀ r, encodedLen (.audit r) ≤ maxPlaintextLen
  encodedLen_auditStub : ∀ r, encodedLen (.auditStub r) ≤ maxPlaintextLen
  encodedLen_rekey : ∀ r, (∀ c, r.cursor = some c → c.len ≤ 64) →
    encodedLen (.rekey r) ≤ maxPlaintextLen
  encodedLen_tenant : ∀ r id, encodedLen (.tenant { r with dataKeyId := id }) =
    encodedLen (.tenant r)
  encodedLen_invocation : ∀ r r', r.grantChain.length = r'.grantChain.length →
    r.ledgers.length = r'.ledgers.length →
    encodedLen (.invocation r) = encodedLen (.invocation r')
  encodedLen_artifact : ∀ r at_, encodedLen (.artifact { r with publishedAt := at_ }) =
    encodedLen (.artifact r)

attribute [instance] Crypto.decBlock Crypto.ordBlock Crypto.transBlock Crypto.lawfulBlock

instance Crypto.transStr (C : Crypto) : Std.TransOrd (Str C.Block) :=
  inferInstanceAs (Std.TransOrd (List (Sym C.Block)))

instance Crypto.lawfulStr (C : Crypto) : Std.LawfulEqOrd (Str C.Block) :=
  inferInstanceAs (Std.LawfulEqOrd (List (Sym C.Block)))

/-! ## Keyspaces, record kinds and errors -/

inductive Keyspace
  | metadata
  | keys
  | tenants
  | grants
  | revocations
  | sessions
  | invocations
  | idem
  | ledgers
  | artifacts
  | blobs
  | sessionIndex
  | audit
  | auditStub
  | rekey
  deriving DecidableEq, Repr

def Keyspace.name : Keyspace → Bytes
  | metadata => ascii "meta"
  | keys => ascii "keys"
  | tenants => ascii "tenants"
  | grants => ascii "grants"
  | revocations => ascii "revocations"
  | sessions => ascii "sessions"
  | invocations => ascii "invocations"
  | idem => ascii "idem"
  | ledgers => ascii "ledgers"
  | artifacts => ascii "artifacts"
  | blobs => ascii "blobs"
  | sessionIndex => ascii "session_index"
  | audit => ascii "audit"
  | auditStub => ascii "audit_stub"
  | rekey => ascii "rekey"

/-- Every keyspace, in the order a store is copied in. -/
def Keyspace.all : List Keyspace :=
  [metadata, keys, tenants, grants, revocations, sessions, invocations, idem, ledgers, artifacts,
    blobs, sessionIndex, audit, auditStub, rekey]

/-- The number of a record kind. -/
abbrev RecordKind := UInt8

/-- A keyspace and the kind of record sealed in it. -/
@[ext] structure Slot where
  keyspace : Keyspace
  kind : RecordKind
  deriving DecidableEq, Repr

namespace Slot

def tenant : Slot := ⟨.tenants, 1⟩
def grant : Slot := ⟨.grants, 3⟩
def revocation : Slot := ⟨.revocations, 4⟩
def session : Slot := ⟨.sessions, 5⟩
def invocation : Slot := ⟨.invocations, 6⟩
def idem : Slot := ⟨.idem, 7⟩
def ledger : Slot := ⟨.ledgers, 8⟩
def artifact : Slot := ⟨.artifacts, 9⟩
def pendingArtifact : Slot := ⟨.artifacts, 10⟩
def locator : Slot := ⟨.artifacts, 11⟩
def blob : Slot := ⟨.blobs, 12⟩
def sessionIndex : Slot := ⟨.sessionIndex, 13⟩
def audit : Slot := ⟨.audit, 14⟩
def auditStub : Slot := ⟨.auditStub, 15⟩
def rekey : Slot := ⟨.rekey, 16⟩
def tombstone : Slot := ⟨.tenants, 17⟩

end Slot

/-- What a store operation can fail with.  Failures of the operating system, of the
database engine and of the random source are not modelled: such an operation does
not commit. -/
inductive Error
  | plaintextTooLarge (len : Nat)
  | aadComponentTooLong (component : String) (len : Nat)
  | malformed (what : String) (len : Nat)
  | unsupportedRecordVersion (found : Nat)
  | unknownKeyId (found : KeyId)
  | open_ (keyspace : Keyspace)
  | tenantKeyUnwrap
  | storeLocked
  | storeMissing (missing : String)
  | metaMalformed (field : String)
  | schemaTooNew (found supported : Nat)
  | migrationRequired (found supported : Nat)
  | decode (keyspace : Keyspace)
  | inconsistent (what : String)
  | authz (source : AuthzError)
  | settleMismatch (state : InvocationState)
  | invocationMissing (invocation : InvocationId)
  | tenantMissing (tenant : TenantId)
  | tenantShredded (tenant : TenantId)
  | tenantBusy (tenant : TenantId)
  | rekeyInProgress (tenant : TenantId)
  | rekeyNotInProgress (tenant : TenantId)
  | conflict (what : String)
  deriving DecidableEq, Repr

/-! ## The key hierarchy -/

/-- A sealing key and the id of the key it was derived from. -/
structure SealingKey (C : Crypto) where
  id : KeyId
  key : C.Block

/-- The subkeys the store derives from the root key.  The store-scope blob and audit
subkeys seal nothing and are left out. -/
structure StoreKeys (C : Crypto) where
  rootKeyId : KeyId
  metaKey : SealingKey C
  index : C.Block
  kek : C.Block
  check : C.Block

/-- A tenant data key. -/
structure TenantDataKey (C : Crypto) where
  id : KeyId
  key : C.Block

/-- The sealing subkeys of one data key. -/
structure TenantSealingKeys (C : Crypto) where
  keyId : KeyId
  blobKey : SealingKey C
  metaKey : SealingKey C
  auditKey : SealingKey C

/-- The addressing subkeys of a tenant, fixed across rotations. -/
structure AddressKeys (C : Crypto) where
  index : C.Block
  blobAddr : C.Block

variable {C : Crypto} {slot' : Slot} {rk rk' : Str C.Block} {nonce : C.Nonce} {p : Plain C.Block}

namespace StoreKeys

def derive (root : C.Block) (rootKeyId : KeyId) (salt : C.Block) : StoreKeys C :=
  let subkey := C.hkdf (some salt) root
  { rootKeyId := rootKeyId
    metaKey := ⟨rootKeyId, subkey (ascii "dioptron/v1/meta")⟩
    index := subkey (ascii "dioptron/v1/index")
    kek := subkey (ascii "dioptron/v1/kek")
    check := subkey (ascii "dioptron/v1/check") }

/-- The value stored to recognise the root key again. -/
def keyCheck (keys : StoreKeys C) : C.Block :=
  C.hmac keys.check (Str.ofBytes (ascii "dioptron-key-check"))

/-- Derives the store keys and compares the key check. -/
def unlock (root : C.Block) (rootKeyId : KeyId) (salt storedCheck : C.Block) :
    Except Error (StoreKeys C) := do
  let keys := derive root rootKeyId salt
  ensure (keys.keyCheck = storedCheck) .storeLocked
  return keys

end StoreKeys

namespace TenantDataKey

def sealing (dk : TenantDataKey C) : TenantSealingKeys C :=
  let subkey := C.hkdf none dk.key
  { keyId := dk.id
    blobKey := ⟨dk.id, subkey (ascii "dioptron/v1/tenant/blob")⟩
    metaKey := ⟨dk.id, subkey (ascii "dioptron/v1/tenant/meta")⟩
    auditKey := ⟨dk.id, subkey (ascii "dioptron/v1/tenant/audit")⟩ }

def address (dk : TenantDataKey C) : AddressKeys C :=
  let subkey := C.hkdf none dk.key
  { index := subkey (ascii "dioptron/v1/tenant/index")
    blobAddr := subkey (ascii "dioptron/v1/tenant/blob-addr") }

end TenantDataKey

/-- The address of a captured envelope: a keyed hash of its bytes. -/
def AddressKeys.blobAddress (keys : AddressKeys C) (plaintext : Bytes) : C.Block :=
  C.hmac keys.blobAddr (Str.ofBytes plaintext)

/-! ## Values and sealing -/

/-- A stored value: plain metadata, or a header, a nonce and a ciphertext. -/
inductive Value (C : Crypto)
  | raw (s : Str C.Block)
  | framed (header : Bytes) (nonce : C.Nonce) (ct : C.Cipher)

def nonceLen : Nat := 24

def Value.len : Value C → Nat
  | .raw s => s.len
  | .framed header _ ct => header.length + nonceLen + C.cipherLen ct

def schemaVersion : Nat := 1

def sealedRecordVersion : Nat := 1

/-- The additional data of a seal.  Both variable-length fields carry their length. -/
def sealAad (slot : Slot) (recordKey : Str C.Block) (keyId : KeyId) : Str C.Block :=
  Str.ofBytes (ascii "dioptron/v1" ++ leBytes 4 schemaVersion ++ [slot.kind] ++
    leBytes 4 keyId.toNat) ++ Str.lengthPrefixed 2 (Str.ofBytes slot.keyspace.name) ++
    Str.lengthPrefixed 2 recordKey

/-- The additional data, refused when a component does not fit its length prefix. -/
def aad (slot : Slot) (recordKey : Str C.Block) (keyId : KeyId) :
    Except Error (Str C.Block) := do
  ensure (slot.keyspace.name.length < 2 ^ 16)
    (.aadComponentTooLong "keyspace name" slot.keyspace.name.length)
  ensure (recordKey.len < 2 ^ 16) (.aadComponentTooLong "record key" recordKey.len)
  return sealAad slot recordKey keyId

def sealedHeader (keyId : KeyId) : Bytes :=
  leBytes 2 sealedRecordVersion ++ leBytes 4 keyId.toNat

/-- The sealed value of `plain` under `key` at one slot and record key. -/
def sealedValue (key : SealingKey C) (slot : Slot) (recordKey : Str C.Block) (nonce : C.Nonce)
    (plain : Plain C.Block) : Value C :=
  .framed (sealedHeader key.id) nonce
    (C.encrypt key.key nonce (sealAad slot recordKey key.id) plain)

def sealBytes (key : SealingKey C) (slot : Slot) (recordKey : Str C.Block) (nonce : C.Nonce)
    (plain : Plain C.Block) : Except Error (Value C) := do
  ensure (C.encodedLen plain ≤ maxPlaintextLen) (.plaintextTooLarge (C.encodedLen plain))
  let _ ← aad slot recordKey key.id
  return sealedValue key slot recordKey nonce plain

def minSealedLen : Nat := 46

/-- A little-endian number. -/
def readLe : Bytes → Nat
  | [] => 0
  | b :: rest => b.toNat + 256 * readLe rest

/-- The version, key id, nonce and ciphertext of a sealed value. -/
def Value.parseSealed : Value C → Option (Nat × KeyId × C.Nonce × C.Cipher)
  | .framed [v₀, v₁, k₀, k₁, k₂, k₃] nonce ct =>
    some (readLe [v₀, v₁], UInt32.ofNat (readLe [k₀, k₁, k₂, k₃]), nonce, ct)
  | _ => none

/-- The key id in a sealed value's header. -/
def Value.sealedKeyId (v : Value C) : Option KeyId := v.parseSealed.map fun x => x.2.1

/-- Opens a sealed value under whichever of `keys` its header names. -/
def openBytes (keys : List (SealingKey C)) (slot : Slot) (recordKey : Str C.Block)
    (v : Value C) : Except Error (Plain C.Block) := do
  ensure (minSealedLen ≤ v.len) (.malformed "sealed value" v.len)
  match v.parseSealed with
  | none => throw (.malformed "sealed value" v.len)
  | some (version, keyId, nonce, ct) =>
    ensure (version = sealedRecordVersion) (.unsupportedRecordVersion version)
    match keys.find? fun key => key.id == keyId with
    | none => throw (.unknownKeyId keyId)
    | some key =>
      let additional ← aad slot recordKey keyId
      match C.decrypt key.key nonce additional ct with
      | some plain => return plain
      | none => throw (.open_ slot.keyspace)

/-! ## What opens what -/

/-- A name names its keyspace. -/
theorem Keyspace.find_name (k : Keyspace) :
    Keyspace.all.find? (fun e => e.name == k.name) = some k := by
  cases k <;> rfl

theorem Keyspace.name_injective : Function.Injective Keyspace.name := by
  intro a b h
  have ha := Keyspace.find_name a
  rw [h, Keyspace.find_name b] at ha
  exact (Option.some.inj ha).symm

theorem Keyspace.name_length_lt (k : Keyspace) : k.name.length < 2 ^ 16 := by
  cases k <;> decide

theorem readLe_leBytes {width n : Nat} (h : n < 256 ^ width) : readLe (leBytes width n) = n := by
  induction width generalizing n with
  | zero => simp at h; simp [leBytes, readLe, h]
  | succ width ih =>
    have hdiv : n / 256 < 256 ^ width := by rw [pow_succ] at h; omega
    simp only [leBytes, readLe, ih hdiv, UInt8.toNat_ofNat']
    omega

theorem readLe_keyId (id : KeyId) : UInt32.ofNat (readLe (leBytes 4 id.toNat)) = id := by
  rw [readLe_leBytes (by have := id.toNat_lt; omega), UInt32.ofNat_toNat]

theorem parseSealed_sealedValue (key : SealingKey C) (slot : Slot) (rk : Str C.Block)
    (nonce : C.Nonce) (p : Plain C.Block) :
    (sealedValue key slot rk nonce p).parseSealed =
      some (sealedRecordVersion, key.id, nonce,
        C.encrypt key.key nonce (sealAad slot rk key.id) p) := by
  have hid := readLe_keyId key.id
  simp only [leBytes] at hid
  simp only [sealedValue, sealedHeader, leBytes, List.cons_append, List.nil_append,
    Value.parseSealed, hid]
  rfl

@[simp] theorem sealedKeyId_sealedValue (key : SealingKey C) (slot : Slot) (rk : Str C.Block)
    (nonce : C.Nonce) (p : Plain C.Block) :
    (sealedValue key slot rk nonce p).sealedKeyId = some key.id := by
  rw [Value.sealedKeyId, parseSealed_sealedValue]
  rfl

/-- A sealed value tells the key it is under and its plaintext. -/
theorem sealedValue_inj {key key' : SealingKey C} {slot : Slot} {nonce' : C.Nonce}
    {p' : Plain C.Block}
    (h : sealedValue key slot rk nonce p = sealedValue key' slot' rk' nonce' p') :
    key = key' ∧ p = p' := by
  have hparse := congrArg Value.parseSealed h
  rw [parseSealed_sealedValue, parseSealed_sealedValue, Option.some.injEq] at hparse
  simp only [Prod.mk.injEq] at hparse
  obtain ⟨-, hid, -, hct⟩ := hparse
  obtain ⟨hkey, -, -, hp⟩ := C.encrypt_inj hct
  obtain ⟨id, block⟩ := key
  obtain ⟨id', block'⟩ := key'
  simp only at hid hkey
  exact ⟨by rw [hid, hkey], hp⟩

theorem minSealedLen_le_sealedValue (key : SealingKey C) (slot : Slot) (rk : Str C.Block)
    (nonce : C.Nonce) (p : Plain C.Block) :
    minSealedLen ≤ (sealedValue key slot rk nonce p).len := by
  simp only [sealedValue, Value.len, C.cipherLen_encrypt, sealedHeader, List.length_append,
    leBytes_length, minSealedLen, nonceLen]
  omega

theorem aad_eq_ok {slot : Slot} (id : KeyId) (h : rk.len < 2 ^ 16) :
    aad slot rk id = .ok (sealAad slot rk id) := by
  simp only [aad, ensure_of_true (Keyspace.name_length_lt _), ensure_of_true h, ok_bind]
  rfl

/-- The additional data names the slot, the record key and the key id. -/
theorem sealAad_inj {slot : Slot} {id id' : KeyId}
    (h : sealAad slot rk id = sealAad slot' rk' id') : slot = slot' ∧ rk = rk' := by
  simp only [sealAad, Str.ofBytes_append, List.append_assoc] at h
  obtain ⟨-, h⟩ := Str.ofBytes_append_inj rfl h
  obtain ⟨-, h⟩ := Str.ofBytes_append_inj rfl h
  obtain ⟨hkind, h⟩ := Str.ofBytes_append_inj (by simp) h
  obtain ⟨-, h⟩ := Str.ofBytes_append_inj (by simp) h
  obtain ⟨hname, hrk⟩ := Str.lengthPrefixed_append_inj
    (by simpa using slot.keyspace.name_length_lt) (by simpa using slot'.keyspace.name_length_lt) h
  have hspace : slot.keyspace = slot'.keyspace :=
    Keyspace.name_injective (Str.ofBytes_injective hname)
  exact ⟨Slot.ext hspace (List.cons.inj hkind).1, Str.lengthPrefixed_inj hrk⟩

/-- A sealed value opens to its plaintext under its own key, in its own slot and at its
own record key, and fails otherwise. -/
theorem openBytes_sealedValue (keys : List (SealingKey C)) {slot : Slot} (key : SealingKey C)
    (nonce : C.Nonce) (p : Plain C.Block) (hrk : rk.len < 2 ^ 16) :
    openBytes keys slot rk (sealedValue key slot' rk' nonce p) =
      match keys.find? fun k => k.id == key.id with
      | none => .error (.unknownKeyId key.id)
      | some k =>
        if k.key = key.key ∧ slot = slot' ∧ rk = rk' then .ok p
        else .error (.open_ slot.keyspace) := by
  unfold openBytes
  rw [ensure_of_true (minSealedLen_le_sealedValue ..), ok_bind, parseSealed_sealedValue]
  dsimp only
  rw [ensure_of_true rfl, ok_bind]
  cases hfind : keys.find? fun k => k.id == key.id with
  | none => rfl
  | some k =>
    dsimp only
    rw [aad_eq_ok _ hrk, ok_bind]
    by_cases h : k.key = key.key ∧ slot = slot' ∧ rk = rk'
    · obtain ⟨hkey, rfl, rfl⟩ := h
      simp only [hkey, C.decrypt_encrypt, and_self, if_true]
      rfl
    · rw [if_neg h]
      cases hdec : C.decrypt k.key nonce (sealAad slot rk key.id)
          (C.encrypt key.key nonce (sealAad slot' rk' key.id) p) with
      | none => rfl
      | some =>
        obtain ⟨hkey, -, haad, -⟩ := C.encrypt_inj (C.decrypt_eq_some hdec)
        exact absurd ⟨hkey.symm, (sealAad_inj haad.symm)⟩ h

theorem sealBytes_eq_ok {key : SealingKey C} {slot : Slot} (hrk : rk.len < 2 ^ 16)
    (hp : C.encodedLen p ≤ maxPlaintextLen) :
    sealBytes key slot rk nonce p = .ok (sealedValue key slot rk nonce p) := by
  simp only [sealBytes, ensure_of_true hp, aad_eq_ok _ hrk, ok_bind]
  rfl

theorem sealBytes_too_large {key : SealingKey C} {slot : Slot}
    (hp : ¬ C.encodedLen p ≤ maxPlaintextLen) :
    sealBytes key slot rk nonce p = .error (.plaintextTooLarge (C.encodedLen p)) := by
  simp only [sealBytes, ensure, if_neg hp]
  rfl

/-! ## Wrapped keys -/

def wrappedKeyLen : Nat := 82

def wrappedAddressLen : Nat := 110

def wrapAad (kekId dataKeyId : KeyId) (tenant : TenantId) : Str C.Block :=
  Str.ofBytes (ascii "dioptron/v1/wrap" ++ leBytes 4 kekId.toNat ++ leBytes 4 dataKeyId.toNat ++
    tenant.toBytes)

def addressAad (kekId : KeyId) (tenant : TenantId) : Str C.Block :=
  Str.ofBytes (ascii "dioptron/v1/wrap-address" ++ leBytes 4 kekId.toNat ++ tenant.toBytes)

namespace StoreKeys

def wrapTenantKey (keys : StoreKeys C) (tenant : TenantId) (nonce : C.Nonce)
    (key : TenantDataKey C) : Value C :=
  .framed (leBytes 2 1 ++ leBytes 4 keys.rootKeyId.toNat ++ leBytes 4 key.id.toNat) nonce
    (C.encrypt keys.kek nonce (wrapAad keys.rootKeyId key.id tenant) (.dataKey key.key))

/-- The version, wrapping key id, data key id, nonce and ciphertext of a wrapped key. -/
def parseWrapped : Value C → Option (Nat × KeyId × KeyId × C.Nonce × C.Cipher)
  | .framed [v₀, v₁, k₀, k₁, k₂, k₃, d₀, d₁, d₂, d₃] nonce ct =>
    some (readLe [v₀, v₁], UInt32.ofNat (readLe [k₀, k₁, k₂, k₃]),
      UInt32.ofNat (readLe [d₀, d₁, d₂, d₃]), nonce, ct)
  | _ => none

def unwrapTenantKey (keys : StoreKeys C) (tenant : TenantId) (wrapped : Value C) :
    Except Error (TenantDataKey C) := do
  ensure (wrapped.len = wrappedKeyLen) (.malformed "wrapped tenant key" wrapped.len)
  match parseWrapped wrapped with
  | none => throw (.malformed "wrapped tenant key" wrapped.len)
  | some (version, kekId, dataKeyId, nonce, ct) =>
    ensure (version = 1) (.unsupportedRecordVersion version)
    ensure (kekId = keys.rootKeyId) (.unknownKeyId kekId)
    match C.decrypt keys.kek nonce (wrapAad kekId dataKeyId tenant) ct with
    | none => throw .tenantKeyUnwrap
    | some (.dataKey key) => return ⟨dataKeyId, key⟩
    | some p => throw (.malformed "unwrapped tenant key" (C.encodedLen p))

def wrapAddressKeys (keys : StoreKeys C) (tenant : TenantId) (nonce : C.Nonce)
    (address : AddressKeys C) : Value C :=
  .framed (leBytes 2 1 ++ leBytes 4 keys.rootKeyId.toNat) nonce
    (C.encrypt keys.kek nonce (addressAad keys.rootKeyId tenant)
      (.addressKeys address.index address.blobAddr))

def unwrapAddressKeys (keys : StoreKeys C) (tenant : TenantId) (wrapped : Value C) :
    Except Error (AddressKeys C) := do
  ensure (wrapped.len = wrappedAddressLen) (.malformed "wrapped addressing subkeys" wrapped.len)
  match wrapped.parseSealed with
  | none => throw (.malformed "wrapped addressing subkeys" wrapped.len)
  | some (version, kekId, nonce, ct) =>
    ensure (version = 1) (.unsupportedRecordVersion version)
    ensure (kekId = keys.rootKeyId) (.unknownKeyId kekId)
    match C.decrypt keys.kek nonce (addressAad kekId tenant) ct with
    | none => throw .tenantKeyUnwrap
    | some (.addressKeys index blobAddr) => return ⟨index, blobAddr⟩
    | some p => throw (.malformed "unwrapped addressing subkeys" (C.encodedLen p))

/-- A data key unwraps under the keys it was wrapped with. -/
theorem unwrapTenantKey_wrapTenantKey (keys : StoreKeys C) (tenant : TenantId) (nonce : C.Nonce)
    (key : TenantDataKey C) :
    keys.unwrapTenantKey tenant (keys.wrapTenantKey tenant nonce key) = .ok key := by
  have hlen : (keys.wrapTenantKey tenant nonce key).len = wrappedKeyLen := by
    simp [wrapTenantKey, Value.len, C.cipherLen_encrypt, C.encodedLen_dataKey, wrappedKeyLen,
      nonceLen]
  have hparse : parseWrapped (keys.wrapTenantKey tenant nonce key) =
      some (1, keys.rootKeyId, key.id, nonce,
        C.encrypt keys.kek nonce (wrapAad keys.rootKeyId key.id tenant) (.dataKey key.key)) := by
    have hroot := readLe_keyId keys.rootKeyId
    have hid := readLe_keyId key.id
    simp only [leBytes] at hroot hid
    simp only [wrapTenantKey, leBytes, List.cons_append, List.nil_append, parseWrapped, hroot, hid]
    rfl
  unfold unwrapTenantKey
  rw [ensure_of_true hlen, ok_bind, hparse]
  dsimp only
  rw [ensure_of_true rfl, ensure_of_true rfl, ok_bind, ok_bind, C.decrypt_encrypt]
  rfl

/-- Addressing keys unwrap under the keys they were wrapped with. -/
theorem unwrapAddressKeys_wrapAddressKeys (keys : StoreKeys C) (tenant : TenantId)
    (nonce : C.Nonce) (address : AddressKeys C) :
    keys.unwrapAddressKeys tenant (keys.wrapAddressKeys tenant nonce address) = .ok address := by
  have hlen : (keys.wrapAddressKeys tenant nonce address).len = wrappedAddressLen := by
    simp [wrapAddressKeys, Value.len, C.cipherLen_encrypt, C.encodedLen_addressKeys,
      wrappedAddressLen, nonceLen]
  have hparse : (keys.wrapAddressKeys tenant nonce address).parseSealed =
      some (1, keys.rootKeyId, nonce, C.encrypt keys.kek nonce
        (addressAad keys.rootKeyId tenant) (.addressKeys address.index address.blobAddr)) := by
    have hroot := readLe_keyId keys.rootKeyId
    simp only [leBytes] at hroot
    simp only [wrapAddressKeys, leBytes, List.cons_append, List.nil_append, Value.parseSealed,
      hroot]
    rfl
  unfold unwrapAddressKeys
  rw [ensure_of_true hlen, ok_bind, hparse]
  dsimp only
  rw [ensure_of_true rfl, ensure_of_true rfl, ok_bind, ok_bind, C.decrypt_encrypt]
  rfl

/-- Keys of two roots differ in every subkey, so neither opens what the other sealed. -/
theorem derive_inj {root root' : C.Block} {id id' : KeyId} {salt salt' : C.Block}
    (h : (derive root id salt).check = (derive root' id' salt').check) : root = root' :=
  (C.hkdf_inj h).1

end StoreKeys

end Dioptron
