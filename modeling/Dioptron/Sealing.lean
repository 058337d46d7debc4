import Dioptron.Crypto

/-! # Sealed values open only where they were sealed

The sealed-value format for every schema version, and the wrapped keys beside it.  Opening
is the exact inverse of sealing: the header gives back the key id it was written from, the
additional data determine the context, and the cipher refuses anything else.  The store
seals and opens at its own schema version.
-/
namespace Dioptron

variable {C : Crypto} {v : Value C} {nonce : C.Nonce}

/-! ## The format -/

/-- Where a sealed value lives. -/
@[ext] structure SealContext (C : Crypto) where
  schemaVersion : UInt32
  keyspace : Keyspace
  kind : RecordKind
  recordKey : Str C.Block

/-- Appends bytes behind their 16-bit length. -/
def pushPrefixed (out : Str C.Block) (component : String) (bytes : Str C.Block) :
    Except Error (Str C.Block) := do
  ensure (bytes.len < 2 ^ 16) (.aadComponentTooLong component bytes.len)
  return out ++ Str.lengthPrefixed 2 bytes

namespace SealContext

def aad (ctx : SealContext C) (keyId : KeyId) : Except Error (Str C.Block) := do
  let fixed := Str.ofBytes (ascii "dioptron/v1" ++ leBytes 4 ctx.schemaVersion.toNat ++
    [ctx.kind] ++ leBytes 4 keyId.toNat)
  let named ← pushPrefixed fixed "keyspace name" (Str.ofBytes ctx.keyspace.name)
  pushPrefixed named "record key" ctx.recordKey

/-- The additional data of a context whose parts fit their lengths. -/
def additional (ctx : SealContext C) (keyId : KeyId) : Str C.Block :=
  Str.ofBytes (ascii "dioptron/v1" ++ leBytes 4 ctx.schemaVersion.toNat ++ [ctx.kind] ++
    leBytes 4 keyId.toNat) ++ Str.lengthPrefixed 2 (Str.ofBytes ctx.keyspace.name) ++
    Str.lengthPrefixed 2 ctx.recordKey

/-- The value that sealing writes. -/
def sealed (ctx : SealContext C) (key : SealingKey C) (nonce : C.Nonce) (plain : Plain C.Block) :
    Value C :=
  .framed (sealedHeader key.id) nonce (C.encrypt key.key nonce (ctx.additional key.id) plain)

end SealContext

def sealWith (key : SealingKey C) (ctx : SealContext C) (plain : Plain C.Block)
    (nonce : C.Nonce) : Except Error (Value C) := do
  ensure (C.encodedLen plain ≤ maxPlaintextLen) (.plaintextTooLarge (C.encodedLen plain))
  let additional ← ctx.aad key.id
  return .framed (sealedHeader key.id) nonce (C.encrypt key.key nonce additional plain)

/-- Opens a value read from `ctx` under the key its header names. -/
def openSealed (keys : List (SealingKey C)) (ctx : SealContext C) (v : Value C) :
    Except Error (Plain C.Block) := do
  ensure (minSealedLen ≤ v.len) (.malformed "sealed value" v.len)
  match v.parseSealed with
  | none => throw (.malformed "sealed value" v.len)
  | some (version, keyId, nonce, ct) =>
    ensure (version = sealedRecordVersion) (.unsupportedRecordVersion version)
    match keys.find? fun key => key.id == keyId with
    | none => throw (.unknownKeyId keyId)
    | some key =>
      let additional ← ctx.aad keyId
      match C.decrypt key.key nonce additional ct with
      | some plain => return plain
      | none => throw (.open_ ctx.keyspace)

theorem pushPrefixed_eq (out : Str C.Block) (component : String) (bytes : Str C.Block) :
    pushPrefixed out component bytes =
      if bytes.len < 2 ^ 16 then .ok (out ++ Str.lengthPrefixed 2 bytes)
      else .error (.aadComponentTooLong component bytes.len) := by
  unfold pushPrefixed ensure
  split
  · rfl
  · rfl

namespace SealContext

theorem aad_eq (ctx : SealContext C) (keyId : KeyId) :
    ctx.aad keyId = if ctx.recordKey.len < 2 ^ 16 then .ok (ctx.additional keyId)
      else .error (.aadComponentTooLong "record key" ctx.recordKey.len) := by
  have hname : (Str.ofBytes ctx.keyspace.name : Str C.Block).len < 2 ^ 16 := by
    rw [Str.len_ofBytes]
    exact ctx.keyspace.name_length_lt
  change (pushPrefixed _ _ _ >>= fun named => pushPrefixed named _ _) = _
  rw [pushPrefixed_eq, if_pos hname, ok_bind, pushPrefixed_eq]
  rfl

/-- The additional data name every part of the context and the key id. -/
theorem additional_inj {ctx ctx' : SealContext C} {id id' : KeyId}
    (h : ctx.additional id = ctx'.additional id') : ctx = ctx' ∧ id = id' := by
  simp only [additional, Str.ofBytes_append, List.append_assoc] at h
  obtain ⟨-, h⟩ := Str.ofBytes_append_inj rfl h
  obtain ⟨hversion, h⟩ := Str.ofBytes_append_inj (by simp) h
  obtain ⟨hkind, h⟩ := Str.ofBytes_append_inj (by simp) h
  obtain ⟨hid, h⟩ := Str.ofBytes_append_inj (by simp) h
  obtain ⟨hname, hkey⟩ := Str.lengthPrefixed_append_inj
    (by simpa using ctx.keyspace.name_length_lt) (by simpa using ctx'.keyspace.name_length_lt) h
  refine ⟨SealContext.ext ?_ ?_ (List.cons.inj hkind).1 (Str.lengthPrefixed_inj hkey), ?_⟩
  · exact UInt32.toNat_inj.mp
      (leBytes_inj ctx.schemaVersion.toNat_lt ctx'.schemaVersion.toNat_lt hversion)
  · exact Keyspace.name_injective (Str.ofBytes_injective hname)
  · exact UInt32.toNat_inj.mp (leBytes_inj id.toNat_lt id'.toNat_lt hid)

theorem sealed_inj {ctx ctx' : SealContext C} {key key' : SealingKey C} {nonce nonce' : C.Nonce}
    {p p' : Plain C.Block} (h : ctx.sealed key nonce p = ctx'.sealed key' nonce' p') :
    key = key' ∧ ctx = ctx' ∧ p = p' := by
  obtain ⟨hkey, -, hadditional, hp⟩ := C.encrypt_inj (Value.framed.inj h).2.2
  obtain ⟨hctx, hid⟩ := additional_inj hadditional
  obtain ⟨id, block⟩ := key
  obtain ⟨id', block'⟩ := key'
  cases hid
  cases hkey
  exact ⟨rfl, hctx, hp⟩

end SealContext

/-! ## Headers -/

/-- Bytes are the little-endian bytes of the number they stand for. -/
theorem leBytes_readLe (bytes : Bytes) : leBytes bytes.length (readLe bytes) = bytes := by
  induction bytes with
  | nil => rfl
  | cons b rest ih =>
    have hb : b.toNat < 256 := b.toNat_lt
    have hlow : (b.toNat + 256 * readLe rest) % 256 = b.toNat := by omega
    have hhigh : (b.toNat + 256 * readLe rest) / 256 = readLe rest := by omega
    rw [List.length_cons, readLe, leBytes, hlow, hhigh, ih, UInt8.ofNat_toNat]

theorem readLe_lt (bytes : Bytes) : readLe bytes < 256 ^ bytes.length := by
  induction bytes with
  | nil => exact Nat.one_pos
  | cons b =>
    have hb : b.toNat < 256 := b.toNat_lt
    rw [List.length_cons, readLe, pow_succ]
    omega

/-- Four bytes are those of the key id they stand for. -/
theorem leBytes_keyId (k₀ k₁ k₂ k₃ : UInt8) :
    leBytes 4 (UInt32.ofNat (readLe [k₀, k₁, k₂, k₃])).toNat = [k₀, k₁, k₂, k₃] := by
  have hlt : readLe [k₀, k₁, k₂, k₃] < 2 ^ 32 :=
    lt_of_lt_of_eq (readLe_lt [k₀, k₁, k₂, k₃]) (by norm_num)
  rw [UInt32.toNat_ofNat_of_lt' hlt]
  exact leBytes_readLe [k₀, k₁, k₂, k₃]

/-- A value parses as the header it starts with. -/
theorem Value.parseSealed_eq_some {version : Nat} {id : KeyId} {ct : C.Cipher}
    (h : v.parseSealed = some (version, id, nonce, ct)) :
    v = .framed (leBytes 2 version ++ leBytes 4 id.toNat) nonce ct := by
  unfold Value.parseSealed at h
  split at h
  · simp only [Option.some.injEq, Prod.mk.injEq] at h
    obtain ⟨rfl, rfl, rfl, rfl⟩ := h
    rename_i v₀ v₁ k₀ k₁ k₂ k₃ nonce ct
    have hversion := leBytes_readLe [v₀, v₁]
    rw [leBytes_keyId, show leBytes 2 (readLe [v₀, v₁]) = [v₀, v₁] from hversion]
    rfl
  · cases h

theorem StoreKeys.parseWrapped_eq_some {version : Nat} {id dataId : KeyId} {ct : C.Cipher}
    (h : StoreKeys.parseWrapped v = some (version, id, dataId, nonce, ct)) :
    v = .framed (leBytes 2 version ++ leBytes 4 id.toNat ++ leBytes 4 dataId.toNat) nonce ct := by
  unfold StoreKeys.parseWrapped at h
  split at h
  · simp only [Option.some.injEq, Prod.mk.injEq] at h
    obtain ⟨rfl, rfl, rfl, rfl, rfl⟩ := h
    rename_i v₀ v₁ k₀ k₁ k₂ k₃ d₀ d₁ d₂ d₃ nonce ct
    have hversion := leBytes_readLe [v₀, v₁]
    rw [leBytes_keyId, leBytes_keyId, show leBytes 2 (readLe [v₀, v₁]) = [v₀, v₁] from hversion]
    rfl
  · cases h

/-! ## Opening -/

theorem sealWith_eq_ok {key : SealingKey C} {ctx : SealContext C} {p : Plain C.Block} :
    sealWith key ctx p nonce = .ok v ↔
      C.encodedLen p ≤ maxPlaintextLen ∧ ctx.recordKey.len < 2 ^ 16 ∧
        v = ctx.sealed key nonce p := by
  unfold sealWith
  rw [ctx.aad_eq]
  by_cases hp : C.encodedLen p ≤ maxPlaintextLen
  · rw [ensure_of_true hp, ok_bind]
    by_cases hkey : ctx.recordKey.len < 2 ^ 16
    · rw [if_pos hkey, ok_bind]
      exact ⟨fun h => ⟨hp, hkey, (Except.ok.inj h).symm⟩, fun h => congrArg Except.ok h.2.2.symm⟩
    · rw [if_neg hkey]
      exact ⟨fun h => (by cases h), fun h => absurd h.2.1 hkey⟩
  · rw [ensure, if_neg hp]
    exact ⟨fun h => (by cases h), fun h => absurd h.1 hp⟩

/-- **Opening inverts sealing.**  A value opens exactly when it is what sealing writes, for
the same context, under the first key of its id. -/
theorem openSealed_eq_ok {keys : List (SealingKey C)} {ctx : SealContext C} {p : Plain C.Block} :
    openSealed keys ctx v = .ok p ↔ ∃ key nonce, (keys.find? fun k => k.id == key.id) = some key ∧
      ctx.recordKey.len < 2 ^ 16 ∧ v = ctx.sealed key nonce p := by
  refine ⟨fun h => ?_, ?_⟩
  · unfold openSealed at h
    obtain ⟨u, -, h⟩ := bind_eq_ok.mp h
    cases hparse : v.parseSealed with
    | none =>
      rw [hparse] at h
      cases h
    | some parsed =>
      obtain ⟨version, id, nonce, ct⟩ := parsed
      simp only [hparse] at h
      obtain ⟨u, hversion, h⟩ := bind_eq_ok.mp h
      obtain rfl := ensure_eq_ok.mp hversion
      cases hfind : keys.find? fun k => k.id == id with
      | none =>
        rw [hfind] at h
        cases h
      | some key =>
        simp only [hfind] at h
        rw [ctx.aad_eq] at h
        by_cases hkey : ctx.recordKey.len < 2 ^ 16
        · rw [if_pos hkey, ok_bind] at h
          cases hdecrypt : C.decrypt key.key nonce (ctx.additional id) ct with
          | none =>
            rw [hdecrypt] at h
            cases h
          | some q =>
            rw [hdecrypt] at h
            obtain rfl : q = p := Except.ok.inj h
            have hmatch := List.find?_some hfind
            obtain rfl : key.id = id := beq_iff_eq.mp hmatch
            refine ⟨key, nonce, hfind, hkey, ?_⟩
            rw [Value.parseSealed_eq_some hparse, C.decrypt_eq_some hdecrypt]
            rfl
        · rw [if_neg hkey] at h
          cases h
  · rintro ⟨key, nonce, hfind, hkey, rfl⟩
    have hlen : minSealedLen ≤ (ctx.sealed key nonce p).len := by
      simp only [SealContext.sealed, Value.len, C.cipherLen_encrypt, sealedHeader,
        List.length_append, leBytes_length, minSealedLen, nonceLen]
      omega
    have hparse : (ctx.sealed key nonce p).parseSealed = some (sealedRecordVersion, key.id, nonce,
        C.encrypt key.key nonce (ctx.additional key.id) p) := by
      have hid := readLe_keyId key.id
      simp only [leBytes] at hid
      simp only [SealContext.sealed, sealedHeader, leBytes, List.cons_append, List.nil_append,
        Value.parseSealed, hid]
      rfl
    unfold openSealed
    rw [ensure_of_true hlen, ok_bind, hparse]
    dsimp only
    rw [ensure_of_true rfl, ok_bind, hfind]
    dsimp only
    rw [ctx.aad_eq, if_pos hkey, ok_bind, C.decrypt_encrypt]
    rfl

/-- The context of a record of the store. -/
def Slot.context (slot : Slot) (recordKey : Str C.Block) : SealContext C :=
  ⟨UInt32.ofNat schemaVersion, slot.keyspace, slot.kind, recordKey⟩

theorem aad_eq_context (slot : Slot) (rk : Str C.Block) (id : KeyId) :
    aad slot rk id = (slot.context rk).aad id := by
  rw [SealContext.aad_eq]
  unfold aad
  rw [ensure_of_true slot.keyspace.name_length_lt, ok_bind, ensure]
  change (if rk.len < 2 ^ 16 then _ else _) >>= _ = if rk.len < 2 ^ 16 then _ else _
  split
  · rfl
  · rfl

/-- The store's records are sealed and opened in their contexts. -/
theorem sealBytes_eq_sealWith (key : SealingKey C) (slot : Slot) (rk : Str C.Block)
    (nonce : C.Nonce) (p : Plain C.Block) :
    sealBytes key slot rk nonce p = sealWith key (slot.context rk) p nonce := by
  unfold sealBytes sealWith
  rw [aad_eq_context, SealContext.aad_eq]
  split
  · rfl
  · rfl

theorem openBytes_eq_openSealed (keys : List (SealingKey C)) (slot : Slot) (rk : Str C.Block)
    (v : Value C) : openBytes keys slot rk v = openSealed keys (slot.context rk) v := by
  unfold openBytes openSealed
  simp only [aad_eq_context]
  rfl

/-! ## Wrapped keys -/

namespace StoreKeys

variable {keys keys' : StoreKeys C} {tenant tenant' : TenantId} {nonce nonce' : C.Nonce}
  {v : Value C}

theorem wrapAad_inj {id id' dataId dataId' : KeyId}
    (h : (wrapAad id dataId tenant : Str C.Block) = wrapAad id' dataId' tenant') :
    id = id' ∧ dataId = dataId' ∧ tenant = tenant' := by
  simp only [wrapAad, List.append_assoc] at h
  have h := List.append_cancel_left (Str.ofBytes_injective h)
  obtain ⟨hid, h⟩ := List.append_inj h (by simp)
  obtain ⟨hdata, htenant⟩ := List.append_inj h (by simp)
  exact ⟨UInt32.toNat_inj.mp (leBytes_inj id.toNat_lt id'.toNat_lt hid),
    UInt32.toNat_inj.mp (leBytes_inj dataId.toNat_lt dataId'.toNat_lt hdata),
    Ulid.toBytes_injective htenant⟩

theorem addressAad_inj {id id' : KeyId}
    (h : (addressAad id tenant : Str C.Block) = addressAad id' tenant') :
    id = id' ∧ tenant = tenant' := by
  simp only [addressAad, List.append_assoc] at h
  have h := List.append_cancel_left (Str.ofBytes_injective h)
  obtain ⟨hid, htenant⟩ := List.append_inj h (by simp)
  exact ⟨UInt32.toNat_inj.mp (leBytes_inj id.toNat_lt id'.toNat_lt hid),
    Ulid.toBytes_injective htenant⟩

/-- A data key unwraps from exactly what wrapping it for the tenant writes. -/
theorem unwrapTenantKey_eq_ok {key : TenantDataKey C} :
    keys.unwrapTenantKey tenant v = .ok key ↔ ∃ nonce, v = keys.wrapTenantKey tenant nonce key := by
  refine ⟨fun h => ?_, ?_⟩
  · unfold unwrapTenantKey at h
    obtain ⟨u, -, h⟩ := bind_eq_ok.mp h
    cases hparse : parseWrapped v with
    | none =>
      rw [hparse] at h
      cases h
    | some parsed =>
      obtain ⟨version, id, dataId, nonce, ct⟩ := parsed
      simp only [hparse] at h
      obtain ⟨u, hversion, hchecked⟩ := bind_eq_ok.mp h
      obtain ⟨u, hid, hopened⟩ := bind_eq_ok.mp hchecked
      obtain rfl := ensure_eq_ok.mp hversion
      obtain rfl := ensure_eq_ok.mp hid
      cases hdecrypt : C.decrypt keys.kek nonce (wrapAad keys.rootKeyId dataId tenant) ct with
      | none =>
        rw [hdecrypt] at hopened
        cases hopened
      | some plain =>
        rw [hdecrypt] at hopened
        cases plain
        case dataKey =>
          obtain rfl := Except.ok.inj hopened
          refine ⟨nonce, ?_⟩
          rw [parseWrapped_eq_some hparse, C.decrypt_eq_some hdecrypt]
          rfl
        all_goals cases hopened
  · rintro ⟨nonce, rfl⟩
    exact unwrapTenantKey_wrapTenantKey keys tenant nonce key

/-- Addressing keys unwrap from exactly what wrapping them for the tenant writes. -/
theorem unwrapAddressKeys_eq_ok {address : AddressKeys C} :
    keys.unwrapAddressKeys tenant v = .ok address ↔
      ∃ nonce, v = keys.wrapAddressKeys tenant nonce address := by
  refine ⟨fun h => ?_, ?_⟩
  · unfold unwrapAddressKeys at h
    obtain ⟨u, -, h⟩ := bind_eq_ok.mp h
    cases hparse : v.parseSealed with
    | none =>
      rw [hparse] at h
      cases h
    | some parsed =>
      obtain ⟨version, id, nonce, ct⟩ := parsed
      simp only [hparse] at h
      obtain ⟨u, hversion, hchecked⟩ := bind_eq_ok.mp h
      obtain ⟨u, hid, hopened⟩ := bind_eq_ok.mp hchecked
      obtain rfl := ensure_eq_ok.mp hversion
      obtain rfl := ensure_eq_ok.mp hid
      cases hdecrypt : C.decrypt keys.kek nonce (addressAad keys.rootKeyId tenant) ct with
      | none =>
        rw [hdecrypt] at hopened
        cases hopened
      | some plain =>
        rw [hdecrypt] at hopened
        cases plain
        case addressKeys =>
          obtain rfl := Except.ok.inj hopened
          refine ⟨nonce, ?_⟩
          rw [Value.parseSealed_eq_some hparse, C.decrypt_eq_some hdecrypt]
          rfl
        all_goals cases hopened
  · rintro ⟨nonce, rfl⟩
    exact unwrapAddressKeys_wrapAddressKeys keys tenant nonce address

/-- A wrapped data key unwraps for its own tenant and root alone, to itself. -/
theorem unwrapTenantKey_wrapped {key key' : TenantDataKey C} :
    keys'.unwrapTenantKey tenant' (keys.wrapTenantKey tenant nonce key) = .ok key' ↔
      keys'.kek = keys.kek ∧ keys'.rootKeyId = keys.rootKeyId ∧ tenant' = tenant ∧ key' = key := by
  rw [unwrapTenantKey_eq_ok]
  refine ⟨?_, ?_⟩
  · rintro ⟨nonce', heq⟩
    obtain ⟨hkek, -, hadditional, hplain⟩ := C.encrypt_inj (Value.framed.inj heq).2.2
    obtain ⟨hroot, hid, htenant⟩ := wrapAad_inj hadditional
    obtain ⟨id, block⟩ := key
    obtain ⟨id', block'⟩ := key'
    cases hid
    cases hplain
    exact ⟨hkek.symm, hroot.symm, htenant.symm, rfl⟩
  · rintro ⟨hkek, hroot, rfl, rfl⟩
    exact ⟨nonce, by rw [wrapTenantKey, wrapTenantKey, hkek, hroot]⟩

/-- Wrapped addressing keys unwrap for their own tenant and root alone, to themselves. -/
theorem unwrapAddressKeys_wrapped {address address' : AddressKeys C} :
    keys'.unwrapAddressKeys tenant' (keys.wrapAddressKeys tenant nonce address) = .ok address' ↔
      keys'.kek = keys.kek ∧ keys'.rootKeyId = keys.rootKeyId ∧ tenant' = tenant ∧
        address' = address := by
  rw [unwrapAddressKeys_eq_ok]
  refine ⟨?_, ?_⟩
  · rintro ⟨nonce', heq⟩
    obtain ⟨hkek, -, hadditional, hplain⟩ := C.encrypt_inj (Value.framed.inj heq).2.2
    obtain ⟨hroot, htenant⟩ := addressAad_inj hadditional
    obtain ⟨index, blobAddr⟩ := address
    obtain ⟨index', blobAddr'⟩ := address'
    cases hplain
    exact ⟨hkek.symm, hroot.symm, htenant.symm, rfl⟩
  · rintro ⟨hkek, hroot, rfl, rfl⟩
    exact ⟨nonce, by rw [wrapAddressKeys, wrapAddressKeys, hkek, hroot]⟩

/-- The two forms of wrapped keys have headers of different lengths. -/
theorem wrapTenantKey_ne_wrapAddressKeys {key : TenantDataKey C} {address : AddressKeys C} :
    keys.wrapTenantKey tenant nonce key ≠ keys'.wrapAddressKeys tenant' nonce' address := by
  intro heq
  have hlen := congrArg List.length (Value.framed.inj heq).1
  simp only [List.length_append, leBytes_length] at hlen
  omega

end StoreKeys

/-- **Sealed values open only where they were sealed.**  A value opens to a plaintext only if
it is what sealing that plaintext writes at the same context under a key of the list, and
then no other sealing writes it; a sealed value opens at its context under every list in which
its key is the first of its id.  Wrapped keys unwrap to themselves, for the tenant and the
root key they were wrapped for alone, and neither form unwraps as the other. -/
theorem opens_only_where_sealed :
    (∀ (keys : List (SealingKey C)) (ctx : SealContext C) (v : Value C) (p : Plain C.Block),
      openSealed keys ctx v = .ok p → ∃ key ∈ keys, ∃ nonce, v = ctx.sealed key nonce p ∧
        (C.encodedLen p ≤ maxPlaintextLen → sealWith key ctx p nonce = .ok v) ∧
        ∀ key' ctx' p' nonce', sealWith key' ctx' p' nonce' = .ok v →
          key' = key ∧ ctx' = ctx ∧ p' = p) ∧
    (∀ (keys : List (SealingKey C)) (key : SealingKey C) (ctx : SealContext C) (p : Plain C.Block)
      (nonce : C.Nonce) (v : Value C), sealWith key ctx p nonce = .ok v →
        (keys.find? fun k => k.id == key.id) = some key → openSealed keys ctx v = .ok p) ∧
    (∀ (keys : StoreKeys C) (tenant : TenantId) (v : Value C),
      (∀ key, keys.unwrapTenantKey tenant v = .ok key →
        ∃ nonce, v = keys.wrapTenantKey tenant nonce key) ∧
      ∀ address, keys.unwrapAddressKeys tenant v = .ok address →
        ∃ nonce, v = keys.wrapAddressKeys tenant nonce address) ∧
    (∀ (keys keys' : StoreKeys C) (tenant tenant' : TenantId) (nonce : C.Nonce)
      (key key' : TenantDataKey C) (address address' : AddressKeys C),
      (keys'.unwrapTenantKey tenant' (keys.wrapTenantKey tenant nonce key) = .ok key' ↔
        keys'.kek = keys.kek ∧ keys'.rootKeyId = keys.rootKeyId ∧ tenant' = tenant ∧ key' = key) ∧
      (keys'.unwrapAddressKeys tenant' (keys.wrapAddressKeys tenant nonce address) = .ok address' ↔
        keys'.kek = keys.kek ∧ keys'.rootKeyId = keys.rootKeyId ∧ tenant' = tenant ∧
          address' = address) ∧
      keys'.unwrapTenantKey tenant' (keys.wrapAddressKeys tenant nonce address) ≠ .ok key' ∧
      keys'.unwrapAddressKeys tenant' (keys.wrapTenantKey tenant nonce key) ≠ .ok address') ∧
    ∀ (root root' : C.Block) (id id' : KeyId) (salt salt' : C.Block),
      (StoreKeys.derive root id salt).kek = (StoreKeys.derive root' id' salt').kek →
        root = root' := by
  refine ⟨?_, ?_, ?_, ?_, fun root root' id id' salt salt' h => (C.hkdf_inj h).1⟩
  · intro keys ctx v p hopen
    obtain ⟨key, nonce, hfind, hkey, rfl⟩ := openSealed_eq_ok.mp hopen
    refine ⟨key, List.mem_of_find?_eq_some hfind, nonce, rfl, ?_, ?_⟩
    · exact fun hp => sealWith_eq_ok.mpr ⟨hp, hkey, rfl⟩
    · intro key' ctx' p' nonce' hseal
      obtain ⟨-, -, heq⟩ := sealWith_eq_ok.mp hseal
      obtain ⟨hk, hctx, hp⟩ := SealContext.sealed_inj heq
      exact ⟨hk.symm, hctx.symm, hp.symm⟩
  · intro keys key ctx p nonce v hseal hfind
    obtain ⟨-, hkey, rfl⟩ := sealWith_eq_ok.mp hseal
    exact openSealed_eq_ok.mpr ⟨key, nonce, hfind, hkey, rfl⟩
  · exact fun keys tenant v => ⟨fun key => StoreKeys.unwrapTenantKey_eq_ok.mp,
      fun address => StoreKeys.unwrapAddressKeys_eq_ok.mp⟩
  · intro keys keys' tenant tenant' nonce key key' address address'
    refine ⟨StoreKeys.unwrapTenantKey_wrapped, StoreKeys.unwrapAddressKeys_wrapped, ?_, ?_⟩
    · intro hunwrap
      obtain ⟨nonce', heq⟩ := StoreKeys.unwrapTenantKey_eq_ok.mp hunwrap
      exact StoreKeys.wrapTenantKey_ne_wrapAddressKeys heq.symm
    · intro hunwrap
      obtain ⟨nonce', heq⟩ := StoreKeys.unwrapAddressKeys_eq_ok.mp hunwrap
      exact StoreKeys.wrapTenantKey_ne_wrapAddressKeys heq

end Dioptron
