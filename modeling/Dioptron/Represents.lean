import Dioptron.Holdings
import Dioptron.Sealing

/-! # How the store holds the book

`Represents K L s`: the database of `s` holds exactly the records of `L`, each sealed in
its slot, at its own key, under a key that its readers try.  `K` says which keys are in
use: the root the store keys come from, every data key issued so far, which of them is
active and how far a rotation has come.
-/
namespace Dioptron

variable {C : Crypto}

/-- The keys in use. -/
structure KeyState (C : Crypto) where
  root : C.Block
  rootId : KeyId
  salt : C.Block
  active : TenantId → KeyId
  rekey : TenantId → Option (RekeyRecord C.Block)
  dataKey : TenantId → KeyId → C.Block
  issued : Set (TenantId × KeyId)

/-- The place of a keyspace in the walk of a rotation. -/
def walkIndex : Keyspace → Option Nat
  | .idem => some 0
  | .artifacts => some 1
  | .blobs => some 2
  | .sessionIndex => some 3
  | .audit => some 4
  | _ => none

/-- The walk of rotation `r` has passed key `k` of a keyspace. -/
def Passed (r : RekeyRecord C.Block) (keyspace : Keyspace) (k : Str C.Block) : Prop :=
  ∃ i ∈ walkIndex keyspace, i < r.keyspace.toNat ∨
    i = r.keyspace.toNat ∧ ∃ c ∈ r.cursor, (compare k c).isLE

namespace KeyState

def storeKeys (K : KeyState C) : StoreKeys C := StoreKeys.derive K.root K.rootId K.salt

def metadata (K : KeyState C) : Meta C := ⟨K.rootId, K.salt, K.storeKeys.keyCheck⟩

/-- The rotation of `t` in progress. -/
def rotation (K : KeyState C) (t : TenantId) : Option (RekeyRecord C.Block) :=
  (K.rekey t).filter fun r => !r.done

/-- The sealing keys of data key `id` of `t`. -/
def sealing (K : KeyState C) (t : TenantId) (id : KeyId) : TenantSealingKeys C :=
  (⟨id, K.dataKey t id⟩ : TenantDataKey C).sealing

/-- Every record of the database with its plaintext. -/
def content (K : KeyState C) (L : Custody C) : Name C.Block → Option (Plain C.Block)
  | .tenant t => (L.profiles t).map fun p => .tenant (p.withKey (K.active t))
  | .tombstone t => (L.tombstones t).map .tombstone
  | .rekey t => (K.rekey t).map .rekey
  | .global n => L.global n
  | .sealed t n => L.sealed t n

/-- The index subkey a name is hashed under. -/
def index (K : KeyState C) (L : Custody C) : Name C.Block → C.Block
  | .sealed t _ => (L.address t).index
  | _ => K.storeKeys.index

/-- The physical key of a name. -/
def key (K : KeyState C) (L : Custody C) (n : Name C.Block) : Str C.Block :=
  RecordKey.ofName (K.index L n) n

def wrapKey (K : KeyState C) (w : WrapName) : Str C.Block := RecordKey.ofWrap K.storeKeys.index w

/-- The data keys a record of live tenant `t` at key `k` may be under: the active one
and, while a rotation has not passed it, the one being retired.  Records of a tenant
that is not live are never opened again. -/
def Allowed (K : KeyState C) (L : Custody C) (t : TenantId) (keyspace : Keyspace)
    (k : Str C.Block) (id : KeyId) : Prop :=
  (L.profiles t).isSome → id = K.active t ∨
    ∃ r ∈ K.rotation t, id = r.fromKeyId ∧ ¬ Passed r keyspace k

/-- The sealing keys a name's record may be under. -/
def SealedUnder (K : KeyState C) (L : Custody C) : Name C.Block → SealingKey C → Prop
  | .sealed t n, key => ∃ id, (t, id) ∈ K.issued ∧
      K.Allowed L t n.slot.keyspace (RecordKey.ofName (L.address t).index (.sealed t n)) id ∧
        key = n.sealer (K.sealing t id)
  | _, key => key = K.storeKeys.metaKey

/-- The ids of the data keys of `t` that are held wrapped. -/
def Held (K : KeyState C) (L : Custody C) (t : TenantId) (id : KeyId) : Prop :=
  (L.profiles t).isSome ∧ (id = K.active t ∨ ∃ r ∈ K.rotation t, id = r.fromKeyId)

/-- The value of a wrapped key under nonce `nonce`. -/
def wrap (K : KeyState C) (L : Custody C) (nonce : C.Nonce) : WrapName → Value C
  | .dataKey t id => K.storeKeys.wrapTenantKey t nonce ⟨id, K.dataKey t id⟩
  | .addressKeys t => K.storeKeys.wrapAddressKeys t nonce (L.address t)

/-- The wrapped keys the database holds: those in use of every live tenant, and the
addressing keys of every live tenant whose data key ever rotated. -/
def Wrapped (K : KeyState C) (L : Custody C) : Set WrapName
  | .dataKey t id => K.Held L t id
  | .addressKeys t => (L.profiles t).isSome ∧ (K.rekey t).isSome

variable {K : KeyState C} {L : Custody C} {t : TenantId}

theorem mem_wrapped_dataKey {id : KeyId} :
    WrapName.dataKey t id ∈ K.Wrapped L ↔
      (L.profiles t).isSome ∧ (id = K.active t ∨ ∃ r ∈ K.rotation t, id = r.fromKeyId) := .rfl

theorem mem_wrapped_addressKeys :
    WrapName.addressKeys t ∈ K.Wrapped L ↔ (L.profiles t).isSome ∧ (K.rekey t).isSome := .rfl

/-- What the keys of one tenant satisfy. -/
structure TenantOk (K : KeyState C) (L : Custody C) (t : TenantId) : Prop where
  /-- A tenant that never rotated is under its first data key, which its addresses come
  from. -/
  initial : (L.profiles t).isSome → K.rekey t = none →
    K.active t = initialDataKeyId ∧
      L.address t = (⟨initialDataKeyId, K.dataKey t initialDataKeyId⟩ : TenantDataKey C).address
  active_issued : (L.profiles t).isSome → (t, K.active t) ∈ K.issued
  live_of_rekey : ∀ r ∈ K.rekey t, (L.profiles t).isSome
  rekey_tenant : ∀ r ∈ K.rekey t, r.tenant = t
  rekey_target : ∀ r ∈ K.rekey t, r.toKeyId = K.active t
  rekey_source : ∀ r ∈ K.rekey t, r.fromKeyId ≠ K.active t
  source_issued : ∀ r ∈ K.rekey t, (t, r.fromKeyId) ∈ K.issued
  cursor_len : ∀ r ∈ K.rekey t, ∀ c ∈ r.cursor, c.len ≤ 64

/-- Only a tenant's own keys, profile and addresses matter to it. -/
theorem TenantOk.congr {K' : KeyState C} {L' : Custody C} (h : K.TenantOk L t)
    (hprofile : L'.profiles t = L.profiles t) (haddress : L'.address t = L.address t)
    (hactive : K'.active t = K.active t) (hrekey : K'.rekey t = K.rekey t)
    (hdata : K'.dataKey t = K.dataKey t) (hissued : K.issued ⊆ K'.issued) : K'.TenantOk L' t where
  initial := by rw [hprofile, haddress, hactive, hrekey, hdata]; exact h.initial
  active_issued := by rw [hprofile, hactive]; exact fun hlive => hissued (h.active_issued hlive)
  live_of_rekey := by rw [hprofile, hrekey]; exact h.live_of_rekey
  rekey_tenant := by rw [hrekey]; exact h.rekey_tenant
  rekey_target := by rw [hactive, hrekey]; exact h.rekey_target
  rekey_source := by rw [hactive, hrekey]; exact h.rekey_source
  source_issued := by rw [hrekey]; exact fun r hr => hissued (h.source_issued r hr)
  cursor_len := by rw [hrekey]; exact h.cursor_len

/-- A database holds the metadata its root unlocks. -/
def Unlocks (K : KeyState C) (db : Database C) : Prop :=
  ∀ f ∈ K.metadata.fields, db.get .metadata (metaKeyOf f.1) = some (.raw f.2)

theorem Unlocks.insert {db : Database C} (h : K.Unlocks db) {keyspace : Keyspace}
    (hne : keyspace ≠ .metadata) (k : Str C.Block) (v : Value C) :
    K.Unlocks (db.insert keyspace k v) := by
  intro f hf
  rw [Keyspaces.get_insert_of_ne (.inl hne)]
  exact h f hf

theorem Unlocks.remove {db : Database C} (h : K.Unlocks db) {keyspace : Keyspace}
    (hne : keyspace ≠ .metadata) (k : Str C.Block) : K.Unlocks (db.remove keyspace k) := by
  intro f hf
  rw [Keyspaces.get_remove_of_ne (.inl hne)]
  exact h f hf

end KeyState

/-- The database of `s` holds exactly the records of `L`, under the keys of `K`. -/
structure Represents (K : KeyState C) (L : Custody C) (s : Store C) : Prop
    extends Records (K.key L) (K.SealedUnder L) (K.content L) s.db,
      Wraps K.wrapKey (K.Wrapped L) (K.wrap L) s.db where
  metadata : K.Unlocks s.db
  keys : s.keys = K.storeKeys
  clock : s.clock = L.clock
  sized : ∀ n p, K.content L n = some p → C.encodedLen p ≤ maxPlaintextLen
  tenants : ∀ t, K.TenantOk L t
  /-- No data key was drawn twice. -/
  distinct : ∀ x ∈ K.issued, ∀ y ∈ K.issued, K.dataKey x.1 x.2 = K.dataKey y.1 y.2 → x = y
  stub_le : ∀ seq, (L.stubs seq).isSome → seq.toNat ≤ L.lastSeq
  last_stub : L.lastSeq ≠ 0 → ∃ seq : AuditSeq, seq.toNat = L.lastSeq ∧ (L.stubs seq).isSome
  /-- A tenant that was never registered has no records. -/
  owned : ∀ t n, (L.sealed t n).isSome → (L.profiles t).isSome ∨ (L.tombstones t).isSome

/-! ## Reading through the representation -/

/-- A name sealed under the store keys. -/
def Name.StoreScoped {B : Type} (n : Name B) : Prop := ∀ t m, n ≠ .sealed t m

theorem Name.storeScoped_global {B : Type} (n : GlobalName) :
    (Name.global n : Name B).StoreScoped := fun _ _ => nofun

namespace KeyState

variable {K : KeyState C} {L : Custody C} {n : Name C.Block}

theorem key_inj {n' : Name C.Block} (hspace : n.slot.keyspace = n'.slot.keyspace)
    (h : K.key L n = K.key L n') : n = n' :=
  RecordKey.ofName_inj hspace h

theorem key_len_lt (n : Name C.Block) : (K.key L n).len < 2 ^ 16 := RecordKey.ofName_len_lt _ n

theorem key_of_storeScoped (h : n.StoreScoped) :
    K.key L n = RecordKey.ofName K.storeKeys.index n := by
  cases n with
  | sealed t m => exact absurd rfl (h t m)
  | tenant t | tombstone t | rekey t | global n => rfl

theorem sealedUnder_of_storeScoped (h : n.StoreScoped) {key : SealingKey C} :
    K.SealedUnder L n key ↔ key = K.storeKeys.metaKey := by
  cases n with
  | sealed t m => exact absurd rfl (h t m)
  | tenant t | tombstone t | rekey t | global n => rfl

/-- The keyring of a live tenant. -/
def ring (K : KeyState C) (L : Custody C) (t : TenantId) : TenantKeyring C :=
  ⟨K.sealing t (K.active t), (K.rotation t).map fun r => K.sealing t r.fromKeyId, L.address t⟩

end KeyState

namespace Represents

variable {K : KeyState C} {L : Custody C} {s : Store C} {t : TenantId}

variable (h : Represents K L s)

include h

theorem globalKey_eq {n : Name C.Block} (hn : n.StoreScoped) : s.globalKey n = K.key L n := by
  rw [KeyState.key_of_storeScoped hn, Store.globalKey, h.keys]

/-- What unwraps as a data key of a tenant is one the tenant has. -/
theorem unwraps_dataKey {keys : StoreKeys C} {k : Str C.Block} {v : Value C}
    {key : TenantDataKey C} (hget : s.db.get .keys k = some v)
    (hunwrap : keys.unwrapTenantKey t v = .ok key) :
    keys.rootKeyId = K.rootId ∧ ∃ id, .dataKey t id ∈ K.Wrapped L := by
  obtain ⟨w, hw, -, nonce, rfl⟩ := h.toWraps.exists_wrap hget
  cases w with
  | dataKey _ id =>
    obtain ⟨-, hroot, rfl, -⟩ := StoreKeys.unwrapTenantKey_wrapped.mp hunwrap
    exact ⟨hroot, id, hw⟩
  | addressKeys =>
    obtain ⟨nonce', heq⟩ := StoreKeys.unwrapTenantKey_eq_ok.mp hunwrap
    exact absurd heq.symm StoreKeys.wrapTenantKey_ne_wrapAddressKeys

theorem unwraps_addressKeys {keys : StoreKeys C} {k : Str C.Block}
    {v : Value C} {address : AddressKeys C} (hget : s.db.get .keys k = some v)
    (hunwrap : keys.unwrapAddressKeys t v = .ok address) :
    keys.rootKeyId = K.rootId ∧ .addressKeys t ∈ K.Wrapped L := by
  obtain ⟨w, hw, -, nonce, rfl⟩ := h.toWraps.exists_wrap hget
  cases w with
  | dataKey =>
    obtain ⟨nonce', heq⟩ := StoreKeys.unwrapAddressKeys_eq_ok.mp hunwrap
    exact absurd heq StoreKeys.wrapTenantKey_ne_wrapAddressKeys
  | addressKeys =>
    obtain ⟨-, hroot, rfl, -⟩ := StoreKeys.unwrapAddressKeys_wrapped.mp hunwrap
    exact ⟨hroot, hw⟩

/-- A record sealed under the store keys reads as it is in the book. -/
theorem getGlobal_eq {n : Name C.Block} (hn : n.StoreScoped) :
    s.getGlobal n = .ok (K.content L n) := by
  unfold Store.getGlobal Store.get
  rw [h.globalKey_eq hn]
  cases hp : K.content L n with
  | none => rw [h.toRecords.get_none hp]
  | some p =>
    obtain ⟨key, nonce, hkey, hget⟩ := h.stored n p hp
    obtain rfl := (KeyState.sealedUnder_of_storeScoped hn).mp hkey
    rw [hget]
    dsimp only
    rw [openBytes_sealedValue _ _ _ _ (KeyState.key_len_lt n), h.keys]
    simp only [List.find?_cons, beq_self_eq_true, and_self, if_true, ok_bind]
    rfl

theorem record_eq {T : Type} [Stored C.Block T] {n : Name C.Block} {x : Option T}
    (hn : n.StoreScoped) (hx : K.content L n = x.map Stored.encode) : s.record T n = .ok x := by
  unfold Store.record
  rw [h.getGlobal_eq hn, hx, ok_bind]
  cases x with
  | none => rfl
  | some r =>
    have hdecode : Stored.decode (Stored.encode r : Plain C.Block) = some r :=
      (Stored.decode_eq_some _ r).mpr rfl
    simp only [Option.map_some, decodeAs, hdecode]
    rfl

theorem tenantRecord_eq (t : TenantId) :
    s.tenantRecord t = .ok ((L.profiles t).map fun p => p.withKey (K.active t)) := by
  refine h.record_eq (fun _ _ => nofun) ?_
  rw [Option.map_map]
  rfl

theorem tombstone_eq (t : TenantId) :
    s.tombstone t = .ok (L.tombstones t) := h.record_eq (fun _ _ => nofun) rfl

theorem rekeyRecord_eq (t : TenantId) :
    s.rekeyRecord t = .ok (K.rekey t) := h.record_eq (fun _ _ => nofun) rfl

theorem profile_eq (t : TenantId) : s.profile t = .ok (L.profiles t) := by
  unfold Store.profile
  rw [h.tenantRecord_eq, ok_bind, Option.map_map]
  have hid : TenantRecord.profile ∘ (fun p => TenantProfile.withKey p (K.active t)) = id := by
    funext p
    exact TenantProfile.profile_withKey p _
  rw [hid, Option.map_id]
  rfl

theorem ledger_eq (id : LedgerRef) : s.ledger id = .ok (L.used id) := by
  unfold Store.ledger
  rw [h.record_eq (x := L.ledgers id) (Name.storeScoped_global (.ledger id)) rfl]
  rfl

/-- The authorization layer reads the store as it reads the book. -/
theorem view_eq : s.view = L.toBook.view := by
  have hgrants : (fun id => s.record GrantRecord (.global (.grant id))) =
      fun id => .ok (L.grants id) := funext fun id => h.record_eq (fun _ _ => nofun) rfl
  have hrevocations : (fun id => s.record RevocationRecord (.global (.revocation id))) =
      fun id => .ok (L.revocations id) := funext fun id => h.record_eq (fun _ _ => nofun) rfl
  have hsessions : (fun id => s.record SessionRecord (.global (.session id))) =
      fun id => .ok (L.sessions id) := funext fun id => h.record_eq (fun _ _ => nofun) rfl
  have hprofiles : s.profile = fun id => .ok (L.profiles id) := funext h.profile_eq
  have hledgers : s.ledger = fun id => .ok (L.used id) := funext h.ledger_eq
  unfold Store.view Book.view
  rw [hgrants, hrevocations, hsessions, hprofiles, hledgers]

/-! ## Keyrings -/

theorem wrapKey_eq (w : WrapName) : s.wrapKey w = K.wrapKey w := by
  rw [Store.wrapKey, h.keys, KeyState.wrapKey]

theorem dataKey_eq {id : KeyId} (hid : K.Held L t id) :
    s.dataKey t id = .ok (some ⟨id, K.dataKey t id⟩) := by
  obtain ⟨nonce, hget⟩ := h.wrapped (.dataKey t id) hid
  unfold Store.dataKey
  rw [h.wrapKey_eq, hget]
  dsimp only
  rw [h.keys, KeyState.wrap, StoreKeys.unwrapTenantKey_wrapTenantKey]
  rfl

theorem storedAddressKeys_eq (hlive : (L.profiles t).isSome) :
    s.storedAddressKeys t = .ok (if (K.rekey t).isSome then some (L.address t) else none) := by
  unfold Store.storedAddressKeys
  rw [h.wrapKey_eq]
  by_cases hrekey : (K.rekey t).isSome
  · obtain ⟨nonce, hget⟩ := h.wrapped (.addressKeys t) ⟨hlive, hrekey⟩
    rw [hget, if_pos hrekey]
    dsimp only
    rw [h.keys, KeyState.wrap, StoreKeys.unwrapAddressKeys_wrapAddressKeys]
    rfl
  · rw [h.toWraps.get_none (w := .addressKeys t) fun hw => hrekey hw.2, if_neg hrekey]

theorem addressOf_eq (hlive : (L.profiles t).isSome) :
    s.addressOf t (K.active t) (⟨K.active t, K.dataKey t (K.active t)⟩ : TenantDataKey C).address =
      .ok (L.address t) := by
  unfold Store.addressOf
  rw [h.storedAddressKeys_eq hlive, ok_bind]
  by_cases hrekey : (K.rekey t).isSome
  · rw [if_pos hrekey]
    rfl
  · rw [if_neg hrekey]
    obtain ⟨hactive, haddress⟩ := (h.tenants t).initial hlive (by simpa using hrekey)
    dsimp only
    rw [ensure_of_true hactive, ok_bind, hactive, haddress]
    rfl

theorem retiringKeys_eq (hlive : (L.profiles t).isSome) :
    s.retiringKeys t ((K.rotation t).map RekeyRecord.fromKeyId) =
      .ok ((K.rotation t).map fun r => K.sealing t r.fromKeyId) := by
  cases hrot : K.rotation t with
  | none => rfl
  | some r =>
    have hheld : K.Held L t r.fromKeyId := ⟨hlive, .inr ⟨r, hrot, rfl⟩⟩
    simp only [Option.map_some, Store.retiringKeys, h.dataKey_eq hheld, ok_bind, Store.expect]
    rfl

/-- The keyring of a live tenant is the one of the key state. -/
theorem tenantKeys_eq (t : TenantId) :
    s.tenantKeys t = (L.checkLive t).map fun _ => K.ring L t := by
  unfold Store.tenantKeys Store.keyIds Custody.checkLive
  rw [h.tenantRecord_eq, ok_bind]
  cases hp : L.profiles t with
  | none =>
    simp only [Option.map_none]
    show Except.error (s.absentTenant t) = _
    rw [Store.absentTenant, h.tombstone_eq]
    cases L.tombstones t <;> rfl
  | some =>
    have hlive : (L.profiles t).isSome := by rw [hp]; rfl
    have hactive : K.Held L t (K.active t) := ⟨hlive, .inl rfl⟩
    simp only [Option.map_some, h.rekeyRecord_eq, ok_bind]
    show s.loadKeyring t (K.active t) ((K.rotation t).map RekeyRecord.fromKeyId) = _
    simp only [Store.loadKeyring, h.dataKey_eq hactive, ok_bind, Store.expect,
      h.addressOf_eq hlive, h.retiringKeys_eq hlive]
    rfl

theorem tenantKeys_of_live (hlive : (L.profiles t).isSome) : s.tenantKeys t = .ok (K.ring L t) := by
  have hcheck : L.checkLive t = .ok () := (Custody.checkLive_eq_ok L).mpr hlive
  rw [h.tenantKeys_eq, hcheck]
  rfl

/-! ## Records of a tenant -/

end Represents

@[simp] theorem KeyState.sealer_id (K : KeyState C) (n : TenantName C.Block) (t : TenantId)
    (id : KeyId) : (n.sealer (K.sealing t id)).id = id := by
  cases n <;> rfl

namespace Represents

variable {K : KeyState C} {L : Custody C} {s : Store C}

/-- Either key of a rotation, or the one key without a rotation, opens what it may have
sealed. -/
theorem find_opener (h : Represents K L s) {t : TenantId} {n : TenantName C.Block}
    {keyspace : Keyspace} {k : Str C.Block} {id : KeyId} (hlive : (L.profiles t).isSome)
    (hid : K.Allowed L t keyspace k id) :
    ((K.ring L t).openers n.sealer).find? (fun key => key.id == id) =
      some (n.sealer (K.sealing t id)) := by
  simp only [TenantKeyring.openers, KeyState.ring, List.find?_cons, KeyState.sealer_id]
  rcases hid hlive with rfl | ⟨r, hr, rfl, -⟩
  · simp
  · have hrekey : K.rekey t = some r := by
      rw [KeyState.rotation, Option.mem_def, Option.filter_eq_some_iff] at hr
      exact hr.1
    have hne : (K.active t == r.fromKeyId) = false := by
      simpa using ((h.tenants t).rekey_source r hrekey).symm
    rw [hne, Option.mem_def.mp hr]
    simp

/-- A tenant's record reads as it is in the book, wherever a rotation stands. -/
theorem getSealed_eq (h : Represents K L s) {t : TenantId} (hlive : (L.profiles t).isSome)
    (n : TenantName C.Block) : s.getSealed (K.ring L t) t n = .ok (L.sealed t n) := by
  cases hp : L.sealed t n with
  | none => exact Store.get_of_none (h.toRecords.get_none (n := .sealed t n) hp)
  | some p =>
    obtain ⟨key, nonce, ⟨id, -, hid, rfl⟩, hget⟩ := h.stored (.sealed t n) p hp
    refine (@Store.get_of_some C s n.slot _ _ _ hget).trans ?_
    rw [openBytes_sealedValue _ _ _ _ (KeyState.key_len_lt _), KeyState.sealer_id,
      h.find_opener hlive hid]
    simp only [Name.slot, and_self, if_true, ok_bind]
    rfl

/-! ## The audit sequence -/

/-- Plain bytes read back. -/
theorem keyBytes_ofBytes (bs : Bytes) : keyBytes (Str.ofBytes bs : Str C.Block) = some bs := by
  induction bs with
  | nil => rfl
  | cons b bs ih =>
    show (keyBytes (Sym.byte b :: Str.ofBytes bs : Str C.Block)) = _
    simp only [keyBytes, List.mapM_cons] at ih ⊢
    rw [ih]
    rfl

theorem seqOfKey_stub (seq : AuditSeq) :
    seqOfKey (Str.ofBytes (beBytes 8 seq.toNat) : Str C.Block) = some seq.toNat := by
  have hseq : seq.toNat < 256 ^ 8 := by have := seq.toNat_lt; omega
  simp only [seqOfKey, keyBytes_ofBytes, beBytes_length, if_true]
  rw [beBytes, List.reverse_reverse, readLe_leBytes hseq]

theorem compare_stub_keys (a b : AuditSeq) :
    compare (K.key L (.global (.auditStub a))) (K.key L (.global (.auditStub b))) =
      compare a.toNat b.toNat := by
  show compare (Str.ofBytes (beBytes 8 a.toNat)) (Str.ofBytes (beBytes 8 b.toNat)) = _
  rw [Str.compare_ofBytes, compare_beBytes (by have := a.toNat_lt; omega)
    (by have := b.toNat_lt; omega)]

theorem name_of_stub_keyspace {n : Name C.Block} (h : n.slot.keyspace = .auditStub) :
    ∃ seq, n = .global (.auditStub seq) :=
  RecordKey.eq_stub_of_domain_none (RecordKey.domain_eq_none_of_keyspace h)

/-- The last stub's key spells the last sequence number. -/
theorem lastAuditSeq_eq (h : Represents K L s) : s.lastAuditSeq = .ok L.lastSeq := by
  unfold Store.lastAuditSeq
  have hstub (seq : AuditSeq) (hsome : (L.stubs seq).isSome) :
      (s.db.get .auditStub (K.key L (.global (.auditStub seq)))).isSome := by
    have := h.toRecords.get_isSome (.global (.auditStub seq))
    rw [show (Name.global (GlobalName.auditStub seq) : Name C.Block).slot.keyspace =
      .auditStub from rfl] at this
    rw [this]
    simpa [KeyState.content, Custody.global] using hsome
  cases hlast : (s.db.entries .auditStub).getLast? with
  | none =>
    have hnil := List.getLast?_eq_none_iff.mp hlast
    by_cases hzero : L.lastSeq = 0
    · rw [hzero]
    · obtain ⟨seq, -, hsome⟩ := h.last_stub hzero
      have hget := hstub seq hsome
      rw [Keyspaces.get_of_entries_nil hnil] at hget
      cases hget
  | some entry =>
    obtain ⟨k, v⟩ := entry
    obtain ⟨hget, hmax⟩ := Keyspaces.last_entry hlast
    obtain ⟨n, p, hspace, rfl, hp⟩ := h.named _ _ _ hget ⟨by decide, by decide⟩
    obtain ⟨seq, rfl⟩ := name_of_stub_keyspace hspace
    have hsome : (L.stubs seq).isSome := by
      rw [Option.isSome_iff_exists]
      obtain ⟨r, hr, -⟩ := Option.map_eq_some_iff.mp hp
      exact ⟨r, hr⟩
    have hle := h.stub_le seq hsome
    have hge : L.lastSeq ≤ seq.toNat := by
      by_cases hzero : L.lastSeq = 0
      · omega
      · obtain ⟨last, hlast, hlastSome⟩ := h.last_stub hzero
        obtain ⟨w, hw⟩ := Option.isSome_iff_exists.mp (hstub last hlastSome)
        have hcmp := hmax _ _ hw
        rw [compare_stub_keys, Nat.isLE_compare] at hcmp
        omega
    show Store.expect (seqOfKey (Str.ofBytes (beBytes 8 seq.toNat))) _ = _
    rw [seqOfKey_stub, Nat.le_antisymm hle hge]
    rfl

end Represents
end Dioptron
