import Dioptron.Ideal

/-! # What a root rotation leaves

After a root rotation every record and every key is read as before, under the new root:
nothing is lost, nothing is there twice and nothing opens under the old root any more.
-/
namespace Dioptron

variable {C : Crypto}

/-! ## Counting records -/

/-- The names of the records in a keyspace, one for each entry. -/
theorem Records.exists_names {key : Name C.Block → Str C.Block}
    {under : Name C.Block → SealingKey C → Prop} {content : Name C.Block → Option (Plain C.Block)}
    {db : Database C} (h : Records key under content db) {keyspace : Keyspace}
    (hspace : keyspace.HoldsRecords) :
    ∃ ns : List (Name C.Block), ns.length = (db.entries keyspace).length ∧ ns.Nodup ∧
      ∀ n, n ∈ ns ↔ n.slot.keyspace = keyspace ∧ (content n).isSome := by
  have hnamed : ∀ e ∈ db.entries keyspace,
      ∃ n, n.slot.keyspace = keyspace ∧ e.1 = key n ∧ (content n).isSome := by
    intro e he
    obtain ⟨n, p, hn, hk, hp⟩ := h.named _ _ _ (Keyspaces.mem_entries.mp he) hspace
    exact ⟨n, hn, hk, by rw [hp]; rfl⟩
  obtain ⟨ns, hall⟩ := exists_forall₂ hnamed
  refine ⟨ns, hall.length_eq.symm, ?_, fun n => ⟨fun hn => ?_, fun hn => ?_⟩⟩
  · have hkeys := Keyspaces.entries_keys_nodup db keyspace
    rw [List.nodup_iff_pairwise_ne, List.pairwise_map] at hkeys
    rw [List.nodup_iff_pairwise_ne]
    refine pairwise_of_forall₂ hall hkeys ?_
    rintro e n e' n' ⟨-, hk, -⟩ ⟨-, hk', -⟩ hne rfl
    exact hne (hk.trans hk'.symm)
  · obtain ⟨e, -, hspace, -, hsome⟩ := exists_of_mem_right hall hn
    exact ⟨hspace, hsome⟩
  · obtain ⟨p, hp⟩ := Option.isSome_iff_exists.mp hn.2
    obtain ⟨sk, nonce, -, hget⟩ := h.stored n p hp
    rw [hn.1] at hget
    obtain ⟨n', hmem, hn', hk, -⟩ := exists_of_mem_left hall (Keyspaces.mem_entries.mpr hget)
    rwa [h.inj n n' (hn.1.trans hn'.symm) hk]

/-- Databases with the same records have the same number of entries. -/
theorem Records.length_eq {key key' : Name C.Block → Str C.Block}
    {under under' : Name C.Block → SealingKey C → Prop}
    {content : Name C.Block → Option (Plain C.Block)} {db db' : Database C}
    (h : Records key under content db) (h' : Records key' under' content db') {keyspace : Keyspace}
    (hspace : keyspace.HoldsRecords) :
    (db'.entries keyspace).length = (db.entries keyspace).length := by
  obtain ⟨ns, hlen, hnodup, hmem⟩ := h.exists_names hspace
  obtain ⟨ns', hlen', hnodup', hmem'⟩ := h'.exists_names hspace
  rw [← hlen, ← hlen']
  refine ((List.perm_ext_iff_of_nodup hnodup' hnodup).mpr fun n => ?_).length_eq
  rw [hmem, hmem']

theorem Wraps.exists_names {key : WrapName → Str C.Block} {held : Set WrapName}
    {value : C.Nonce → WrapName → Value C} {db : Database C} (h : Wraps key held value db) :
    ∃ ws : List WrapName, ws.length = (db.entries .keys).length ∧ ws.Nodup ∧
      ∀ w, w ∈ ws ↔ w ∈ held := by
  have hnamed : ∀ e ∈ db.entries .keys, ∃ w, e.1 = key w ∧ w ∈ held := by
    intro e he
    obtain ⟨w, hw, hk⟩ := h.wrapNamed _ _ (Keyspaces.mem_entries.mp he)
    exact ⟨w, hk, hw⟩
  obtain ⟨ws, hall⟩ := exists_forall₂ hnamed
  refine ⟨ws, hall.length_eq.symm, ?_, fun w => ⟨fun hw => ?_, fun hw => ?_⟩⟩
  · have hkeys := Keyspaces.entries_keys_nodup db .keys
    rw [List.nodup_iff_pairwise_ne, List.pairwise_map] at hkeys
    rw [List.nodup_iff_pairwise_ne]
    refine pairwise_of_forall₂ hall hkeys ?_
    rintro e w e' w' ⟨hk, -⟩ ⟨hk', -⟩ hne rfl
    exact hne (hk.trans hk'.symm)
  · obtain ⟨e, -, -, hheld⟩ := exists_of_mem_right hall hw
    exact hheld
  · obtain ⟨nonce, hget⟩ := h.wrapped w hw
    obtain ⟨w', hmem, hk, -⟩ := exists_of_mem_left hall (Keyspaces.mem_entries.mpr hget)
    rwa [h.wrapInj hk]

theorem Wraps.length_eq {key key' : WrapName → Str C.Block} {held : Set WrapName}
    {value value' : C.Nonce → WrapName → Value C} {db db' : Database C}
    (h : Wraps key held value db) (h' : Wraps key' held value' db') :
    (db'.entries .keys).length = (db.entries .keys).length := by
  obtain ⟨ws, hlen, hnodup, hmem⟩ := h.exists_names
  obtain ⟨ws', hlen', hnodup', hmem'⟩ := h'.exists_names
  rw [← hlen, ← hlen']
  refine ((List.perm_ext_iff_of_nodup hnodup' hnodup).mpr fun w => ?_).length_eq
  rw [hmem, hmem']

/-! ## The same content -/

/-- Every record and every key of `s` is read in `s'` as it is in `s`, and there are no
more entries than before. -/
structure SameContent (s s' : Store C) : Prop where
  global : ∀ n : Name C.Block, n.StoreScoped →
    ∃ content, s.getGlobal n = .ok content ∧ s'.getGlobal n = .ok content
  dataKey : ∀ t id, ∃ key, s.dataKey t id = .ok key ∧ s'.dataKey t id = .ok key
  addressKeys : ∀ t, ∃ keys, s.storedAddressKeys t = .ok keys ∧ s'.storedAddressKeys t = .ok keys
  sealed : ∀ t keys, s.tenantKeys t = .ok keys → s'.tenantKeys t = .ok keys ∧
    ∀ n, ∃ content, s.getSealed keys t n = .ok content ∧ s'.getSealed keys t n = .ok content
  count : ∀ keyspace, keyspace ≠ .metadata →
    (s'.db.entries keyspace).length = (s.db.entries keyspace).length

/-- Nothing in the database opens under the store keys `old`. -/
structure NothingUnder (old : StoreKeys C) (db : Database C) : Prop where
  record : ∀ keyspace k v, keyspace.HoldsRecords → db.get keyspace k = some v →
    ∀ slot p, openBytes [old.metaKey] slot k v ≠ .ok p
  dataKey : ∀ k v, db.get .keys k = some v → ∀ t key, old.unwrapTenantKey t v ≠ .ok key
  addressKeys : ∀ k v, db.get .keys k = some v → ∀ t keys, old.unwrapAddressKeys t v ≠ .ok keys

namespace Represents

variable {K K' : KeyState C} {L : Custody C} {s s' : Store C}

theorem dataKey_of_not_held (h : Represents K L s) {t : TenantId} {id : KeyId}
    (hid : ¬ K.Held L t id) : s.dataKey t id = .ok none := by
  unfold Store.dataKey
  rw [h.wrapKey_eq, h.toWraps.get_none (w := .dataKey t id) hid]

theorem storedAddressKeys_of_not_live (h : Represents K L s) {t : TenantId}
    (hlive : ¬ (L.profiles t).isSome) : s.storedAddressKeys t = .ok none := by
  unfold Store.storedAddressKeys
  rw [h.wrapKey_eq, h.toWraps.get_none (w := .addressKeys t) fun hw => hlive hw.1]

/-- Two stores of one book whose tenants are under the same keys have the same content. -/
theorem sameContent (h : Represents K L s) (h' : Represents K' L s')
    (hactive : K'.active = K.active) (hrekey : K'.rekey = K.rekey)
    (hdata : K'.dataKey = K.dataKey) : SameContent s s' := by
  have hrotation (t : TenantId) : K'.rotation t = K.rotation t := by
    rw [KeyState.rotation, KeyState.rotation, hrekey]
  have hcontent : K'.content L = K.content L := by
    funext n
    cases n with
    | tenant => simp only [KeyState.content, hactive]
    | rekey => simp only [KeyState.content, hrekey]
    | tombstone | global | sealed => rfl
  have hheld (t : TenantId) (id : KeyId) : K'.Held L t id ↔ K.Held L t id := by
    simp only [KeyState.Held, hactive, hrotation]
  have hwrapped : K'.Wrapped L = K.Wrapped L := by
    ext w
    cases w with
    | dataKey t id => exact hheld t id
    | addressKeys => simp only [KeyState.mem_wrapped_addressKeys, hrekey]
  have hring (t : TenantId) : K'.ring L t = K.ring L t := by
    simp only [KeyState.ring, KeyState.sealing, hactive, hrotation, hdata]
  refine ⟨fun n hn => ?_, fun t id => ?_, fun t => ?_, fun t keys hkeys => ?_,
    fun keyspace hspace => ?_⟩
  · exact ⟨_, h.getGlobal_eq hn, by rw [h'.getGlobal_eq hn, hcontent]⟩
  · by_cases hid : K.Held L t id
    · exact ⟨_, h.dataKey_eq hid, by rw [h'.dataKey_eq ((hheld t id).mpr hid), hdata]⟩
    · exact ⟨_, h.dataKey_of_not_held hid,
        h'.dataKey_of_not_held fun hid' => hid ((hheld t id).mp hid')⟩
  · by_cases hlive : (L.profiles t).isSome
    · exact ⟨_, h.storedAddressKeys_eq hlive, by rw [h'.storedAddressKeys_eq hlive, hrekey]⟩
    · exact ⟨_, h.storedAddressKeys_of_not_live hlive, h'.storedAddressKeys_of_not_live hlive⟩
  · rw [h.tenantKeys_eq] at hkeys
    obtain ⟨u, hcheck, rfl⟩ := map_eq_ok.mp hkeys
    have hlive := (Custody.checkLive_eq_ok L).mp hcheck
    refine ⟨by rw [h'.tenantKeys_of_live hlive, hring], fun n => ?_⟩
    exact ⟨_, h.getSealed_eq hlive n, by rw [← hring, h'.getSealed_eq hlive n]⟩
  · by_cases hkeys : keyspace = .keys
    · subst hkeys
      have hwraps' : Wraps K'.wrapKey (K.Wrapped L) (K'.wrap L) s'.db := hwrapped ▸ h'.toWraps
      exact h.toWraps.length_eq hwraps'
    · have hrecords' : Records (K'.key L) (K'.SealedUnder L) (K.content L) s'.db :=
        hcontent ▸ h'.toRecords
      exact h.toRecords.length_eq hrecords' ⟨hspace, hkeys⟩

end Represents

/-! ## Nothing under the old root -/

/-- The store's metadata key is no key of a tenant. -/
theorem StoreKeys.metaKey_ne_sealer {root salt : C.Block} {rootId : KeyId} (K : KeyState C)
    (n : TenantName C.Block) (t : TenantId) (id : KeyId) :
    (StoreKeys.derive root rootId salt).metaKey.key ≠ (n.sealer (K.sealing t id)).key := by
  intro heq
  cases n <;> exact absurd (C.hkdf_inj heq).2 (by decide)

/-- Under a new root nothing opens under the old one. -/
theorem Represents.nothingUnder {K K' : KeyState C} {L : Custody C} {s' : Store C}
    (h : Represents K' L s') (hroot : K'.rootId ≠ K.rootId) :
    NothingUnder K.storeKeys s'.db where
  record := by
    intro keyspace k v hspace hget slot p hopen
    obtain ⟨n, q, sk, nonce, -, rfl, -, hsk, rfl⟩ := h.toRecords.sealed_of_get hget hspace
    rw [openBytes_sealedValue _ _ _ _ (KeyState.key_len_lt _)] at hopen
    cases hfind : [K.storeKeys.metaKey].find? (fun key => key.id == sk.id) with
    | none =>
      rw [hfind] at hopen
      cases hopen
    | some key =>
      obtain rfl : key = K.storeKeys.metaKey :=
        List.mem_singleton.mp (List.mem_of_find?_eq_some hfind)
      have hfound := List.find?_some hfind
      have hid : K.rootId = sk.id := beq_iff_eq.mp hfound
      rw [hfind] at hopen
      dsimp only at hopen
      split_ifs at hopen with hmatch
      cases n with
      | sealed t m =>
        obtain ⟨id, -, -, rfl⟩ := hsk
        exact StoreKeys.metaKey_ne_sealer K' m t id hmatch.1
      | tenant | tombstone | rekey | global =>
        obtain rfl : sk = K'.storeKeys.metaKey := hsk
        exact hroot hid.symm
  dataKey k v hget t key hunwrap := hroot (h.unwraps_dataKey hget hunwrap).1.symm
  addressKeys k v hget t keys hunwrap := hroot (h.unwraps_addressKeys hget hunwrap).1.symm

/-- The store after an operation was tried: one that fails commits nothing. -/
def Store.attempt (s : Store C) (op : Operation C) : Store C := (op.run s).toOption.getD s

/-- **A root rotation is a logical no-op.**  With the root key of the store and while ids
last it goes through: every record and every key is read as before, none is lost or there
twice, nothing is left under the old root and only the new root opens the store.  It fails
with any other root key alone, and then changes nothing. -/
theorem root_rotation_no_op {w : World C} (hw : w.Reachable) {current : C.Block}
    (next salt : C.Block) (hroot : w.store.reopen current = .ok w.store)
    (hids : w.store.keys.rootKeyId.toNat + 1 < 2 ^ 32) :
    (∃ s', w.store.rotateRoot current next salt = .ok (w.store.keys.rootKeyId + 1, s') ∧
        SameContent w.store s' ∧ NothingUnder w.store.keys s'.db ∧
        ∀ root s'', s'.reopen root = .ok s'' ↔ root = next ∧ s'' = s') ∧
      ∀ root e, ((Operation.rotateRoot root next salt).run w.store = .error e ↔
          root ≠ current ∧ e = .storeLocked) ∧
        ((Operation.rotateRoot root next salt).run w.store = .error e →
          w.store.attempt (.rotateRoot root next salt) = w.store) := by
  obtain ⟨K, L, h⟩ := hw.holds
  have hrep := h.represents
  obtain ⟨rfl, -⟩ := hrep.reopen_eq_ok.mp hroot
  have hkeys : w.store.keys.rootKeyId = K.rootId := by rw [hrep.keys]; rfl
  rw [hkeys] at hids
  obtain ⟨s', hrotate, hrep'⟩ := hrep.rotateRoot_new h.reachable.named h.reachable.owned.ledgers
    next salt hids
  refine ⟨⟨s', by rw [hkeys, hrotate], hrep.sameContent hrep' rfl rfl rfl, ?_,
    fun root s'' => hrep'.reopen_eq_ok⟩, fun root e => ⟨?_, fun herror => ?_⟩⟩
  · rw [hrep.keys]
    exact hrep'.nothingUnder succ_ne.symm
  · rw [Operation.run]
    by_cases heq : root = K.root
    · rw [heq, hrotate]
      exact ⟨fun herror => (by cases herror), fun hne => absurd rfl hne.1⟩
    · rw [hrep.rotateRoot_locked heq]
      exact ⟨fun herror => ⟨heq, (Except.error.inj herror).symm⟩, fun hne => by rw [hne.2]; rfl⟩
  · rw [Store.attempt, herror]
    rfl

namespace Sample

def guest : TenantId := ⟨3⟩

/-- A third tenant comes and is shredded, and the agent begins a call. -/
def busy : Except Error (Custody Crypto.ideal) :=
  Custody.runAll (setUp ++ [.begin intent]) ((registered.register
    ((registration guest none).profile 0) (⟨initialDataKeyId, ([4] : List ℕ)⟩ :
      TenantDataKey Crypto.ideal).address).tick.shred guest)

/-- A store with a grant, a ledger, an open call, a tombstone and a rotation in progress. -/
theorem exists_busy {L : Custody Crypto.ideal} (hL : busy = .ok L) :
    ∃ (w : World Crypto.ideal) (K : KeyState Crypto.ideal) (r : RekeyRecord (List ℕ)),
      w.Reachable ∧ w.Holds K L ∧ K.rootId = 1 ∧ K.rekey agent = some r ∧ r.done = false := by
  obtain ⟨w, K, hreach, h, hidle, hid, hdrawn⟩ := exists_registered
  obtain ⟨s₁, hs₁, hfresh₁, h₁⟩ := h.register (registration guest none) ([4] : List ℕ) rfl rfl
    (fun _ hq => by cases hq) (by rw [hdrawn]; rintro (hmem | hmem) <;> cases hmem) (Nat.zero_le _)
  have hactive : (K.issue guest initialDataKeyId ([4] : List ℕ)).active agent = initialDataKeyId :=
    ((h₁.represents.tenants agent).initial rfl (hidle agent)).1
  have hrotation : (K.issue guest initialDataKeyId ([4] : List ℕ)).rotation agent = none :=
    congrArg (Option.filter _) (hidle agent)
  obtain ⟨total, w₂, hstep₂, h₂, -⟩ := h₁.beginRekey (t := agent) ([3] : List ℕ) rfl hrotation
    (lt_of_eq_of_lt (congrArg (fun id => UInt32.toNat id + 1) hactive) (by decide)) (by
      rw [hdrawn]
      rintro ((hmem | hmem) | hmem) <;> cases hmem)
  obtain ⟨w₃, hstep₃, h₃⟩ := h₂.shred (t := guest) rfl rfl fun _ _ hr => by cases hr
  obtain ⟨w₄, hsteps, h₄⟩ := h₃.transactAll hL
  exact ⟨w₄, _, _, (((hreach.next (.operate _ hs₁ hfresh₁)).next hstep₂).next hstep₃).trans hsteps,
    h₄, hid, (KeyState.forget_rekey_of_ne (by decide)).trans KeyState.beginRekey_rekey_self, rfl⟩

end Sample

/-- The root of a store is rotated in the middle of a call and of a rotation of its tenant's
data key, with another tenant shredded. -/
theorem root_rotation_no_op_of_registered : ∃ (w : World Crypto.ideal) (current : List ℕ)
    (s' : Store Crypto.ideal) (r : RekeyRecord (List ℕ)), w.Reachable ∧
      w.store.reopen current = .ok w.store ∧
      w.store.rotateRoot current ([7] : List ℕ) ([8] : List ℕ) = .ok (2, s') ∧
      SameContent w.store s' ∧ w.store.rekeyRecord Sample.agent = .ok (some r) ∧ r.done = false ∧
      (w.store.tombstoneAt Sample.guest).isSome ∧
      (w.store.found LedgerRecord (.global (.ledger (.tenant Sample.agent)))).isSome ∧
      (w.store.invocationAt Sample.call).map InvocationRecord.state = some .intentPersisted := by
  have hbook : Sample.busy.toOption.map (fun L => decide ((L.tombstones Sample.guest).isSome ∧
      (L.ledgers (.tenant Sample.agent)).isSome ∧
      (L.invocations Sample.call).map InvocationRecord.state = some .intentPersisted)) =
      some true := by decide +kernel
  obtain ⟨L, hL, hfacts⟩ := exists_of_toOption_map hbook
  obtain ⟨hstone, hledger, hcall⟩ := of_decide_eq_true hfacts
  obtain ⟨w, K, r, hreach, h, hid, hrekey, hdone⟩ := Sample.exists_busy hL
  have hrep := h.represents
  have hroot : w.store.reopen K.root = .ok w.store := hrep.reopen_eq_ok.mpr ⟨rfl, rfl⟩
  have hkeys : w.store.keys.rootKeyId = 1 := by rw [hrep.keys]; exact hid
  obtain ⟨⟨s', hrotate, hsame, -⟩, -⟩ := root_rotation_no_op hreach ([7] : List ℕ)
    ([8] : List ℕ) hroot (by rw [hkeys]; decide)
  rw [hkeys] at hrotate
  refine ⟨w, K.root, s', r, hreach, hroot, hrotate, hsame, ?_, hdone, ?_, ?_, ?_⟩
  · exact (hrep.rekeyRecord_eq _).trans (congrArg _ hrekey)
  · rw [hrep.tombstoneAt_eq]
    exact hstone
  · rw [hrep.found_eq (x := L.ledgers (.tenant Sample.agent)) (Name.storeScoped_global _) rfl]
    exact hledger
  · rw [hrep.invocationAt_eq]
    exact hcall

end Dioptron
