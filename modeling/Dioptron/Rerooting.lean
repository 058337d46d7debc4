import Dioptron.Staging

/-! # Rotating the root key

The staging functions of a root rotation find everything under the store keys, the
ledgers and wrapped keys included: those are found from their owners, and in a book
whose ledgers all have owners none is left over.  So a rotation goes through and leaves
the same book under the new root.
-/
namespace Dioptron

variable {C : Crypto}

/-- The record a ledger belongs to exists. -/
def Book.HasOwner (b : Book C) : LedgerRef → Prop
  | .tenant t => (b.profiles t).isSome ∨ (b.tombstones t).isSome
  | .grant id => (b.grants id).isSome
  | .session id => (b.sessions id).isSome

/-- Every ledger has an owner. -/
def Book.LedgersOwned (b : Book C) : Prop := ∀ id, (b.ledgers id).isSome → b.HasOwner id

namespace Represents

variable {K K' : KeyState C} {L : Custody C} {s : Store C}

/-- The ledger entries are those of the book. -/
theorem ledgers_hold (h : Represents K L s) :
    Remaining.Holds (fun id => K.key L (.global (.ledger id))) (LedgerValue K L)
      (fun id => (L.ledgers id).isSome) (s.db.entries .ledgers) where
  present := by
    intro id hid
    obtain ⟨r, hr⟩ := Option.isSome_iff_exists.mp hid
    have hp : K.content L (.global (.ledger id)) = some (.ledger r) := by
      show (L.ledgers id).map Plain.ledger = _
      rw [hr]
      rfl
    obtain ⟨k, nonce, -, hget⟩ := h.stored _ _ hp
    exact ⟨_, Keyspaces.mem_entries.mpr hget⟩
  only := by
    rintro ⟨k, v⟩ he
    obtain ⟨n, p, sk, nonce, hspace, rfl, hp, hsk, rfl⟩ :=
      h.toRecords.sealed_of_get (Keyspaces.mem_entries.mp he) ⟨nofun, nofun⟩
    obtain ⟨id, rfl⟩ : ∃ id, n = .global (.ledger id) := by
      rcases n with t | t | t | (_ | _ | _ | _ | _ | _ | _) | ⟨t, (_ | _ | _ | _ | _ | _)⟩ <;>
        cases hspace
      exact ⟨_, rfl⟩
    obtain ⟨r, hr, rfl⟩ := Option.map_eq_some_iff.mp hp
    have hid : (L.ledgers id).isSome := by rw [hr]; rfl
    refine ⟨id, hid, rfl, .ledger r, nonce, hp, ?_⟩
    obtain rfl := (KeyState.sealedUnder_of_storeScoped (Name.storeScoped_global _)).mp hsk
    rfl

/-- The wrapped keys are those of the book. -/
theorem wraps_hold (h : Represents K L s) :
    Remaining.Holds K.wrapKey (WrapValue K L) (K.Wrapped L) (s.db.entries .keys) where
  present := by
    intro w hw
    obtain ⟨nonce, hget⟩ := h.wrapped w hw
    exact ⟨_, Keyspaces.mem_entries.mpr hget⟩
  only := by
    rintro ⟨k, v⟩ he
    exact h.toWraps.exists_wrap (Keyspaces.mem_entries.mp he)

/-- The moves of the tenants keyspace, with the owners they find. -/
theorem moveTenants_ok (h : Represents K L s) (hnamed : L.Named) (K' : KeyState C) :
    ∃ oms, (s.db.entries .tenants).mapM (s.moveTenant K'.storeKeys) = .ok oms ∧
      Carried K K' L .tenants (oms.map Prod.snd) ∧
      (∀ t, (L.profiles t).isSome ∨ (L.tombstones t).isSome → ∃ om ∈ oms, om.1.tenant = t) ∧
      (∀ r, r ∈ oms.filterMap (fun m => m.1.liveRecord) ↔
        ∃ t p, L.profiles t = some p ∧ r = p.withKey (K.active t)) ∧
      (oms.filterMap fun m => m.1.liveRecord).Pairwise fun r r' => r.id ≠ r'.id := by
  obtain ⟨oms, hrun, hall⟩ := exists_mapM_ok fun e he => h.moveTenant_ok hnamed K' (e := e) he
  have hkeys : (s.db.entries .tenants).Pairwise fun e e' => e.1 ≠ e'.1 := by
    have hnodup := Keyspaces.entries_keys_nodup s.db .tenants
    rwa [List.nodup_iff_pairwise_ne, List.pairwise_map] at hnodup
  have hid (t : TenantId) (p : TenantProfile) (hp : L.profiles t = some p) :
      (p.withKey (K.active t)).id = t := hnamed.profiles t p hp
  -- The move of a record of the book.
  have hfind (n : Name C.Block) (hspace : n.slot.keyspace = .tenants)
      (hsome : (K.content L n).isSome) : ∃ om ∈ oms, OwnerAt K L (K.key L n) om.1 n := by
    obtain ⟨p, hp⟩ := Option.isSome_iff_exists.mp hsome
    obtain ⟨k, nonce, -, hget⟩ := h.stored n p hp
    rw [hspace] at hget
    obtain ⟨om, hom, n', howner, -⟩ := exists_of_mem_left hall (Keyspaces.mem_entries.mpr hget)
    have hspace' : n'.slot.keyspace = .tenants := by
      rcases howner.2 with ⟨t, p, rfl, -⟩ | ⟨t, r, rfl, -⟩ <;> rfl
    have hname : n = n' := KeyState.key_inj (hspace.trans hspace'.symm) howner.1
    subst hname
    exact ⟨om, hom, howner⟩
  refine ⟨oms, hrun, ?_, ?_, ?_, ?_⟩
  · refine h.carried_of_entries (List.forall₂_map_right_iff.mpr (hall.imp ?_))
    rintro e om ⟨n, ⟨hkey, howner⟩, hmove⟩
    refine ⟨n, ?_, ?_, hkey, hmove⟩ <;>
      rcases howner with ⟨t, p, rfl, -⟩ | ⟨t, r, rfl, -⟩
    · exact fun _ _ => nofun
    · exact fun _ _ => nofun
    · rfl
    · rfl
  · rintro t (hlive | hdead)
    · obtain ⟨om, hom, -, ⟨t', p, hn, hp, howner⟩ | ⟨t', r, hn, -⟩⟩ := hfind (.tenant t) rfl
        (by simpa [KeyState.content] using hlive)
      · cases hn
        exact ⟨om, hom, by rw [howner]; exact hid t p hp⟩
      · cases hn
    · obtain ⟨om, hom, -, ⟨t', p, hn, -⟩ | ⟨t', r, hn, -, howner⟩⟩ := hfind (.tombstone t) rfl
        (by simpa [KeyState.content] using hdead)
      · cases hn
      · cases hn
        exact ⟨om, hom, by rw [howner]; rfl⟩
  · intro r
    rw [List.mem_filterMap]
    constructor
    · rintro ⟨om, hom, hlive⟩
      obtain ⟨e, -, n, ⟨-, ⟨t, p, -, hp, howner⟩ | ⟨t, r', -, -, howner⟩⟩, -⟩ :=
        exists_of_mem_right hall hom
      · rw [howner] at hlive
        cases hlive
        exact ⟨t, p, hp, rfl⟩
      · rw [howner] at hlive
        cases hlive
    · rintro ⟨t, p, hp, rfl⟩
      obtain ⟨om, hom, -, ⟨t', p', hn, hp', howner⟩ | ⟨t', r, hn, -⟩⟩ := hfind (.tenant t) rfl
        (by simp [KeyState.content, hp])
      · cases hn
        rw [hp] at hp'
        cases hp'
        exact ⟨om, hom, by rw [howner]; rfl⟩
      · cases hn
  · rw [List.pairwise_filterMap]
    refine pairwise_of_forall₂ hall hkeys ?_
    rintro e om e' om' ⟨n, ⟨hkey, howner⟩, -⟩ ⟨n', ⟨hkey', howner'⟩, -⟩ hne r hr r' hr'
    rcases howner with ⟨t, p, rfl, hp, ho⟩ | ⟨t, x, -, -, ho⟩ <;> rw [ho] at hr <;> cases hr
    rcases howner' with ⟨t', p', rfl, hp', ho'⟩ | ⟨t', x, -, -, ho'⟩ <;>
      rw [ho'] at hr' <;> cases hr'
    rw [hid t p hp, hid t' p' hp']
    rintro rfl
    exact hne (hkey.trans hkey'.symm)

/-- Different entries hold different records of a shelf. -/
theorem nodup_of_shelf {ι T : Type} [Stored C.Block T] (shelf : Shelf K L ι T)
    {ms : List (T × Move C)} {name : T → Name C.Block}
    (hname : ∀ i r, shelf.get i = some r → name r = shelf.name i)
    (hms : List.Forall₂ (fun e m => ∃ i, e.1 = K.key L (shelf.name i) ∧ shelf.get i = some m.1 ∧
        Relocates K K' L (shelf.name i) m.2) (s.db.entries shelf.slot.keyspace) ms) :
    (ms.map Prod.fst).Nodup := by
  have hkeys := Keyspaces.entries_keys_nodup s.db shelf.slot.keyspace
  rw [List.nodup_iff_pairwise_ne, List.pairwise_map] at hkeys ⊢
  refine pairwise_of_forall₂ hms hkeys ?_
  rintro e m e' m' ⟨i, hkey, hr, -⟩ ⟨i', hkey', hr', -⟩ hne heq
  refine hne ?_
  rw [hkey, hkey', ← hname i m.1 hr, ← hname i' m'.1 hr', heq]

/-- Everything under the store keys is staged. -/
theorem stageRootMoves_ok (h : Represents K L s) (hnamed : L.Named) (howned : L.LedgersOwned)
    (K' : KeyState C) (hdata : K'.dataKey = K.dataKey) :
    ∃ ms, s.stageRootMoves K'.storeKeys = .ok ms ∧ CarriesAll K K' L ms := by
  have hrekeyName (t : TenantId) (r : RekeyRecord C.Block) (hr : K.rekey t = some r) :
      (.rekey r.tenant : Name C.Block) = .rekey t := by rw [(h.tenants t).rekey_tenant r hr]
  obtain ⟨tenants, hrunT, hcarriedT, htenants, hlive, hdistinct⟩ := h.moveTenants_ok hnamed K'
  obtain ⟨grants, hrunG, hallG⟩ := h.moveAll_ok K' (Shelf.grants K L)
    (fun r => .global (.grant r.id)) fun i r hr => by rw [hnamed.grants i r hr]; rfl
  obtain ⟨revocations, hrunR, hallR⟩ := h.moveAll_ok K' (Shelf.revocations K L)
    (fun r => .global (.revocation r.grant)) fun i r hr => by rw [hnamed.revocations i r hr]; rfl
  obtain ⟨sessions, hrunS, hallS⟩ := h.moveAll_ok K' (Shelf.sessions K L)
    (fun r => .global (.session r.id)) fun i r hr => by rw [hnamed.sessions i r hr]; rfl
  obtain ⟨invocations, hrunI, hallI⟩ := h.moveAll_ok K' (Shelf.invocations K L)
    (fun r => .global (.invocation r.id)) fun i r hr => by rw [hnamed.invocations i r hr]; rfl
  obtain ⟨stubs, hrunA, hallA⟩ := h.moveAll_ok K' (Shelf.stubs K L)
    (fun r => .global (.auditStub r.seq)) fun i r hr => by rw [hnamed.stubs i r hr]; rfl
  obtain ⟨rekeys, hrunK, hallK⟩ := h.moveAll_ok K' (Shelf.rekeys K L)
    (fun r => .rekey r.tenant) hrekeyName
  obtain ⟨locators, hrunL, hcarriedL⟩ := h.moveLocators_ok hnamed K'
  -- Each keyspace has its own part of the list.
  let parts : List (Keyspace × List (Move C)) :=
    [(.tenants, tenants.map Prod.snd), (.grants, grants.map Prod.snd),
      (.revocations, revocations.map Prod.snd), (.sessions, sessions.map Prod.snd),
      (.invocations, invocations.map Prod.snd), (.auditStub, stubs.map Prod.snd),
      (.rekey, rekeys.map Prod.snd), (.artifacts, locators)]
  have hcarried : ∀ part ∈ parts, Carried K K' L part.1 part.2 := by
    simp only [parts, List.forall_mem_cons]
    exact ⟨hcarriedT, h.carried_of_shelf _ hallG, h.carried_of_shelf _ hallR,
      h.carried_of_shelf _ hallS, h.carried_of_shelf _ hallI, h.carried_of_shelf _ hallA,
      h.carried_of_shelf _ hallK, hcarriedL, by simp⟩
  -- The ledgers are found from their owners.
  obtain ⟨ledgers, hrunB, hsoundB, hcompleteB⟩ := h.moveLedgersOf_ok K'
    (tenants.map (fun m => LedgerRef.tenant m.1.tenant) ++
      grants.map (fun m => LedgerRef.grant m.1.id) ++
        sessions.map (fun m => LedgerRef.session m.1.id))
    _ _ h.ledgers_hold (by
      intro id hid
      have howner := howned id hid
      simp only [List.mem_append, List.mem_map]
      cases id with
      | tenant t =>
        obtain ⟨om, hom, ht⟩ := htenants t howner
        exact .inl (.inl ⟨om, hom, by rw [ht]⟩)
      | grant g =>
        obtain ⟨r, hr⟩ := Option.isSome_iff_exists.mp howner
        obtain ⟨m, hm, rfl⟩ := List.mem_map.mp ((h.mem_of_shelf _ hallG
          (fun _ _ heq => by cases heq; rfl) r).mpr ⟨g, hr⟩)
        exact .inl (.inr ⟨m, hm, by rw [hnamed.grants g _ hr]⟩)
      | session x =>
        obtain ⟨r, hr⟩ := Option.isSome_iff_exists.mp howner
        obtain ⟨m, hm, rfl⟩ := List.mem_map.mp ((h.mem_of_shelf _ hallS
          (fun _ _ heq => by cases heq; rfl) r).mpr ⟨x, hr⟩)
        exact .inr ⟨m, hm, by rw [hnamed.sessions x _ hr]⟩)
  -- The wrapped keys are found from the tenants and their rotations.
  obtain ⟨wrapped, hrunW, hsoundW, hcompleteW⟩ := h.moveWrappedKeys_ok hdata (rekeys.map Prod.fst)
    (tenants.filterMap fun m => m.1.liveRecord) hdistinct _ _ h.wraps_hold
    (by
      intro r hr
      obtain ⟨t, p, hp, rfl⟩ := (hlive r).mp hr
      rw [show (p.withKey (K.active t)).id = t from hnamed.profiles t p hp]
      exact h.heldKeyIds_ok hnamed hp (nodup_of_shelf _ hrekeyName hallK)
        (h.mem_of_shelf _ hallK fun _ _ heq => by cases heq; rfl))
    (by
      intro w hw
      obtain ⟨p, hp⟩ : ∃ p, L.profiles w.tenant = some p := by
        cases w with
        | dataKey => exact Option.isSome_iff_exists.mp hw.1
        | addressKeys => exact Option.isSome_iff_exists.mp hw.1
      exact ⟨_, (hlive _).mpr ⟨w.tenant, p, hp, rfl⟩, hnamed.profiles _ p hp⟩)
  refine ⟨(parts.map Prod.snd).flatten ++ ledgers ++ wrapped, ?_, ?_, ?_, ?_⟩
  · have hrunG : s.moveAll GrantRecord K'.storeKeys .grant _ = .ok grants := hrunG
    have hrunR : s.moveAll RevocationRecord K'.storeKeys .revocation _ = .ok revocations := hrunR
    have hrunS : s.moveAll SessionRecord K'.storeKeys .session _ = .ok sessions := hrunS
    have hrunI : s.moveAll InvocationRecord K'.storeKeys .invocation _ = .ok invocations := hrunI
    have hrunA : s.moveAll AuditStubRecord K'.storeKeys .auditStub _ = .ok stubs := hrunA
    have hrunK : s.moveAll (RekeyRecord C.Block) K'.storeKeys .rekey _ = .ok rekeys := hrunK
    simp only [Store.stageRootMoves, hrunT, hrunG, hrunR, hrunS, hrunI, hrunA, hrunK, hrunL, hrunB,
      hrunW, ok_bind]
    exact congrArg Except.ok (by simp [parts])
  · intro m hm
    rcases List.mem_append.mp hm with hm | hm
    · rcases List.mem_append.mp hm with hm | hm
      · obtain ⟨_, hmap, hm⟩ := List.mem_flatten.mp hm
        obtain ⟨part, hpart, rfl⟩ := List.mem_map.mp hmap
        obtain ⟨n, hn, -, hmove⟩ := (hcarried part hpart).sound m hm
        exact .inl ⟨n, hn, hmove⟩
      · obtain ⟨id, -, hmove⟩ := hsoundB m hm
        exact .inl ⟨_, Name.storeScoped_global _, hmove⟩
    · exact .inr (hsoundW m hm)
  · intro n hn hsome
    have hpart (hspace : n.slot.keyspace ∈ parts.map Prod.fst) :
        ∃ m ∈ (parts.map Prod.snd).flatten ++ ledgers ++ wrapped, Relocates K K' L n m := by
      obtain ⟨part, hmem, hspace⟩ := List.mem_map.mp hspace
      obtain ⟨m, hm, hmove⟩ := (hcarried part hmem).complete n hn hspace.symm hsome
      refine ⟨m, List.mem_append_left _ (List.mem_append_left _ ?_), hmove⟩
      exact List.mem_flatten.mpr ⟨_, List.mem_map_of_mem hmem, hm⟩
    cases n with
    | tenant | tombstone | rekey =>
      refine hpart ?_
      simp only [parts, List.map_cons, List.map_nil, Name.slot]
      decide
    | global n =>
      cases n with
      | ledger id =>
        have hid : (L.ledgers id).isSome := by simpa [KeyState.content, Custody.global] using hsome
        obtain ⟨m, hm, hmove⟩ := hcompleteB id hid
        exact ⟨m, List.mem_append_left _ (List.mem_append_right _ hm), hmove⟩
      | _ =>
        refine hpart ?_
        simp only [parts, List.map_cons, List.map_nil, Name.slot, GlobalName.slot]
        decide
    | sealed t n => exact absurd rfl (hn t n)
  · intro w hw
    obtain ⟨m, hm, hmove⟩ := hcompleteW w hw
    exact ⟨m, List.mem_append_right _ hm, hmove⟩

end Represents

/-! ## Metadata -/

/-- Writing metadata leaves every other keyspace alone. -/
theorem Store.writeMeta_get {s : Store C} {m : Meta C} {keyspace : Keyspace} {k : Str C.Block}
    (hspace : keyspace ≠ .metadata) : (s.writeMeta m).db.get keyspace k = s.db.get keyspace k :=
  Keyspaces.get_foldl_insert_of_not fun _ _ => .inl hspace.symm

/-- The metadata fields have names of their own. -/
theorem Meta.eq_of_key {m : Meta C} {f g : String × Str C.Block} (hf : f ∈ m.fields)
    (hg : g ∈ m.fields) (h : (metaKeyOf f.1 : Str C.Block) = metaKeyOf g.1) : f = g := by
  have hnames : (m.fields.map fun f => ascii f.1).Nodup := by
    show [ascii "schema_version", ascii "format", ascii "active_root_key_id", ascii "kdf_salt",
      ascii "key_check"].Nodup
    decide
  exact List.inj_on_of_nodup_map hnames hf hg (Str.ofBytes_injective h)

theorem KeyState.unlocks_writeMeta (K : KeyState C) (s : Store C) :
    K.Unlocks (s.writeMeta K.metadata).db := by
  intro f hf
  obtain ⟨g, hg, -, hkey, hget⟩ := Keyspaces.get_foldl_insert_of_mem
    (f := fun _ => Keyspace.metadata) (g := fun f : String × Str C.Block => metaKeyOf f.1)
    (u := fun f => Value.raw f.2) (d := s.db) hf
  obtain rfl := Meta.eq_of_key hg hf hkey
  exact hget

namespace Represents

variable {K K' : KeyState C} {L : Custody C} {s s' : Store C} {field : String} {root : C.Block}

theorem metaField_eq (h : Represents K L s) {bytes : Str C.Block}
    (hf : (field, bytes) ∈ K.metadata.fields) : s.metaField field = .ok bytes := by
  rw [Store.metaField, h.metadata (field, bytes) hf]

theorem metaWord_eq (h : Represents K L s) {n : Nat} (hn : n < 256 ^ 4)
    (hf : (field, Str.ofBytes (leBytes 4 n)) ∈ K.metadata.fields) : s.metaWord field = .ok n := by
  have hfield : s.metaField field = .ok (Str.ofBytes (leBytes 4 n)) := h.metaField_eq hf
  rw [Store.metaWord, hfield, ok_bind, keyBytes_ofBytes]
  simp only [Store.expect, ok_bind, leBytes_length, ensure_of_true, readLe_leBytes hn]
  rfl

theorem metaBlock_eq (h : Represents K L s) {b : C.Block}
    (hf : (field, [.block b]) ∈ K.metadata.fields) : s.metaBlock field = .ok b := by
  have hfield : s.metaField field = .ok [.block b] := h.metaField_eq hf
  rw [Store.metaBlock, hfield]
  rfl

/-- The metadata of the store is that of its root. -/
theorem readMeta_eq (h : Represents K L s) : s.readMeta = .ok K.metadata := by
  have hformat : s.metaField "format" = .ok (Str.ofBytes Meta.formatMarker) :=
    h.metaField_eq (by simp [Meta.fields])
  have hversion : s.metaWord "schema_version" = .ok schemaVersion :=
    h.metaWord_eq (by decide) (by simp [Meta.fields])
  have hroot : s.metaWord "active_root_key_id" = .ok K.rootId.toNat :=
    h.metaWord_eq (by have := K.rootId.toNat_lt; omega) (by simp [Meta.fields, KeyState.metadata])
  have hsalt : s.metaBlock "kdf_salt" = .ok K.salt :=
    h.metaBlock_eq (by simp [Meta.fields, KeyState.metadata])
  have hcheck : s.metaBlock "key_check" = .ok K.storeKeys.keyCheck :=
    h.metaBlock_eq (by simp [Meta.fields, KeyState.metadata])
  simp only [Store.readMeta, hformat, hversion, hroot, hsalt, hcheck, ok_bind, ensure_of_true,
    le_refl, UInt32.ofNat_toNat]
  rfl

/-- Only the root key the store is under unlocks it. -/
theorem unlock_eq_ok {keys : StoreKeys C} :
    StoreKeys.unlock root K.rootId K.salt K.storeKeys.keyCheck = .ok keys ↔
      root = K.root ∧ keys = K.storeKeys := by
  rw [StoreKeys.unlock, bind_eq_ok]
  constructor
  · rintro ⟨u, hcheck, hkeys⟩
    obtain rfl := StoreKeys.derive_inj (C.hmac_inj (ensure_eq_ok.mp hcheck)).1
    exact ⟨rfl, (Except.ok.inj hkeys).symm⟩
  · rintro ⟨rfl, rfl⟩
    exact ⟨(), ensure_eq_ok.mpr rfl, rfl⟩

variable (h : Represents K L s)

include h

/-- With another root key a rotation is refused. -/
theorem rotateRoot_locked (hroot : root ≠ K.root) (next salt : C.Block) :
    s.rotateRoot root next salt = .error .storeLocked := by
  have hcheck : (StoreKeys.derive root K.rootId K.salt).keyCheck ≠ K.storeKeys.keyCheck :=
    fun heq => hroot (StoreKeys.derive_inj (C.hmac_inj heq).1)
  simp only [Store.rotateRoot, h.readMeta_eq, ok_bind, KeyState.metadata, StoreKeys.unlock, ensure,
    if_neg hcheck]
  rfl

/-- **Opening the database again** with its root key gives the same store, and with any
other key nothing. -/
theorem reopen_eq_ok : s.reopen root = .ok s' ↔ root = K.root ∧ s' = s := by
  rw [Store.reopen, h.readMeta_eq, ok_bind, bind_eq_ok]
  simp only [KeyState.metadata, unlock_eq_ok]
  constructor
  · rintro ⟨keys, ⟨rfl, rfl⟩, hs⟩
    refine ⟨rfl, (Except.ok.inj hs).symm.trans ?_⟩
    rw [← h.keys]
  · rintro ⟨rfl, rfl⟩
    refine ⟨_, ⟨rfl, rfl⟩, ?_⟩
    rw [← h.keys]
    rfl

/-- The database after a root rotation holds the same book under the new root. -/
theorem reroot {salt : C.Block} {rootId : KeyId} {ms : List (Move C)}
    (hms : CarriesAll K (K.reroot root rootId salt) L ms) :
    Represents (K.reroot root rootId salt) L
      { Store.writeMeta { s with db := applyMoves s.db ms }
          (K.reroot root rootId salt).metadata with
        keys := (K.reroot root rootId salt).storeKeys } where
  toRecords := (hms.applyMoves_records h).of_get fun _ _ hspace => Store.writeMeta_get hspace.1
  toWraps := by
    have hspace : Keyspace.keys ≠ .metadata := nofun
    exact (hms.applyMoves_wraps h).of_get fun _ => Store.writeMeta_get hspace
  metadata := KeyState.unlocks_writeMeta _ _
  keys := rfl
  clock := h.clock
  sized := h.sized
  tenants := fun t => (h.tenants t).congr rfl rfl rfl rfl rfl subset_rfl
  distinct := h.distinct
  stub_le := h.stub_le
  last_stub := h.last_stub
  owned := h.owned

/-- **Rotating the root key** with the current root goes through while ids last. -/
theorem rotateRoot_new (hnamed : L.Named) (howned : L.LedgersOwned)
    (root salt : C.Block) (hid : K.rootId.toNat + 1 < 2 ^ 32) :
    ∃ s', s.rotateRoot K.root root salt = .ok (K.rootId + 1, s') ∧
      Represents (K.reroot root (K.rootId + 1) salt) L s' := by
  obtain ⟨ms, hrun, hms⟩ := h.stageRootMoves_ok hnamed howned
    (K.reroot root (K.rootId + 1) salt) rfl
  refine ⟨_, ?_, h.reroot hms⟩
  have hunlock : StoreKeys.unlock K.root K.rootId K.salt K.storeKeys.keyCheck =
      .ok K.storeKeys := unlock_eq_ok.mpr ⟨rfl, rfl⟩
  have hsucc : Store.succKeyId K.rootId "root key ids are exhausted" = .ok (K.rootId + 1) := by
    rw [Store.succKeyId, ensure_of_true hid]
    rfl
  have hrun : s.stageRootMoves (StoreKeys.derive root (K.rootId + 1) salt) = .ok ms := hrun
  simp only [Store.rotateRoot, h.readMeta_eq, ok_bind, KeyState.metadata, hunlock, hsucc, hrun]
  rfl

/-- What a rotation that succeeds has done. -/
theorem rotateRoot_ok (hnamed : L.Named) (howned : L.LedgersOwned)
    {current salt : C.Block} {id : KeyId} (hs : s.rotateRoot current root salt = .ok (id, s')) :
    current = K.root ∧ id = K.rootId + 1 ∧ K.rootId.toNat + 1 < 2 ^ 32 ∧
      Represents (K.reroot root id salt) L s' := by
  have hrun := hs
  rw [Store.rotateRoot, h.readMeta_eq, ok_bind] at hrun
  obtain ⟨keys, hunlock, hstage⟩ := bind_eq_ok.mp hrun
  obtain ⟨rfl, -⟩ := unlock_eq_ok.mp hunlock
  obtain ⟨next, hnext, -⟩ := bind_eq_ok.mp hstage
  obtain ⟨_, hensure, _⟩ := bind_eq_ok.mp hnext
  obtain ⟨s'', hrun, hrep⟩ := h.rotateRoot_new hnamed howned root salt (ensure_eq_ok.mp hensure)
  rw [hs] at hrun
  cases hrun
  exact ⟨rfl, rfl, ensure_eq_ok.mp hensure, hrep⟩

end Represents
end Dioptron
