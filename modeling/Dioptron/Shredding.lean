import Dioptron.Naming

/-! # Shredding a tenant

A shred is refused while an invocation of the tenant, or in one of its sessions, is
open.  Otherwise it deletes every wrapped key of the tenant, its rotation record and its
tenant record, and leaves a tombstone: one `shred` step of the book.
-/
namespace Dioptron

variable {C : Crypto}

/-- The book after `t` was shredded. -/
def Custody.shred (L : Custody C) (t : TenantId) : Custody C :=
  { L.tick with
    profiles := Function.update L.profiles t none
    tombstones := Function.update L.tombstones t (some ⟨t, L.clock 0⟩) }

/-- The keys after the rotation record of `t` was deleted. -/
def KeyState.forget (K : KeyState C) (t : TenantId) : KeyState C :=
  { K with rekey := Function.update K.rekey t none }

namespace KeyState

variable {K : KeyState C} {t t' : TenantId}

@[simp] theorem forget_rekey_self : (K.forget t).rekey t = none := by simp [forget]

theorem forget_rekey_of_ne (h : t' ≠ t) : (K.forget t).rekey t' = K.rekey t' := by
  simp [forget, h]

theorem forget_rotation_of_ne (h : t' ≠ t) : (K.forget t).rotation t' = K.rotation t' := by
  rw [rotation, rotation, forget_rekey_of_ne h]

/-- Three records go or come; the rest stays. -/
theorem content_shred (L : Custody C) (t : TenantId) :
    (K.forget t).content (L.shred t) =
      Function.update (Function.update (Function.update (K.content L) (.rekey t) none)
        (.tenant t) none) (.tombstone t) (some (.tombstone ⟨t, L.clock 0⟩)) := by
  funext n
  simp only [Function.update_apply]
  cases n with
  | tenant t' =>
    rcases eq_or_ne t' t with rfl | ht
    · simp [content, Custody.shred]
    · simp [content, Custody.shred, forget, ht]
  | tombstone t' =>
    rcases eq_or_ne t' t with rfl | ht
    · simp [content, Custody.shred]
    · simp [content, Custody.shred, ht]
  | rekey t' =>
    rcases eq_or_ne t' t with rfl | ht
    · simp [content]
    · simp [content, forget_rekey_of_ne ht, ht]
  | global n => cases n <;> rfl
  | sealed _ n => cases n <;> rfl

end KeyState

namespace Represents

variable {K : KeyState C} {L : Custody C} {s s' : Store C} {t : TenantId}

/-! ## Looking for open invocations -/

/-- The scan of the invocations stops at the first open one that involves the tenant. -/
theorem anyOpen_ok (h : Represents K L s) (t : TenantId) (owned : List SessionId)
    (entries : List (Str C.Block × Value C)) (hsub : entries ⊆ s.db.entries .invocations) :
    ∃ found, s.anyOpen t owned entries = .ok found ∧
      (found = true ↔ ∃ e ∈ entries, ∃ id r, e.1 = K.key L (.global (.invocation id)) ∧
        L.invocations id = some r ∧ (r.tenant = t ∨ ∃ session ∈ r.session, session ∈ owned) ∧
        ¬ r.state.isTerminal) := by
  induction entries with
  | nil => exact ⟨false, rfl, by simp⟩
  | cons e rest ih =>
    obtain ⟨found, hrest, hfound⟩ := ih fun _ he => hsub (List.mem_cons_of_mem _ he)
    obtain ⟨id, r, hkey, hr, hopen, hdecode⟩ :=
      (Shelf.invocations K L).open_entry h (hsub List.mem_cons_self)
    have hkey : e.1 = K.key L (.global (.invocation id)) := hkey
    have hr : L.invocations id = some r := hr
    have hrun : s.anyOpen t owned (e :: rest) =
        if (r.tenant = t ∨ ∃ session ∈ r.session, session ∈ owned) ∧ ¬ r.state.isTerminal then
          .ok true
        else s.anyOpen t owned rest := by
      obtain ⟨k, v⟩ := e
      have hopen : openBytes [s.keys.metaKey] .invocation k v = .ok (.invocation r) := hopen
      have hdecode : decodeAs InvocationRecord .invocations (.invocation r : Plain C.Block) =
        .ok r := hdecode
      rw [Store.anyOpen, hopen, ok_bind, hdecode, ok_bind]
      rfl
    -- One entry holds one record, so the head decides for itself.
    have hunique (id' : InvocationId) (r' : InvocationRecord)
        (hkey' : e.1 = K.key L (.global (.invocation id'))) (hr' : L.invocations id' = some r') :
        r' = r := by
      have hname : (Name.global (.invocation id') : Name C.Block) = .global (.invocation id) :=
        KeyState.key_inj rfl (hkey'.symm.trans hkey)
      cases hname
      rw [hr] at hr'
      exact (Option.some.inj hr').symm
    by_cases hhere : (r.tenant = t ∨ ∃ session ∈ r.session, session ∈ owned) ∧ ¬ r.state.isTerminal
    · refine ⟨true, by rw [hrun, if_pos hhere], ?_⟩
      simp only [true_iff]
      exact ⟨e, List.mem_cons_self, id, r, hkey, hr, hhere⟩
    · refine ⟨found, by rw [hrun, if_neg hhere, hrest], ?_⟩
      rw [hfound]
      constructor
      · rintro ⟨e', he', hopen'⟩
        exact ⟨e', List.mem_cons_of_mem _ he', hopen'⟩
      · rintro ⟨e', he', id', r', hkey', hr', hopen'⟩
        rcases List.mem_cons.mp he' with rfl | he'
        · rw [hunique id' r' hkey' hr'] at hopen'
          exact absurd hopen' hhere
        · exact ⟨e', he', id', r', hkey', hr', hopen'⟩

/-- The sessions a scan finds for an owner are those of the book. -/
theorem mem_owned (h : Represents K L s) (hnamed : L.Named) {rs : List SessionRecord}
    (hrs : List.Forall₂ (fun e r => ∃ i, e.1 = K.key L (.global (.session i)) ∧
      L.sessions i = some r) (s.db.entries .sessions) rs) (session : SessionId) :
    session ∈ (rs.filter fun r => r.owner = t).map SessionRecord.id ↔
      ∃ sr ∈ L.sessions session, sr.owner = t := by
  simp only [List.mem_map, List.mem_filter, decide_eq_true_eq]
  constructor
  · rintro ⟨r, ⟨hr, howner⟩, rfl⟩
    obtain ⟨e, -, id, -, hsession⟩ := exists_of_mem_right hrs hr
    rw [hnamed.sessions id r hsession]
    exact ⟨r, hsession, howner⟩
  · rintro ⟨r, hr, howner⟩
    obtain ⟨v, hv⟩ := (Shelf.sessions K L).exists_entry h hr
    obtain ⟨r', hr', id, hkey, hsession⟩ := exists_of_mem_left hrs hv
    have hname : (Name.global (.session session) : Name C.Block) = .global (.session id) :=
      KeyState.key_inj rfl hkey
    cases hname
    rw [Option.mem_def.mp hr] at hsession
    cases hsession
    exact ⟨r, ⟨hr', howner⟩, hnamed.sessions session r hr⟩

/-- The check before a shred finds an open invocation exactly when the book has one. -/
theorem hasOpenInvocations_ok (h : Represents K L s) (hnamed : L.Named) (t : TenantId) :
    ∃ found, s.hasOpenInvocations t = .ok found ∧
      (found = true ↔ ∃ id r, L.invocations id = some r ∧ L.Involves t r ∧
        ¬ r.state.isTerminal) := by
  obtain ⟨rs, hopen, hrs⟩ := (Shelf.sessions K L).openAll_ok h
  obtain ⟨found, hrun, hfound⟩ := h.anyOpen_ok t
    ((rs.filter fun r => r.owner = t).map SessionRecord.id) (s.db.entries .invocations)
    (List.Subset.refl _)
  have hopen : s.openAll SessionRecord .session = .ok rs := hopen
  refine ⟨found, ?_, hfound.trans ?_⟩
  · rw [Store.hasOpenInvocations, hopen, ok_bind]
    exact hrun
  · simp only [h.mem_owned hnamed hrs]
    constructor
    · rintro ⟨e, -, id, r, -, hr, hinvolved, hstate⟩
      exact ⟨id, r, hr, hinvolved, hstate⟩
    · rintro ⟨id, r, hr, hinvolved, hstate⟩
      obtain ⟨v, hv⟩ := (Shelf.invocations K L).exists_entry h hr
      exact ⟨_, hv, id, r, rfl, hr, hinvolved, hstate⟩

/-! ## Deleting the keys -/

/-- Dropping the rotation record drops the key it retires. -/
theorem dropRotation_ok {content : Name C.Block → Option (Plain C.Block)}
    {under : Name C.Block → SealingKey C → Prop} (held : Set WrapName)
    {value : C.Nonce → WrapName → Value C} (hkeys : s.keys = K.storeKeys)
    (hrecords : Records (K.key L) under content s.db) (hwraps : Wraps K.wrapKey held value s.db)
    (hrekey : content (.rekey t) = (K.rekey t).map .rekey) :
    ∃ db, s.dropRotation t (K.rekey t) = { s with db := db } ∧
      Records (K.key L) under (Function.update content (.rekey t) none) db ∧
      (∀ held', (∀ w, w ∈ held' ↔ (∀ r ∈ K.rotation t, w ≠ .dataKey t r.fromKeyId) ∧ w ∈ held) →
        Wraps K.wrapKey held' value db) ∧
      ∀ k, db.get .metadata k = s.db.get .metadata k := by
  obtain ⟨db, keys, nonce, clock⟩ := s
  obtain rfl := hkeys
  have hkeysMeta : Keyspace.keys ≠ .metadata := nofun
  have hrekeyMeta : Keyspace.rekey ≠ .metadata := nofun
  have hrekeyKeys : Keyspace.rekey ≠ .keys := nofun
  cases hr : K.rekey t with
  | none =>
    refine ⟨db, rfl, ?_, ?_, fun _ => rfl⟩
    · rw [hr, Option.map_none] at hrekey
      rw [← hrekey, Function.update_eq_self]
      exact hrecords
    · intro held' hheld
      refine hwraps.change (fun w => ?_) (fun _ _ _ => rfl) (fun _ => rfl)
      rw [hheld, KeyState.rotation, hr]
      simp
  | some r =>
    have hdrop (db' : Database C) (hget : ∀ keyspace k, keyspace ≠ .keys →
        db'.get keyspace k = db.get keyspace k) :
        Records (K.key L) under (Function.update content (.rekey t) none)
          (db'.remove .rekey (K.key L (.rekey t))) :=
      (hrecords.of_get fun keyspace k hspace => hget keyspace k hspace.2).remove (n := .rekey t)
    cases hdone : r.done with
    | true =>
      refine ⟨db.remove .rekey (K.key L (.rekey t)), ?_, hdrop db fun _ _ _ => rfl, ?_, ?_⟩
      · simp only [Store.dropRotation, hdone, if_true]
        rfl
      · intro held' hheld
        refine hwraps.change (fun w => ?_) (fun _ _ _ => rfl)
          fun k => Keyspaces.get_remove_of_ne (.inl hrekeyKeys)
        rw [hheld, KeyState.rotation, hr]
        simp [hdone]
      · exact fun k => Keyspaces.get_remove_of_ne (.inl hrekeyMeta)
    | false =>
      have hrotation : K.rotation t = some r := KeyState.mem_rotation.mpr ⟨hr, hdone⟩
      refine ⟨(db.remove .keys (K.wrapKey (.dataKey t r.fromKeyId))).remove .rekey
        (K.key L (.rekey t)), ?_, hdrop _ ?_, ?_, ?_⟩
      · simp only [Store.dropRotation, hdone]
        rfl
      · exact fun _ _ hne => Keyspaces.get_remove_of_ne (.inl hne.symm)
      · intro held' hheld
        have hremoved : Wraps K.wrapKey held' value
            (db.remove .keys (K.wrapKey (.dataKey t r.fromKeyId))) := by
          refine hwraps.remove fun w => ?_
          rw [hheld, hrotation]
          simp
        exact hremoved.of_get fun k => Keyspaces.get_remove_of_ne (.inl hrekeyKeys)
      · exact fun k => (Keyspaces.get_remove_of_ne (.inl hrekeyMeta)).trans
          (Keyspaces.get_remove_of_ne (.inl hkeysMeta))

/-- A shredded tenant holds nothing. -/
theorem shred_tenantOk (h : Represents K L s) (t' : TenantId) :
    (K.forget t).TenantOk (L.shred t) t' := by
  rcases eq_or_ne t' t with rfl | ht
  · have hgone : ¬ ((L.shred t').profiles t').isSome := by simp [Custody.shred]
    have hnone : ∀ r, r ∉ (K.forget t').rekey t' := by simp
    exact ⟨fun hlive => absurd hlive hgone, fun hlive => absurd hlive hgone,
      fun r hr => absurd hr (hnone r), fun r hr => absurd hr (hnone r),
      fun r hr => absurd hr (hnone r), fun r hr => absurd hr (hnone r),
      fun r hr => absurd hr (hnone r), fun r hr => absurd hr (hnone r)⟩
  · exact (h.tenants t').congr (Function.update_of_ne ht _ _) rfl rfl
      (KeyState.forget_rekey_of_ne ht) rfl subset_rfl

/-- The wrapped keys left are those of the other tenants. -/
theorem mem_shred_wrapped (w : WrapName) :
    w ∈ (K.forget t).Wrapped (L.shred t) ↔ w ≠ .addressKeys t ∧
      (∀ r ∈ K.rotation t, w ≠ .dataKey t r.fromKeyId) ∧ w ≠ .dataKey t (K.active t) ∧
        w ∈ K.Wrapped L := by
  cases w with
  | dataKey t' =>
    rcases eq_or_ne t' t with rfl | ht
    · simp only [KeyState.mem_wrapped_dataKey, Custody.shred, Function.update_self]
      constructor
      · rintro ⟨hlive, -⟩
        cases hlive
      · rintro ⟨-, hrotation, hactive, -, rfl | ⟨r, hr, rfl⟩⟩
        · exact absurd rfl hactive
        · exact absurd rfl (hrotation r hr)
    · have hactive : (K.forget t).active = K.active := rfl
      simp [KeyState.mem_wrapped_dataKey, Custody.shred, KeyState.forget_rotation_of_ne ht, ht,
        hactive]
  | addressKeys t' =>
    rcases eq_or_ne t' t with rfl | ht
    · simp [KeyState.mem_wrapped_addressKeys, Custody.shred]
    · simp [KeyState.mem_wrapped_addressKeys, Custody.shred, KeyState.forget_rekey_of_ne ht, ht]

/-- Records of other tenants stay as they are; those of the shredded one are never
opened again. -/
theorem shred_sealedUnder {n : Name C.Block} {k : SealingKey C} (hk : K.SealedUnder L n k) :
    (K.forget t).SealedUnder (L.shred t) n k := by
  cases n with
  | tenant t' | tombstone t' | rekey t' | global n => exact hk
  | sealed t' =>
    obtain ⟨id, hissued, hallowed, rfl⟩ := hk
    refine ⟨id, hissued, ?_, rfl⟩
    intro hlive
    rcases eq_or_ne t' t with rfl | ht
    · simp [Custody.shred] at hlive
    · rw [KeyState.forget_rotation_of_ne ht]
      refine hallowed ?_
      simpa [Custody.shred, ht] using hlive

variable (h : Represents K L s)

include h

/-- The database after a shred holds the book without the tenant. -/
theorem shred {db : Database C} (nonce : C.Nonce)
    (hrecords : Records (K.key L) (K.SealedUnder L)
      (Function.update (Function.update (K.content L) (.rekey t) none) (.tenant t) none) db)
    (hwraps : Wraps K.wrapKey ((K.forget t).Wrapped (L.shred t)) (K.wrap L) db)
    (hmeta : K.Unlocks db) :
    Represents (K.forget t) (L.shred t) { s.now.2 with
      db := db.insert .tenants (K.key L (.tombstone t)) (sealedValue K.storeKeys.metaKey .tombstone
        (K.key L (.tombstone t)) nonce (.tombstone ⟨t, L.clock 0⟩)) } where
  toRecords := by
    rw [KeyState.content_shred]
    exact hrecords.insert (n := .tombstone t) nonce (fun _ _ _ _ hk => shred_sealedUnder hk) rfl
  toWraps := by
    have hspace : Keyspace.tenants ≠ .keys := nofun
    exact hwraps.of_get fun k => Keyspaces.get_insert_of_ne (.inl hspace)
  metadata := by
    have hspace : Keyspace.tenants ≠ .metadata := nofun
    exact hmeta.insert hspace _ _
  keys := h.keys
  clock := by
    show (fun i => s.clock (i + 1)) = fun i => L.clock (i + 1)
    rw [h.clock]
  sized := by
    intro n p hp
    rw [KeyState.content_shred] at hp
    simp only [Function.update_apply] at hp
    split_ifs at hp
    · cases hp
      exact C.encodedLen_tombstone _
    · exact h.sized n p hp
  tenants := h.shred_tenantOk
  distinct := h.distinct
  stub_le := h.stub_le
  last_stub := h.last_stub
  owned := by
    intro t' n hn
    rcases eq_or_ne t' t with rfl | ht
    · exact .inr (by simp [Custody.shred])
    · simpa [Custody.shred, ht] using h.owned t' n hn

/-- Deleting a live tenant's keys and records always goes through. -/
theorem shredWith_ok (p : TenantProfile) :
    ∃ s', s.shredWith t (p.withKey (K.active t)) (K.rekey t) = .ok s' ∧
      Represents (K.forget t) (L.shred t) s' := by
  have hrep := h
  obtain ⟨db, keys, nonce, clock⟩ := s
  obtain rfl := h.keys
  obtain rfl := h.clock
  have hkeysMeta : Keyspace.keys ≠ .metadata := nofun
  have htenantsMeta : Keyspace.tenants ≠ .metadata := nofun
  have htenantsKeys : Keyspace.tenants ≠ .keys := nofun
  -- The active key goes first, then the rotation with the key it retires.
  obtain ⟨db₁, hdrop, hrecords, hwraps, hmeta⟩ := dropRotation_ok (K := K) (L := L) (t := t)
    (s := ⟨db.remove .keys (K.wrapKey (.dataKey t (K.active t))), K.storeKeys, nonce, L.clock⟩)
    (fun w => w ≠ .dataKey t (K.active t) ∧ w ∈ K.Wrapped L) rfl
    (h.toRecords.of_get fun _ _ hspace => Keyspaces.get_remove_of_ne (.inl hspace.2.symm))
    (h.toWraps.remove fun _ => .rfl) rfl
  have hbare : Wraps K.wrapKey ((K.forget t).Wrapped (L.shred t)) (K.wrap L)
      ((db₁.remove .keys (K.wrapKey (.addressKeys t))).remove .tenants (K.key L (.tenant t))) := by
    have hunkeyed := hwraps (fun w => (∀ r ∈ K.rotation t, w ≠ .dataKey t r.fromKeyId) ∧
      w ≠ .dataKey t (K.active t) ∧ w ∈ K.Wrapped L) fun _ => .rfl
    exact (hunkeyed.remove mem_shred_wrapped).of_get
      fun k => Keyspaces.get_remove_of_ne (.inl htenantsKeys)
  have hgone := (hrecords.of_get fun _ _ hspace =>
    Keyspaces.get_remove_of_ne (k := K.wrapKey (.addressKeys t)) (.inl hspace.2.symm)).remove
      (n := .tenant t)
  have hunlocks : K.Unlocks
      ((db₁.remove .keys (K.wrapKey (.addressKeys t))).remove .tenants (K.key L (.tenant t))) := by
    intro f hf
    rw [Keyspaces.get_remove_of_ne (.inl htenantsMeta),
      Keyspaces.get_remove_of_ne (.inl hkeysMeta), hmeta,
      Keyspaces.get_remove_of_ne (.inl hkeysMeta)]
    exact h.metadata f hf
  refine ⟨_, ?_, hrep.shred (nonce .tenants (K.key L (.tombstone t))) hgone hbare hunlocks⟩
  show (let unkeyed := Store.dropRotation ⟨db.remove .keys (K.wrapKey (.dataKey t (K.active t))),
      K.storeKeys, nonce, L.clock⟩ t (K.rekey t)
    let bare := (unkeyed.removeWrapped (.addressKeys t)).removeGlobal (.tenant t)
    bare.now.2.putGlobal (.tombstone t) (.tombstone ⟨t, bare.now.1⟩)) = _
  rw [hdrop]
  exact Store.putGlobal_eq_ok.mpr ⟨C.encodedLen_tombstone _, rfl⟩

/-- A shred of a live tenant goes through exactly when no open invocation involves it. -/
theorem shredTenant_new (hnamed : L.Named) (hlive : (L.profiles t).isSome)
    (hstone : L.tombstones t = none)
    (hclosed : ∀ id r, L.invocations id = some r → L.Involves t r → r.state.isTerminal) :
    ∃ s', s.shredTenant t = .ok s' ∧ Represents (K.forget t) (L.shred t) s' := by
  obtain ⟨p, hp⟩ := Option.isSome_iff_exists.mp hlive
  obtain ⟨found, hfound, hiff⟩ := h.hasOpenInvocations_ok hnamed t
  have hnot : found = false := by
    rw [← Bool.not_eq_true, hiff]
    rintro ⟨id, r, hr, hinvolved, hstate⟩
    exact hstate (hclosed id r hr hinvolved)
  obtain ⟨s', hrun, hrep⟩ := h.shredWith_ok (t := t) p
  refine ⟨s', ?_, hrep⟩
  unfold Store.shredTenant
  rw [h.tombstone_eq, ok_bind, hstone]
  dsimp only
  rw [h.tenantRecord_eq, ok_bind, hp, hfound, hnot, h.rekeyRecord_eq]
  exact hrun

/-- What a shred that succeeds has done: nothing to a tenant shredded before, and
otherwise it shredded a live tenant without open invocations. -/
theorem shredTenant_ok (hnamed : L.Named) (hs : s.shredTenant t = .ok s') :
    s' = s ∧ (L.tombstones t).isSome ∨
      L.tombstones t = none ∧ (L.profiles t).isSome ∧
        (∀ id r, L.invocations id = some r → L.Involves t r → r.state.isTerminal) ∧
        Represents (K.forget t) (L.shred t) s' := by
  unfold Store.shredTenant at hs
  rw [h.tombstone_eq, ok_bind] at hs
  cases hstone : L.tombstones t with
  | some =>
    rw [hstone] at hs
    cases hs
    exact .inl ⟨rfl, rfl⟩
  | none =>
    simp only [hstone] at hs
    rw [h.tenantRecord_eq, ok_bind] at hs
    cases hp : L.profiles t with
    | none =>
      rw [hp] at hs
      cases hs
    | some p =>
      obtain ⟨found, hfound, hiff⟩ := h.hasOpenInvocations_ok hnamed t
      rw [hp, hfound, h.rekeyRecord_eq] at hs
      obtain ⟨s'', hrun, hrep⟩ := h.shredWith_ok (t := t) p
      cases found with
      | true => cases hs
      | false =>
        have hs : s.shredWith t (p.withKey (K.active t)) (K.rekey t) = .ok s' := hs
        rw [hrun] at hs
        cases hs
        refine .inr ⟨rfl, rfl, ?_, hrep⟩
        intro id r hr hinvolved
        by_contra hstate
        exact absurd (hiff.mpr ⟨id, r, hr, hinvolved, hstate⟩) (by simp)

end Represents

theorem Custody.Named.shred {L : Custody C} (h : L.Named) (t : TenantId) : (L.shred t).Named :=
  { h with
    profiles := by
      intro t' p hp
      refine h.profiles t' p ?_
      simp only [Custody.shred, Function.update_apply] at hp
      split_ifs at hp
      exact hp
    tombstones := named_update h.tombstones ⟨t, L.clock 0⟩ }

end Dioptron
