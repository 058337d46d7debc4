import Dioptron.Simulation

/-! # Registering tenants and claiming keys

Registration issues a tenant's first data key and is the only operation that adds a
tenant to the book.  A claim writes an idempotency entry outside the transaction
programs, since it opens an entry under the active key alone.
-/
namespace Dioptron

open Relation (ReflGen)

variable {C : Crypto}

/-- The keys after data key `id` of `t` was drawn and made active. -/
def KeyState.issue (K : KeyState C) (t : TenantId) (id : KeyId) (draw : C.Block) : KeyState C :=
  { K with
    active := Function.update K.active t id
    dataKey := Function.update K.dataKey t (Function.update (K.dataKey t) id draw)
    issued := insert (t, id) K.issued }

namespace KeyState

variable {K : KeyState C} {t t' : TenantId} {id id' : KeyId} {draw : C.Block}

@[simp] theorem issue_active_self : (K.issue t id draw).active t = id := by
  simp [issue]

theorem issue_active_of_ne (h : t' ≠ t) : (K.issue t id draw).active t' = K.active t' := by
  simp [issue, h]

@[simp] theorem issue_dataKey_self : (K.issue t id draw).dataKey t id = draw := by
  simp [issue]

theorem issue_dataKey_of_ne (h : t' ≠ t ∨ id' ≠ id) :
    (K.issue t id draw).dataKey t' id' = K.dataKey t' id' := by
  rcases eq_or_ne t' t with rfl | ht
  · simp [issue, h.resolve_left (by simp)]
  · simp [issue, ht]

theorem mem_issue_issued : (t', id') ∈ (K.issue t id draw).issued ↔
    (t' = t ∧ id' = id) ∨ (t', id') ∈ K.issued := by
  simp [issue]

theorem issue_sealing_of_ne (h : t' ≠ t ∨ id' ≠ id) :
    (K.issue t id draw).sealing t' id' = K.sealing t' id' := by
  rw [sealing, sealing, issue_dataKey_of_ne h]

/-- A fresh draw keeps the issued keys distinct. -/
theorem issue_distinct
    (h : ∀ x ∈ K.issued, ∀ y ∈ K.issued, K.dataKey x.1 x.2 = K.dataKey y.1 y.2 → x = y)
    (hfresh : ∀ x ∈ K.issued, K.dataKey x.1 x.2 ≠ draw) :
    ∀ x ∈ (K.issue t id draw).issued, ∀ y ∈ (K.issue t id draw).issued,
      (K.issue t id draw).dataKey x.1 x.2 = (K.issue t id draw).dataKey y.1 y.2 → x = y := by
  -- Off the new key the keys are those of `K`.
  have hold (x : TenantId × KeyId) (hne : x ≠ (t, id)) :
      (K.issue t id draw).dataKey x.1 x.2 = K.dataKey x.1 x.2 := by
    refine issue_dataKey_of_ne ?_
    by_contra hboth
    rw [not_or, not_not, not_not] at hboth
    exact hne (Prod.ext hboth.1 hboth.2)
  intro x hx y hy hxy
  rcases eq_or_ne x (t, id) with rfl | hxne <;> rcases eq_or_ne y (t, id) with rfl | hyne
  · rfl
  · rw [hold y hyne, issue_dataKey_self] at hxy
    exact absurd hxy.symm (hfresh y (hy.resolve_left hyne))
  · rw [hold x hxne, issue_dataKey_self] at hxy
    exact absurd hxy (hfresh x (hx.resolve_left hxne))
  · rw [hold x hxne, hold y hyne] at hxy
    exact h x (hx.resolve_left hxne) y (hy.resolve_left hyne) hxy

end KeyState

/-- The book after `p` registered, with its addressing keys. -/
def Custody.register (L : Custody C) (p : TenantProfile) (address : AddressKeys C) : Custody C :=
  { L.tick with
    profiles := Function.update L.profiles p.id (some p)
    address := Function.update L.address p.id address }

namespace Represents

variable {K : KeyState C} {L : Custody C} {s : Store C}

theorem rekey_eq_none (h : Represents K L s) {t : TenantId} (ht : L.profiles t = none) :
    K.rekey t = none := by
  cases hr : K.rekey t with
  | none => rfl
  | some r =>
    have hlive := (h.tenants t).live_of_rekey r hr
    rw [ht] at hlive
    cases hlive

/-- Only the new tenant's record is added. -/
theorem register_content (p : TenantProfile) (draw : C.Block) (address : AddressKeys C) :
    (K.issue p.id initialDataKeyId draw).content (L.register p address) =
      Function.update (K.content L) (.tenant p.id)
        (some (.tenant (p.withKey initialDataKeyId))) := by
  funext n
  rw [Function.update_apply]
  cases n with
  | tenant t =>
    rcases eq_or_ne t p.id with rfl | ht
    · simp [KeyState.content, Custody.register]
    · simp [KeyState.content, Custody.register, ht, KeyState.issue_active_of_ne ht]
  | sealed t n => cases n <;> rfl
  | global n => cases n <;> rfl
  | tombstone t | rekey t => rfl

section Register

variable (h : Represents K L s) {p : TenantProfile} {draw : C.Block}
  (hnew : L.profiles p.id = none) (hstone : L.tombstones p.id = none)

include h hnew hstone

theorem sealed_eq_none (n : TenantName C.Block) : L.sealed p.id n = none := by
  cases hn : L.sealed p.id n with
  | none => rfl
  | some =>
    rcases h.owned p.id n (by rw [hn]; rfl) with hlive | hdead
    · rw [hnew] at hlive
      cases hlive
    · rw [hstone] at hdead
      cases hdead

/-- Records stay where they are and sealed as they are. -/
theorem register_records :
    Records ((K.issue p.id initialDataKeyId draw).key
        (L.register p (⟨initialDataKeyId, draw⟩ : TenantDataKey C).address))
      ((K.issue p.id initialDataKeyId draw).SealedUnder
        (L.register p (⟨initialDataKeyId, draw⟩ : TenantDataKey C).address))
      (K.content L) s.db := by
  have hne (t : TenantId) (n : TenantName C.Block) (hn : (L.sealed t n).isSome) : t ≠ p.id := by
    rintro rfl
    rw [h.sealed_eq_none hnew hstone] at hn
    cases hn
  refine h.toRecords.change (fun _ _ => KeyState.key_inj) ?_ ?_ fun _ _ _ => rfl
  · intro n hn
    cases n with
    | sealed t n =>
      simp only [KeyState.key, KeyState.index, Custody.register,
        Function.update_of_ne (hne t n hn)]
    | tenant t | tombstone t | rekey t | global n => rfl
  · intro n key hn hkey
    cases n with
    | sealed t n =>
      have ht := hne t n hn
      obtain ⟨id, hissued, hallowed, rfl⟩ := hkey
      refine ⟨id, KeyState.mem_issue_issued.mpr (.inr hissued), ?_, ?_⟩
      · intro hlive
        simp only [Custody.register, Function.update_of_ne ht] at hlive ⊢
        rw [KeyState.issue_active_of_ne ht]
        exact hallowed hlive
      · rw [KeyState.issue_sealing_of_ne (.inl ht)]
    | tenant t | tombstone t | rekey t | global n => exact hkey

omit hstone in
theorem register_tenantOk (t : TenantId) :
    (K.issue p.id initialDataKeyId draw).TenantOk
      (L.register p (⟨initialDataKeyId, draw⟩ : TenantDataKey C).address) t := by
  have hrekey : K.rekey p.id = none := h.rekey_eq_none hnew
  rcases eq_or_ne t p.id with rfl | ht
  · refine ⟨?_, ?_, ?_, ?_, ?_, ?_, ?_, ?_⟩
    · intro _ _
      simp [Custody.register]
    · intro _
      rw [KeyState.issue_active_self]
      exact KeyState.mem_issue_issued.mpr (.inl ⟨rfl, rfl⟩)
    all_goals
      intro r hr
      rw [show (K.issue p.id initialDataKeyId draw).rekey p.id = none from hrekey] at hr
      cases hr
  · exact (h.tenants t).congr (Function.update_of_ne ht _ _) (Function.update_of_ne ht _ _)
      (KeyState.issue_active_of_ne ht) rfl (Function.update_of_ne ht _ _) (Set.subset_insert _ _)

omit hstone in
theorem register_wraps (nonce : C.Nonce) :
    Wraps K.wrapKey
      ((K.issue p.id initialDataKeyId draw).Wrapped
        (L.register p (⟨initialDataKeyId, draw⟩ : TenantDataKey C).address))
      ((K.issue p.id initialDataKeyId draw).wrap
        (L.register p (⟨initialDataKeyId, draw⟩ : TenantDataKey C).address))
      (s.db.insert .keys (K.wrapKey (.dataKey p.id initialDataKeyId))
        (K.storeKeys.wrapTenantKey p.id nonce ⟨initialDataKeyId, draw⟩)) := by
  have hrekey : K.rekey p.id = none := h.rekey_eq_none hnew
  have hrotation : K.rotation p.id = none := by rw [KeyState.rotation, hrekey]; rfl
  refine h.toWraps.insert nonce ?_ ?_ ?_
  · rintro (⟨t, id⟩ | t)
    · rcases eq_or_ne t p.id with rfl | ht
      · simp only [KeyState.mem_wrapped_dataKey, Custody.register, Function.update_self,
          KeyState.issue_active_self, hnew]
        rw [show (K.issue p.id initialDataKeyId draw).rotation p.id = none from hrotation]
        simp
      · simp only [KeyState.mem_wrapped_dataKey, Custody.register, Function.update_of_ne ht,
          KeyState.issue_active_of_ne ht, WrapName.dataKey.injEq, ht, false_and, false_or]
        rfl
    · rcases eq_or_ne t p.id with rfl | ht
      · simp only [KeyState.mem_wrapped_addressKeys, hnew]
        rw [show (K.issue p.id initialDataKeyId draw).rekey p.id = none from hrekey]
        simp
      · simp only [KeyState.mem_wrapped_addressKeys, Custody.register, Function.update_of_ne ht,
          reduceCtorEq, false_or]
        rfl
  · rintro nonce' (⟨t, id⟩ | t) hw hne
    · have hother : t ≠ p.id ∨ id ≠ initialDataKeyId := by
        by_contra hboth
        rw [not_or, not_not, not_not] at hboth
        exact hne (by rw [hboth.1, hboth.2])
      show (K.issue p.id initialDataKeyId draw).storeKeys.wrapTenantKey t nonce' ⟨id, _⟩ = _
      rw [KeyState.issue_dataKey_of_ne hother]
      rfl
    · have ht : t ≠ p.id := by
        rintro rfl
        have hlive := hw.1
        rw [hnew] at hlive
        cases hlive
      simp only [KeyState.wrap, Custody.register, Function.update_of_ne ht]
      rfl
  · show _ = (K.issue p.id initialDataKeyId draw).storeKeys.wrapTenantKey p.id nonce
      ⟨initialDataKeyId, _⟩
    rw [KeyState.issue_dataKey_self]
    rfl

/-- A registration written to the database is one in the book. -/
theorem register (hfresh : ∀ x ∈ K.issued, K.dataKey x.1 x.2 ≠ draw)
    (hlen : C.encodedLen (.tenant (p.withKey initialDataKeyId)) ≤ maxPlaintextLen)
    (nonce nonce' : C.Nonce) :
    Represents (K.issue p.id initialDataKeyId draw)
      (L.register p (⟨initialDataKeyId, draw⟩ : TenantDataKey C).address)
      { s.now.2 with
        db := (s.db.insert .keys (K.wrapKey (.dataKey p.id initialDataKeyId))
            (K.storeKeys.wrapTenantKey p.id nonce ⟨initialDataKeyId, draw⟩)).insert .tenants
          (K.key L (.tenant p.id)) (sealedValue K.storeKeys.metaKey .tenant
            (K.key L (.tenant p.id)) nonce' (.tenant (p.withKey initialDataKeyId))) } where
  toRecords := by
    rw [register_content]
    refine ((h.register_records hnew hstone).of_get ?_).insert (n := .tenant p.id) nonce'
      (fun _ _ _ _ hk => hk) rfl
    intro keyspace k hspace
    exact Keyspaces.get_insert_of_ne (.inl hspace.2.symm)
  toWraps := by
    refine (h.register_wraps hnew nonce).of_get ?_
    intro k
    exact Keyspaces.get_insert_of_ne (.inl nofun)
  metadata := by
    have hkeys : Keyspace.keys ≠ .metadata := nofun
    have htenants : Keyspace.tenants ≠ .metadata := nofun
    exact (h.metadata.insert hkeys _ _).insert htenants _ _
  keys := h.keys
  clock := by
    show (fun i => s.clock (i + 1)) = fun i => L.clock (i + 1)
    rw [h.clock]
  sized := by
    intro n q hq
    rw [register_content, Function.update_apply] at hq
    split_ifs at hq
    · cases hq
      exact hlen
    · exact h.sized n q hq
  tenants := h.register_tenantOk hnew
  distinct := KeyState.issue_distinct h.distinct hfresh
  stub_le := h.stub_le
  last_stub := h.last_stub
  owned := by
    intro t n hn
    have hold : (L.sealed t n).isSome := by cases n <;> exact hn
    rcases h.owned t n hold with hlive | hdead
    · refine .inl ?_
      show (Function.update L.profiles p.id (some p) t).isSome
      rw [Function.update_apply]
      split_ifs
      · rfl
      · exact hlive
    · exact .inr hdead

end Register

variable {registration : TenantRegistration} {draw : C.Block} {s' : Store C}

theorem checkParent_eq_ok (h : Represents K L s) {parent : Option TenantId} {u : Unit} :
    s.checkParent parent = .ok u ↔ ∀ q ∈ parent, (L.profiles q).isSome := by
  cases parent with
  | none => simp [Store.checkParent]
  | some q =>
    simp only [Store.checkParent, h.tenantRecord_eq, ok_bind, Option.mem_def, Option.some.injEq,
      forall_eq']
    cases L.profiles q with
    | none => simp [Store.expect, bind, Except.bind]
    | some => simp [Store.expect, bind, Except.bind, pure, Except.pure]

/-- Registering a new tenant whose parent is registered goes through. -/
theorem registerTenant_new (h : Represents K L s) (hnew : L.profiles registration.id = none)
    (hstone : L.tombstones registration.id = none)
    (hparent : ∀ q ∈ registration.parent, (L.profiles q).isSome)
    (hfresh : ∀ x ∈ K.issued, K.dataKey x.1 x.2 ≠ draw)
    (hlen : C.encodedLen (.tenant ((registration.profile (L.clock 0)).withKey initialDataKeyId)) ≤
      maxPlaintextLen) :
    ∃ s', s.registerTenant registration draw = .ok s' ∧
      Represents (K.issue registration.id initialDataKeyId draw)
        (L.register (registration.profile (L.clock 0))
          (⟨initialDataKeyId, draw⟩ : TenantDataKey C).address) s' := by
  have hcheck : s.checkParent registration.parent = .ok () := h.checkParent_eq_ok.mpr hparent
  simp only [Store.registerTenant, h.tenantRecord_eq, hnew, h.tombstone_eq, hstone, ok_bind,
    Option.map_none, Option.isNone_none, ensure_of_true, hcheck, Store.putGlobal_eq_ok]
  obtain ⟨db, keys, nonce, clock⟩ := s
  obtain rfl := h.keys
  obtain rfl := h.clock
  exact ⟨_, ⟨hlen, rfl⟩, h.register hnew hstone hfresh hlen _ _⟩

/-- What a registration did: nothing for a tenant registered alike, or it added the
tenant. -/
theorem registerTenant_ok (h : Represents K L s) (hfresh : ∀ x ∈ K.issued, K.dataKey x.1 x.2 ≠ draw)
    (hs : s.registerTenant registration draw = .ok s') :
    (s' = s ∧ ∃ p, L.profiles registration.id = some p ∧
        sameIdentity (p.withKey (K.active registration.id)) registration) ∨
      L.profiles registration.id = none ∧ L.tombstones registration.id = none ∧
      (∀ q ∈ registration.parent, (L.profiles q).isSome) ∧
      C.encodedLen (.tenant ((registration.profile (L.clock 0)).withKey initialDataKeyId)) ≤
        maxPlaintextLen ∧
      Represents (K.issue registration.id initialDataKeyId draw)
        (L.register (registration.profile (L.clock 0))
          (⟨initialDataKeyId, draw⟩ : TenantDataKey C).address) s' := by
  cases hnew : L.profiles registration.id with
  | some p =>
    simp only [Store.registerTenant, h.tenantRecord_eq, hnew, ok_bind, Option.map_some] at hs
    obtain ⟨_, hsame, hs⟩ := bind_eq_ok.mp hs
    exact .inl ⟨(Except.ok.inj hs).symm, p, rfl, ensure_eq_ok.mp hsame⟩
  | none =>
    have hrun := hs
    simp only [Store.registerTenant, h.tenantRecord_eq, hnew, h.tombstone_eq, ok_bind,
      Option.map_none] at hrun
    obtain ⟨_, hstone, hrun⟩ := bind_eq_ok.mp hrun
    obtain ⟨_, hparent, hrun⟩ := bind_eq_ok.mp hrun
    have hstone : L.tombstones registration.id = none := by
      simpa using ensure_eq_ok.mp hstone
    have hparent := h.checkParent_eq_ok.mp hparent
    have hclock : s.clock 0 = L.clock 0 := by rw [h.clock]
    have hlen : C.encodedLen (.tenant
        ((registration.profile (L.clock 0)).withKey initialDataKeyId)) ≤ maxPlaintextLen := by
      rw [← hclock]
      exact (Store.putGlobal_eq_ok.mp hrun).1
    obtain ⟨s'', hs'', hrep⟩ := h.registerTenant_new hnew hstone hparent hfresh hlen
    rw [hs''] at hs
    cases hs
    exact .inr ⟨rfl, hstone, hparent, hlen, hrep⟩

/-! ## Claims -/

variable {claim : IdemClaim C}

/-- The name of the entry a claim reads and writes. -/
def claimName (claim : IdemClaim C) : TenantName C.Block := .idem claim.capability claim.key

variable (h : Represents K L s)

include h

theorem claimEntry_of_free
    (hfree : L.idem (claim.tenant, claim.capability, claim.key) = none) :
    s.claimEntry (K.ring L claim.tenant) claim = .ok none := by
  have hcontent : K.content L (.sealed claim.tenant (claimName claim)) = none := by
    show (L.idem (claim.tenant, claim.capability, claim.key)).map Plain.idem = none
    rw [hfree]
    rfl
  have hget : s.get (claimName claim).slot (Store.sealedKey (K.ring L claim.tenant) claim.tenant
      (claimName claim)) [(K.ring L claim.tenant).active.metaKey] = .ok none :=
    Store.get_of_none (h.toRecords.get_none hcontent)
  rw [Store.claimEntry]
  exact (congrArg (fun x => x >>= _) hget).trans rfl

/-- A bound entry is answered when it is sealed under the active key, and not opened when
a rotation has not come to it. -/
theorem claimEntry_of_bound {r : IdemRecord C.Block}
    (hr : L.idem (claim.tenant, claim.capability, claim.key) = some r) :
    ∃ id, (s.db.get .idem (K.key L (.sealed claim.tenant (claimName claim)))).bind
        Value.sealedKeyId = some id ∧
      s.claimEntry (K.ring L claim.tenant) claim =
        if id = K.active claim.tenant then .ok (some r) else .error (.unknownKeyId id) := by
  have hcontent : K.content L (.sealed claim.tenant (claimName claim)) = some (.idem r) := by
    show (L.idem (claim.tenant, claim.capability, claim.key)).map Plain.idem = _
    rw [hr]
    rfl
  obtain ⟨key, nonce, ⟨id, -, -, rfl⟩, hget⟩ := h.stored _ _ hcontent
  have hget : s.db.get .idem (K.key L (.sealed claim.tenant (claimName claim))) = _ := hget
  refine ⟨id, ?_, ?_⟩
  · rw [hget, Option.bind_some, sealedKeyId_sealedValue]
    rfl
  · have hread : s.get (claimName claim).slot (K.key L (.sealed claim.tenant (claimName claim)))
        [(K.sealing claim.tenant (K.active claim.tenant)).metaKey] = _ := Store.get_of_some hget
    rw [Store.claimEntry]
    refine (congrArg (fun x => x >>= _) hread).trans ?_
    rw [openBytes_sealedValue _ _ _ _ (KeyState.key_len_lt _)]
    by_cases hid : id = K.active claim.tenant
    · subst hid
      simp [claimName, KeyState.sealing, TenantDataKey.sealing, TenantName.sealer, Name.slot,
        decodeAs, Stored.decode]
    · have hne : ((K.active claim.tenant) == id) = false := by
        simpa using fun heq => hid heq.symm
      simp [claimName, KeyState.sealing, TenantDataKey.sealing, TenantName.sealer, hid, hne]

/-- A claim of a free key binds it. -/
theorem claim_free (hlive : (L.profiles claim.tenant).isSome)
    (hfree : L.idem (claim.tenant, claim.capability, claim.key) = none) :
    ∃ s', s.claim claim = .ok (.fresh claim.invocation, s') ∧
      Represents K (L.putSealed claim.tenant (.idem claim.capability claim.key
        ⟨claim.invocation, claim.binding⟩)) s' := by
  obtain ⟨s', hs', hrep⟩ := h.putSealed_ok hlive (e := .idem claim.capability claim.key
    ⟨claim.invocation, claim.binding⟩) (C.encodedLen_idem _)
  refine ⟨s', ?_, hrep⟩
  have hs' : s.putSealed (K.ring L claim.tenant) claim.tenant
      (.idem claim.capability claim.key) (.idem ⟨claim.invocation, claim.binding⟩) = .ok s' := hs'
  simp only [Store.claim, h.tenantKeys_of_live hlive, ok_bind, h.claimEntry_of_free hfree]
  show (s.putSealed _ _ _ (.idem _) >>= _) = _
  rw [hs']
  rfl

/-- What a claim did: it found the key bound, or bound it. -/
theorem claim_ok {out : Claimed} (hs : s.claim claim = .ok (out, s')) :
    (L.profiles claim.tenant).isSome ∧
      ((∃ r, L.idem (claim.tenant, claim.capability, claim.key) = some r ∧
          out = compareBinding r claim.binding ∧ s' = s) ∨
        (L.idem (claim.tenant, claim.capability, claim.key) = none ∧
          out = .fresh claim.invocation ∧
          Represents K (L.putSealed claim.tenant (.idem claim.capability claim.key
            ⟨claim.invocation, claim.binding⟩)) s')) := by
  have hrun := hs
  unfold Store.claim at hrun
  rw [h.tenantKeys_eq] at hrun
  obtain ⟨ring, hring, hrun⟩ := bind_eq_ok.mp hrun
  obtain ⟨u, hlive, rfl⟩ := map_eq_ok.mp hring
  have hlive := (Custody.checkLive_eq_ok L).mp hlive
  refine ⟨hlive, ?_⟩
  cases hr : L.idem (claim.tenant, claim.capability, claim.key) with
  | some r =>
    obtain ⟨entry, hentry, hrun⟩ := bind_eq_ok.mp hrun
    obtain ⟨id, -, heq⟩ := h.claimEntry_of_bound hr
    rw [heq] at hentry
    split_ifs at hentry
    cases hentry
    cases hrun
    exact .inl ⟨r, rfl, rfl, rfl⟩
  | none =>
    obtain ⟨s'', hs'', hrep⟩ := h.claim_free hlive hr
    rw [hs''] at hs
    cases hs
    exact .inr ⟨rfl, rfl, hrep⟩

end Represents
end Dioptron
