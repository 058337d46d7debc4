import Dioptron.Attenuation

/-! # Open invocations and shredded tenants

An invocation that is not finished has a registered tenant and, in a session, a
registered session owner: a call is refused when one of them is shredded, and neither
can be shredded while the call is open.  A shredded tenant has no key left, and nothing
brings one back.
-/
namespace Dioptron

open Relation (ReflTransGen)

variable {C : Crypto}

namespace Book.Step

variable {b b' : Book C}

/-- Where the invocations of a book come from. -/
theorem invocation_cases (h : Book.Step b b') (hnamed : b.InvocationsNamed)
    (honce : b.LedgersListedOnce) {id : InvocationId} {r' : InvocationRecord}
    (hr' : b'.invocations id = some r') :
    b.invocations id = none ∨ ∃ r, b.invocations id = some r ∧ r.SameCall r' ∧
      (r'.state.isTerminal = false → r.state.isTerminal = false) := by
  cases hr : b.invocations id with
  | none => exact .inl rfl
  | some r =>
    refine .inr ⟨r, rfl, ?_⟩
    cases h.accounts hnamed honce with
    | quiet hinvocations =>
      rw [hinvocations, hr] at hr'
      cases hr'
      exact ⟨.refl _, fun h => h⟩
    | reserved _ hnew hset =>
      rw [hset, Function.update_apply] at hr'
      split_ifs at hr' with heq
      · rw [heq, hnew] at hr
        cases hr
      · rw [hr] at hr'
        cases hr'
        exact ⟨.refl _, fun h => h⟩
    | advanced _ _ hq hsame hset hsource =>
      rw [hset, Function.update_apply] at hr'
      split_ifs at hr' with heq
      · rw [heq, hq] at hr
        cases hr
        cases hr'
        exact ⟨hsame, fun _ => hsource⟩
      · rw [hr] at hr'
        cases hr'
        exact ⟨.refl _, fun h => h⟩
    | settled _ _ _ hq hsame hset hsource =>
      rw [hset, Function.update_apply] at hr'
      split_ifs at hr' with heq
      · rw [heq, hq] at hr
        cases hr
        cases hr'
        exact ⟨hsame, fun _ => hsource⟩
      · rw [hr] at hr'
        cases hr'
        exact ⟨.refl _, fun h => h⟩

/-- A new invocation names a stored session whose owner is not shredded. -/
theorem new_session (h : Book.Step b b') (hnamed : b.InvocationsNamed) {id : InvocationId}
    {r : InvocationRecord} (hr : b'.invocations id = some r) (hnew : b.invocations id = none)
    (session : SessionId) (hsession : session ∈ r.session) :
    (b.sessions session).isSome ∧ ∀ sr, b.sessions session = some sr →
      b.tombstones sr.owner = none := by
  obtain ⟨intent, chain, plan, decided, now, -, rfl, -, hauth, hstone⟩ :=
    h.persisted_of_new hnamed hr hnew
  have hsession : session ∈ intent.authz.session := hsession
  refine ⟨?_, hstone session hsession⟩
  obtain ⟨links, found, hallowed⟩ := authorize_allowed hauth
  rw [← hallowed.session_eq, Option.mem_def, Option.map_eq_some_iff] at hsession
  obtain ⟨⟨_, owner⟩, hfound, rfl⟩ := hsession
  have howner := hallowed.owner _ owner hfound
  rw [Book.view_sessionOwner, Except.ok.injEq, Option.map_eq_some_iff] at howner
  obtain ⟨sr, hsr, -⟩ := howner
  rw [hsr]
  rfl

/-- **What a step does to tenants**: nothing, or it registers one, or it shreds one that
no open invocation involves. -/
theorem tenants_cases (h : Book.Step b b') :
    (b'.profiles = b.profiles ∧ b'.tombstones = b.tombstones) ∨
    (∃ p, b.profiles p.id = none ∧ b.tombstones p.id = none ∧
      b'.profiles = Function.update b.profiles p.id (some p) ∧ b'.tombstones = b.tombstones) ∨
    ∃ t stone, (b.profiles t).isSome ∧
      (∀ id r, b.invocations id = some r → b.Involves t r → r.state.isTerminal) ∧
      b' = { b with
        profiles := Function.update b.profiles t none
        tombstones := Function.update b.tombstones t (some stone) } := by
  cases h with
  | register p hnew hstone => exact .inr (.inl ⟨p, hnew, hstone, rfl, rfl⟩)
  | shred t stone hlive _ hclosed => exact .inr (.inr ⟨t, stone, hlive, hclosed, rfl⟩)
  | persist _ _ _ _ _ hadmits =>
    obtain ⟨f, rfl, -⟩ := Book.moveLedgers_frame hadmits.debit
    exact .inl ⟨rfl, rfl⟩
  | finish _ _ _ _ _ _ _ _ _ _ _ _ _ hpaid =>
    obtain ⟨f, rfl, -⟩ := Book.moveLedgers_frame hpaid
    exact .inl ⟨rfl, rfl⟩
  | _ => exact .inl ⟨rfl, rfl⟩

/-- **What a step does to sessions**: nothing, or it opens one for a live owner. -/
theorem sessions_cases (h : Book.Step b b') :
    b'.sessions = b.sessions ∨ ∃ r, (b.profiles r.owner).isSome ∧ b.sessions r.id = none ∧
      b'.profiles = b.profiles ∧ b'.sessions = Function.update b.sessions r.id (some r) := by
  cases h with
  | openSession r howner _ hnew => exact .inr ⟨r, howner, hnew, rfl, rfl⟩
  | persist _ _ _ _ _ hadmits =>
    obtain ⟨f, rfl, -⟩ := Book.moveLedgers_frame hadmits.debit
    exact .inl rfl
  | finish _ _ _ _ _ _ _ _ _ _ _ _ _ hpaid =>
    obtain ⟨f, rfl, -⟩ := Book.moveLedgers_frame hpaid
    exact .inl rfl
  | _ => exact .inl rfl

end Book.Step

/-- Open invocations are attended to: their tenants and session owners are registered. -/
structure Book.Attended (b : Book C) : Prop where
  owners : ∀ id r, b.sessions id = some r →
    (b.profiles r.owner).isSome ∨ (b.tombstones r.owner).isSome
  sessions : ∀ id r, b.invocations id = some r → ∀ session ∈ r.session, (b.sessions session).isSome
  tenant : ∀ id r, b.invocations id = some r → r.state.isTerminal = false →
    (b.profiles r.tenant).isSome
  owner : ∀ id r, b.invocations id = some r → r.state.isTerminal = false →
    ∀ session ∈ r.session, ∀ sr, b.sessions session = some sr → (b.profiles sr.owner).isSome

namespace Book.Attended

variable {b b' : Book C}

theorem empty : (Book.empty : Book C).Attended where
  owners := fun _ _ h => by cases h
  sessions := fun _ _ h => by cases h
  tenant := fun _ _ h => by cases h
  owner := fun _ _ h => by cases h

/-- Every session keeps an owner that was registered once. -/
theorem step_owners (h : b.Attended) (hext : b.Extends b') (hstep : Book.Step b b') :
    ∀ id r, b'.sessions id = some r →
      (b'.profiles r.owner).isSome ∨ (b'.tombstones r.owner).isSome := by
  have hkept {t : TenantId} (ht : (b.profiles t).isSome ∨ (b.tombstones t).isSome) :
      (b'.profiles t).isSome ∨ (b'.tombstones t).isSome :=
    show b'.HasOwner (.tenant t) from hext.hasOwner ht
  intro id r hr
  rcases hstep.sessions_cases with heq | ⟨new, howner, hnew, -, heq⟩
  · rw [heq] at hr
    exact hkept (h.owners id r hr)
  · rw [heq, Function.update_apply] at hr
    split_ifs at hr
    · cases hr
      exact hkept (.inl howner)
    · exact hkept (h.owners id r hr)

/-- A step that takes no tenant away keeps open invocations attended. -/
theorem step_of_kept (h : b.Attended) (hnamed : b.InvocationsNamed) (honce : b.LedgersListedOnce)
    (hstep : Book.Step b b') (hlive : ∀ t, (b.profiles t).isSome → (b'.profiles t).isSome) :
    b'.Attended := by
  have hext := hstep.extends hnamed
  have hsessions {session : SessionId} (hs : (b.sessions session).isSome) :
      (b'.sessions session).isSome := by
    obtain ⟨sr, hsr⟩ := Option.isSome_iff_exists.mp hs
    rw [hext.sessions session sr hsr]
    rfl
  -- A session that an invocation names is old, so its record is the one it had.
  have hold {session : SessionId} {sr : SessionRecord} (hs : (b.sessions session).isSome)
      (hsr : b'.sessions session = some sr) : b.sessions session = some sr := by
    obtain ⟨sr', hsr'⟩ := Option.isSome_iff_exists.mp hs
    rw [hext.sessions session sr' hsr'] at hsr
    rw [hsr', hsr]
  refine ⟨h.step_owners hext hstep, ?_, ?_, ?_⟩
  · intro id r' hr' session hsession
    rcases hstep.invocation_cases hnamed honce hr' with hnew | ⟨r, hr, hsame, -⟩
    · exact hsessions (hstep.new_session hnamed hr' hnew session hsession).1
    · rw [hsame.session] at hsession
      exact hsessions (h.sessions id r hr session hsession)
  · intro id r' hr' hopen
    rcases hstep.invocation_cases hnamed honce hr' with hnew | ⟨r, hr, hsame, hsource⟩
    · obtain ⟨intent, chain, plan, decided, now, -, rfl, htenant, -⟩ :=
        hstep.persisted_of_new hnamed hr' hnew
      exact hlive _ htenant
    · rw [hsame.tenant]
      exact hlive _ (h.tenant id r hr (hsource hopen))
  · intro id r' hr' hopen session hsession sr hsr
    rcases hstep.invocation_cases hnamed honce hr' with hnew | ⟨r, hr, hsame, hsource⟩
    · obtain ⟨hs, hstone⟩ := hstep.new_session hnamed hr' hnew session hsession
      have hsr := hold hs hsr
      refine hlive _ ((h.owners session sr hsr).resolve_right ?_)
      rw [hstone sr hsr]
      exact nofun
    · rw [hsame.session] at hsession
      have hsr := hold (h.sessions id r hr session hsession) hsr
      exact hlive _ (h.owner id r hr (hsource hopen) session hsession sr hsr)

/-- **One step keeps open invocations attended.** -/
theorem step (h : b.Attended) (hnamed : b.InvocationsNamed) (honce : b.LedgersListedOnce)
    (hstep : Book.Step b b') : b'.Attended := by
  rcases hstep.tenants_cases with ⟨hprofiles, -⟩ | ⟨p, -, -, hprofiles, -⟩ |
    ⟨t, stone, hlive, hclosed, rfl⟩
  · exact h.step_of_kept hnamed honce hstep fun t ht => by rwa [hprofiles]
  · refine h.step_of_kept hnamed honce hstep fun t ht => ?_
    rw [hprofiles, Function.update_apply]
    split_ifs
    · rfl
    · exact ht
  · have hother {t' : TenantId} (hne : t' ≠ t) (ht' : (b.profiles t').isSome) :
        (Function.update b.profiles t none t').isSome := by
      rwa [Function.update_of_ne hne]
    refine ⟨h.step_owners (hstep.extends hnamed) hstep, h.sessions, ?_, ?_⟩
    · intro id r hr hopen
      refine hother ?_ (h.tenant id r hr hopen)
      rintro rfl
      exact absurd (hclosed id r hr (.inl rfl)) (by rw [hopen]; exact nofun)
    · intro id r hr hopen session hsession sr hsr
      refine hother ?_ (h.owner id r hr hopen session hsession sr hsr)
      rintro rfl
      exact absurd (hclosed id r hr (.inr ⟨session, hsession, sr, hsr, rfl⟩))
        (by rw [hopen]; exact nofun)

end Book.Attended

theorem Custody.Reachable.attended {L : Custody C} (h : L.Reachable) : L.toBook.Attended :=
  h.book_induction Book.Attended.empty fun _ _ hreach hattended hstep =>
    hattended.step hreach.named.invocations hreach.conserved.once hstep

/-! ## A shredded tenant -/

/-- The database holds nothing of a tenant that a key could be had from, under this root or
another, nor its record. -/
structure Store.Bare (s : Store C) (t : TenantId) : Prop where
  noDataKey : ∀ k v, s.db.get .keys k = some v →
    ∀ (keys : StoreKeys C) key, keys.unwrapTenantKey t v ≠ .ok key
  noAddressKeys : ∀ k v, s.db.get .keys k = some v →
    ∀ (keys : StoreKeys C) address, keys.unwrapAddressKeys t v ≠ .ok address
  dataKeys : ∀ id, s.db.get .keys (s.wrapKey (.dataKey t id)) = none
  addressKeys : s.db.get .keys (s.wrapKey (.addressKeys t)) = none
  rekey : s.db.get .rekey (s.globalKey (.rekey t)) = none
  tenant : s.db.get .tenants (s.globalKey (.tenant t)) = none

/-- A store holds nothing of a tenant that is not registered. -/
theorem Represents.bare {K : KeyState C} {L : Custody C} {s : Store C} (h : Represents K L s)
    {t : TenantId} (ht : L.profiles t = none) : s.Bare t where
  noDataKey k v hget keys key hunwrap := by
    obtain ⟨-, id, hheld⟩ := h.unwraps_dataKey hget hunwrap
    exact absurd (KeyState.mem_wrapped_dataKey.mp hheld).1 (by simp [ht])
  noAddressKeys k v hget keys address hunwrap :=
    absurd (KeyState.mem_wrapped_addressKeys.mp (h.unwraps_addressKeys hget hunwrap).2).1
      (by simp [ht])
  dataKeys id := by
    rw [h.wrapKey_eq]
    refine h.toWraps.get_none fun hheld => ?_
    exact absurd (KeyState.mem_wrapped_dataKey.mp hheld).1 (by simp [ht])
  addressKeys := by
    rw [h.wrapKey_eq]
    refine h.toWraps.get_none fun hheld => ?_
    exact absurd (KeyState.mem_wrapped_addressKeys.mp hheld).1 (by simp [ht])
  rekey := by
    have hscoped : (Name.rekey t : Name C.Block).StoreScoped := fun _ _ => by simp
    rw [h.globalKey_eq hscoped]
    refine h.toRecords.get_none (n := .rekey t) ?_
    show (K.rekey t).map _ = none
    rw [h.rekey_eq_none ht]
    rfl
  tenant := by
    have hscoped : (Name.tenant t : Name C.Block).StoreScoped := fun _ _ => by simp
    rw [h.globalKey_eq hscoped]
    refine h.toRecords.get_none (n := .tenant t) ?_
    show (L.profiles t).map _ = none
    rw [ht]
    rfl

/-- **Shred safety.**  In every reachable store an open invocation has a registered
tenant and, in a session, a registered session owner; and of a shredded tenant the store
holds no wrapped key (and nothing else that unwraps as one), no rekey record and no tenant
record, now and after any further run. -/
theorem shred_safety {w : World C} (h : w.Reachable) :
    (∀ id r, w.store.invocationAt id = some r → r.state.isTerminal = false →
      (w.store.tenantAt r.tenant).isSome ∧ w.store.tombstoneAt r.tenant = none ∧
      ∀ session ∈ r.session, ∃ sr, w.store.sessionAt session = some sr ∧
        (w.store.tenantAt sr.owner).isSome ∧ w.store.tombstoneAt sr.owner = none) ∧
    ∀ t, (w.store.tombstoneAt t).isSome → ∀ w', ReflTransGen World.Step w w' →
      w'.store.Bare t ∧ (w'.store.tombstoneAt t).isSome := by
  obtain ⟨K, L, h⟩ := h.holds
  have hrep := h.represents
  have hattended := h.reachable.attended
  have howned := h.reachable.owned
  have hlive {t : TenantId} (ht : (L.profiles t).isSome) :
      (w.store.tenantAt t).isSome ∧ w.store.tombstoneAt t = none := by
    rw [hrep.tenantAt_eq, hrep.tombstoneAt_eq, Option.isSome_map]
    exact ⟨ht, howned.live t ht⟩
  rw [hrep.invocationAt_eq, hrep.sessionAt_eq]
  refine ⟨?_, ?_⟩
  · intro id r hr hopen
    obtain ⟨htenant, hstone⟩ := hlive (hattended.tenant id r hr hopen)
    refine ⟨htenant, hstone, fun session hsession => ?_⟩
    obtain ⟨sr, hsr⟩ := Option.isSome_iff_exists.mp (hattended.sessions id r hr session hsession)
    exact ⟨sr, hsr, hlive (hattended.owner id r hr hopen session hsession sr hsr)⟩
  · intro t hstone w' hrun
    rw [hrep.tombstoneAt_eq] at hstone
    obtain ⟨K', L', h', hrun⟩ := h.run hrun
    have hext := h.reachable.extends hrun
    have hgone : L.profiles t = none := by
      rw [← Option.not_isSome_iff_eq_none]
      intro ht
      rw [howned.live t ht] at hstone
      cases hstone
    refine ⟨h'.represents.bare (hext.gone t hgone hstone), ?_⟩
    rw [h'.represents.tombstoneAt_eq]
    exact hext.tombstones t hstone

/-- An agent in the middle of a call, and an agent that was shredded. -/
theorem shred_safety_of_agent :
    (∃ w : World Crypto.ideal, w.Reachable ∧
      (w.store.invocationAt Sample.call).map InvocationRecord.state = some .intentPersisted ∧
      (w.store.tenantAt Sample.agent).isSome ∧ w.store.tombstoneAt Sample.agent = none) ∧
    ∃ w : World Crypto.ideal, w.Reachable ∧ (w.store.tombstoneAt Sample.agent).isSome ∧
      w.store.Bare Sample.agent := by
  refine ⟨?_, ?_⟩
  · obtain ⟨w, K, hreach, h⟩ :=
      Sample.exists_world (Sample.setUp ++ [.begin Sample.intent]) (by decide +kernel)
    have hcall : (w.store.invocationAt Sample.call).map (fun r => (r.tenant, r.state)) =
        some (Sample.agent, .intentPersisted) := by
      rw [h.represents.invocationAt_eq]
      decide +kernel
    obtain ⟨r, hr, heq⟩ := Option.map_eq_some_iff.mp hcall
    obtain ⟨htenant, hstate⟩ := Prod.mk.inj heq
    obtain ⟨hlive, hstone, -⟩ := (shred_safety hreach).1 _ r hr (by rw [hstate]; rfl)
    rw [htenant] at hlive hstone
    exact ⟨w, hreach, by rw [hr, Option.map_some, hstate], hlive, hstone⟩
  · obtain ⟨w, K, hreach, h, -⟩ := Sample.exists_registered
    obtain ⟨w', hstep, h'⟩ := h.shred (t := Sample.agent) rfl rfl (fun _ _ hr => by cases hr)
    have hreach' : w'.Reachable := hreach.next hstep
    have hstone : (w'.store.tombstoneAt Sample.agent).isSome := by
      rw [h'.represents.tombstoneAt_eq]
      rfl
    exact ⟨w', hreach', hstone, ((shred_safety hreach').2 _ hstone w' .refl).1⟩

end Dioptron
