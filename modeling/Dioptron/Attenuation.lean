import Dioptron.Revocations

/-! # Attenuation along the delegation tree

Every stored grant is inside every grant above it, on every axis, at any distance.  The
axes that read nothing but the two grants were settled when the grant was issued.  The
session axis read who owns what at that time, and keeps its meaning as long as lineages
stay whole: while no tenant was shredded.
-/
namespace Dioptron

open Relation (ReflTransGen)

variable {C : Crypto}

/-! ## Lineages -/

/-- Following parents from any tenant ends within the limit of a lineage walk. -/
def LineagesEnd (parent : TenantId → Option TenantId) : Prop :=
  ∀ t, (fun x : Option TenantId => x.bind parent)^[maxTenantLineage + 1] (some t) = none

theorem LineagesEnd.of_parent_bind {parent : TenantId → Option TenantId}
    (h : ∀ t, (parent t).bind parent = none) : LineagesEnd parent := by
  intro t
  rw [show maxTenantLineage + 1 = 254 + 1 + 1 from rfl, Function.iterate_succ_apply,
    Function.iterate_succ_apply, Option.bind_some, h]
  exact Function.iterate_fixed rfl _

/-- The store and its book agree on who is whose parent. -/
theorem Represents.parents_eq {K : KeyState C} {L : Custody C} {s : Store C}
    (h : Represents K L s) : (fun t => (s.tenantAt t).bind TenantRecord.parent) =
      fun t => (L.profiles t).bind TenantProfile.parent := by
  funext t
  rw [h.tenantAt_eq]
  cases L.profiles t <;> rfl

namespace Descends

variable {b b' : Book C} {ancestor top t : TenantId} {links more : ℕ}

theorem trans {view : Snapshot} (h : Descends view ancestor links t)
    (h' : Descends view top more ancestor) : ∃ n, Descends view top n t := by
  induction h with
  | refl => exact ⟨more, h'⟩
  | @step _ t _ _ hparent _ ih =>
    obtain ⟨n, hn⟩ := ih
    rcases eq_or_ne t top with rfl | htop
    · exact ⟨0, .refl⟩
    · exact ⟨n + 1, .step htop hparent hn⟩

variable (h : Descends b.view ancestor links t)

include h

/-- A walk is a number of parent links. -/
theorem iterate_eq :
    (fun x : Option TenantId => x.bind fun t => (b.profiles t).bind TenantProfile.parent)^[links]
      (some t) = some ancestor := by
  induction h with
  | refl => rfl
  | step _ hparent _ ih =>
    rw [Function.iterate_succ_apply]
    rw [Book.view_tenantParent, Except.ok.injEq] at hparent
    rw [Option.bind_some, hparent]
    exact ih

/-- No walk is longer than the limit. -/
theorem links_le
    (hend : LineagesEnd fun t => (b.profiles t).bind TenantProfile.parent) :
    links ≤ maxTenantLineage := by
  by_contra hlong
  obtain ⟨k, hk⟩ := Nat.exists_eq_add_of_lt (not_le.mp hlong)
  have hwalk := h.iterate_eq
  rw [hk, show maxTenantLineage + k + 1 = k + (maxTenantLineage + 1) by omega,
    Function.iterate_add_apply, hend t, Function.iterate_fixed rfl] at hwalk
  cases hwalk

/-- Lineages stay while nobody is shredded. -/
theorem mono
    (hkept : ∀ t p, b.profiles t = some p → b'.profiles t = some p) :
    Descends b'.view ancestor links t := by
  induction h with
  | refl => exact .refl
  | step hne hparent h ih =>
    refine .step hne ?_ ih
    rw [Book.view_tenantParent, Except.ok.injEq, Option.bind_eq_some_iff] at hparent ⊢
    obtain ⟨p, hp, hparent⟩ := hparent
    exact ⟨p, hkept _ p hp, hparent⟩

end Descends

/-! ## Session scopes -/

/-- Why every session `child` admits, now or later, is one `parent` admits. -/
inductive Book.SessionsWithin (b : Book C) (parent child : Grant) : Prop
  | own (hparent : parent.sessionScope = .own) (hchild : child.sessionScope = .own)
      (h : ∃ links, Descends b.view parent.holder links child.holder)
  | listed (ids : List SessionId) (hparent : parent.sessionScope = .own)
      (hchild : child.sessionScope = .sessions ids)
      (h : ∀ session ∈ ids, ∃ r, b.sessions session = some r ∧
        ∃ links, Descends b.view parent.holder links r.owner)
  | fewer (allowed ids : List SessionId) (hparent : parent.sessionScope = .sessions allowed)
      (hchild : child.sessionScope = .sessions ids) (h : ids ⊆ allowed)

namespace Book.SessionsWithin

variable {b b' : Book C} {parent child : Grant}

theorem sessionsInLineage_eq_true {holder : TenantId} {ids : List SessionId}
    (h : sessionsInLineage b.view holder ids = .ok true) :
    ∀ session ∈ ids, ∃ r, b.sessions session = some r ∧
      ∃ links, Descends b.view holder links r.owner := by
  induction ids with
  | nil => exact nofun
  | cons session _ ih =>
    obtain ⟨inside, hinside, h⟩ := bind_eq_ok.mp h
    cases inside with
    | false => cases h
    | true =>
      have hhead : ∃ r, b.sessions session = some r ∧
          ∃ links, Descends b.view holder links r.owner := by
        rw [sessionInLineage, Book.view_sessionOwner, ok_bind] at hinside
        cases hr : b.sessions session with
        | none =>
          rw [hr] at hinside
          cases hinside
        | some r =>
          rw [hr] at hinside
          obtain ⟨links, -, hlinks⟩ := inLineage_eq_true.mp hinside
          exact ⟨r, rfl, links, hlinks⟩
      exact List.forall_mem_cons.mpr ⟨hhead, ih h⟩

theorem of_check (h : sessionScopeWithin b.view parent child = .ok true) :
    b.SessionsWithin parent child := by
  unfold sessionScopeWithin at h
  cases hparent : parent.sessionScope with
  | own =>
    cases hchild : child.sessionScope with
    | own =>
      rw [hparent, hchild] at h
      obtain ⟨links, -, hlinks⟩ := inLineage_eq_true.mp h
      exact .own hparent hchild ⟨links, hlinks⟩
    | sessions ids =>
      rw [hparent, hchild] at h
      exact .listed ids hparent hchild (sessionsInLineage_eq_true h)
  | sessions allowed =>
    cases hchild : child.sessionScope with
    | own =>
      rw [hparent, hchild] at h
      cases h
    | sessions ids =>
      rw [hparent, hchild] at h
      refine .fewer allowed ids hparent hchild fun session hsession => ?_
      simpa using List.all_eq_true.mp (Except.ok.inj h) session hsession

theorem mono (h : b.SessionsWithin parent child) (hext : b.Extends b')
    (hwhole : ∀ t, b'.tombstones t = none) : b'.SessionsWithin parent child := by
  have hkept (t : TenantId) (p : TenantProfile) (hp : b.profiles t = some p) :
      b'.profiles t = some p := by
    refine (hext.profiles t p hp).resolve_right ?_
    rintro ⟨-, hstone⟩
    rw [hwhole t] at hstone
    cases hstone
  cases h with
  | own hparent hchild h =>
    obtain ⟨links, hlinks⟩ := h
    exact .own hparent hchild ⟨links, hlinks.mono hkept⟩
  | listed ids hparent hchild h =>
    refine .listed ids hparent hchild fun session hsession => ?_
    obtain ⟨r, hr, links, hlinks⟩ := h session hsession
    exact ⟨r, hext.sessions session r hr, links, hlinks.mono hkept⟩
  | fewer allowed ids hparent hchild h => exact .fewer allowed ids hparent hchild h

/-- With whole lineages, a session the child admits is admitted by the parent. -/
theorem admits (h : b.SessionsWithin parent child)
    (hend : LineagesEnd fun t => (b.profiles t).bind TenantProfile.parent) {session : SessionId}
    {r : SessionRecord} (hr : b.sessions session = some r)
    (hchild : linkAdmits b.view r.owner session child = .ok true) :
    linkAdmits b.view r.owner session parent = .ok true := by
  unfold linkAdmits at hchild ⊢
  cases h with
  | own hparent hscope h =>
    rw [hscope] at hchild
    rw [hparent]
    obtain ⟨links, -, hlinks⟩ := inLineage_eq_true.mp hchild
    obtain ⟨more, hmore⟩ := h
    obtain ⟨n, hn⟩ := hlinks.trans hmore
    exact inLineage_eq_true.mpr ⟨n, hn.links_le hend, hn⟩
  | listed _ hparent hscope h =>
    rw [hscope] at hchild
    rw [hparent]
    obtain ⟨r', hr', links, hlinks⟩ := h session (by simpa using Except.ok.inj hchild)
    rw [hr] at hr'
    cases hr'
    exact inLineage_eq_true.mpr ⟨links, hlinks.links_le hend, hlinks⟩
  | fewer _ ids hparent hscope h =>
    rw [hscope] at hchild
    rw [hparent]
    have hlisted : session ∈ ids := by simpa using Except.ok.inj hchild
    simpa using h hlisted

end Book.SessionsWithin

/-! ## One link -/

/-- A tenant shredded once stays so: if nobody is shredded now, nobody ever was. -/
theorem Book.Extends.whole {b b' : Book C} (h : b.Extends b') (hwhole : ∀ t, b'.tombstones t = none)
    (t : TenantId) : b.tombstones t = none := by
  rw [← Option.not_isSome_iff_eq_none]
  intro hstone
  have hstone' := h.tombstones t hstone
  rw [hwhole t] at hstone'
  cases hstone'

/-- Every stored grant parses, and attenuates its stored parent. -/
structure Book.Attenuated (b : Book C) : Prop where
  parses : ∀ id r, b.grants id = some r → ∃ g, r.toGrant = .ok g
  links : ∀ id r p, b.grants id = some r → r.parent = some p → ∃ rp gp g,
    b.grants p = some rp ∧ rp.toGrant = .ok gp ∧ r.toGrant = .ok g ∧ Attenuates gp g ∧
      ((∀ t, b.tombstones t = none) → b.SessionsWithin gp g)

namespace Book.Attenuated

variable {b b' : Book C}

/-- Adding a grant keeps the tree attenuated when the new grant attenuates its parent. -/
theorem add (h : b.Attenuated) (hext : b.Extends b') {r : GrantRecord} {g : Grant} {id : GrantId}
    (hset : b'.grants = Function.update b.grants id (some r)) (hparse : r.toGrant = .ok g)
    (hlink : ∀ p, r.parent = some p → ∃ rp gp, b.grants p = some rp ∧ rp.toGrant = .ok gp ∧
      Attenuates gp g ∧ b.SessionsWithin gp g) : b'.Attenuated where
  parses := by
    intro id' r' hr'
    rw [hset, Function.update_apply] at hr'
    split_ifs at hr'
    · cases hr'
      exact ⟨g, hparse⟩
    · exact h.parses id' r' hr'
  links := by
    intro id' r' p hr' hp
    rw [hset, Function.update_apply] at hr'
    split_ifs at hr'
    · cases hr'
      obtain ⟨rp, gp, hrp, hgp, hatt, hsessions⟩ := hlink p hp
      exact ⟨rp, gp, g, hext.grants p rp hrp, hgp, hparse, hatt, hsessions.mono hext⟩
    · obtain ⟨rp, gp, g', hrp, hgp, hg', hatt, hsessions⟩ := h.links id' r' p hr' hp
      refine ⟨rp, gp, g', hext.grants p rp hrp, hgp, hg', hatt, fun hwhole => ?_⟩
      exact (hsessions (hext.whole hwhole)).mono hext hwhole

/-- **One step keeps the tree attenuated.** -/
theorem step (h : b.Attenuated) (hnamed : b.InvocationsNamed) (hstep : Book.Step b b') :
    b'.Attenuated := by
  have hext := hstep.extends hnamed
  rcases hstep.grants_cases with heq | ⟨root, g, hgrant, -, heq⟩ |
    ⟨context, request, child, now, hissue, -, heq⟩
  · refine ⟨heq ▸ h.parses, fun id r p hr hp => ?_⟩
    rw [heq] at hr
    obtain ⟨rp, gp, g, hrp, hgp, hg, hatt, hsessions⟩ := h.links id r p hr hp
    exact ⟨rp, gp, g, heq ▸ hrp, hgp, hg, hatt, fun hwhole =>
      (hsessions (hext.whole hwhole)).mono hext hwhole⟩
  · have hparent := RootGrant.parent_of_toGrant hgrant
    refine h.add hext heq (GrantRecord.toGrant_fromGrant ?_) fun p hp => ?_
    · unfold RootGrant.toGrant at hgrant
      obtain ⟨scope, hscope, hgrant⟩ := bind_eq_ok.mp hgrant
      cases hgrant
      exact hscope
    · exact absurd (hp.symm.trans hparent) nofun
  · obtain ⟨parent, chain, scope, hview, hid, -, -, -, hscope, hchild, hatt, hsessions⟩ :=
      checkIssue_issued hissue
    refine h.add hext heq (GrantRecord.toGrant_fromGrant ?_) fun p hp => ?_
    · rw [hscope, hchild]
      rfl
    · obtain rfl := Option.some.inj (hp.symm.trans hatt.parent_eq)
      rw [hid]
      obtain ⟨rp, hrp, hgp⟩ := (Book.view_grant_eq_some b).mp hview
      exact ⟨rp, parent, hrp, hgp, hatt, .of_check hsessions⟩

end Book.Attenuated

theorem Book.Attenuated.empty : (Book.empty : Book C).Attenuated where
  parses := fun _ _ h => by cases h
  links := fun _ _ _ h => by cases h

theorem Custody.Reachable.attenuated {L : Custody C} (h : L.Reachable) : L.toBook.Attenuated :=
  h.book_induction Book.Attenuated.empty
    fun _ _ hreach hattenuated hstep => hattenuated.step hreach.named.invocations hstep

/-! ## Any distance -/

/-- `d`, `n` links below `a`, is inside `a` on every axis that reads nothing but the two
grants. -/
structure Grant.Below (n : ℕ) (a d : Grant) : Prop where
  capabilities : d.capabilities ⊆ a.capabilities
  auditScope : auditScopeWithin d.auditScope a.auditScope = true
  notBefore : a.notBefore ≤ d.notBefore
  expiresAt : d.expiresAt ≤ a.expiresAt
  targets : ∀ origin, d.targetScope.matches_ origin = true → a.targetScope.matches_ origin = true
  ceilings : ∀ dim ceiling, a.ceilings.get dim = some ceiling →
    ∃ amount, d.ceilings.get dim = some amount ∧ amount ≤ ceiling
  depth : d.depth.toNat = a.depth.toNat + n
  depth_lt : d.depth < a.maxDepth
  maxDepth : d.maxDepth ≤ a.maxDepth

theorem Attenuates.below {parent child : Grant} (h : Attenuates parent child) :
    Grant.Below 1 parent child where
  capabilities := h.capabilities
  auditScope := h.auditScope
  notBefore := h.notBefore
  expiresAt := h.expiresAt
  targets := fun _ => TargetScope.covers_sound h.targetScope
  ceilings := h.ceilings
  depth := h.depth
  depth_lt := h.depth_lt
  maxDepth := h.maxDepth

theorem auditScopeWithin_trans {x y z : AuditScope} (hxy : auditScopeWithin x y = true)
    (hyz : auditScopeWithin y z = true) : auditScopeWithin x z = true := by
  revert hxy hyz
  cases x <;> cases y <;> cases z <;> decide

/-- Attenuation adds up along the tree. -/
theorem Grant.Below.trans {n : ℕ} {a parent child : Grant} (h : Grant.Below n a parent)
    (hlink : Attenuates parent child) : Grant.Below (n + 1) a child where
  capabilities := hlink.capabilities.trans h.capabilities
  auditScope := auditScopeWithin_trans hlink.auditScope h.auditScope
  notBefore := h.notBefore.trans hlink.notBefore
  expiresAt := hlink.expiresAt.trans h.expiresAt
  targets := fun origin hmatch => h.targets origin (hlink.below.targets origin hmatch)
  ceilings := by
    intro dim ceiling hceiling
    obtain ⟨middle, hmiddle, hle⟩ := h.ceilings dim ceiling hceiling
    obtain ⟨amount, hamount, hle'⟩ := hlink.ceilings dim middle hmiddle
    exact ⟨amount, hamount, UInt64.le_trans hle' hle⟩
  depth := by rw [hlink.depth, h.depth, Nat.add_assoc]
  depth_lt := UInt8.lt_of_lt_of_le hlink.depth_lt h.maxDepth
  maxDepth := UInt8.le_trans hlink.maxDepth h.maxDepth

/-- **A stored grant is inside every grant above it.** -/
theorem Book.Attenuated.below {b : Book C} (h : b.Attenuated) {a d : GrantId} {n : ℕ}
    (hpath : GrantPath b.grants a (n + 1) d) :
    ∃ rd ra gd ga, b.grants d = some rd ∧ b.grants a = some ra ∧ rd.toGrant = .ok gd ∧
      ra.toGrant = .ok ga ∧ Grant.Below (n + 1) ga gd ∧
      ((∀ t, b.tombstones t = none) →
        LineagesEnd (fun t => (b.profiles t).bind TenantProfile.parent) →
        ∀ session r, b.sessions session = some r →
          linkAdmits b.view r.owner session gd = .ok true →
          linkAdmits b.view r.owner session ga = .ok true) := by
  induction n generalizing d with
  | zero =>
    cases hpath with
    | link hr hparent hpath =>
      cases hpath
      obtain ⟨rp, gp, g, hrp, hgp, hg, hatt, hsessions⟩ := h.links _ _ _ hr hparent
      exact ⟨_, rp, g, gp, hr, hrp, hg, hgp, hatt.below, fun hwhole hend session r hr hchild =>
        (hsessions hwhole).admits hend hr hchild⟩
  | succ n ih =>
    cases hpath with
    | link hr hparent hpath =>
      obtain ⟨rp, gp, g, hrp, hgp, hg, hatt, hsessions⟩ := h.links _ _ _ hr hparent
      obtain ⟨rp', ra, gp', ga, hrp', hra, hgp', hga, hbelow, hadmits⟩ := ih hpath
      obtain rfl := Option.some.inj (hrp.symm.trans hrp')
      obtain rfl := Except.ok.inj (hgp.symm.trans hgp')
      exact ⟨_, ra, g, ga, hr, hra, hg, hga, hbelow.trans hatt,
        fun hwhole hend session r hr hchild => hadmits hwhole hend session r hr
          ((hsessions hwhole).admits hend hr hchild)⟩

/-- **Attenuation along the whole delegation tree.**  In every reachable store, a grant
is inside every grant above it, each link's issuer is its parent's holder, and no later
step changes a stored grant. -/
theorem delegation_attenuates {w : World C} (h : w.Reachable) :
    (∀ a d n, GrantPath w.store.grantAt a (n + 1) d →
      ∃ rd ra gd ga, w.store.grantAt d = some rd ∧ w.store.grantAt a = some ra ∧
        rd.toGrant = .ok gd ∧ ra.toGrant = .ok ga ∧ Grant.Below (n + 1) ga gd ∧
        ((∀ t, w.store.tombstoneAt t = none) →
          LineagesEnd (fun t => (w.store.tenantAt t).bind TenantRecord.parent) →
          ∀ session r, w.store.sessionAt session = some r →
            linkAdmits w.store.view r.owner session gd = .ok true →
            linkAdmits w.store.view r.owner session ga = .ok true)) ∧
    (∀ d rd p, w.store.grantAt d = some rd → rd.parent = some p →
      ∃ rp, w.store.grantAt p = some rp ∧ rd.issuer = rp.holder) ∧
    ∀ w' id r, ReflTransGen World.Step w w' → w.store.grantAt id = some r →
      w'.store.grantAt id = some r := by
  obtain ⟨K, L, h⟩ := h.holds
  have hrep := h.represents
  have hattenuated := h.reachable.attenuated
  rw [hrep.grantAt_eq, hrep.tombstoneAt_eq, hrep.sessionAt_eq, hrep.view_eq, hrep.parents_eq]
  refine ⟨fun a d n => hattenuated.below, ?_, ?_⟩
  · intro d rd p hrd hp
    obtain ⟨rp, gp, g, hrp, hgp, hg, hatt, -⟩ := hattenuated.links d rd p hrd hp
    obtain ⟨_, -, rfl⟩ := GrantRecord.toGrant_eq_ok hgp
    obtain ⟨_, -, rfl⟩ := GrantRecord.toGrant_eq_ok hg
    exact ⟨rp, hrp, hatt.issuer⟩
  · intro w' id r hrun hr
    obtain ⟨K', L', h', hrun⟩ := h.run hrun
    rw [h'.represents.grantAt_eq]
    exact (h.reachable.extends hrun).grants id r hr

namespace Sample

/-- The operator delegates to the agent, and the agent once more; the agent has a session. -/
def delegating : List (Transaction Crypto.ideal) :=
  [.installRootGrant rootGrant,
    .issueGrant ⟨⟨operator, ⟨1⟩, ⟨2⟩⟩,
      ⟨agent, [.capture, .grantIssue], .own, site, agentCeilings, 0, 100, some 3⟩, ⟨20⟩⟩,
    .issueGrant ⟨⟨agent, ⟨2⟩, ⟨3⟩⟩, ⟨agent, [.capture], .own, site, agentCeilings, 10, 50, some 3⟩,
      ⟨21⟩⟩,
    .createSession ⟨session, agent, .default, ⟨31⟩⟩]

/-- The agent's parent is the operator, who has none. -/
theorem lineagesEnd :
    LineagesEnd fun t => (registered.profiles t).bind TenantProfile.parent := by
  refine .of_parent_bind fun t => ?_
  by_cases hagent : t = agent
  · rw [hagent]
    rfl
  · by_cases hoperator : t = operator
    · rw [hoperator]
      rfl
    · simp [registered, Custody.register, Custody.empty, Book.empty, registration,
        TenantRegistration.profile, hagent, hoperator]

end Sample

/-- A grant two links below the operator's is inside it, and so are the sessions it admits. -/
theorem delegation_attenuates_of_issued : ∃ w : World Crypto.ideal, w.Reachable ∧
    GrantPath w.store.grantAt ⟨1⟩ 2 ⟨3⟩ ∧ ∃ rd ra gd ga, w.store.grantAt ⟨3⟩ = some rd ∧
      w.store.grantAt ⟨1⟩ = some ra ∧ rd.toGrant = .ok gd ∧ ra.toGrant = .ok ga ∧
      Grant.Below 2 ga gd ∧ linkAdmits w.store.view Sample.agent Sample.session gd = .ok true ∧
      linkAdmits w.store.view Sample.agent Sample.session ga = .ok true := by
  have hok : (Custody.runAll Sample.delegating Sample.registered).toOption.isSome := by
    decide +kernel
  obtain ⟨w, K, hreach, h⟩ := Sample.exists_world Sample.delegating hok
  obtain ⟨hprofiles, hstones⟩ := Custody.runAll_sameTenants (Sample.runAll_book hok)
  have hrep := h.represents
  have hparent : (w.store.grantAt ⟨2⟩).bind GrantRecord.parent = some ⟨1⟩ ∧
      (w.store.grantAt ⟨3⟩).bind GrantRecord.parent = some ⟨2⟩ := by
    rw [hrep.grantAt_eq]
    decide +kernel
  have hadmits : (w.store.grantAt ⟨3⟩).bind (fun r => r.toGrant.toOption.bind fun g =>
      (linkAdmits w.store.view Sample.agent Sample.session g).toOption.map id) = some true := by
    rw [hrep.grantAt_eq, hrep.view_eq]
    decide +kernel
  have howner : (w.store.sessionAt Sample.session).map SessionRecord.owner =
      some Sample.agent := by
    rw [hrep.sessionAt_eq]
    decide +kernel
  obtain ⟨r₂, hr₂, hlink₂⟩ := Option.bind_eq_some_iff.mp hparent.1
  obtain ⟨r₃, hr₃, hlink₃⟩ := Option.bind_eq_some_iff.mp hparent.2
  obtain ⟨sr, hsr, howned⟩ := Option.map_eq_some_iff.mp howner
  have hpath : GrantPath w.store.grantAt ⟨1⟩ 2 ⟨3⟩ := .link hr₃ hlink₃ (.link hr₂ hlink₂ .refl)
  obtain ⟨rd, ra, gd, ga, hrd, hra, hgd, hga, hbelow, hsessions⟩ :=
    (delegation_attenuates hreach).1 _ _ _ hpath
  rw [hrd, Option.bind_some, hgd] at hadmits
  obtain ⟨_, hadmits, rfl⟩ := exists_of_toOption_map hadmits
  rw [← howned] at hadmits ⊢
  refine ⟨w, hreach, hpath, rd, ra, gd, ga, hrd, hra, hgd, hga, hbelow, hadmits,
    hsessions (fun t => ?_) ?_ _ sr hsr hadmits⟩
  · rw [hrep.tombstoneAt_eq, hstones]
    rfl
  · rw [hrep.parents_eq, hprofiles]
    exact Sample.lineagesEnd

end Dioptron
