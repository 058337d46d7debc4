import Dioptron.Ceilings

/-! # Revocation is permanent

A revocation reaches every grant below the revoked one: each call and each new grant is
decided on its whole chain, and no step takes a revocation back.
-/
namespace Dioptron

open Relation (ReflGen ReflTransGen)

variable {C : Crypto}

/-- Grant `above` is `n` parent links above a grant. -/
inductive GrantPath (grants : GrantId → Option GrantRecord) (above : GrantId) : ℕ → GrantId → Prop
  | refl : GrantPath grants above 0 above
  | link {n : ℕ} {id parent : GrantId} {r : GrantRecord} (hr : grants id = some r)
      (hparent : r.parent = some parent) (h : GrantPath grants above n parent) :
      GrantPath grants above (n + 1) id

/-- A chain has every grant above its leaf, also once grants were added. -/
theorem Linked.exists_mem {b b' : Book C} {g : Grant} {chain : List Grant}
    (h : Linked b.view g chain) (hext : ∀ id r, b.grants id = some r → b'.grants id = some r)
    (hg : ∃ r, b.grants g.id = some r ∧ r.toGrant = .ok g) {n : ℕ} {above : GrantId}
    (hpath : GrantPath b'.grants above n g.id) : ∃ link ∈ chain, link.id = above := by
  induction h generalizing n with
  | root hparent =>
    obtain ⟨r, hr, hgrant⟩ := hg
    obtain ⟨scope, -, rfl⟩ := GrantRecord.toGrant_eq_ok hgrant
    cases hpath with
    | refl => exact ⟨_, List.mem_singleton_self _, rfl⟩
    | link hr' hparent' =>
      rw [hext _ r hr] at hr'
      cases hr'
      exact absurd (hparent'.symm.trans hparent) nofun
  | @link _ _ _ _ hparent hview hok _ ih =>
    obtain ⟨r, hr, hgrant⟩ := hg
    obtain ⟨scope, -, rfl⟩ := GrantRecord.toGrant_eq_ok hgrant
    cases hpath with
    | refl => exact ⟨_, List.mem_cons_self, rfl⟩
    | link hr' hparent' hpath =>
      rw [hext _ r hr] at hr'
      cases hr'
      have hid := (linkOk_iff.mp hok).1
      obtain rfl := Option.some.inj (hparent'.symm.trans hparent)
      obtain ⟨link, hlink, heq⟩ := ih (by rw [hid]; exact (Book.view_grant_eq_some b).mp hview)
        (by rw [hid]; exact hpath)
      exact ⟨link, List.mem_cons_of_mem _ hlink, heq⟩

/-- No link of a chain that was usable is revoked. -/
theorem Usable.not_revoked {b : Book C} {now : Timestamp} {link : Grant}
    (h : Usable b.view now link) : b.revocations link.id = none := by
  have hrevocation := h.1
  rw [Book.view_revocation, Except.ok.injEq, Option.map_eq_none_iff] at hrevocation
  exact hrevocation

/-- Rewriting an entry that exists adds none. -/
theorem ne_none_of_update {ι T : Type} [DecidableEq ι] {f : ι → Option T} {i j : ι} {x y r : T}
    (hi : f i = some r) (h : Function.update f i (some x) j = some y) : f j ≠ none := by
  rcases eq_or_ne j i with rfl | hne
  · rw [hi]
    exact nofun
  · rw [Function.update_of_ne hne] at h
    rw [h]
    exact nofun

/-- The entry an update adds is the one it writes. -/
theorem eq_of_update_new {ι T : Type} [DecidableEq ι] {f : ι → Option T} {i j : ι} {x y : T}
    (hj : f j = none) (h : Function.update f i (some x) j = some y) : j = i ∧ y = x := by
  rw [Function.update_apply] at h
  split_ifs at h with hji
  · exact ⟨hji, (Option.some.inj h).symm⟩
  · rw [hj] at h
    cases h

theorem RootGrant.parent_of_toGrant {root : RootGrant} {grant : Grant}
    (h : root.toGrant = .ok grant) : grant.parent = none := by
  unfold RootGrant.toGrant at h
  obtain ⟨scope, -, h⟩ := bind_eq_ok.mp h
  cases h
  rfl

namespace Book.Step

variable {b b' : Book C}

/-- **A new invocation is a persisted intent.** -/
theorem persisted_of_new (h : Book.Step b b') (hnamed : b.InvocationsNamed) {id : InvocationId}
    {r : InvocationRecord} (hr : b'.invocations id = some r) (hnew : b.invocations id = none) :
    ∃ (intent : Intent C) (chain : List GrantId) (plan : ReservationPlan) (decided now : Timestamp),
      id = intent.invocation ∧
      r = intent.fresh chain plan now ∧
      (b.profiles intent.authz.tenant).isSome ∧
      authorize b.view intent.authz decided = .ok (.allowed chain plan) ∧
      ∀ session ∈ intent.authz.session, ∀ sr ∈ b.sessions session,
        b.tombstones sr.owner = none := by
  have hmoved {id' : InvocationId} {r' q : InvocationRecord} (hr' : b.invocations id' = some r')
      (hset : b'.invocations = Function.update b.invocations r'.id (some q)) : False := by
    rw [hset, hnamed id' r' hr'] at hr
    exact ne_none_of_update hr' hr hnew
  cases h with
  | persist intent chain plan decided now hadmits =>
    obtain ⟨f, rfl, -⟩ := Book.moveLedgers_frame hadmits.debit
    obtain ⟨hid, hr⟩ := eq_of_update_new hnew hr
    exact ⟨intent, chain, plan, decided, now, hid, hr, hadmits.live, hadmits.auth, hadmits.session⟩
  | dispatch _ _ _ hr' => exact (hmoved hr' rfl).elim
  | transfer _ _ _ _ _ hr' => exact (hmoved hr' rfl).elim
  | publish _ _ _ _ _ hr' => exact (hmoved hr' rfl).elim
  | finish _ _ _ _ _ _ _ _ hr' _ _ _ _ hpaid =>
    obtain ⟨f, rfl, -⟩ := Book.moveLedgers_frame hpaid
    exact (hmoved hr' rfl).elim
  | _ =>
    have hr : b.invocations id = some r := hr
    rw [hnew] at hr
    cases hr

/-- **What a step does to grants**: nothing, or it adds a root grant, or it adds the
child of a grant whose chain was usable. -/
theorem grants_cases (h : Book.Step b b') :
    b'.grants = b.grants ∨
    (∃ (root : RootGrant) (g : Grant), root.toGrant = .ok g ∧ b.grants g.id = none ∧
      b'.grants = Function.update b.grants g.id (some (.fromGrant g root.targetScope))) ∨
    ∃ (context : IssueContext) (request : GrantIssueRequest) (child : Grant) (now : Timestamp),
      checkIssue b.view context request now = .ok (.issued child) ∧ b.grants child.id = none ∧
      b'.grants = Function.update b.grants child.id
        (some (.fromGrant child request.targetScope)) := by
  cases h with
  | install root grant hgrant _ hnew =>
    exact .inr (.inl ⟨root, grant, hgrant, by rw [RootGrant.id_of_toGrant hgrant, hnew], rfl⟩)
  | issue context request child now hissue hnew =>
    exact .inr (.inr ⟨context, request, child, now, hissue, hnew, rfl⟩)
  | persist _ _ _ _ _ hadmits =>
    obtain ⟨f, rfl, -⟩ := Book.moveLedgers_frame hadmits.debit
    exact .inl rfl
  | finish _ _ _ _ _ _ _ _ _ _ _ _ _ hpaid =>
    obtain ⟨f, rfl, -⟩ := Book.moveLedgers_frame hpaid
    exact .inl rfl
  | _ => exact .inl rfl

/-- A new invocation's chain has no revoked grant. -/
theorem new_invocation (h : Book.Step b b') (hnamed : b.InvocationsNamed) {id : InvocationId}
    {r : InvocationRecord} (hr : b'.invocations id = some r) (hnew : b.invocations id = none) :
    ∀ g ∈ r.grantChain, b.revocations g = none := by
  obtain ⟨intent, chain, plan, decided, now, -, rfl, -, hauth, -⟩ :=
    h.persisted_of_new hnamed hr hnew
  obtain ⟨links, session, hallowed⟩ := authorize_allowed hauth
  intro g hg
  have hg : g ∈ chain := hg
  rw [hallowed.ids_eq] at hg
  obtain ⟨link, hlink, rfl⟩ := List.mem_map.mp hg
  exact (hallowed.designated.usable link hlink).not_revoked

/-- A new grant has no revoked grant above it. -/
theorem new_grant (h : Book.Step b b') {id : GrantId} {r : GrantRecord}
    (hr : b'.grants id = some r) (hnew : b.grants id = none) {n : ℕ} {above : GrantId}
    (hpath : GrantPath b'.grants above (n + 1) id) : b.revocations above = none := by
  rcases h.grants_cases with heq | ⟨root, g, hgrant, hnew', heq⟩ |
    ⟨context, request, child, now, hissue, hnew', heq⟩
  · rw [heq, hnew] at hr
    cases hr
  · -- A root grant has no parent.
    obtain ⟨rfl, rfl⟩ := eq_of_update_new hnew (heq ▸ hr)
    cases hpath with
    | link hr' hparent =>
      rw [hr] at hr'
      cases hr'
      exact absurd (hparent.symm.trans (RootGrant.parent_of_toGrant hgrant)) nofun
  · obtain ⟨rfl, rfl⟩ := eq_of_update_new hnew (heq ▸ hr)
    obtain ⟨parent, chain, scope, hview, hid, -, hlinked, husable, -, -, hatt, -⟩ :=
      checkIssue_issued hissue
    cases hpath with
    | link hr' hparent hpath =>
      rw [hr] at hr'
      cases hr'
      obtain rfl := Option.some.inj (hparent.symm.trans hatt.parent_eq)
      have hext : ∀ id r, b.grants id = some r → b'.grants id = some r :=
        heq ▸ update_of_none hnew _
      obtain ⟨link, hlink, rfl⟩ := hlinked.exists_mem hext
        (by rw [hid]; exact (Book.view_grant_eq_some b).mp hview) hpath
      exact (husable link hlink).1.not_revoked

end Book.Step

/-- **Revocation is permanent and reaches every descendant.**  Once a store holds a
revocation of `g`, no later step of any run adds an invocation with `g` on its chain or a
grant below `g`.  Restarts, recoveries, rotations, shreds and compactions are steps, and
the clock may read anything. -/
theorem revocation_permanent {w w₁ w₂ : World C} (h : w.Reachable) {g : GrantId}
    (hrevoked : (w.store.revocationAt g).isSome) (hrun : ReflTransGen World.Step w w₁)
    (hstep : World.Step w₁ w₂) :
    (∀ id r, w₂.store.invocationAt id = some r → w₁.store.invocationAt id = none →
      g ∉ r.grantChain) ∧
    ∀ id r n, w₂.store.grantAt id = some r → w₁.store.grantAt id = none →
      ¬ GrantPath w₂.store.grantAt g (n + 1) id := by
  obtain ⟨K, L, h⟩ := h.holds
  obtain ⟨K₁, L₁, h₁, hrun⟩ := h.run hrun
  obtain ⟨K₂, L₂, h₂, -, hbook⟩ := h₁.book_step hstep
  rw [h.represents.revocationAt_eq, Option.isSome_iff_exists] at hrevoked
  obtain ⟨rev, hrevoked⟩ := hrevoked
  have hkept : L₁.revocations g = some rev := (h.reachable.extends hrun).revocations g rev hrevoked
  simp only [h₂.represents.invocationAt_eq, h₁.represents.invocationAt_eq,
    h₂.represents.grantAt_eq, h₁.represents.grantAt_eq]
  rcases hbook with heq | hbook
  · rw [heq]
    refine ⟨fun id r hr hnew => ?_, fun id r n hr hnew => ?_⟩ <;> rw [hr] at hnew <;> cases hnew
  · refine ⟨fun id r hr hnew hg => ?_, fun id r n hr hnew hpath => ?_⟩
    · have hnone := hbook.new_invocation h₁.reachable.named.invocations hr hnew g hg
      rw [hkept] at hnone
      cases hnone
    · have hnone := hbook.new_grant hr hnew hpath
      rw [hkept] at hnone
      cases hnone

/-- The operator's grant is revoked, the store is compacted, and a call of the agent below
the grant follows. -/
theorem revocation_permanent_of_refused : ∃ w w₁ w₂ : World Crypto.ideal, w.Reachable ∧
    (w.store.revocationAt ⟨1⟩).isSome ∧ Operation.compact.run w.store = .ok w₁.store ∧
    World.Step w w₁ ∧ World.Step w₁ w₂ ∧
    ∀ id r, w₂.store.invocationAt id = some r → w₁.store.invocationAt id = none →
      (⟨1⟩ : GrantId) ∉ r.grantChain := by
  obtain ⟨w, K, hreach, h⟩ := Sample.exists_world
    (Sample.setUp ++ [.revokeGrant ⟨Sample.operator, ⟨1⟩, ⟨40⟩⟩]) (by decide +kernel)
  have hrevoked : (w.store.revocationAt ⟨1⟩).isSome := by
    rw [h.represents.revocationAt_eq]
    decide +kernel
  have hcompact : World.Step w ⟨w.store.compact, w.drawn ∪ {d | d ∈ Operation.compact.draw}⟩ :=
    .operate .compact rfl fun _ hd => (by cases hd)
  have hrep := h.represents
  rw [← w.store.compact_eq] at hrep
  have hreply : ((Sample.book (Sample.setUp ++ [.revokeGrant ⟨Sample.operator, ⟨1⟩, ⟨40⟩⟩])).run
      (Tx.begin Sample.intent)).toOption.map Prod.fst =
      some (.refused (.deniedFor .grantRevoked) 4) := by decide +kernel
  obtain ⟨L', hbegin⟩ := Custody.exists_of_reply hreply
  obtain ⟨w₂, hstep, -⟩ := World.Holds.transact
    (w := ⟨w.store.compact, w.drawn ∪ {d | d ∈ Operation.compact.draw}⟩)
    ⟨hrep, h.reachable, fun x hx => .inl (h.drawn x hx)⟩ (.begin Sample.intent) hbegin
  exact ⟨w, _, w₂, hreach, hrevoked, rfl, hcompact, hstep,
    (revocation_permanent hreach hrevoked (.single hcompact) hstep).1⟩

end Dioptron
