import Dioptron.Attenuation

/-! # Revocation authority

A grant may be revoked under itself and under every grant above it, and under no other.
The check follows parent links from the target for a fixed number of turns.  On a store
the limit is never what ends the walk, since a stored depth bounds the links above a
grant; on a view that answers anything the walk is still sound.
-/
namespace Dioptron

variable {C : Crypto}

/-! ## The subtree walk -/

/-- Following `n` parent links from a grant, as `view` answers them, leads to `root`. -/
inductive Leads (view : Snapshot) (root : GrantId) : ℕ → GrantId → Prop
  | refl : Leads view root 0 root
  | link {n : ℕ} {id parent : GrantId} {g : Grant} (hview : view.grant id = .ok (some g))
      (hid : g.id = id) (hparent : g.parent = some parent) (h : Leads view root n parent) :
      Leads view root (n + 1) id

section Walk
variable {view : Snapshot} {root current : GrantId}

/-- The walk says yes exactly when fewer links than its turns lead to the root. -/
theorem walkSubtree_eq_true {turns : ℕ} :
    walkSubtree view root turns current = .ok true ↔ ∃ n < turns, Leads view root n current := by
  induction turns generalizing current with
  | zero => simp [walkSubtree]
  | succ _ ih =>
    rw [walkSubtree]
    by_cases hcur : current = root
    · subst hcur
      simp only [if_true, true_iff]
      exact ⟨0, Nat.succ_pos _, .refl⟩
    · rw [if_neg hcur, bind_eq_ok]
      constructor
      · rintro ⟨found, hview, h⟩
        cases found with
        | none => cases h
        | some g =>
          dsimp only at h
          by_cases hid : g.id = current
          · rw [if_pos hid] at h
            cases hparent : g.parent with
            | none => rw [hparent] at h; cases h
            | some =>
              rw [hparent] at h
              obtain ⟨n, hlt, hleads⟩ := ih.mp h
              exact ⟨n + 1, Nat.succ_lt_succ hlt, .link hview hid hparent hleads⟩
          · rw [if_neg hid] at h
            cases h
      · rintro ⟨n, hlt, hleads⟩
        cases hleads with
        | refl => exact absurd rfl hcur
        | link hview hid hparent hleads =>
          refine ⟨_, hview, ?_⟩
          dsimp only
          rw [if_pos hid, hparent]
          exact ih.mpr ⟨_, Nat.lt_of_succ_lt_succ hlt, hleads⟩

/-- The walk stops with an answer on every view that answers its lookups, cyclic or not. -/
theorem exists_walkSubtree (hread : ∀ id, ∃ found, view.grant id = .ok found) (turns : ℕ) :
    ∃ inside, walkSubtree view root turns current = .ok inside := by
  induction turns generalizing current with
  | zero => exact ⟨false, rfl⟩
  | succ _ ih =>
    rw [walkSubtree]
    by_cases hcur : current = root
    · exact ⟨true, if_pos hcur⟩
    · obtain ⟨found, hview⟩ := hread current
      simp only [if_neg hcur, hview, bind, Except.bind]
      cases found with
      | none => exact ⟨false, rfl⟩
      | some g =>
        dsimp only
        by_cases hid : g.id = current
        · rw [if_pos hid]
          cases g.parent with
          | none => exact ⟨false, rfl⟩
          | some => exact ih
        · exact ⟨false, if_neg hid⟩

end Walk

/-- The decision lets the revocation take effect, now or before. -/
def RevokeAllowed (view : Snapshot) (tenant : TenantId) (designated target : GrantId)
    (now : Timestamp) : Prop :=
  ∃ decision, checkRevoke view tenant designated target now = .ok decision ∧
    decision.refusal = none

section Allowed
variable {view : Snapshot} {tenant : TenantId} {designated target : GrantId} {now : Timestamp}

/-- On any view, a revocation goes ahead only under a usable grant of the caller that the
parent links of the target lead to. -/
theorem RevokeAllowed.leads (h : RevokeAllowed view tenant designated target now) :
    (∃ chain, Designated view tenant designated .grantRevoke now chain) ∧
      ∃ n < subtreeWalkLimit, Leads view designated n target := by
  rw [← walkSubtree_eq_true]
  obtain ⟨decision, hdecision, hallowed⟩ := h
  obtain ⟨outcome, hchain, hdecision⟩ := bind_eq_ok.mp hdecision
  cases outcome with
  | error refusal => cases refusal <;> cases hdecision <;> cases hallowed
  | ok chain =>
    obtain ⟨inside, hinside, hdecision⟩ := bind_eq_ok.mp hdecision
    cases inside with
    | false =>
      cases hdecision
      cases hallowed
    | true => exact ⟨⟨chain, designatedChain_eq_ok.mp hchain⟩, hinside⟩

/-- Where the target's revocation can be read, that is also enough. -/
theorem revokeAllowed_iff (hread : ∃ found, view.revocation target = .ok found) :
    RevokeAllowed view tenant designated target now ↔
      (∃ chain, Designated view tenant designated .grantRevoke now chain) ∧
      ∃ n < subtreeWalkLimit, Leads view designated n target := by
  refine ⟨RevokeAllowed.leads, ?_⟩
  rw [← walkSubtree_eq_true]
  rintro ⟨⟨chain, hchain⟩, hinside⟩
  obtain ⟨found, hfound⟩ := hread
  simp only [RevokeAllowed, checkRevoke, designatedChain_eq_ok.mpr hchain, inSubtree, hinside,
    hfound, bind, Except.bind, if_true]
  cases found <;> exact ⟨_, rfl, rfl⟩

end Allowed

/-! ## Paths in a store -/

namespace GrantPath

variable {grants : GrantId → Option GrantRecord} {a b t : GrantId} {n m : ℕ}

theorem trans (h : GrantPath grants a n b) (h' : GrantPath grants b m t) :
    GrantPath grants a (n + m) t := by
  induction h' with
  | refl => exact h
  | link hr hparent _ ih => exact .link hr hparent ih

/-- Two grants above one, both without a parent, are the same. -/
theorem top_unique {ra rb : GrantRecord} (h : GrantPath grants a n t) (h' : GrantPath grants b m t)
    (ha : grants a = some ra) (hatop : ra.parent = none) (hb : grants b = some rb)
    (hbtop : rb.parent = none) : a = b := by
  induction h generalizing m with
  | refl =>
    cases h' with
    | refl => rfl
    | link hr hparent =>
      rw [ha] at hr
      cases hr
      exact absurd (hatop.symm.trans hparent) nofun
  | link hr hparent h ih =>
    cases h' with
    | refl =>
      rw [hb] at hr
      cases hr
      exact absurd (hbtop.symm.trans hparent) nofun
    | link hr' hparent' h' =>
      rw [hr] at hr'
      cases hr'
      rw [hparent] at hparent'
      cases hparent'
      exact ih h'

end GrantPath

namespace Book.Attenuated

variable {b : Book C} {a d : GrantId} {n : ℕ}

/-- No grant of the book is more than 255 links below another. -/
theorem path_lt (h : b.Attenuated) (hpath : GrantPath b.grants a n d) : n < subtreeWalkLimit := by
  cases n with
  | zero => exact Nat.zero_lt_succ _
  | succ =>
    obtain ⟨rd, ra, gd, ga, -, -, -, -, hbelow, -⟩ := h.below hpath
    have hdepth := hbelow.depth
    have hlt := gd.depth.toNat_lt
    unfold subtreeWalkLimit
    omega

/-- Every grant of the book can be read. -/
theorem exists_view_grant (h : b.Attenuated) (id : GrantId) :
    ∃ found, b.view.grant id = .ok found := by
  cases hr : b.grants id with
  | none => exact ⟨none, (Book.view_grant_eq_none b).mpr hr⟩
  | some r =>
    obtain ⟨g, hg⟩ := h.parses id r hr
    exact ⟨some g, (Book.view_grant_eq_some b).mpr ⟨r, hr, hg⟩⟩

/-- The links the view answers are the links the book holds. -/
theorem leads_iff (h : b.Attenuated) (hnamed : ∀ id r, b.grants id = some r → r.id = id) :
    Leads b.view a n d ↔ GrantPath b.grants a n d := by
  constructor
  · intro hleads
    induction hleads with
    | refl => exact .refl
    | link hview _ hparent _ ih =>
      obtain ⟨r, hr, hgrant⟩ := (Book.view_grant_eq_some b).mp hview
      obtain ⟨scope, -, rfl⟩ := GrantRecord.toGrant_eq_ok hgrant
      exact .link hr hparent ih
  · intro hpath
    induction hpath with
    | refl => exact .refl
    | @link _ id _ r hr hparent _ ih =>
      obtain ⟨g, hgrant⟩ := h.parses id r hr
      have hview := (Book.view_grant_eq_some b).mpr ⟨r, hr, hgrant⟩
      obtain ⟨scope, -, rfl⟩ := GrantRecord.toGrant_eq_ok hgrant
      exact .link hview (hnamed id r hr) hparent ih

end Book.Attenuated

/-- **Revocation authority is ancestry.**  In every reachable store a revocation goes ahead
exactly when the caller holds the designated grant, its chain is usable and confers
`GrantRevoke` on every link, and it is the target or above it, at any distance; so never for
a grant above the designated one, beside it, or of another tree.  On a view that answers
anything, the walk stops and no target is allowed whose links do not lead to the designated
grant. -/
theorem revocation_authority_is_ancestry {w : World C} (h : w.Reachable) (tenant : TenantId)
    (designated target : GrantId) (now : Timestamp) :
    (RevokeAllowed w.store.view tenant designated target now ↔
      (∃ chain, Designated w.store.view tenant designated .grantRevoke now chain) ∧
      ∃ n, GrantPath w.store.grantAt designated n target) ∧
    (∀ n, GrantPath w.store.grantAt target (n + 1) designated →
      ¬ RevokeAllowed w.store.view tenant designated target now) ∧
    (∀ r r', w.store.grantAt designated = some r → w.store.grantAt target = some r' →
      r.parent = r'.parent → designated ≠ target →
      ¬ RevokeAllowed w.store.view tenant designated target now) ∧
    (∀ root root' r r' n m, w.store.grantAt root = some r → r.parent = none →
      w.store.grantAt root' = some r' → r'.parent = none →
      GrantPath w.store.grantAt root n designated → GrantPath w.store.grantAt root' m target →
      root ≠ root' → ¬ RevokeAllowed w.store.view tenant designated target now) ∧
    ∀ view : Snapshot,
      ((∀ id, ∃ found, view.grant id = .ok found) →
        ∃ inside, inSubtree view designated target = .ok inside) ∧
      (RevokeAllowed view tenant designated target now → ∃ n, Leads view designated n target) := by
  obtain ⟨K, L, h⟩ := h.holds
  have hattenuated := h.reachable.attenuated
  have hnamed : ∀ id r, L.grants id = some r → r.id = id := h.reachable.named.grants
  rw [h.represents.grantAt_eq, h.represents.view_eq]
  have hiff : RevokeAllowed L.toBook.view tenant designated target now ↔
      (∃ chain, Designated L.toBook.view tenant designated .grantRevoke now chain) ∧
      ∃ n, GrantPath L.grants designated n target := by
    rw [revokeAllowed_iff ⟨_, Book.view_revocation _ target⟩]
    refine and_congr_right fun _ => exists_congr fun n => ?_
    rw [hattenuated.leads_iff hnamed]
    exact ⟨And.right, fun hpath => ⟨hattenuated.path_lt hpath, hpath⟩⟩
  refine ⟨hiff, ?_, ?_, ?_, ?_⟩
  · intro n habove hallowed
    obtain ⟨-, m, hpath⟩ := hiff.mp hallowed
    -- A grant is at no distance but zero from itself.
    obtain ⟨rd, ra, gd, ga, hrd, hra, hgd, hga, hbelow, -⟩ :=
      hattenuated.below (n := m + n) (hpath.trans habove)
    obtain rfl := Option.some.inj (hrd.symm.trans hra)
    obtain rfl := Except.ok.inj (hgd.symm.trans hga)
    have hdepth := hbelow.depth
    omega
  · intro r r' hr hr' hparent hne hallowed
    obtain ⟨-, n, hpath⟩ := hiff.mp hallowed
    cases hpath with
    | refl => exact hne rfl
    | @link n _ parent _ hr'' hparent' hpath =>
      rw [hr'] at hr''
      cases hr''
      -- The target's parent is the designated grant's own parent, below it or it.
      have hlink : GrantPath L.grants parent 1 designated := .link hr (hparent.trans hparent') .refl
      obtain ⟨rd, ra, gd, ga, hrd, hra, hgd, hga, hbelow, -⟩ :=
        hattenuated.below (n := n) (hpath.trans hlink)
      obtain rfl := Option.some.inj (hrd.symm.trans hra)
      obtain rfl := Except.ok.inj (hgd.symm.trans hga)
      have hdepth := hbelow.depth
      omega
  · intro root root' r r' n m hr htop hr' htop' hpath hpath' hne hallowed
    obtain ⟨-, k, hbetween⟩ := hiff.mp hallowed
    exact hne ((hpath.trans hbetween).top_unique hpath' hr htop hr' htop')
  · intro view
    refine ⟨fun hread => exists_walkSubtree hread _, fun hallowed => ?_⟩
    obtain ⟨-, n, -, hleads⟩ := hallowed.leads
    exact ⟨n, hleads⟩

/-- The operator may revoke the grant of the agent, one link below its own. -/
theorem revocation_authority_is_ancestry_of_issued : ∃ w : World Crypto.ideal, w.Reachable ∧
    RevokeAllowed w.store.view Sample.operator ⟨1⟩ ⟨2⟩ 0 ∧
    ∃ n, GrantPath w.store.grantAt ⟨1⟩ n ⟨2⟩ := by
  obtain ⟨w, K, hreach, h⟩ := Sample.exists_setUp
  have hallowed : RevokeAllowed w.store.view Sample.operator ⟨1⟩ ⟨2⟩ 0 := by
    rw [h.represents.view_eq]
    exact ⟨.revoke ⟨2⟩, by decide +kernel, rfl⟩
  exact ⟨w, hreach, hallowed,
    ((revocation_authority_is_ancestry hreach Sample.operator ⟨1⟩ ⟨2⟩ 0).1.mp hallowed).2⟩

end Dioptron
