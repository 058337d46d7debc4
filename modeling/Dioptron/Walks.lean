import Dioptron.Decisions

/-! # Chain walks

The loop that loads a chain has no counter: it ends because every accepted link lowers
an eight-bit depth.  `Walk` is that loop with no bound on its turns, whatever the view
answers; `loadChain` is what it ends with, within 256 lookups.  `IsPath` is the chain the
walk is for, stated without the walk, and the two agree.
-/
namespace Dioptron

variable {view : Snapshot} {now : Timestamp} {leaf : Grant} {chain : List Grant} {code : DenyCode}

/-! ## The loop -/

/-- The chain loop from a grant, with no bound on its turns: it ends with `result` after
`lookups` reads of a parent. -/
inductive Walk (view : Snapshot) : Grant → ℕ → Except AuthzError (List Grant) → Prop
  | root {g : Grant} (hparent : g.parent = none) (hdepth : g.depth = 0) :
      Walk view g 0 (.ok [g])
  | rootless {g : Grant} (hparent : g.parent = none) (hdepth : g.depth ≠ 0) :
      Walk view g 0 (.error (.chainMalformed g.id))
  | failed {g : Grant} {parentId : GrantId} {e : AuthzError} (hparent : g.parent = some parentId)
      (hview : view.grant parentId = .error e) : Walk view g 1 (.error e)
  | broken {g : Grant} {parentId : GrantId} (hparent : g.parent = some parentId)
      (hview : view.grant parentId = .ok none) : Walk view g 1 (.error (.chainBroken parentId))
  | malformed {g p : Grant} {parentId : GrantId} (hparent : g.parent = some parentId)
      (hview : view.grant parentId = .ok (some p)) (hok : linkOk parentId p g = false) :
      Walk view g 1 (.error (.chainMalformed g.id))
  | link {g p : Grant} {parentId : GrantId} {lookups : ℕ} {result : Except AuthzError (List Grant)}
      (hparent : g.parent = some parentId) (hview : view.grant parentId = .ok (some p))
      (hok : linkOk parentId p g = true) (hrest : Walk view p lookups result) :
      Walk view g (lookups + 1) (result.map (g :: ·))

namespace Walk

variable {g : Grant} {lookups : ℕ} {result : Except AuthzError (List Grant)}

/-- Every accepted link lowers the depth, so the lookups are at most one more than it. -/
theorem lookups_le (h : Walk view g lookups result) : lookups ≤ g.depth.toNat + 1 := by
  induction h with
  | root | rootless => exact Nat.zero_le _
  | failed | broken | malformed => exact Nat.le_add_left 1 _
  | link _ _ hok =>
    have hlt := (linkOk_iff.mp hok).2.1
    omega

theorem lookups_le_256 (h : Walk view g lookups result) : lookups ≤ 256 := by
  have hle := h.lookups_le
  have hdepth := g.depth.toNat_lt
  omega

/-- What the bounded walk returns is what the loop ends with, as soon as the bound is at
least the depth. -/
theorem loadLinks_eq (h : Walk view g lookups result) {fuel : ℕ} (hfuel : g.depth.toNat ≤ fuel) :
    loadLinks view fuel g = result := by
  induction h generalizing fuel with
  | root hparent hdepth => simp [loadLinks, hparent, hdepth]
  | rootless hparent hdepth => simp [loadLinks, hparent, hdepth]
  | failed hparent hview | broken hparent hview =>
    rw [loadLinks]
    simp only [hparent, hview]
    rfl
  | malformed hparent hview hok =>
    rw [loadLinks]
    simp only [hparent, hview, bind, Except.bind, hok, Bool.false_eq_true, if_false]
    rfl
  | @link _ p _ _ result hparent hview hok _ ih =>
    have hlt := (linkOk_iff.mp hok).2.1
    obtain ⟨fuel, rfl⟩ : ∃ rest, fuel = rest + 1 := ⟨fuel - 1, by omega⟩
    rw [loadLinks]
    simp only [hparent, hview, bind, Except.bind, hok, if_true,
      ih (by omega : p.depth.toNat ≤ fuel)]
    cases result <;> rfl

end Walk

/-- **The loop ends**: from every grant, whatever the view answers, with `loadChain`. -/
theorem exists_walk (view : Snapshot) (leaf : Grant) :
    ∃ lookups, Walk view leaf lookups (loadChain view leaf) := by
  have hends (bound : ℕ) : ∀ g : Grant, g.depth.toNat ≤ bound →
      ∃ lookups result, Walk view g lookups result := by
    induction bound with
    | zero =>
      intro g hbound
      cases hparent : g.parent with
      | none => exact ⟨0, _, .root hparent (UInt8.toNat_inj.mp (Nat.le_zero.mp hbound))⟩
      | some parentId =>
        cases hview : view.grant parentId with
        | error => exact ⟨1, _, .failed hparent hview⟩
        | ok found =>
          cases found with
          | none => exact ⟨1, _, .broken hparent hview⟩
          | some =>
            -- A grant at depth zero has no parent one above it.
            refine ⟨1, _, .malformed hparent hview (Bool.not_eq_true _ |>.mp fun hok => ?_)⟩
            have hlt := (linkOk_iff.mp hok).2.1
            omega
    | succ _ ih =>
      intro g hbound
      cases hparent : g.parent with
      | none =>
        by_cases hdepth : g.depth = 0
        · exact ⟨0, _, .root hparent hdepth⟩
        · exact ⟨0, _, .rootless hparent hdepth⟩
      | some parentId =>
        cases hview : view.grant parentId with
        | error => exact ⟨1, _, .failed hparent hview⟩
        | ok found =>
          cases found with
          | none => exact ⟨1, _, .broken hparent hview⟩
          | some p =>
            cases hok : linkOk parentId p g with
            | false => exact ⟨1, _, .malformed hparent hview hok⟩
            | true =>
              have hlt := (linkOk_iff.mp hok).2.1
              obtain ⟨lookups, result, hrest⟩ := ih p (by omega)
              exact ⟨lookups + 1, _, .link hparent hview hok hrest⟩
  obtain ⟨lookups, result, hwalk⟩ := hends _ leaf (Nat.le_refl _)
  refine ⟨lookups, ?_⟩
  rw [loadChain, hwalk.loadLinks_eq (Nat.le_refl _)]
  exact hwalk

/-! ## The path -/

/-- `p` is the grant that `g` names as its parent, and `g` is one link below it. -/
structure ParentOf (view : Snapshot) (g p : Grant) : Prop where
  parent : g.parent = some p.id
  found : view.grant p.id = .ok (some p)
  depth : g.depth.toNat = p.depth.toNat + 1
  depth_lt : g.depth < p.maxDepth
  maxDepth : g.maxDepth ≤ p.maxDepth
  issuer : g.issuer = p.holder

/-- `chain` follows the parent links from `leaf` to a root at depth zero, leaf first. -/
structure IsPath (view : Snapshot) (leaf : Grant) (chain : List Grant) : Prop where
  head : chain.head? = some leaf
  links : chain.IsChain (ParentOf view)
  root : ∃ root, chain.getLast? = some root ∧ root.parent = none ∧ root.depth = 0

theorem parentOf_iff {g p : Grant} :
    ParentOf view g p ↔ ∃ parentId, g.parent = some parentId ∧
      view.grant parentId = .ok (some p) ∧ linkOk parentId p g = true := by
  constructor
  · intro h
    exact ⟨p.id, h.parent, h.found,
      linkOk_iff.mpr ⟨rfl, h.depth, h.depth_lt, h.maxDepth, h.issuer⟩⟩
  · rintro ⟨parentId, hparent, hview, hok⟩
    obtain ⟨rfl, hdepth, hlt, hmax, hissuer⟩ := linkOk_iff.mp hok
    exact ⟨hparent, hview, hdepth, hlt, hmax, hissuer⟩

theorem Linked.isPath (h : Linked view leaf chain) : IsPath view leaf chain := by
  induction h with
  | root hparent hdepth => exact ⟨rfl, .singleton _, _, rfl, hparent, hdepth⟩
  | @link g p parentId rest hparent hview hok hrest ih =>
    obtain ⟨tail, rfl⟩ : ∃ tail, rest = p :: tail := by
      cases hrest <;> exact ⟨_, rfl⟩
    refine ⟨rfl, .cons_cons (parentOf_iff.mpr ⟨parentId, hparent, hview, hok⟩) ih.links, ?_⟩
    rw [List.getLast?_cons_cons]
    exact ih.root

theorem IsPath.linked (h : IsPath view leaf chain) : Linked view leaf chain := by
  induction chain generalizing leaf with
  | nil => cases h.head
  | cons g rest ih =>
    cases h.head
    obtain ⟨root, hlast, hparent, hdepth⟩ := h.root
    cases rest with
    | nil =>
      cases hlast
      exact .root hparent hdepth
    | cons =>
      obtain ⟨hlink, htail⟩ := List.isChain_cons_cons.mp h.links
      obtain ⟨parentId, hnamed, hview, hok⟩ := parentOf_iff.mp hlink
      rw [List.getLast?_cons_cons] at hlast
      exact .link hnamed hview hok (ih ⟨rfl, htail, root, hlast, hparent, hdepth⟩)

theorem linked_iff_isPath : Linked view leaf chain ↔ IsPath view leaf chain :=
  ⟨Linked.isPath, IsPath.linked⟩

/-- A chain has one link for each depth from the leaf's down to zero. -/
theorem Linked.length_eq (h : Linked view leaf chain) : chain.length = leaf.depth.toNat + 1 := by
  induction h with
  | root _ hdepth => simp [hdepth]
  | link _ _ hok _ ih =>
    have hlt := (linkOk_iff.mp hok).2.1
    rw [List.length_cons, ih]
    omega

/-! ## The unusable link nearest the leaf -/

/-- Why a link cannot be used: a revocation counts before an expiry, and an expiry before
a start that lies ahead. -/
inductive Unusable (view : Snapshot) (now : Timestamp) (link : Grant) : DenyCode → Prop
  | revoked {r : Revocation} (hrevoked : view.revocation link.id = .ok (some r)) :
      Unusable view now link .grantRevoked
  | expired (hunrevoked : view.revocation link.id = .ok none) (hexpired : link.expiresAt ≤ now) :
      Unusable view now link .grantExpired
  | notYetValid (hunrevoked : view.revocation link.id = .ok none) (hlive : now < link.expiresAt)
      (hbefore : now < link.notBefore) : Unusable view now link .grantNotYetValid

theorem unusable_iff {link : Grant} :
    Unusable view now link code ↔ ∃ found, view.revocation link.id = .ok found ∧
      linkCode found.isSome now link = some code := by
  constructor
  · intro h
    cases h with
    | revoked hrevoked => exact ⟨_, hrevoked, rfl⟩
    | expired hunrevoked hexpired => exact ⟨_, hunrevoked, by simp [linkCode, hexpired]⟩
    | notYetValid hunrevoked hlive hbefore =>
      exact ⟨_, hunrevoked, by simp [linkCode, not_le.mpr hlive, hbefore]⟩
  · rintro ⟨found, hfound, hcode⟩
    cases found with
    | some =>
      cases hcode
      exact .revoked hfound
    | none =>
      simp only [linkCode, Option.isSome_none, Bool.false_eq_true, if_false] at hcode
      by_cases hexpired : link.expiresAt ≤ now
      · rw [if_pos hexpired] at hcode
        cases hcode
        exact .expired hfound hexpired
      · rw [if_neg hexpired] at hcode
        by_cases hbefore : now < link.notBefore
        · rw [if_pos hbefore] at hcode
          cases hcode
          exact .notYetValid hfound (not_le.mp hexpired) hbefore
        · rw [if_neg hbefore] at hcode
          cases hcode

/-- The scan of a chain stops at its first unusable link. -/
theorem firstUnusable_eq_some {id : GrantId} :
    firstUnusable view now chain = .ok (some (code, id)) ↔
      ∃ pre link post, chain = pre ++ link :: post ∧ (∀ l ∈ pre, Usable view now l) ∧
        link.id = id ∧ Unusable view now link code := by
  induction chain with
  | nil => simp [firstUnusable]
  | cons g rest ih =>
    rw [firstUnusable, bind_eq_ok]
    constructor
    · rintro ⟨found, hfound, h⟩
      cases hcode : linkCode found.isSome now g with
      | some =>
        simp only [hcode] at h
        cases h
        exact ⟨[], g, rest, rfl, by simp, rfl, unusable_iff.mpr ⟨found, hfound, hcode⟩⟩
      | none =>
        simp only [hcode] at h
        obtain ⟨pre, link, post, rfl, hpre, hid, hbad⟩ := ih.mp h
        obtain ⟨hrevoked, hbefore, hlive⟩ := linkCode_eq_none.mp hcode
        have husable : Usable view now g := by
          refine ⟨?_, hbefore, hlive⟩
          cases found with
          | none => exact hfound
          | some => cases hrevoked
        exact ⟨g :: pre, link, post, rfl, List.forall_mem_cons.mpr ⟨husable, hpre⟩, hid, hbad⟩
    · rintro ⟨pre, link, post, hchain, hpre, hid, hbad⟩
      cases pre with
      | nil =>
        cases hchain
        obtain ⟨found, hfound, hcode⟩ := unusable_iff.mp hbad
        refine ⟨found, hfound, ?_⟩
        simp only [hcode, hid]
        rfl
      | cons _ pre =>
        cases hchain
        obtain ⟨⟨hrevoked, hbefore, hlive⟩, hpre⟩ := List.forall_mem_cons.mp hpre
        refine ⟨none, hrevoked, ?_⟩
        simp only [Option.isSome_none, linkCode_eq_none.mpr ⟨rfl, hbefore, hlive⟩]
        exact ih.mpr ⟨pre, link, post, rfl, hpre, hid, hbad⟩

theorem checkChain_invalid {id : GrantId} :
    checkChain view leaf now = .ok (.invalid code id) ↔
      ∃ pre link post, Linked view leaf (pre ++ link :: post) ∧ (∀ l ∈ pre, Usable view now l) ∧
        link.id = id ∧ Unusable view now link code := by
  unfold checkChain
  rw [bind_eq_ok]
  constructor
  · rintro ⟨chain, hload, h⟩
    obtain ⟨found, hfound, h⟩ := bind_eq_ok.mp h
    cases found with
    | none => cases h
    | some =>
      cases h
      obtain ⟨pre, link, post, rfl, hrest⟩ := firstUnusable_eq_some.mp hfound
      exact ⟨pre, link, post, loadChain_eq_ok.mp hload, hrest⟩
  · rintro ⟨pre, link, post, hlinked, hrest⟩
    refine ⟨_, loadChain_eq_ok.mpr hlinked, ?_⟩
    rw [firstUnusable_eq_some.mpr ⟨pre, link, post, rfl, hrest⟩]
    rfl

/-- With every revocation of a chain readable, the scan has an answer. -/
theorem exists_firstUnusable
    (hread : ∀ link ∈ chain, ∃ found, view.revocation link.id = .ok found) :
    ∃ found, firstUnusable view now chain = .ok found := by
  induction chain with
  | nil => exact ⟨none, rfl⟩
  | cons g _ ih =>
    obtain ⟨⟨found, hfound⟩, hread⟩ := List.forall_mem_cons.mp hread
    simp only [firstUnusable, hfound, bind, Except.bind]
    cases linkCode found.isSome now g with
    | some => exact ⟨_, rfl⟩
    | none => exact ih hread

/-- **The chain walk is total and exact.**  Whatever the view answers, the loop ends after
at most 256 lookups and in one way only.  A chain is valid exactly when the parent links
form a path to a root at depth zero with every link usable, and then that path is what is
returned.  On a path the unusable link nearest the leaf is what is reported; nothing else
is reported, and nothing fails on a path whose revocations can be read. -/
theorem chain_walk_exact (view : Snapshot) (leaf : Grant) (now : Timestamp) :
    (∃ lookups, lookups ≤ 256 ∧ Walk view leaf lookups (loadChain view leaf)) ∧
    (∀ lookups result, Walk view leaf lookups result →
      lookups ≤ 256 ∧ result = loadChain view leaf) ∧
    (∀ chain, IsPath view leaf chain → chain.length ≤ 256) ∧
    (∀ chain, checkChain view leaf now = .ok (.valid chain) ↔
      IsPath view leaf chain ∧ ∀ link ∈ chain, Usable view now link) ∧
    (∀ code id, checkChain view leaf now = .ok (.invalid code id) ↔
      ∃ pre link post, IsPath view leaf (pre ++ link :: post) ∧ (∀ l ∈ pre, Usable view now l) ∧
        link.id = id ∧ Unusable view now link code) ∧
    (∀ chain, IsPath view leaf chain →
      (∀ link ∈ chain, ∃ found, view.revocation link.id = .ok found) →
      ∃ status, checkChain view leaf now = .ok status) := by
  refine ⟨?_, ?_, ?_, ?_, ?_, ?_⟩
  · obtain ⟨lookups, hwalk⟩ := exists_walk view leaf
    exact ⟨lookups, hwalk.lookups_le_256, hwalk⟩
  · intro lookups result hwalk
    exact ⟨hwalk.lookups_le_256, (hwalk.loadLinks_eq (Nat.le_refl _)).symm⟩
  · intro chain hpath
    have hlength := hpath.linked.length_eq
    have hdepth := leaf.depth.toNat_lt
    omega
  · intro chain
    rw [checkChain_valid, linked_iff_isPath]
  · intro code id
    simp only [checkChain_invalid, linked_iff_isPath]
  · intro chain hpath hread
    obtain ⟨found, hfound⟩ : ∃ found, firstUnusable view now chain = .ok found :=
      exists_firstUnusable hread
    unfold checkChain
    rw [loadChain_eq_ok.mpr hpath.linked]
    simp only [bind, Except.bind, hfound]
    cases found <;> exact ⟨_, rfl⟩

end Dioptron
