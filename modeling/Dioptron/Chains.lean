import Dioptron.Budget
import Dioptron.Origins

/-! # Grants and grant chains

A grant names its parent, and the chain from a grant to its root is what a call is
authorized by.  `loadChain` walks it and checks the structure of every link;
`checkChain` then checks every link at one instant, revocation before expiry before
not-yet-valid.  Depth strictly decreases along the walk, so it ends, and the chain
repeats no grant.
-/
namespace Dioptron

/-- A standing permission held by a tenant. -/
structure Grant where
  id : GrantId
  issuer : TenantId
  holder : TenantId
  capabilities : Finset Capability
  sessionScope : SessionScope
  targetScope : TargetScope
  auditScope : AuditScope
  ceilings : Ceilings
  notBefore : Timestamp
  expiresAt : Timestamp
  parent : Option GrantId
  depth : UInt8
  maxDepth : UInt8
  deriving DecidableEq

/-- A revocation record: the grant, its epoch and the wall time of the effect. -/
structure Revocation where
  grant : GrantId
  atSeq : AuditSeq
  atTime : Timestamp
  deriving DecidableEq, Repr

/-- Grants, sessions, tenants and ledgers read at one consistent point.  A read
that fails surfaces as `AuthzError.view`. -/
structure Snapshot where
  grant : GrantId → Except AuthzError (Option Grant)
  revocation : GrantId → Except AuthzError (Option Revocation)
  sessionOwner : SessionId → Except AuthzError (Option TenantId)
  tenantParent : TenantId → Except AuthzError (Option TenantId)
  used : LedgerId → Except AuthzError Cost
  sessionCeilings : SessionId → Except AuthzError Ceilings
  tenantCeilings : TenantId → Except AuthzError Ceilings

/-! ## Loading a chain -/

def checkedSucc (d : UInt8) : Option UInt8 :=
  if d.toNat + 1 < 256 then some (d + 1) else none

theorem checkedSucc_eq_some {d e : UInt8} : checkedSucc d = some e ↔ e.toNat = d.toNat + 1 := by
  have he := e.toNat_lt
  unfold checkedSucc
  constructor
  · intro h
    split at h
    · cases h
      rw [UInt8.toNat_add]
      exact Nat.mod_eq_of_lt ‹_›
    · cases h
  · intro h
    rw [if_pos (by omega), Option.some.injEq, ← UInt8.toNat_inj, UInt8.toNat_add, h]
    exact Nat.mod_eq_of_lt (lt_of_eq_of_lt h.symm he)

/-- What the walk checks between a link and the grant its parent lookup returned. -/
def linkOk (parentId : GrantId) (parent current : Grant) : Bool :=
  parent.id == parentId && checkedSucc parent.depth == some current.depth &&
    current.depth < parent.maxDepth && current.maxDepth ≤ parent.maxDepth &&
    current.issuer == parent.holder

/-- Loads every link from `current` to the root, checking structure only.  The
depth is the measure: a link at depth zero has no parent that passes `linkOk`. -/
def loadLinks (view : Snapshot) : Nat → Grant → Except AuthzError (List Grant)
  | fuel, current =>
    match current.parent with
    | none =>
      if current.depth = 0 then .ok [current] else .error (.chainMalformed current.id)
    | some parentId => do
      match ← view.grant parentId with
      | none => throw (.chainBroken parentId)
      | some parent =>
        if linkOk parentId parent current then
          match fuel with
          | 0 => throw (.chainMalformed current.id)
          | fuel + 1 => return current :: (← loadLinks view fuel parent)
        else
          throw (.chainMalformed current.id)

/-- The whole chain of `leaf`, leaf first. -/
def loadChain (view : Snapshot) (leaf : Grant) : Except AuthzError (List Grant) :=
  loadLinks view leaf.depth.toNat leaf

/-- `chain` is the chain of `leaf` as `view` holds it. -/
inductive Linked (view : Snapshot) : Grant → List Grant → Prop
  | root {g : Grant} (hparent : g.parent = none) (hdepth : g.depth = 0) : Linked view g [g]
  | link {g p : Grant} {parentId : GrantId} {rest : List Grant}
      (hparent : g.parent = some parentId) (hview : view.grant parentId = .ok (some p))
      (hok : linkOk parentId p g = true) (hrest : Linked view p rest) : Linked view g (g :: rest)

theorem linkOk_iff {parentId : GrantId} {parent current : Grant} :
    linkOk parentId parent current = true ↔
      parent.id = parentId ∧ current.depth.toNat = parent.depth.toNat + 1 ∧
      current.depth < parent.maxDepth ∧ current.maxDepth ≤ parent.maxDepth ∧
      current.issuer = parent.holder := by
  simp only [linkOk, Bool.and_eq_true, beq_iff_eq, decide_eq_true_eq,
    checkedSucc_eq_some, and_assoc]

variable {view : Snapshot} {chain : List Grant}

/-- The fuel is never what ends the walk: with the depth as fuel, the walk
succeeds exactly on the chains of the view. -/
theorem loadLinks_eq_ok {fuel : Nat} {g : Grant} (hfuel : g.depth.toNat ≤ fuel) :
    loadLinks view fuel g = .ok chain ↔ Linked view g chain := by
  induction fuel generalizing g chain with
  | zero =>
    unfold loadLinks
    constructor
    · intro h
      cases hparent : g.parent with
      | none =>
        rw [hparent] at h
        by_cases hdepth : g.depth = 0
        · simp only [hdepth, if_true, Except.ok.injEq] at h
          subst h
          exact .root hparent hdepth
        · simp [hdepth] at h
      | some =>
        simp only [hparent, bind_eq_ok] at h
        obtain ⟨found, -, h⟩ := h
        cases found with
        | none => cases h
        | some =>
          dsimp only at h
          split at h <;> cases h
    · intro h
      cases h with
      | root hparent hdepth => simp [hparent, hdepth]
      | link _ _ hok =>
        have := (linkOk_iff.mp hok).2.1
        omega
  | succ fuel ih =>
    unfold loadLinks
    constructor
    · intro h
      cases hparent : g.parent with
      | none =>
        rw [hparent] at h
        by_cases hdepth : g.depth = 0
        · simp only [hdepth, if_true, Except.ok.injEq] at h
          subst h
          exact .root hparent hdepth
        · simp [hdepth] at h
      | some parentId =>
        simp only [hparent, bind_eq_ok] at h
        obtain ⟨found, hview, h⟩ := h
        cases found with
        | none => cases h
        | some parent =>
          dsimp only at h
          split at h
          · rename_i hok
            obtain ⟨rest, hrest, hchain⟩ := bind_eq_ok.mp h
            cases hchain
            have hlt := (linkOk_iff.mp hok).2.1
            exact .link hparent hview hok ((ih (by omega)).mp hrest)
          · cases h
    · intro h
      cases h with
      | root hparent hdepth => simp [hparent, hdepth]
      | link hparent hview hok hrest =>
        have hlt := (linkOk_iff.mp hok).2.1
        simp [hparent, hview, hok, (ih (by omega)).mpr hrest, pure, Except.pure]

theorem loadChain_eq_ok {leaf : Grant} : loadChain view leaf = .ok chain ↔ Linked view leaf chain :=
  loadLinks_eq_ok (Nat.le_refl _)

namespace Linked

variable {g : Grant} {chain : List Grant}

/-- No link is deeper than the leaf. -/
theorem depth_le (h : Linked view g chain) {x : Grant} (hx : x ∈ chain) :
    x.depth.toNat ≤ g.depth.toNat := by
  induction h with
  | root =>
    rw [List.mem_singleton] at hx
    exact le_of_eq (congrArg _ (congrArg _ hx))
  | link _ _ hok _ ih =>
    rcases List.mem_cons.mp hx with rfl | hx
    · exact le_refl _
    · have := ih hx
      have := (linkOk_iff.mp hok).2.1
      omega

/-- Every link but the leaf is what the view returns under its own id. -/
theorem view_grant (h : Linked view g chain) (hg : view.grant g.id = .ok (some g)) {x : Grant}
    (hx : x ∈ chain) : view.grant x.id = .ok (some x) := by
  induction h with
  | root =>
    rw [List.mem_singleton] at hx
    rwa [hx]
  | link _ hview hok _ ih =>
    rcases List.mem_cons.mp hx with rfl | hx
    · exact hg
    · refine ih ?_ hx
      rw [(linkOk_iff.mp hok).1]
      exact hview

/-- **A chain names no grant twice.** -/
theorem ids_nodup (h : Linked view g chain) (hg : view.grant g.id = .ok (some g)) :
    (chain.map Grant.id).Nodup := by
  induction h with
  | root => simp
  | @link g p _ _ _ hview hok hrest ih =>
    have hp : view.grant p.id = .ok (some p) := by
      rw [(linkOk_iff.mp hok).1]
      exact hview
    rw [List.map_cons, List.nodup_cons]
    refine ⟨?_, ih hp⟩
    intro hmem
    obtain ⟨x, hx, hid⟩ := List.mem_map.mp hmem
    -- A repeated id would be answered by one grant at two depths.
    have hsame : x = g := by
      have hview' := hrest.view_grant hp hx
      rw [hid, hg] at hview'
      exact (Option.some.inj (Except.ok.inj hview')).symm
    have hle := hrest.depth_le hx
    have hlt := (linkOk_iff.mp hok).2.1
    rw [hsame] at hle
    omega

end Linked

/-! ## Checking a chain at an instant -/

/-- The result of walking a grant chain at one instant. -/
inductive ChainStatus
  | valid (chain : List Grant)
  | invalid (code : DenyCode) (failingLink : GrantId)

/-- Why a link is not usable at `now`, revocation first. -/
def linkCode (revoked : Bool) (now : Timestamp) (link : Grant) : Option DenyCode :=
  if revoked then some .grantRevoked
  else if link.expiresAt ≤ now then some .grantExpired
  else if now < link.notBefore then some .grantNotYetValid
  else none

/-- The first unusable link of a chain, leaf first. -/
def firstUnusable (view : Snapshot) (now : Timestamp) :
    List Grant → Except AuthzError (Option (DenyCode × GrantId))
  | [] => .ok none
  | link :: rest => do
    let revoked := (← view.revocation link.id).isSome
    match linkCode revoked now link with
    | some code => return some (code, link.id)
    | none => firstUnusable view now rest

/-- Walks the chain from `leaf` to its root and checks every link at `now`. -/
def checkChain (view : Snapshot) (leaf : Grant) (now : Timestamp) :
    Except AuthzError ChainStatus := do
  let chain ← loadChain view leaf
  match ← firstUnusable view now chain with
  | some (code, failingLink) => return .invalid code failingLink
  | none => return .valid chain

/-- A link is usable at `now`. -/
def Usable (view : Snapshot) (now : Timestamp) (link : Grant) : Prop :=
  view.revocation link.id = .ok none ∧ link.notBefore ≤ now ∧ now < link.expiresAt

theorem linkCode_eq_none {revoked : Bool} {now : Timestamp} {link : Grant} :
    linkCode revoked now link = none ↔
      revoked = false ∧ link.notBefore ≤ now ∧ now < link.expiresAt := by
  unfold linkCode
  cases revoked with
  | true => simp
  | false =>
    by_cases hexp : link.expiresAt ≤ now
    · simp [hexp]
    · by_cases hbefore : now < link.notBefore
      · simp [hexp, hbefore]
      · simp [hexp, hbefore, not_lt.mp hbefore, not_le.mp hexp]

theorem firstUnusable_eq_none {now : Timestamp} :
    firstUnusable view now chain = .ok none ↔ ∀ link ∈ chain, Usable view now link := by
  induction chain with
  | nil => simp [firstUnusable]
  | cons link _ ih =>
    rw [firstUnusable, List.forall_mem_cons, bind_eq_ok]
    constructor
    · rintro ⟨found, hview, h⟩
      dsimp only at h
      cases hcode : linkCode found.isSome now link with
      | some => rw [hcode] at h; cases h
      | none =>
        rw [hcode] at h
        obtain ⟨hrev, hbefore, hexp⟩ := linkCode_eq_none.mp hcode
        cases found with
        | some => cases hrev
        | none => exact ⟨⟨hview, hbefore, hexp⟩, ih.mp h⟩
    · rintro ⟨⟨hview, hbefore, hexp⟩, hrest⟩
      refine ⟨none, hview, ?_⟩
      simp only [Option.isSome_none, linkCode_eq_none.mpr ⟨rfl, hbefore, hexp⟩]
      exact ih.mpr hrest

/-- **A chain is valid exactly when it loads and every link is usable.** -/
theorem checkChain_valid {leaf : Grant} {now : Timestamp} :
    checkChain view leaf now = .ok (.valid chain) ↔
      Linked view leaf chain ∧ ∀ link ∈ chain, Usable view now link := by
  unfold checkChain
  rw [bind_eq_ok]
  constructor
  · rintro ⟨loaded, hload, h⟩
    obtain ⟨found, hfound, h⟩ := bind_eq_ok.mp h
    cases found with
    | some => cases h
    | none =>
      cases h
      exact ⟨loadChain_eq_ok.mp hload, firstUnusable_eq_none.mp hfound⟩
  · rintro ⟨hlinked, husable⟩
    refine ⟨chain, loadChain_eq_ok.mpr hlinked, ?_⟩
    rw [firstUnusable_eq_none.mpr husable]
    rfl

end Dioptron
