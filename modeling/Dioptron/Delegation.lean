import Dioptron.Chains

/-! # Delegation

Issuing a child grant under a designated parent: the parent's chain must be usable
and confer `GrantIssue` on every link, and the child must attenuate the parent on
every axis.  `Attenuates` states what an accepted child satisfies for good, apart
from what was read about sessions and tenants at the time.
-/
namespace Dioptron

/-- The most parent links a lineage walk follows. -/
def maxTenantLineage : Nat := 255

/-- The turns of the lineage walk that are left. -/
def walkLineage (view : Snapshot) (tenant ancestor : TenantId) :
    Nat → TenantId → Except AuthzError Bool
  | 0, _ => .error (.tenantLineage tenant)
  | turns + 1, current =>
    if current = ancestor then .ok true
    else do
      match ← view.tenantParent current with
      | some parent => walkLineage view tenant ancestor turns parent
      | none => return false

/-- Whether `tenant` is `ancestor` or descends from it through parent links. -/
def inLineage (view : Snapshot) (tenant ancestor : TenantId) : Except AuthzError Bool :=
  walkLineage view tenant ancestor (maxTenantLineage + 1) tenant

/-- Whether `inner` reads no audit record that `outer` does not. -/
def auditScopeWithin (inner outer : AuditScope) : Bool :=
  inner == outer || (inner == .ownAndOwnedSessions && outer == .all)

/-- Whether a session exists and its owner is in the lineage of `holder`. -/
def sessionInLineage (view : Snapshot) (holder : TenantId) (session : SessionId) :
    Except AuthzError Bool := do
  match ← view.sessionOwner session with
  | some owner => inLineage view owner holder
  | none => return false

/-- Whether every listed session has an owner in the lineage of `holder`. -/
def sessionsInLineage (view : Snapshot) (holder : TenantId) :
    List SessionId → Except AuthzError Bool
  | [] => .ok true
  | session :: rest => do
    if ← sessionInLineage view holder session then sessionsInLineage view holder rest
    else return false

/-- Whether the child's session scope admits no session the parent's refuses. -/
def sessionScopeWithin (view : Snapshot) (parent child : Grant) : Except AuthzError Bool :=
  match parent.sessionScope, child.sessionScope with
  | .own, .own => inLineage view child.holder parent.holder
  | .own, .sessions ids => sessionsInLineage view parent.holder ids
  | .sessions allowed, .sessions ids => .ok (ids.all fun session => allowed.contains session)
  -- `Own` under an explicit set would follow sessions the parent never named.
  | .sessions _, .own => .ok false

/-- Whether each child ceiling is within the parent's remaining ceiling. -/
def ceilingsWithin (parent : Ceilings) (parentUsed : Cost) (child : Ceilings) : Bool :=
  Dimension.all.all fun d =>
    match parent.get d, child.get d with
    | none, _ => true
    | some _, none => false
    | some ceiling, some amount => amount ≤ saturatingSub ceiling (parentUsed.get d)

/-- The first axis on which `child` fails to attenuate `parent`. -/
def narrowingViolation (view : Snapshot) (parent : Grant) (parentUsed : Cost) (child : Grant) :
    Except AuthzError (Option NarrowingAxis) := do
  let sessions ← sessionScopeWithin view parent child
  let checks : List (NarrowingAxis × Bool) := [
    (.capabilities, decide (child.capabilities ⊆ parent.capabilities)),
    (.auditScope, auditScopeWithin child.auditScope parent.auditScope),
    (.sessionScope, sessions),
    (.targetScope, parent.targetScope.covers child.targetScope),
    (.ceilings, ceilingsWithin parent.ceilings parentUsed child.ceilings),
    (.expiry, decide (parent.notBefore ≤ child.notBefore ∧ child.notBefore < child.expiresAt ∧
      child.expiresAt ≤ parent.expiresAt)),
    (.depth, checkedSucc parent.depth == some child.depth && child.depth < parent.maxDepth &&
      child.maxDepth ≤ parent.maxDepth),
    (.issuerAuthority, child.parent == some parent.id && child.issuer == parent.holder)]
  return checks.findSome? fun (axis, holds) => if holds then none else some axis

/-- The result of `checkIssue`. -/
inductive IssueDecision
  | issued (grant : Grant)
  | notFoundOrDenied
  | denied (code : DenyCode)
  | narrowing (axis : NarrowingAxis)

def IssueDecision.refusal : IssueDecision → Option Failure
  | issued _ => none
  | notFoundOrDenied => some .notFoundOrDenied
  | denied code => some (.deniedFor code)
  | narrowing axis => some (.narrowing axis)

/-- Who issues a child grant, under which grant, and the new grant's id. -/
structure IssueContext where
  issuer : TenantId
  designated : GrantId
  child : GrantId
  deriving DecidableEq, Repr

/-- The grant `request` asks for under `parent`. -/
def issueCandidate (context : IssueContext) (request : GrantIssueRequest) (parent : Grant)
    (targetScope : TargetScope) (depth : UInt8) : Grant where
  id := context.child
  issuer := context.issuer
  holder := request.holder
  capabilities := request.capabilities.toFinset
  sessionScope := request.sessionScope
  targetScope := targetScope
  auditScope := .ownAndOwnedSessions
  ceilings := request.ceilings
  notBefore := request.notBefore
  expiresAt := request.expiresAt
  parent := some parent.id
  depth := depth
  maxDepth := request.maxDepth.getD parent.maxDepth

/-- The part of `checkIssue` after the parent's chain is known to be usable. -/
def checkCandidate (view : Snapshot) (context : IssueContext) (request : GrantIssueRequest)
    (parent : Grant) : Except AuthzError IssueDecision :=
  match TargetScope.parse request.targetScope with
  | .error _ => .ok (.narrowing .targetScope)
  | .ok targetScope =>
    match checkedSucc parent.depth with
    | none => .ok (.narrowing .depth)
    | some depth => do
      let candidate := issueCandidate context request parent targetScope depth
      let parentUsed ← view.used (.grant parent.id)
      match ← narrowingViolation view parent parentUsed candidate with
      | some axis => return .narrowing axis
      | none => return .issued candidate

/-- Decides whether the issuer may issue the child grant `request` describes under
the designated grant, at `now`. -/
def checkIssue (view : Snapshot) (context : IssueContext) (request : GrantIssueRequest)
    (now : Timestamp) : Except AuthzError IssueDecision := do
  match ← view.grant context.designated with
  | none => return .notFoundOrDenied
  | some parent =>
    if parent.id = context.designated ∧ parent.holder = context.issuer then
      match ← checkChain view parent now with
      | .invalid code _ => return .denied code
      | .valid chain =>
        if chain.all fun link => decide (.grantIssue ∈ link.capabilities) then
          match chain with
          | [] => return .notFoundOrDenied
          | parent :: _ => checkCandidate view context request parent
        else
          return .narrowing .issuerAuthority
    else
      return .notFoundOrDenied

/-! ## What an issued grant satisfies -/

/-- `child` attenuates `parent` on every axis that reads nothing but the two
grants. -/
structure Attenuates (parent child : Grant) : Prop where
  capabilities : child.capabilities ⊆ parent.capabilities
  auditScope : auditScopeWithin child.auditScope parent.auditScope = true
  targetScope : parent.targetScope.covers child.targetScope = true
  ceilings : ∀ d ceiling, parent.ceilings.get d = some ceiling →
    ∃ amount, child.ceilings.get d = some amount ∧ amount ≤ ceiling
  notBefore : parent.notBefore ≤ child.notBefore
  window : child.notBefore < child.expiresAt
  expiresAt : child.expiresAt ≤ parent.expiresAt
  depth : child.depth.toNat = parent.depth.toNat + 1
  depth_lt : child.depth < parent.maxDepth
  maxDepth : child.maxDepth ≤ parent.maxDepth
  parent_eq : child.parent = some parent.id
  issuer : child.issuer = parent.holder

theorem ceilingsWithin_le {parent child : Ceilings} {used : Cost}
    (h : ceilingsWithin parent used child = true) {d : Dimension} {ceiling : UInt64}
    (hceiling : parent.get d = some ceiling) :
    ∃ amount, child.get d = some amount ∧ amount ≤ ceiling := by
  have hd := List.all_eq_true.mp h d (Dimension.mem_all d)
  rw [hceiling] at hd
  cases hamount : child.get d with
  | none => rw [hamount] at hd; cases hd
  | some amount =>
    simp only [hamount, decide_eq_true_eq, UInt64.le_iff_toNat_le, toNat_saturatingSub] at hd
    refine ⟨amount, rfl, UInt64.le_iff_toNat_le.mpr ?_⟩
    omega

variable {view : Snapshot} {parent child : Grant} {used : Cost}

/-- A candidate with no narrowing violation attenuates its parent, and its session
scope was within the parent's on what the view held. -/
theorem attenuates_of_narrowingViolation
    (h : narrowingViolation view parent used child = .ok none) :
    Attenuates parent child ∧ sessionScopeWithin view parent child = .ok true := by
  unfold narrowingViolation at h
  obtain ⟨sessions, hsessions, h⟩ := bind_eq_ok.mp h
  simp only [pure, Except.pure, Except.ok.injEq, List.findSome?_eq_none_iff, List.mem_cons,
    List.not_mem_nil, or_false, forall_eq_or_imp, forall_eq, ite_eq_left_iff, Bool.not_eq_true,
    reduceCtorEq, imp_false, Bool.not_eq_false, decide_eq_true_eq, Bool.and_eq_true,
    beq_iff_eq] at h
  obtain ⟨hcap, haudit, rfl, htarget, hceil, ⟨hbefore, hwindow, hexp⟩, ⟨⟨hdepth, hlt⟩, hmax⟩,
    hparent, hissuer⟩ := h
  exact ⟨{
    capabilities := hcap
    auditScope := haudit
    targetScope := htarget
    ceilings := fun d ceiling => ceilingsWithin_le hceil
    notBefore := hbefore
    window := hwindow
    expiresAt := hexp
    depth := checkedSucc_eq_some.mp hdepth
    depth_lt := hlt
    maxDepth := hmax
    parent_eq := hparent
    issuer := hissuer }, hsessions⟩

/-- **What an issued grant satisfies**: its parent is the designated grant, the
issuer holds it, the parent's whole chain was usable and confers `GrantIssue`, and
the child attenuates the parent. -/
theorem checkIssue_issued {context : IssueContext} {request : GrantIssueRequest} {now : Timestamp}
    {grant : Grant} (h : checkIssue view context request now = .ok (.issued grant)) :
    ∃ parent chain targetScope,
      view.grant context.designated = .ok (some parent) ∧ parent.id = context.designated ∧
      parent.holder = context.issuer ∧ Linked view parent chain ∧
      (∀ link ∈ chain, Usable view now link ∧ Capability.grantIssue ∈ link.capabilities) ∧
      TargetScope.parse request.targetScope = .ok targetScope ∧
      grant = issueCandidate context request parent targetScope grant.depth ∧
      Attenuates parent grant ∧ sessionScopeWithin view parent grant = .ok true := by
  unfold checkIssue at h
  obtain ⟨found, hfound, h⟩ := bind_eq_ok.mp h
  cases found with
  | none => cases h
  | some parent =>
    dsimp only at h
    split_ifs at h with hheld
    · obtain ⟨status, hstatus, h⟩ := bind_eq_ok.mp h
      cases status with
      | invalid => cases h
      | valid chain =>
        dsimp only at h
        split_ifs at h with hcap
        · obtain ⟨hlinked, husable⟩ := checkChain_valid.mp hstatus
          -- The walk returns the leaf first, so the parent is the grant it started from.
          obtain ⟨rest, rfl⟩ : ∃ rest, chain = parent :: rest := by
            cases hlinked <;> exact ⟨_, rfl⟩
          dsimp only [checkCandidate] at h
          cases htarget : TargetScope.parse request.targetScope with
          | error => rw [htarget] at h; cases h
          | ok targetScope =>
            rw [htarget] at h
            cases hdepth : checkedSucc parent.depth with
            | none => rw [hdepth] at h; cases h
            | some =>
              simp only [hdepth, bind_eq_ok] at h
              obtain ⟨used, -, axis, hnarrow, h⟩ := h
              cases axis with
              | some => cases h
              | none =>
                cases h
                obtain ⟨hatt, hsessions⟩ := attenuates_of_narrowingViolation hnarrow
                refine ⟨parent, parent :: rest, targetScope, hfound, hheld.1, hheld.2, hlinked,
                  fun link hlink => ⟨husable link hlink, ?_⟩, rfl, rfl, hatt, hsessions⟩
                exact of_decide_eq_true (List.all_eq_true.mp hcap link hlink)
        · cases h
    · cases h

/-! ## Lineages -/

/-- `tenant` reaches `ancestor` by following `links` parent links. -/
inductive Descends (view : Snapshot) (ancestor : TenantId) : Nat → TenantId → Prop
  | refl : Descends view ancestor 0 ancestor
  | step {links : Nat} {tenant parent : TenantId} (hne : tenant ≠ ancestor)
      (hparent : view.tenantParent tenant = .ok (some parent))
      (h : Descends view ancestor links parent) : Descends view ancestor (links + 1) tenant

theorem walkLineage_eq_true {tenant ancestor current : TenantId} {turns : Nat} :
    walkLineage view tenant ancestor turns current = .ok true ↔
      ∃ links < turns, Descends view ancestor links current := by
  induction turns generalizing current with
  | zero => simp [walkLineage]
  | succ _ ih =>
    rw [walkLineage]
    by_cases hcur : current = ancestor
    · subst hcur
      simp only [if_true, true_iff]
      exact ⟨0, Nat.succ_pos _, .refl⟩
    · rw [if_neg hcur, bind_eq_ok]
      constructor
      · rintro ⟨found, hfound, h⟩
        cases found with
        | none => cases h
        | some =>
          obtain ⟨links, hlt, hdesc⟩ := ih.mp h
          exact ⟨links + 1, Nat.succ_lt_succ hlt, .step hcur hfound hdesc⟩
      · rintro ⟨links, hlt, hdesc⟩
        cases hdesc with
        | refl => exact absurd rfl hcur
        | step _ hparent hdesc =>
          exact ⟨_, hparent, ih.mpr ⟨_, Nat.lt_of_succ_lt_succ hlt, hdesc⟩⟩

/-- A tenant is in a lineage exactly when some bounded walk reaches the ancestor. -/
theorem inLineage_eq_true {tenant ancestor : TenantId} :
    inLineage view tenant ancestor = .ok true ↔
      ∃ links ≤ maxTenantLineage, Descends view ancestor links tenant := by
  unfold inLineage
  rw [walkLineage_eq_true]
  simp only [Nat.lt_succ_iff]

end Dioptron
