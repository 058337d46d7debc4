import Dioptron.Coverage
import Dioptron.Policy

/-! # Narrowing is exact

What each axis of delegation asks of a child grant, in terms of what the two grants admit,
and the answer of the check: nothing when every axis holds, otherwise the first axis of the
documented order that fails.
-/
namespace Dioptron

/-! ## The order of axes -/

/-- The axes in the order they are documented. -/
def NarrowingAxis.all : List NarrowingAxis :=
  [.capabilities, .auditScope, .sessionScope, .targetScope, .ceilings, .expiry, .depth,
    .issuerAuthority]

theorem NarrowingAxis.mem_all (axis : NarrowingAxis) : axis ∈ all := by
  cases axis <;> decide

/-- `axis` fails and no axis before it does. -/
def FirstFailing (holds : NarrowingAxis → Prop) (axis : NarrowingAxis) : Prop :=
  ∃ pre post, NarrowingAxis.all = pre ++ axis :: post ∧ (∀ earlier ∈ pre, holds earlier) ∧
    ¬ holds axis

/-- The first failed check of a list, by what the checks stand for. -/
theorem findSome?_checks {holds : NarrowingAxis → Prop} {checks : List (NarrowingAxis × Bool)}
    (hchecks : ∀ check ∈ checks, check.2 = true ↔ holds check.1) :
    (checks.findSome? (fun (axis, ok) => if ok then none else some axis) = none ↔
      ∀ axis ∈ checks.map Prod.fst, holds axis) ∧
    ∀ axis, checks.findSome? (fun (axis, ok) => if ok then none else some axis) = some axis ↔
      ∃ pre post, checks.map Prod.fst = pre ++ axis :: post ∧ (∀ earlier ∈ pre, holds earlier) ∧
        ¬ holds axis := by
  induction checks with
  | nil => simp
  | cons check _ ih =>
    obtain ⟨hcheck, hrest⟩ := List.forall_mem_cons.mp hchecks
    obtain ⟨ihnone, ihsome⟩ := ih hrest
    obtain ⟨first, ok⟩ := check
    cases ok with
    | true =>
      have hfirst : holds first := hcheck.mp rfl
      simp only [List.findSome?_cons, if_true, List.map_cons, List.forall_mem_cons, hfirst,
        true_and]
      refine ⟨ihnone, fun axis => (ihsome axis).trans ⟨?_, ?_⟩⟩
      · rintro ⟨pre, post, heq, hpre, haxis⟩
        exact ⟨first :: pre, post, by rw [heq]; rfl, List.forall_mem_cons.mpr ⟨hfirst, hpre⟩, haxis⟩
      · rintro ⟨pre, post, heq, hpre, haxis⟩
        cases pre with
        | nil =>
          cases heq
          exact absurd hfirst haxis
        | cons x pre =>
          exact ⟨pre, post, (List.cons.inj heq).2, (List.forall_mem_cons.mp hpre).2, haxis⟩
    | false =>
      have hfirst : ¬ holds first := mt hcheck.mpr nofun
      simp only [List.findSome?_cons, Bool.false_eq_true, if_false, List.map_cons,
        List.forall_mem_cons, hfirst, false_and, reduceCtorEq, Option.some.injEq, true_and]
      refine fun axis => ⟨?_, ?_⟩
      · rintro rfl
        exact ⟨[], _, rfl, List.forall_mem_nil _, hfirst⟩
      · rintro ⟨pre, post, heq, hpre, haxis⟩
        cases pre with
        | nil =>
          cases heq
          rfl
        | cons x =>
          rw [(List.cons.inj heq).1] at hfirst
          exact absurd (hpre x List.mem_cons_self) hfirst

/-! ## The axes of a child -/

variable {view : Snapshot} {parent child : Grant} {used : Cost}

/-- The session scope of a grant admits a session. -/
def AdmitsSession (view : Snapshot) (parent : Grant) (session : SessionId) : Prop :=
  match parent.sessionScope with
  | .own => ∃ owner, view.sessionOwner session = .ok (some owner) ∧
    InLineage view owner parent.holder
  | .sessions allowed => session ∈ allowed

/-- `Own` under `Own` for a holder of the lineage, or a list of sessions the parent admits. -/
inductive SessionsWithin (view : Snapshot) (parent : Grant) (holder : TenantId) :
    SessionScope → Prop
  | own (hparent : parent.sessionScope = .own) (h : InLineage view holder parent.holder) :
      SessionsWithin view parent holder .own
  | listed {ids : List SessionId} (h : ∀ session ∈ ids, AdmitsSession view parent session) :
      SessionsWithin view parent holder (.sessions ids)

/-- What each axis asks of `child` under `parent`, of whose ceilings `used` is spent. -/
def Satisfies (view : Snapshot) (parent : Grant) (used : Cost) (child : Grant) :
    NarrowingAxis → Prop
  | .capabilities => child.capabilities ⊆ parent.capabilities
  | .auditScope => child.auditScope = parent.auditScope ∨ parent.auditScope = .all
  | .sessionScope => SessionsWithin view parent child.holder child.sessionScope
  | .targetScope => ∀ inner ∈ child.targetScope.patterns, ∃ outer ∈ parent.targetScope.patterns,
      ∀ text origin, Origin.parse text = .ok origin → inner.matches_ origin = true →
        outer.matches_ origin = true
  | .ceilings => ∀ d ceiling, parent.ceilings.get d = some ceiling → ∃ amount,
      child.ceilings.get d = some amount ∧ amount.toNat ≤ ceiling.toNat - (used.get d).toNat
  | .expiry => parent.notBefore ≤ child.notBefore ∧ child.notBefore < child.expiresAt ∧
      child.expiresAt ≤ parent.expiresAt
  | .depth => child.depth.toNat = parent.depth.toNat + 1 ∧ child.depth < parent.maxDepth ∧
      child.maxDepth ≤ parent.maxDepth
  | .issuerAuthority => child.parent = some parent.id ∧ child.issuer = parent.holder

theorem auditScopeWithin_iff {inner outer : AuditScope} :
    auditScopeWithin inner outer = true ↔ inner = outer ∨ outer = .all := by
  cases inner <;> cases outer <;> decide

theorem ceilingsWithin_iff {outer inner : Ceilings} :
    ceilingsWithin outer used inner = true ↔ ∀ d ceiling, outer.get d = some ceiling → ∃ amount,
      inner.get d = some amount ∧ amount.toNat ≤ ceiling.toNat - (used.get d).toNat := by
  simp only [ceilingsWithin, List.all_eq_true, Dimension.mem_all, forall_const]
  refine forall_congr' fun d => ?_
  cases outer.get d with
  | none => simp
  | some =>
    cases inner.get d with
    | none => simp
    | some => simp [UInt64.le_iff_toNat_le, toNat_saturatingSub]

theorem covers_iff_patterns {outer inner : TargetScope} {texts : List Bytes}
    (hparse : TargetScope.parse texts = .ok inner)
    (hlength : ∀ p ∈ inner.patterns, ∀ domain, p.host = .subdomains domain → domain.length ≤ 251) :
    outer.covers inner = true ↔ ∀ p ∈ inner.patterns, ∃ q ∈ outer.patterns,
      ∀ text origin, Origin.parse text = .ok origin → p.matches_ origin = true →
        q.matches_ origin = true := by
  simp only [TargetScope.covers, List.all_eq_true, List.any_eq_true]
  refine forall₂_congr fun p hp => exists_congr fun q => and_congr_right fun _ => ?_
  rw [OriginPattern.covers_iff (TargetScope.wellFormed_of_parse hparse p hp) (hlength p hp)]
  constructor
  · intro h text origin htext
    exact h origin ⟨text, htext⟩
  · rintro h origin ⟨text, htext⟩
    exact h text origin htext

section Sessions
variable (hlineages : view.LineagesEnd) (hreads : ∀ id, ∃ found, view.sessionOwner id = .ok found)
include hlineages hreads

theorem sessionsInLineage_decides (holder : TenantId) (ids : List SessionId) :
    ∃ within, sessionsInLineage view holder ids = .ok within ∧ (within = true ↔
      ∀ session ∈ ids, ∃ owner, view.sessionOwner session = .ok (some owner) ∧
        InLineage view owner holder) := by
  induction ids with
  | nil => exact ⟨true, rfl, by simp⟩
  | cons session _ ih =>
    obtain ⟨rest, hrest, hiff⟩ := ih
    have hhead : ∃ inside, sessionInLineage view holder session = .ok inside ∧ (inside = true ↔
        ∃ owner, view.sessionOwner session = .ok (some owner) ∧ InLineage view owner holder) := by
      obtain ⟨found, hfound⟩ := hreads session
      rw [sessionInLineage, hfound, ok_bind]
      cases found with
      | none => exact ⟨false, rfl, by simp⟩
      | some owner =>
        obtain ⟨inside, hinside, hiff⟩ := hlineages.inLineage owner holder
        exact ⟨inside, hinside, by simpa using hiff⟩
    obtain ⟨inside, hinside, hiff'⟩ := hhead
    rw [sessionsInLineage, hinside, ok_bind, List.forall_mem_cons, ← hiff', ← hiff]
    cases inside with
    | false => exact ⟨false, rfl, by simp⟩
    | true => exact ⟨rest, hrest, by simp⟩

/-- The session axis is decided, and by what the scopes admit. -/
theorem sessionScopeWithin_decides (parent child : Grant) :
    ∃ within, sessionScopeWithin view parent child = .ok within ∧
      (within = true ↔ SessionsWithin view parent child.holder child.sessionScope) := by
  unfold sessionScopeWithin
  cases hchild : child.sessionScope with
  | own =>
    cases hparent : parent.sessionScope with
    | own =>
      obtain ⟨inside, hinside, hiff⟩ := hlineages.inLineage child.holder parent.holder
      refine ⟨inside, hinside, hiff.trans ⟨.own hparent, fun h => ?_⟩⟩
      cases h with
      | own _ h => exact h
    | sessions =>
      refine ⟨false, rfl, iff_of_false nofun fun h => ?_⟩
      cases h with
      | own hown => exact absurd (hparent.symm.trans hown) nofun
  | sessions ids =>
    have hlisted : SessionsWithin view parent child.holder (.sessions ids) ↔
        ∀ session ∈ ids, AdmitsSession view parent session :=
      ⟨fun h => by cases h with | listed h => exact h, .listed⟩
    rw [hlisted]
    cases hparent : parent.sessionScope with
    | own =>
      simp only [AdmitsSession, hparent]
      exact sessionsInLineage_decides hlineages hreads parent.holder ids
    | sessions =>
      simp only [AdmitsSession, hparent]
      exact ⟨_, rfl, by simp⟩

end Sessions

/-- The checks of a child, in order, once the session axis is decided. -/
def narrowingChecks (parent : Grant) (used : Cost) (child : Grant) (sessions : Bool) :
    List (NarrowingAxis × Bool) := [
  (.capabilities, decide (child.capabilities ⊆ parent.capabilities)),
  (.auditScope, auditScopeWithin child.auditScope parent.auditScope),
  (.sessionScope, sessions),
  (.targetScope, parent.targetScope.covers child.targetScope),
  (.ceilings, ceilingsWithin parent.ceilings used child.ceilings),
  (.expiry, decide (parent.notBefore ≤ child.notBefore ∧ child.notBefore < child.expiresAt ∧
    child.expiresAt ≤ parent.expiresAt)),
  (.depth, checkedSucc parent.depth == some child.depth && child.depth < parent.maxDepth &&
    child.maxDepth ≤ parent.maxDepth),
  (.issuerAuthority, child.parent == some parent.id && child.issuer == parent.holder)]

/-- A narrowing check answers by what its eight checks stand for. -/
theorem narrowingViolation_decides {holds : NarrowingAxis → Prop} {sessions : Bool}
    (hsessions : sessionScopeWithin view parent child = .ok sessions)
    (hchecks : ∀ check ∈ narrowingChecks parent used child sessions,
      check.2 = true ↔ holds check.1) :
    (narrowingViolation view parent used child = .ok none ↔ ∀ axis, holds axis) ∧
    ∀ axis, narrowingViolation view parent used child = .ok (some axis) ↔
      FirstFailing holds axis := by
  have heq : narrowingViolation view parent used child =
      .ok ((narrowingChecks parent used child sessions).findSome?
        fun (axis, ok) => if ok then none else some axis) := by
    rw [narrowingViolation, hsessions]
    rfl
  obtain ⟨hnone, hsome⟩ := findSome?_checks hchecks
  simp only [heq, Except.ok.injEq]
  refine ⟨hnone.trans ?_, hsome⟩
  exact ⟨fun h axis => h axis axis.mem_all, fun h axis _ => h axis⟩

/-- **Narrowing is exact.**  On a view whose reads are answered and whose lineages end within
255 links, for every parent, every amount used and every child whose patterns parse, with at
most 251 bytes behind a `*.`, the check answers nothing exactly when every axis holds, and
otherwise the first axis that fails. -/
theorem narrowing_exact (hlineages : view.LineagesEnd)
    (hreads : ∀ id, ∃ found, view.sessionOwner id = .ok found) (parent child : Grant) (used : Cost)
    {texts : List Bytes} (hparse : TargetScope.parse texts = .ok child.targetScope)
    (hlength : ∀ p ∈ child.targetScope.patterns, ∀ domain, p.host = .subdomains domain →
      domain.length ≤ 251) :
    (narrowingViolation view parent used child = .ok none ↔
      ∀ axis, Satisfies view parent used child axis) ∧
    ∀ axis, narrowingViolation view parent used child = .ok (some axis) ↔
      FirstFailing (Satisfies view parent used child) axis := by
  obtain ⟨sessions, hsessions, hiff⟩ := sessionScopeWithin_decides hlineages hreads parent child
  refine narrowingViolation_decides hsessions ?_
  simp only [narrowingChecks, List.forall_mem_cons, Satisfies, decide_eq_true_eq,
    auditScopeWithin_iff, hiff, covers_iff_patterns hparse hlength, ceilingsWithin_iff,
    Bool.and_eq_true, beq_iff_eq, checkedSucc_eq_some, and_assoc, List.not_mem_nil, false_imp_iff,
    implies_true, and_true]

/-! ## The axes of a request -/

/-- What each axis asks of a request under the designated grant `parent` with this chain. -/
def RequestSatisfies (view : Snapshot) (parent : Grant) (chain : List Grant) (used : Cost)
    (request : GrantIssueRequest) : NarrowingAxis → Prop
  | .capabilities => request.capabilities.toFinset ⊆ parent.capabilities
  | .auditScope => .ownAndOwnedSessions = parent.auditScope ∨ parent.auditScope = .all
  | .sessionScope => SessionsWithin view parent request.holder request.sessionScope
  | .targetScope => ∃ scope, TargetScope.parse request.targetScope = .ok scope ∧
      parent.targetScope.covers scope = true
  | .ceilings => ∀ d ceiling, parent.ceilings.get d = some ceiling → ∃ amount,
      request.ceilings.get d = some amount ∧ amount.toNat ≤ ceiling.toNat - (used.get d).toNat
  | .expiry => parent.notBefore ≤ request.notBefore ∧ request.notBefore < request.expiresAt ∧
      request.expiresAt ≤ parent.expiresAt
  | .depth => parent.depth.toNat + 1 < 256 ∧ parent.depth.toNat + 1 < parent.maxDepth.toNat ∧
      request.maxDepth.getD parent.maxDepth ≤ parent.maxDepth
  | .issuerAuthority => ∀ link ∈ chain, .grantIssue ∈ link.capabilities

/-- A decision on a request names its first failing axis, and issues when none fails. -/
def NamesFirstFailing (holds : NarrowingAxis → Prop) (result : Except AuthzError IssueDecision) :
    Prop :=
  (∀ axis, FirstFailing holds axis → result = .ok (.narrowing axis)) ∧
    ((∃ grant, result = .ok (.issued grant)) ↔ ∀ axis, holds axis)

/-- The decision is made on the designated grant of the issuer, whose chain is usable. -/
structure Issues (view : Snapshot) (context : IssueContext) (now : Timestamp) (parent : Grant)
    (chain : List Grant) : Prop where
  found : view.grant context.designated = .ok (some parent)
  id_eq : parent.id = context.designated
  holder : parent.holder = context.issuer
  linked : Linked view parent chain
  usable : ∀ link ∈ chain, Usable view now link

/-- The order of the checks does not show: where a link lacks `GrantIssue` nothing else fails,
and where a pattern does not parse no earlier axis fails. -/
structure Orderly (holds : NarrowingAxis → Prop) (request : GrantIssueRequest) : Prop where
  authority : ¬ holds .issuerAuthority → ∀ axis, axis ≠ .issuerAuthority → holds axis
  target : (∀ scope, TargetScope.parse request.targetScope ≠ .ok scope) →
    holds .capabilities ∧ holds .auditScope ∧ holds .sessionScope

section Order
variable {holds : NarrowingAxis → Prop} {axis : NarrowingAxis}

theorem firstFailing_iff : FirstFailing holds axis ↔
    ¬ holds axis ∧ ∀ earlier ∈ NarrowingAxis.all.takeWhile (· ≠ axis), holds earlier := by
  have htake {pre post : List NarrowingAxis} (hpre : axis ∉ pre) :
      (pre ++ axis :: post).takeWhile (· ≠ axis) = pre := by
    rw [List.takeWhile_append_of_pos]
    · simp
    · intro earlier hearlier
      refine decide_eq_true ?_
      rintro rfl
      exact hpre hearlier
  constructor
  · rintro ⟨pre, post, hall, hpre, haxis⟩
    rw [hall, htake fun hmem => haxis (hpre axis hmem)]
    exact ⟨haxis, hpre⟩
  · rintro ⟨haxis, hpre⟩
    obtain ⟨pre, post, hall, hnotin⟩ := List.eq_append_cons_of_mem axis.mem_all
    rw [hall, htake hnotin] at hpre
    exact ⟨pre, post, hall, hpre, haxis⟩

theorem firstFailing_unique {other : NarrowingAxis} (h : FirstFailing holds axis)
    (h' : FirstFailing holds other) : axis = other := by
  rw [firstFailing_iff] at h h'
  have hearlier : axis ≠ other → axis ∈ NarrowingAxis.all.takeWhile (· ≠ other) ∨
      other ∈ NarrowingAxis.all.takeWhile (· ≠ axis) := by
    cases axis <;> cases other <;> decide
  by_contra hne
  rcases hearlier hne with hmem | hmem
  · exact h.1 (h'.2 axis hmem)
  · exact h'.1 (h.2 other hmem)

theorem exists_firstFailing (h : ¬ holds axis) : ∃ first, FirstFailing holds first := by
  obtain ⟨pre, first, post, hall, hpre, hfirst⟩ :=
    exists_first (P := fun axis => ¬ holds axis) ⟨axis, axis.mem_all, h⟩
  exact ⟨first, pre, post, hall, fun earlier hearlier => not_not.mp (hpre earlier hearlier), hfirst⟩

/-- A refusal on a failing axis is right exactly when that axis fails first. -/
theorem namesFirstFailing_narrowing (h : ¬ holds axis) :
    NamesFirstFailing holds (.ok (.narrowing axis)) ↔ FirstFailing holds axis := by
  constructor
  · rintro ⟨hnames, -⟩
    obtain ⟨first, hfirst⟩ := exists_firstFailing h
    have heq := hnames first hfirst
    cases heq
    exact hfirst
  · intro hfirst
    refine ⟨fun other hother => ?_, iff_of_false (fun ⟨_, hissued⟩ => nomatch hissued) ?_⟩
    · rw [firstFailing_unique hfirst hother]
    · exact fun hall => h (hall axis)

end Order

/-! ## Issuing -/

section Issue
variable {context : IssueContext} {request : GrantIssueRequest} {now : Timestamp}
  {chain : List Grant}

/-- A grant whose chain loads can have a child one below it. -/
theorem Linked.exists_checkedSucc {leaf : Grant} (h : Linked view leaf chain) :
    ∃ depth, checkedSucc leaf.depth = some depth ∧ depth.toNat = leaf.depth.toNat + 1 := by
  have hlt : leaf.depth.toNat + 1 < 256 := by
    cases h with
    | root _ hdepth => simp [hdepth]
    | @link _ p _ _ _ _ hok =>
      have hbelow := UInt8.lt_iff_toNat_lt.mp (linkOk_iff.mp hok).2.2.1
      have hmax := p.maxDepth.toNat_lt
      omega
  have hsucc : checkedSucc leaf.depth = some (leaf.depth + 1) := if_pos hlt
  exact ⟨_, hsucc, checkedSucc_eq_some.mp hsucc⟩

theorem Issues.checkIssue_eq (h : Issues view context now parent chain) :
    checkIssue view context request now =
      if chain.all fun link => decide (.grantIssue ∈ link.capabilities) then
        checkCandidate view context request parent
      else .ok (.narrowing .issuerAuthority) := by
  obtain ⟨rest, rfl⟩ : ∃ rest, chain = parent :: rest := by
    cases h.linked <;> exact ⟨_, rfl⟩
  rw [checkIssue, h.found, ok_bind]
  simp only [if_pos (And.intro h.id_eq h.holder),
    checkChain_valid.mpr ⟨h.linked, h.usable⟩, ok_bind]
  rfl

/-- With the authority in order and the patterns parsed, the decision is right. -/
theorem Issues.checkCandidate_names (h : Issues view context now parent chain)
    (hlineages : view.LineagesEnd) (hreads : ∀ id, ∃ found, view.sessionOwner id = .ok found)
    (hused : view.used (.grant parent.id) = .ok used)
    (hauthority : RequestSatisfies view parent chain used request .issuerAuthority)
    {scope : TargetScope} (hscope : TargetScope.parse request.targetScope = .ok scope) :
    NamesFirstFailing (RequestSatisfies view parent chain used request)
      (checkCandidate view context request parent) := by
  obtain ⟨depth, hsucc, hdepth⟩ := h.linked.exists_checkedSucc
  have hlt := depth.toNat_lt
  obtain ⟨sessions, hsessions, hiff⟩ := sessionScopeWithin_decides hlineages hreads parent
    (issueCandidate context request parent scope depth)
  obtain ⟨hnone, hsome⟩ : (narrowingViolation view parent used
      (issueCandidate context request parent scope depth) = .ok none ↔
        ∀ axis, RequestSatisfies view parent chain used request axis) ∧ ∀ axis,
      narrowingViolation view parent used (issueCandidate context request parent scope depth) =
        .ok (some axis) ↔ FirstFailing (RequestSatisfies view parent chain used request) axis := by
    refine narrowingViolation_decides hsessions ?_
    have hroom : parent.depth.toNat + 1 < 256 := hdepth ▸ hlt
    simp only [narrowingChecks, List.forall_mem_cons, RequestSatisfies, decide_eq_true_eq,
      auditScopeWithin_iff, hiff, ceilingsWithin_iff, Bool.and_eq_true, beq_iff_eq,
      checkedSucc_eq_some, issueCandidate, hdepth, hroom, h.holder, hscope, Except.ok.injEq,
      exists_eq_left', UInt8.lt_iff_toNat_lt, true_and, and_true, true_iff, List.not_mem_nil,
      false_imp_iff, implies_true]
    exact ⟨decide_eq_true_iff, decide_eq_true_iff, and_congr_right fun _ => decide_eq_true_iff,
      hauthority⟩
  have heq : checkCandidate view context request parent = do
      let violation ← narrowingViolation view parent used
        (issueCandidate context request parent scope depth)
      return violation.elim (.issued (issueCandidate context request parent scope depth))
        .narrowing := by
    rw [checkCandidate, hscope]
    simp only [hsucc, hused, ok_bind]
    cases narrowingViolation view parent used
        (issueCandidate context request parent scope depth) with
    | error => rfl
    | ok violation => cases violation <;> rfl
  rw [heq]
  by_cases hall : ∀ axis, RequestSatisfies view parent chain used request axis
  · rw [hnone.mpr hall, ok_bind]
    refine ⟨fun axis hfirst => ?_, iff_of_true ⟨_, rfl⟩ hall⟩
    exact absurd (hall axis) (firstFailing_iff.mp hfirst).1
  · obtain ⟨axis, haxis⟩ := not_forall.mp hall
    obtain ⟨first, hfirst⟩ := exists_firstFailing haxis
    rw [hsome first |>.mpr hfirst, ok_bind]
    exact (namesFirstFailing_narrowing (firstFailing_iff.mp hfirst).1).mpr hfirst

/-- **A refused issue names the first failing axis exactly when the order of the checks does
not show.**  On a view whose reads are answered and whose lineages end, for every designated
grant of the issuer with a usable chain and every request, the decision names the first
failing axis and issues when none fails if and only if the request is `Orderly`: a link
without `GrantIssue` is its only fault, and patterns that do not parse come with no fault on
an earlier axis. -/
theorem issue_names_first_axis_iff_orderly (h : Issues view context now parent chain)
    (hlineages : view.LineagesEnd) (hreads : ∀ id, ∃ found, view.sessionOwner id = .ok found)
    (hused : view.used (.grant parent.id) = .ok used) (request : GrantIssueRequest) :
    NamesFirstFailing (RequestSatisfies view parent chain used request)
      (checkIssue view context request now) ↔
    Orderly (RequestSatisfies view parent chain used request) request := by
  rw [h.checkIssue_eq]
  by_cases hauthority : RequestSatisfies view parent chain used request .issuerAuthority
  · rw [if_pos (List.all_eq_true.mpr fun link hlink => decide_eq_true (hauthority link hlink))]
    cases hparse : TargetScope.parse request.targetScope with
    | ok scope =>
      refine iff_of_true (h.checkCandidate_names hlineages hreads hused hauthority hparse) ?_
      exact ⟨fun hnot => absurd hauthority hnot, fun hnot => absurd hparse (hnot scope)⟩
    | error =>
      have htarget : ¬ RequestSatisfies view parent chain used request .targetScope := by
        rintro ⟨scope, hscope, -⟩
        rw [hparse] at hscope
        cases hscope
      have heq : checkCandidate view context request parent = .ok (.narrowing .targetScope) := by
        rw [checkCandidate, hparse]
      rw [heq, namesFirstFailing_narrowing htarget, firstFailing_iff]
      constructor
      · rintro ⟨-, hearlier⟩
        refine ⟨fun hnot => absurd hauthority hnot, fun _ => ⟨?_, ?_, ?_⟩⟩
        all_goals exact hearlier _ (by decide)
      · intro horderly
        obtain ⟨hcap, haudit, hsession⟩ := horderly.target (by simp [hparse])
        refine ⟨htarget, fun axis haxis => ?_⟩
        have hmem : axis = .capabilities ∨ axis = .auditScope ∨ axis = .sessionScope := by
          revert haxis
          cases axis <;> decide
        rcases hmem with rfl | rfl | rfl
        · exact hcap
        · exact haudit
        · exact hsession
  · have hall : ¬ (chain.all fun link => decide (.grantIssue ∈ link.capabilities)) = true := by
      intro hall
      exact hauthority fun link hlink => of_decide_eq_true (List.all_eq_true.mp hall link hlink)
    rw [if_neg hall, namesFirstFailing_narrowing hauthority, firstFailing_iff]
    constructor
    · rintro ⟨-, hearlier⟩
      have hrest : ∀ axis, axis ≠ .issuerAuthority →
          RequestSatisfies view parent chain used request axis := by
        intro axis hne
        refine hearlier axis ?_
        revert hne
        cases axis <;> decide
      refine ⟨fun _ => hrest, fun hnot => ?_⟩
      obtain ⟨scope, hscope, -⟩ := hrest .targetScope nofun
      exact absurd hscope (hnot scope)
    · intro horderly
      refine ⟨hauthority, fun axis haxis => horderly.authority hauthority axis ?_⟩
      revert haxis
      cases axis <;> decide

end Issue

/-! ## Grants without `GrantIssue` -/

namespace Sample

/-- A request under the sole grant, which does not confer `GrantIssue`. -/
def soleRequest (capability : Capability) : GrantIssueRequest :=
  ⟨⟨1⟩, [capability], .own, [], Ceilings.default, 0, 100, none⟩

def soleContext : IssueContext := ⟨⟨1⟩, ⟨1⟩, ⟨7⟩⟩

theorem soleView_issues : Issues soleView soleContext 1 soleGrant [soleGrant] where
  found := rfl
  id_eq := rfl
  holder := rfl
  linked := .root rfl rfl
  usable := List.forall_mem_singleton.mpr ⟨rfl, by decide, by decide⟩

end Sample

namespace Sample

/-- The sole grant with a ceiling on fetches, of which two are used, and one domain. -/
def metered : Grant :=
  { soleGrant with
    targetScope := ⟨[⟨none, .subdomains (ascii "example.org"), none⟩]⟩
    ceilings := { Ceilings.default with fetches := some 5 } }

/-- A grant one link below it, narrower on every other axis, with this many fetches. -/
def metering (fetches : UInt64) : Grant :=
  { metered with
    id := ⟨7⟩
    capabilities := {.read}
    auditScope := .ownAndOwnedSessions
    targetScope := ⟨[⟨some .https, .subdomains (ascii "docs.example.org"), none⟩]⟩
    ceilings := { Ceilings.default with fetches := some fetches }
    notBefore := 10
    expiresAt := 50
    parent := some ⟨1⟩
    depth := 1
    maxDepth := 2 }

end Sample

/-- Three of the five fetches are left: a grant for three narrows on every axis, and one for
four fails on the ceilings first. -/
theorem narrowing_exact_of_sole : Sample.soleView.LineagesEnd ∧
    (∀ axis, Satisfies Sample.soleView Sample.metered { Cost.zero with fetches := 2 }
      (Sample.metering 3) axis) ∧
    FirstFailing (Satisfies Sample.soleView Sample.metered { Cost.zero with fetches := 2 }
      (Sample.metering 4)) .ceilings := by
  have hlineages := Sample.soleView_wellFormed.lineages
  have hexact (fetches : UInt64) := narrowing_exact hlineages (fun _ => ⟨_, rfl⟩) Sample.metered
    (Sample.metering fetches) { Cost.zero with fetches := 2 }
    (show TargetScope.parse [ascii "https://*.docs.example.org"] = .ok _ from rfl) (by
      rintro p hp domain hdomain
      cases List.mem_singleton.mp hp
      cases hdomain
      decide)
  exact ⟨hlineages, (hexact 3).1.mp (by decide +kernel), ((hexact 4).2 _).mp (by decide +kernel)⟩

/-- The request asks for a capability the grant lacks, and the grant does not confer
`GrantIssue`; the refusal names the last axis although the first one fails. -/
theorem issue_names_later_axis :
    Issues Sample.soleView Sample.soleContext 1 Sample.soleGrant [Sample.soleGrant] ∧
    FirstFailing (RequestSatisfies Sample.soleView Sample.soleGrant [Sample.soleGrant] Cost.zero
      (Sample.soleRequest .capture)) .capabilities ∧
    checkIssue Sample.soleView Sample.soleContext (Sample.soleRequest .capture) 1 =
      .ok (.narrowing .issuerAuthority) := by
  refine ⟨Sample.soleView_issues, ⟨[], _, rfl, List.forall_mem_nil _, ?_⟩, rfl⟩
  simp only [RequestSatisfies]
  decide

/-- A request within the grant is refused for the authority alone. -/
theorem issue_names_first_axis_iff_orderly_of_sole :
    Orderly (RequestSatisfies Sample.soleView Sample.soleGrant [Sample.soleGrant] Cost.zero
      (Sample.soleRequest .read)) (Sample.soleRequest .read) ∧
    NamesFirstFailing (RequestSatisfies Sample.soleView Sample.soleGrant [Sample.soleGrant]
      Cost.zero (Sample.soleRequest .read))
      (checkIssue Sample.soleView Sample.soleContext (Sample.soleRequest .read) 1) := by
  have horderly : Orderly (RequestSatisfies Sample.soleView Sample.soleGrant [Sample.soleGrant]
      Cost.zero (Sample.soleRequest .read)) (Sample.soleRequest .read) := by
    refine ⟨fun _ axis hne => ?_, fun hnot => absurd rfl (hnot ⟨[]⟩)⟩
    cases axis with
    | capabilities => simp only [RequestSatisfies]; decide
    | auditScope => exact .inr rfl
    | sessionScope => exact .own rfl .refl
    | targetScope => exact ⟨⟨[]⟩, rfl, rfl⟩
    | ceilings =>
      intro d ceiling hceiling
      rw [show Sample.soleGrant.ceilings = Ceilings.default from rfl,
        Ceilings.get_default] at hceiling
      cases hceiling
    | expiry => simp only [RequestSatisfies]; decide
    | depth => simp only [RequestSatisfies]; decide
    | issuerAuthority => exact absurd rfl hne
  exact ⟨horderly, (issue_names_first_axis_iff_orderly Sample.soleView_issues
    Sample.soleView_wellFormed.lineages (fun _ => ⟨_, rfl⟩) rfl _).mpr horderly⟩

end Dioptron
