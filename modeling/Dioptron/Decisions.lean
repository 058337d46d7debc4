import Dioptron.Delegation

/-! # Authorization decisions

The decision on one call against its designated grant: the grant and its chain, the
capability on every link, the session, the target, and last the reservation against
every ledger the call debits.  `Allowed` collects what an allowed call satisfies, so
that no later proof unfolds the decision.
-/
namespace Dioptron

inductive SessionRequirement
  | required
  | optional
  | forbidden
  deriving DecidableEq, Repr

/-- How a capability relates to the session a call acts in. -/
def sessionRequirement : Capability → SessionRequirement
  | .auditQuery => .optional
  | .sessionCreate | .grantIssue | .grantRevoke => .forbidden
  | .sessionFork | .capture | .ingest | .read | .query => .required

/-- Whether this build serves the capability. -/
def isServed : Capability → Bool
  | .ingest => false
  | _ => true

/-- One call to authorize. -/
structure AuthzRequest where
  tenant : TenantId
  grant : GrantId
  capability : Capability
  target : Option Bytes
  session : Option SessionId
  declared : Cost
  deriving DecidableEq, Repr

/-- The authorization decision for one call. -/
inductive Decision
  | allowed (chain : List GrantId) (reservation : ReservationPlan)
  | denied (code : DenyCode)
  | budgetExceeded (dimension : Dimension)
  | notFoundOrDenied
  deriving DecidableEq, Repr

def Decision.refusal : Decision → Option Failure
  | allowed .. => none
  | denied code => some (.deniedFor code)
  | budgetExceeded dimension => some (.budgetExceeded dimension)
  | notFoundOrDenied => some .notFoundOrDenied

/-- The designated grant, its chain's validity, and the capability on every link:
the chain, leaf first, or the refusal. -/
def designatedChain (view : Snapshot) (tenant : TenantId) (grant : GrantId)
    (capability : Capability) (now : Timestamp) :
    Except AuthzError (Except Decision (List Grant)) := do
  match ← view.grant grant with
  | none => return .error .notFoundOrDenied
  | some leaf =>
    if leaf.id = grant ∧ leaf.holder = tenant then
      match ← checkChain view leaf now with
      | .invalid code _ => return .error (.denied code)
      | .valid chain =>
        if chain.all fun link => decide (capability ∈ link.capabilities) then
          return .ok chain
        else
          return .error (.denied .capabilityNotGranted)
    else
      return .error .notFoundOrDenied

/-- Whether one link's session scope admits `session`, owned by `owner`. -/
def linkAdmits (view : Snapshot) (owner : TenantId) (session : SessionId) (link : Grant) :
    Except AuthzError Bool :=
  match link.sessionScope with
  | .own => inLineage view owner link.holder
  | .sessions ids => .ok (ids.contains session)

/-- Whether every link admits the session, stopping at the first that does not. -/
def linksAdmit (view : Snapshot) (owner : TenantId) (session : SessionId) :
    List Grant → Except AuthzError Bool
  | [] => .ok true
  | link :: rest => do
    if ← linkAdmits view owner session link then linksAdmit view owner session rest
    else return false

/-- Checks `session` against every link; its owner when admitted. -/
def checkSession (view : Snapshot) (tenant : TenantId) (chain : List Grant)
    (session : SessionId) : Except AuthzError (Except Decision TenantId) := do
  match ← view.sessionOwner session with
  | none => return .error .notFoundOrDenied
  | some owner =>
    if ← linksAdmit view owner session chain then return .ok owner
    else if owner = tenant then return .error (.denied .scopeViolation)
    else return .error .notFoundOrDenied

/-- Whether the target, required for `Capture`, is inside every link's scope. -/
def targetAdmitted (chain : List Grant) (capability : Capability) : Option Bytes → Bool
  | none => capability != .capture
  | some target =>
    match Origin.parse target with
    | .ok origin => chain.all fun link => link.targetScope.matches_ origin
    | .error _ => false

/-- The ledger states of the chain's grants. -/
def grantLedgers (view : Snapshot) (tenant : TenantId) :
    List Grant → Except AuthzError (List LedgerState)
  | [] => .ok []
  | link :: rest => do
    let used ← view.used (.grant link.id)
    return ⟨.grant link.id, link.ceilings, used, decide (link.holder = tenant)⟩ ::
      (← grantLedgers view tenant rest)

/-- The ledger state of the session, when the call names one. -/
def sessionLedgers (view : Snapshot) (tenant : TenantId) :
    Option (SessionId × TenantId) → Except AuthzError (List LedgerState)
  | none => .ok []
  | some (session, owner) => do
    let ceilings ← view.sessionCeilings session
    let used ← view.used (.session session)
    return [⟨.session session, ceilings, used, decide (owner = tenant)⟩]

/-- Every ledger the call debits: each chain grant, the session, the tenant. -/
def ledgerStates (view : Snapshot) (tenant : TenantId) (chain : List Grant)
    (session : Option (SessionId × TenantId)) : Except AuthzError (List LedgerState) := do
  let grants ← grantLedgers view tenant chain
  let sessions ← sessionLedgers view tenant session
  let ceilings ← view.tenantCeilings tenant
  let used ← view.used (.tenant tenant)
  return grants ++ sessions ++ [⟨.tenant tenant, ceilings, used, true⟩]

/-- Plans the reservation of `declared` against every ledger the call debits. -/
def reserveFor (view : Snapshot) (tenant : TenantId) (chain : List Grant)
    (session : Option (SessionId × TenantId)) (declared : Cost) :
    Except AuthzError Decision := do
  let ledgers ← ledgerStates view tenant chain session
  match ← planReservation ledgers declared with
  | .fits reservation => return .allowed (chain.map Grant.id) reservation
  | .exceeded (.own _ dimension) => return .budgetExceeded dimension
  | .exceeded .upstream => return .denied .budgetUnavailable

/-- The part of `authorize` that finds the session the call acts in. -/
def sessionFor (view : Snapshot) (request : AuthzRequest) (chain : List Grant) :
    Except AuthzError (Except Decision (Option (SessionId × TenantId))) :=
  match request.session with
  | some session => do
    match ← checkSession view request.tenant chain session with
    | .ok owner => return .ok (some (session, owner))
    | .error refusal => return .error refusal
  | none =>
    if sessionRequirement request.capability = .required then
      .ok (.error (.denied .sessionRequired))
    else
      .ok (.ok none)

/-- Decides one call against the designated grant's chain at `now`. -/
def authorize (view : Snapshot) (request : AuthzRequest) (now : Timestamp) :
    Except AuthzError Decision := do
  ensure (¬ (request.session.isSome ∧ sessionRequirement request.capability = .forbidden))
    (.sessionNotApplicable request.capability)
  match ← designatedChain view request.tenant request.grant request.capability now with
  | .error refusal => return refusal
  | .ok chain =>
    if isServed request.capability then
      match ← sessionFor view request chain with
      | .error refusal => return refusal
      | .ok session =>
        if targetAdmitted chain request.capability request.target then
          reserveFor view request.tenant chain session request.declared
        else
          return .denied .scopeViolation
    else
      return .denied .notSupported

/-- The session with its owner, when `tenant` owns it. -/
def ownedSession (view : Snapshot) (tenant : TenantId) :
    Option SessionId → Except AuthzError (Option (SessionId × TenantId))
  | none => .ok none
  | some session => do
    match ← view.sessionOwner session with
    | some owner => return if owner = tenant then some (session, owner) else none
    | none => return none

/-- The remaining ceilings across the ledgers `tenant` owns among those a call
under `chain` in `session` debits. -/
def callerRemaining (view : Snapshot) (tenant : TenantId) (chain : List Grant)
    (session : Option SessionId) : Except AuthzError Ceilings := do
  let owned ← ownedSession view tenant session
  return ownRemaining (← ledgerStates view tenant chain owned)

/-! ## Revocation -/

/-- The most grants the subtree walk visits. -/
def subtreeWalkLimit : Nat := 256

/-- Whether `target` is `root` or reaches it through parent links within the turns
left; a missing grant or a root reached first ends the walk outside. -/
def walkSubtree (view : Snapshot) (root : GrantId) : Nat → GrantId → Except AuthzError Bool
  | 0, _ => .ok false
  | turns + 1, current =>
    if current = root then .ok true
    else do
      match ← view.grant current with
      | none => return false
      | some grant =>
        if grant.id = current then
          match grant.parent with
          | some parent => walkSubtree view root turns parent
          | none => return false
        else
          return false

def inSubtree (view : Snapshot) (root target : GrantId) : Except AuthzError Bool :=
  walkSubtree view root subtreeWalkLimit target

inductive RevokeDecision
  | revoke (target : GrantId)
  | alreadyRevoked (record : Revocation)
  | denied (code : DenyCode)
  | notFoundOrDenied
  deriving DecidableEq, Repr

def RevokeDecision.refusal : RevokeDecision → Option Failure
  | revoke _ | alreadyRevoked _ => none
  | denied code => some (.deniedFor code)
  | notFoundOrDenied => some .notFoundOrDenied

/-- Decides whether `tenant`, acting under `designated`, may revoke `target`. -/
def checkRevoke (view : Snapshot) (tenant : TenantId) (designated target : GrantId)
    (now : Timestamp) : Except AuthzError RevokeDecision := do
  match ← designatedChain view tenant designated .grantRevoke now with
  | .error (.denied code) => return .denied code
  | .error _ => return .notFoundOrDenied
  | .ok _ =>
    if ← inSubtree view designated target then
      match ← view.revocation target with
      | some record => return .alreadyRevoked record
      | none => return .revoke target
    else
      return .notFoundOrDenied

/-! ## What an allowed call satisfies -/

variable {view : Snapshot} {now : Timestamp} {chain : List Grant}

/-- The designated grant exists, its holder is the caller, and `chain` is its chain
with every link usable now and conferring the capability. -/
structure Designated (view : Snapshot) (tenant : TenantId) (grant : GrantId)
    (capability : Capability) (now : Timestamp) (chain : List Grant) : Prop where
  exists_leaf : ∃ leaf, view.grant grant = .ok (some leaf) ∧ leaf.id = grant ∧
    leaf.holder = tenant ∧ Linked view leaf chain
  usable : ∀ link ∈ chain, Usable view now link
  confers : ∀ link ∈ chain, capability ∈ link.capabilities

theorem designatedChain_eq_ok {tenant : TenantId} {grant : GrantId} {capability : Capability} :
    designatedChain view tenant grant capability now = .ok (.ok chain) ↔
      Designated view tenant grant capability now chain := by
  unfold designatedChain
  rw [bind_eq_ok]
  constructor
  · rintro ⟨found, hfound, h⟩
    cases found with
    | none => cases h
    | some leaf =>
      dsimp only at h
      split_ifs at h with hheld
      · obtain ⟨status, hstatus, h⟩ := bind_eq_ok.mp h
        cases status with
        | invalid => cases h
        | valid =>
          dsimp only at h
          split_ifs at h with hcap
          · cases h
            obtain ⟨hlinked, husable⟩ := checkChain_valid.mp hstatus
            exact ⟨⟨leaf, hfound, hheld.1, hheld.2, hlinked⟩, husable,
              fun link hlink => of_decide_eq_true (List.all_eq_true.mp hcap link hlink)⟩
          · cases h
      · cases h
  · rintro ⟨⟨leaf, hfound, hid, hholder, hlinked⟩, husable, hconfers⟩
    refine ⟨some leaf, hfound, ?_⟩
    dsimp only
    rw [if_pos ⟨hid, hholder⟩, checkChain_valid.mpr ⟨hlinked, husable⟩]
    dsimp only [bind, Except.bind]
    rw [if_pos (List.all_eq_true.mpr fun link hlink => decide_eq_true (hconfers link hlink))]
    rfl

theorem Designated.ids_nodup {tenant : TenantId} {grant : GrantId} {capability : Capability}
    (h : Designated view tenant grant capability now chain) : (chain.map Grant.id).Nodup := by
  obtain ⟨leaf, hfound, hid, -, hlinked⟩ := h.exists_leaf
  exact hlinked.ids_nodup (by rw [hid]; exact hfound)

/-- The session ledger of a call, when it names a session. -/
def sessionLedger : Option (SessionId × TenantId) → List LedgerId
  | none => []
  | some (session, _) => [.session session]

/-- The ledgers of a chain without repeated grants, a session and a tenant are distinct. -/
theorem debited_nodup (h : (chain.map Grant.id).Nodup) (session : Option (SessionId × TenantId))
    (tenant : TenantId) :
    (chain.map (LedgerId.grant ∘ Grant.id) ++ sessionLedger session ++
      [LedgerId.tenant tenant]).Nodup := by
  rw [List.nodup_append, List.nodup_append]
  refine ⟨⟨?_, ?_, ?_⟩, List.nodup_singleton _, ?_⟩
  · rw [← List.map_map]
    exact h.map fun _ _ heq => by cases heq; rfl
  · rcases session with _ | ⟨id, owner⟩
    · exact List.nodup_nil
    · exact List.nodup_singleton _
  · intro x hx y hy
    obtain ⟨link, -, rfl⟩ := List.mem_map.mp hx
    rcases session with _ | ⟨id, owner⟩
    · cases hy
    · rw [List.mem_singleton.mp hy]
      exact nofun
  · intro x hx y hy
    rw [List.mem_singleton.mp hy]
    rcases List.mem_append.mp hx with hx | hx
    · obtain ⟨link, -, rfl⟩ := List.mem_map.mp hx
      exact nofun
    · rcases session with _ | ⟨id, owner⟩
      · cases hx
      · rw [List.mem_singleton.mp hx]
        exact nofun

/-- `ledger` is the state `view` holds for one of the ledgers a call debits. -/
inductive LedgerOf (view : Snapshot) (tenant : TenantId) (chain : List Grant)
    (session : Option (SessionId × TenantId)) : LedgerState → Prop
  | grant {link : Grant} {used : Cost} (hlink : link ∈ chain)
      (hused : view.used (.grant link.id) = .ok used) :
      LedgerOf view tenant chain session
        ⟨.grant link.id, link.ceilings, used, decide (link.holder = tenant)⟩
  | session {id : SessionId} {owner : TenantId} {ceilings : Ceilings} {used : Cost}
      (hsession : session = some (id, owner)) (hceilings : view.sessionCeilings id = .ok ceilings)
      (hused : view.used (.session id) = .ok used) :
      LedgerOf view tenant chain session ⟨.session id, ceilings, used, decide (owner = tenant)⟩
  | tenant {ceilings : Ceilings} {used : Cost}
      (hceilings : view.tenantCeilings tenant = .ok ceilings)
      (hused : view.used (.tenant tenant) = .ok used) :
      LedgerOf view tenant chain session ⟨.tenant tenant, ceilings, used, true⟩

theorem grantLedgers_ids {tenant : TenantId} {ledgers : List LedgerState}
    (h : grantLedgers view tenant chain = .ok ledgers) :
    ledgers.map LedgerState.id = chain.map (LedgerId.grant ∘ Grant.id) ∧
      ∀ ledger ∈ ledgers, ∃ link ∈ chain, ∃ used, view.used (.grant link.id) = .ok used ∧
        ledger = ⟨.grant link.id, link.ceilings, used, decide (link.holder = tenant)⟩ := by
  induction chain generalizing ledgers with
  | nil =>
    cases h
    simp
  | cons link _ ih =>
    rw [grantLedgers, bind_eq_ok] at h
    obtain ⟨used, hused, h⟩ := h
    obtain ⟨tail, htail, h⟩ := bind_eq_ok.mp h
    cases h
    obtain ⟨hids, hall⟩ := ih htail
    refine ⟨by simp [hids], ?_⟩
    intro ledger hledger
    rcases List.mem_cons.mp hledger with rfl | hledger
    · exact ⟨link, List.mem_cons_self .., used, hused, rfl⟩
    · obtain ⟨l, hl, hrest⟩ := hall ledger hledger
      exact ⟨l, List.mem_cons_of_mem _ hl, hrest⟩

/-- The ledgers a call debits, in order, each with the state the view holds. -/
theorem ledgerStates_spec {tenant : TenantId} {session : Option (SessionId × TenantId)}
    {ledgers : List LedgerState} (h : ledgerStates view tenant chain session = .ok ledgers) :
    ledgers.map LedgerState.id =
      chain.map (LedgerId.grant ∘ Grant.id) ++ sessionLedger session ++ [.tenant tenant] ∧
      ∀ ledger ∈ ledgers, LedgerOf view tenant chain session ledger := by
  unfold ledgerStates at h
  obtain ⟨grants, hgrants, h⟩ := bind_eq_ok.mp h
  obtain ⟨sessions, hsessions, h⟩ := bind_eq_ok.mp h
  obtain ⟨ceilings, hceilings, h⟩ := bind_eq_ok.mp h
  obtain ⟨used, hused, h⟩ := bind_eq_ok.mp h
  cases h
  obtain ⟨hids, hall⟩ := grantLedgers_ids hgrants
  have hsess : sessions.map LedgerState.id = sessionLedger session ∧
      ∀ ledger ∈ sessions, LedgerOf view tenant chain session ledger := by
    rcases session with _ | ⟨id, owner⟩
    · cases hsessions
      simp [sessionLedger]
    · obtain ⟨sceil, hsceil, hsessions⟩ := bind_eq_ok.mp hsessions
      obtain ⟨sused, hsused, hsessions⟩ := bind_eq_ok.mp hsessions
      cases hsessions
      refine ⟨rfl, ?_⟩
      intro ledger hledger
      rw [List.mem_singleton] at hledger
      subst hledger
      exact .session rfl hsceil hsused
  refine ⟨by simp [hids, hsess.1], ?_⟩
  intro ledger hledger
  rcases List.mem_append.mp hledger with hledger | hledger
  · rcases List.mem_append.mp hledger with hledger | hledger
    · obtain ⟨link, hlink, used', hused', rfl⟩ := hall ledger hledger
      exact .grant hlink hused'
    · exact hsess.2 ledger hledger
  · rw [List.mem_singleton] at hledger
    subst hledger
    exact .tenant hceilings hused

/-- Everything an allowed call satisfies on the snapshot it was decided on. -/
structure Allowed (view : Snapshot) (request : AuthzRequest) (now : Timestamp)
    (chain : List Grant) (session : Option (SessionId × TenantId)) (ids : List GrantId)
    (reservation : ReservationPlan) : Prop where
  designated : Designated view request.tenant request.grant request.capability now chain
  ids_eq : ids = chain.map Grant.id
  cost_eq : reservation.cost = request.declared
  ledgers_eq : reservation.ledgers =
    chain.map (LedgerId.grant ∘ Grant.id) ++ sessionLedger session ++ [.tenant request.tenant]
  session_eq : session.map Prod.fst = request.session
  owner : ∀ id owner, session = some (id, owner) → view.sessionOwner id = .ok (some owner)
  covers : ∃ ledgers : List LedgerState, ledgers.map LedgerState.id = reservation.ledgers ∧
    ∀ ledger ∈ ledgers, LedgerOf view request.tenant chain session ledger ∧
      ledger.Covers request.declared

theorem sessionFor_eq_ok {request : AuthzRequest} {session : Option (SessionId × TenantId)}
    (h : sessionFor view request chain = .ok (.ok session)) :
    session.map Prod.fst = request.session ∧
      ∀ id owner, session = some (id, owner) → view.sessionOwner id = .ok (some owner) := by
  unfold sessionFor at h
  cases hsession : request.session with
  | none =>
    simp only [hsession] at h
    split_ifs at h with hreq
    · cases h
    · cases h
      simp
  | some =>
    simp only [hsession, bind_eq_ok] at h
    obtain ⟨checked, hchecked, h⟩ := h
    cases checked with
    | error => cases h
    | ok =>
      cases h
      refine ⟨rfl, ?_⟩
      rintro _ _ ⟨⟩
      unfold checkSession at hchecked
      obtain ⟨found, hfound, hchecked⟩ := bind_eq_ok.mp hchecked
      cases found with
      | none => cases hchecked
      | some owner' =>
        obtain ⟨admitted, -, hchecked⟩ := bind_eq_ok.mp hchecked
        cases admitted with
        | false =>
          by_cases hown : owner' = request.tenant <;>
            simp [hown, pure, Except.pure] at hchecked
        | true =>
          cases hchecked
          exact hfound

/-- A refusal on the way to the reservation names no dimension. -/
theorem designatedChain_refusal {tenant : TenantId} {grant : GrantId} {capability : Capability}
    {refusal : Decision}
    (h : designatedChain view tenant grant capability now = .ok (.error refusal)) :
    refusal = .notFoundOrDenied ∨ ∃ code, refusal = .denied code := by
  unfold designatedChain at h
  obtain ⟨found, -, h⟩ := bind_eq_ok.mp h
  cases found with
  | none =>
    cases h
    exact .inl rfl
  | some =>
    dsimp only at h
    split_ifs at h with hheld
    · obtain ⟨status, -, h⟩ := bind_eq_ok.mp h
      cases status with
      | invalid code =>
        cases h
        exact .inr ⟨code, rfl⟩
      | valid =>
        dsimp only at h
        split_ifs at h <;> cases h
        exact .inr ⟨_, rfl⟩
    · cases h
      exact .inl rfl

theorem sessionFor_refusal {request : AuthzRequest} {refusal : Decision}
    (h : sessionFor view request chain = .ok (.error refusal)) :
    refusal = .notFoundOrDenied ∨ ∃ code, refusal = .denied code := by
  unfold sessionFor at h
  cases hsession : request.session with
  | none =>
    simp only [hsession] at h
    split_ifs at h <;> cases h
    exact .inr ⟨_, rfl⟩
  | some =>
    simp only [hsession, bind_eq_ok] at h
    obtain ⟨checked, hchecked, h⟩ := h
    cases checked with
    | ok => cases h
    | error =>
      cases h
      unfold checkSession at hchecked
      obtain ⟨found, -, hchecked⟩ := bind_eq_ok.mp hchecked
      cases found with
      | none =>
        cases hchecked
        exact .inl rfl
      | some =>
        obtain ⟨admitted, -, hchecked⟩ := bind_eq_ok.mp hchecked
        split_ifs at hchecked <;> cases hchecked
        · exact .inr ⟨_, rfl⟩
        · exact .inl rfl

/-- A decision that is no such refusal is that of the reservation. -/
theorem authorize_reserves {request : AuthzRequest} {decision : Decision}
    (h : authorize view request now = .ok decision)
    (hdecision : ¬ (decision = .notFoundOrDenied ∨ ∃ code, decision = .denied code)) :
    ∃ chain session, Designated view request.tenant request.grant request.capability now chain ∧
      session.map Prod.fst = request.session ∧
      (∀ id owner, session = some (id, owner) → view.sessionOwner id = .ok (some owner)) ∧
      reserveFor view request.tenant chain session request.declared = .ok decision := by
  unfold authorize at h
  obtain ⟨-, -, h⟩ := bind_eq_ok.mp h
  obtain ⟨designated, hdesignated, h⟩ := bind_eq_ok.mp h
  cases designated with
  | error =>
    cases h
    exact absurd (designatedChain_refusal hdesignated) hdecision
  | ok chain =>
    by_cases hserved : isServed request.capability = true
    · simp only [hserved, if_true, bind_eq_ok] at h
      obtain ⟨found, hfound, h⟩ := h
      cases found with
      | error =>
        cases h
        exact absurd (sessionFor_refusal hfound) hdecision
      | ok session =>
        dsimp only at h
        split_ifs at h with htarget
        · obtain ⟨hsession, howner⟩ := sessionFor_eq_ok hfound
          exact ⟨chain, session, designatedChain_eq_ok.mp hdesignated, hsession, howner, h⟩
        · cases h
          exact absurd (.inr ⟨_, rfl⟩) hdecision
    · simp only [hserved, Bool.false_eq_true, if_false] at h
      cases h
      exact absurd (.inr ⟨_, rfl⟩) hdecision

/-- **What an allowed call satisfies.** -/
theorem authorize_allowed {request : AuthzRequest} {ids : List GrantId}
    {reservation : ReservationPlan}
    (h : authorize view request now = .ok (.allowed ids reservation)) :
    ∃ chain session, Allowed view request now chain session ids reservation := by
  obtain ⟨chain, session, hdesignated, hsession, howner, h⟩ := authorize_reserves h (by simp)
  simp only [reserveFor, bind_eq_ok] at h
  obtain ⟨ledgers, hledgers, check, hcheck, h⟩ := h
  obtain ⟨hids, hall⟩ := ledgerStates_spec hledgers
  rcases check with plan | (_ | _) <;> cases h
  obtain ⟨rfl, hcovers⟩ := planReservation_fits.mp hcheck
  exact ⟨chain, session, {
    designated := hdesignated
    ids_eq := rfl
    cost_eq := rfl
    ledgers_eq := hids
    session_eq := hsession
    owner := howner
    covers := ⟨ledgers, rfl, fun ledger hledger =>
      ⟨hall ledger hledger, hcovers ledger hledger⟩⟩ }⟩

end Dioptron
