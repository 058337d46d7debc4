import Dioptron.Lineages
import Dioptron.Shortfalls
import Dioptron.Walks

/-! # The authorization policy

What a call is entitled to, stated without the order in which the code reads: the grant is
held, its chain is a usable path that confers a served capability, the session is admitted
by every link, the target too, and every ledger has room.  `Verdict` gives the answer to
each request by the first of these that fails; `authorize` gives that answer and no other.
-/
namespace Dioptron

variable {view : Snapshot} {request : AuthzRequest} {now : Timestamp} {chain : List Grant}
  {ledgers : List LedgerState}

/-! ## Views -/

/-- Every read of the view is answered. -/
structure Snapshot.Answers (view : Snapshot) : Prop where
  grant : ∀ id, ∃ found, view.grant id = .ok found
  revocation : ∀ id, ∃ found, view.revocation id = .ok found
  sessionOwner : ∀ id, ∃ found, view.sessionOwner id = .ok found
  used : ∀ id, ∃ cost, view.used id = .ok cost
  sessionCeilings : ∀ id, ∃ ceilings, view.sessionCeilings id = .ok ceilings
  tenantCeilings : ∀ id, ∃ ceilings, view.tenantCeilings id = .ok ceilings

/-- Every grant of the view has a chain, and every lineage ends within the walk's limit. -/
structure Snapshot.WellFormed (view : Snapshot) : Prop extends view.Answers where
  chains : ∀ id g, view.grant id = .ok (some g) → ∃ chain, Linked view g chain
  lineages : view.LineagesEnd

/-! ## The conditions -/

/-- The caller holds the designated grant. -/
def Held (view : Snapshot) (request : AuthzRequest) (leaf : Grant) : Prop :=
  view.grant request.grant = .ok (some leaf) ∧ leaf.id = request.grant ∧
    leaf.holder = request.tenant

/-- The session the call acts in: none where none is needed, or one that exists and that
every link admits. -/
inductive ActsIn (view : Snapshot) (request : AuthzRequest) (chain : List Grant) :
    Option (SessionId × TenantId) → Prop
  | none (hsession : request.session = none)
      (hrequirement : sessionRequirement request.capability ≠ .required) :
      ActsIn view request chain none
  | some {id : SessionId} {owner : TenantId} (hsession : request.session = some id)
      (howner : view.sessionOwner id = .ok (some owner))
      (hadmits : ∀ link ∈ chain, Admits view owner id link) :
      ActsIn view request chain (some (id, owner))

/-- A named target has an origin that every link admits, and a capture names one. -/
def TargetAdmitted (chain : List Grant) (request : AuthzRequest) : Prop :=
  match request.target with
  | none => request.capability ≠ .capture
  | some target => ∃ origin, Origin.parse target = .ok origin ∧
      ∀ link ∈ chain, link.targetScope.matches_ origin = true

/-- The ledgers a call debits, in order, as the view holds them: each grant of the chain,
the session, the tenant. -/
inductive Debits (view : Snapshot) (tenant : TenantId) :
    List Grant → Option (SessionId × TenantId) → List LedgerState → Prop
  | tenant {ceilings : Ceilings} {used : Cost}
      (hceilings : view.tenantCeilings tenant = .ok ceilings)
      (hused : view.used (.tenant tenant) = .ok used) :
      Debits view tenant [] none [⟨.tenant tenant, ceilings, used, true⟩]
  | session {id : SessionId} {owner : TenantId} {ceilings : Ceilings} {used : Cost}
      {rest : List LedgerState} (hceilings : view.sessionCeilings id = .ok ceilings)
      (hused : view.used (.session id) = .ok used) (h : Debits view tenant [] none rest) :
      Debits view tenant [] (some (id, owner))
        (⟨.session id, ceilings, used, decide (owner = tenant)⟩ :: rest)
  | grant {link : Grant} {chain : List Grant} {session : Option (SessionId × TenantId)}
      {used : Cost} {rest : List LedgerState} (hused : view.used (.grant link.id) = .ok used)
      (h : Debits view tenant chain session rest) :
      Debits view tenant (link :: chain) session
        (⟨.grant link.id, link.ceilings, used, decide (link.holder = tenant)⟩ :: rest)

/-- The call may name the session it names. -/
def Applies (request : AuthzRequest) : Prop :=
  request.session.isSome → sessionRequirement request.capability ≠ .forbidden

/-- Every condition but the ledgers'. -/
structure Entitled (view : Snapshot) (request : AuthzRequest) (now : Timestamp)
    (chain : List Grant) (session : Option (SessionId × TenantId)) : Prop where
  applies : Applies request
  designated : Designated view request.tenant request.grant request.capability now chain
  served : isServed request.capability = true
  session : ActsIn view request chain session
  target : TargetAdmitted chain request

/-- The answer to a request: the refusal of the first condition that fails, or the
allowance.  A shortfall of an own ledger comes before any other. -/
inductive Verdict (view : Snapshot) (request : AuthzRequest) (now : Timestamp) :
    Except AuthzError Decision → Prop
  | notApplicable (happlies : ¬ Applies request) :
      Verdict view request now (.error (.sessionNotApplicable request.capability))
  | unheld (happlies : Applies request) (hheld : ∀ leaf, ¬ Held view request leaf) :
      Verdict view request now (.ok .notFoundOrDenied)
  | unusable {leaf link : Grant} {pre post : List Grant} {code : DenyCode}
      (happlies : Applies request) (hheld : Held view request leaf)
      (hchain : Linked view leaf (pre ++ link :: post)) (hpre : ∀ l ∈ pre, Usable view now l)
      (hlink : Unusable view now link code) : Verdict view request now (.ok (.denied code))
  | notConferred {leaf : Grant} {chain : List Grant} (happlies : Applies request)
      (hheld : Held view request leaf) (hchain : Linked view leaf chain)
      (husable : ∀ link ∈ chain, Usable view now link)
      (hconfers : ∃ link ∈ chain, request.capability ∉ link.capabilities) :
      Verdict view request now (.ok (.denied .capabilityNotGranted))
  | notServed {chain : List Grant} (happlies : Applies request)
      (hdesignated : Designated view request.tenant request.grant request.capability now chain)
      (hserved : isServed request.capability = false) :
      Verdict view request now (.ok (.denied .notSupported))
  | sessionRequired {chain : List Grant} (happlies : Applies request)
      (hdesignated : Designated view request.tenant request.grant request.capability now chain)
      (hserved : isServed request.capability = true) (hsession : request.session = none)
      (hrequirement : sessionRequirement request.capability = .required) :
      Verdict view request now (.ok (.denied .sessionRequired))
  | sessionMissing {chain : List Grant} {id : SessionId} (happlies : Applies request)
      (hdesignated : Designated view request.tenant request.grant request.capability now chain)
      (hserved : isServed request.capability = true) (hsession : request.session = some id)
      (howner : view.sessionOwner id = .ok none) :
      Verdict view request now (.ok .notFoundOrDenied)
  | sessionOutside {chain : List Grant} {id : SessionId} {owner : TenantId}
      (happlies : Applies request)
      (hdesignated : Designated view request.tenant request.grant request.capability now chain)
      (hserved : isServed request.capability = true) (hsession : request.session = some id)
      (howner : view.sessionOwner id = .ok (some owner))
      (hadmits : ¬ ∀ link ∈ chain, Admits view owner id link) :
      Verdict view request now
        (.ok (if owner = request.tenant then .denied .scopeViolation else .notFoundOrDenied))
  | targetOutside {chain : List Grant} {session : Option (SessionId × TenantId)}
      (happlies : Applies request)
      (hdesignated : Designated view request.tenant request.grant request.capability now chain)
      (hserved : isServed request.capability = true) (hsession : ActsIn view request chain session)
      (htarget : ¬ TargetAdmitted chain request) :
      Verdict view request now (.ok (.denied .scopeViolation))
  | overflow {chain : List Grant} {session : Option (SessionId × TenantId)}
      {ledgers : List LedgerState} {pre post : List (LedgerState × Dimension)}
      {v : LedgerState × Dimension} (hentitled : Entitled view request now chain session)
      (hledgers : Debits view request.tenant chain session ledgers)
      (hvisits : visits ledgers = pre ++ v :: post)
      (hpre : ∀ u ∈ pre, ¬ u.1.Overflows request.declared u.2)
      (hover : v.1.Overflows request.declared v.2) :
      Verdict view request now (.error (.ledgerOverflow v.2))
  | ownShort {chain : List Grant} {session : Option (SessionId × TenantId)}
      {ledgers : List LedgerState} {pre post : List (LedgerState × Dimension)}
      {v : LedgerState × Dimension} (hentitled : Entitled view request now chain session)
      (hledgers : Debits view request.tenant chain session ledgers)
      (hroom : ∀ ledger ∈ ledgers, ∀ d, ¬ ledger.Overflows request.declared d)
      (hvisits : visits ledgers = pre ++ v :: post)
      (hpre : ∀ u ∈ pre, u.1.own = true → ¬ u.1.Short request.declared u.2)
      (hown : v.1.own = true) (hshort : v.1.Short request.declared v.2) :
      Verdict view request now (.ok (.budgetExceeded v.2))
  | upstreamShort {chain : List Grant} {session : Option (SessionId × TenantId)}
      {ledgers : List LedgerState} (hentitled : Entitled view request now chain session)
      (hledgers : Debits view request.tenant chain session ledgers)
      (hroom : ∀ ledger ∈ ledgers, ∀ d, ¬ ledger.Overflows request.declared d)
      (hown : ∀ ledger ∈ ledgers, ledger.own = true → ∀ d, ¬ ledger.Short request.declared d)
      (hshort : ∃ ledger ∈ ledgers, ∃ d, ledger.Short request.declared d) :
      Verdict view request now (.ok (.denied .budgetUnavailable))
  | allowed {chain : List Grant} {session : Option (SessionId × TenantId)}
      {ledgers : List LedgerState} (hentitled : Entitled view request now chain session)
      (hledgers : Debits view request.tenant chain session ledgers)
      (hroom : ∀ ledger ∈ ledgers, ∀ d, ¬ ledger.Overflows request.declared d)
      (hcovered : ∀ ledger ∈ ledgers, ∀ d, ¬ ledger.Short request.declared d) :
      Verdict view request now
        (.ok (.allowed (chain.map Grant.id) ⟨request.declared, ledgers.map LedgerState.id⟩))

/-! ## The reads -/

theorem debits_of_grantLedgers {tenant : TenantId} {session : Option (SessionId × TenantId)}
    {grants rest : List LedgerState} (h : grantLedgers view tenant chain = .ok grants)
    (hrest : Debits view tenant [] session rest) :
    Debits view tenant chain session (grants ++ rest) := by
  induction chain generalizing grants with
  | nil =>
    cases h
    exact hrest
  | cons _ _ ih =>
    rw [grantLedgers, bind_eq_ok] at h
    obtain ⟨used, hused, h⟩ := h
    obtain ⟨tail, htail, h⟩ := bind_eq_ok.mp h
    cases h
    exact .grant hused (ih htail)

/-- The ledgers the code collects are the ledgers the call debits. -/
theorem ledgerStates_eq_ok {tenant : TenantId} {session : Option (SessionId × TenantId)} :
    ledgerStates view tenant chain session = .ok ledgers ↔
      Debits view tenant chain session ledgers := by
  constructor
  · intro h
    unfold ledgerStates at h
    obtain ⟨grants, hgrants, h⟩ := bind_eq_ok.mp h
    obtain ⟨sessions, hsessions, h⟩ := bind_eq_ok.mp h
    obtain ⟨ceilings, hceilings, h⟩ := bind_eq_ok.mp h
    obtain ⟨used, hused, h⟩ := bind_eq_ok.mp h
    cases h
    rw [List.append_assoc]
    refine debits_of_grantLedgers hgrants ?_
    rcases session with _ | ⟨id, owner⟩
    · cases hsessions
      exact .tenant hceilings hused
    · obtain ⟨sceilings, hsceilings, hsessions⟩ := bind_eq_ok.mp hsessions
      obtain ⟨sused, hsused, hsessions⟩ := bind_eq_ok.mp hsessions
      cases hsessions
      exact .session hsceilings hsused (.tenant hceilings hused)
  · intro h
    induction h with
    | tenant hceilings hused =>
      simp [ledgerStates, grantLedgers, sessionLedgers, hceilings, hused, pure, Except.pure]
    | session hceilings hused h =>
      cases h with
      | tenant hceilings' hused' =>
        simp [ledgerStates, grantLedgers, sessionLedgers, hceilings, hused, hceilings', hused',
          pure, Except.pure]
    | grant hused _ ih =>
      unfold ledgerStates at ih ⊢
      obtain ⟨grants, hgrants, ih⟩ := bind_eq_ok.mp ih
      rw [grantLedgers, hused, ok_bind, hgrants, ok_bind]
      obtain ⟨sessions, hsessions, ih⟩ := bind_eq_ok.mp ih
      obtain ⟨ceilings, hceilings, ih⟩ := bind_eq_ok.mp ih
      obtain ⟨tused, htused, ih⟩ := bind_eq_ok.mp ih
      cases ih
      simp [hsessions, hceilings, htused, pure, Except.pure]

theorem Snapshot.Answers.exists_debits (h : view.Answers) (tenant : TenantId) (chain : List Grant)
    (session : Option (SessionId × TenantId)) :
    ∃ ledgers, Debits view tenant chain session ledgers := by
  induction chain with
  | nil =>
    obtain ⟨ceilings, hceilings⟩ := h.tenantCeilings tenant
    obtain ⟨used, hused⟩ := h.used (.tenant tenant)
    rcases session with _ | ⟨id, owner⟩
    · exact ⟨_, .tenant hceilings hused⟩
    · obtain ⟨sceilings, hsceilings⟩ := h.sessionCeilings id
      obtain ⟨sused, hsused⟩ := h.used (.session id)
      exact ⟨_, .session hsceilings hsused (.tenant hceilings hused)⟩
  | cons link _ ih =>
    obtain ⟨used, hused⟩ := h.used (.grant link.id)
    obtain ⟨rest, hrest⟩ := ih
    exact ⟨_, .grant hused hrest⟩

/-- What the designated chain comes to on a well-formed view. -/
theorem Snapshot.WellFormed.designatedChain (hview : view.WellFormed) (request : AuthzRequest)
    (now : Timestamp) (happlies : Applies request) :
    (∃ refusal, Dioptron.designatedChain view request.tenant request.grant request.capability now =
      .ok (.error refusal) ∧ Verdict view request now (.ok refusal)) ∨
    ∃ chain, Designated view request.tenant request.grant request.capability now chain := by
  obtain ⟨found, hfound⟩ := hview.grant request.grant
  unfold Dioptron.designatedChain
  simp only [hfound, ok_bind]
  cases found with
  | none =>
    refine .inl ⟨_, rfl, .unheld happlies fun leaf hheld => ?_⟩
    exact absurd (hfound.symm.trans hheld.1) nofun
  | some leaf =>
    by_cases hheld : leaf.id = request.grant ∧ leaf.holder = request.tenant
    · simp only [if_pos hheld]
      have hheld' : Held view request leaf := ⟨hfound, hheld.1, hheld.2⟩
      obtain ⟨chain, hchain⟩ := hview.chains _ leaf hfound
      obtain ⟨found, hscan⟩ : ∃ found, firstUnusable view now chain = .ok found :=
        exists_firstUnusable fun link _ => hview.revocation link.id
      cases found with
      | some bad =>
        obtain ⟨pre, link, post, rfl, hpre, hid, hbad⟩ := firstUnusable_eq_some.mp hscan
        refine .inl ⟨.denied bad.1, ?_, .unusable happlies hheld' hchain hpre hbad⟩
        rw [checkChain_invalid.mpr ⟨pre, link, post, hchain, hpre, hid, hbad⟩]
        rfl
      | none =>
        have husable := firstUnusable_eq_none.mp hscan
        by_cases hconfers : ∀ link ∈ chain, request.capability ∈ link.capabilities
        · exact .inr ⟨chain, ⟨leaf, hfound, hheld.1, hheld.2, hchain⟩, husable, hconfers⟩
        · refine .inl ⟨.denied .capabilityNotGranted, ?_, ?_⟩
          · rw [checkChain_valid.mpr ⟨hchain, husable⟩]
            have hall : (chain.all fun link => decide (request.capability ∈ link.capabilities)) =
                false := by
              simpa using hconfers
            simp only [ok_bind, hall, Bool.false_eq_true, if_false]
            rfl
          · simp only [not_forall] at hconfers
            obtain ⟨link, hlink, hnot⟩ := hconfers
            exact .notConferred happlies hheld' hchain husable ⟨link, hlink, hnot⟩
    · simp only [if_neg hheld]
      refine .inl ⟨_, rfl, .unheld happlies fun leaf' hheld' => hheld ?_⟩
      obtain rfl := Option.some.inj (Except.ok.inj (hfound.symm.trans hheld'.1))
      exact hheld'.2

/-- What the session check comes to on a well-formed view. -/
theorem Snapshot.WellFormed.sessionFor (hview : view.WellFormed) (happlies : Applies request)
    (hdesignated : Designated view request.tenant request.grant request.capability now chain)
    (hserved : isServed request.capability = true) :
    (∃ refusal, Dioptron.sessionFor view request chain = .ok (.error refusal) ∧
      Verdict view request now (.ok refusal)) ∨
    ∃ session, Dioptron.sessionFor view request chain = .ok (.ok session) ∧
      ActsIn view request chain session := by
  unfold Dioptron.sessionFor
  cases hsession : request.session with
  | none =>
    by_cases hrequirement : sessionRequirement request.capability = .required
    · simp only [if_pos hrequirement]
      exact .inl ⟨_, rfl, .sessionRequired happlies hdesignated hserved hsession hrequirement⟩
    · simp only [if_neg hrequirement]
      exact .inr ⟨_, rfl, .none hsession hrequirement⟩
  | some id =>
    obtain ⟨found, howner⟩ := hview.sessionOwner id
    simp only [checkSession, howner, ok_bind]
    cases found with
    | none => exact .inl ⟨_, rfl, .sessionMissing happlies hdesignated hserved hsession howner⟩
    | some owner =>
      obtain ⟨admitted, hentitled, hiff⟩ := hview.lineages.linksAdmit owner id chain
      simp only [hentitled, ok_bind]
      cases admitted with
      | true => exact .inr ⟨_, rfl, .some hsession howner (hiff.mp rfl)⟩
      | false =>
        refine .inl ⟨_, ?_, .sessionOutside happlies hdesignated hserved hsession howner
          fun hall => Bool.false_ne_true (hiff.mpr hall)⟩
        by_cases hown : owner = request.tenant
        · simp only [Bool.false_eq_true, if_false, if_pos hown]
          rfl
        · simp only [Bool.false_eq_true, if_false, if_neg hown]
          rfl

theorem targetAdmitted_iff :
    targetAdmitted chain request.capability request.target = true ↔
      TargetAdmitted chain request := by
  unfold targetAdmitted TargetAdmitted
  cases request.target with
  | none => simp
  | some target =>
    cases hparse : Origin.parse target with
    | error => simp [hparse]
    | ok => simp [hparse]

/-! ## The ledgers -/

theorem reserveFor_of_fits {session : Option (SessionId × TenantId)}
    (hledgers : Debits view request.tenant chain session ledgers)
    (hroom : ∀ ledger ∈ ledgers, ∀ d, ¬ ledger.Overflows request.declared d)
    (hcovered : ∀ ledger ∈ ledgers, ∀ d, ¬ ledger.Short request.declared d) :
    reserveFor view request.tenant chain session request.declared =
      .ok (.allowed (chain.map Grant.id) ⟨request.declared, ledgers.map LedgerState.id⟩) := by
  have hplan := planReservation_fits.mpr ⟨rfl, fun ledger hledger =>
    LedgerState.covers_iff.mpr fun d => ⟨hcovered ledger hledger d, hroom ledger hledger d⟩⟩
  rw [reserveFor, ledgerStates_eq_ok.mpr hledgers, ok_bind, hplan, ok_bind]
  rfl

/-- The reservation of an admitted call gives the verdict on its ledgers. -/
theorem Snapshot.Answers.reserveFor (hview : view.Answers)
    {session : Option (SessionId × TenantId)}
    (hentitled : Entitled view request now chain session) : Verdict view request now
      (Dioptron.reserveFor view request.tenant chain session request.declared) := by
  obtain ⟨ledgers, hledgers⟩ := hview.exists_debits request.tenant chain session
  by_cases hover : ∃ v ∈ visits ledgers, v.1.Overflows request.declared v.2
  · obtain ⟨pre, v, post, hvisits, hpre, hv⟩ := exists_first hover
    rw [Dioptron.reserveFor, ledgerStates_eq_ok.mpr hledgers, ok_bind,
      planReservation_overflow hvisits hpre hv]
    exact .overflow hentitled hledgers hvisits hpre hv
  · have hroom : ∀ ledger ∈ ledgers, ∀ d, ¬ ledger.Overflows request.declared d :=
      fun ledger hledger d hv => hover ⟨(ledger, d), mem_visits.mpr hledger, hv⟩
    by_cases hcovered : ∀ ledger ∈ ledgers, ∀ d, ¬ ledger.Short request.declared d
    · rw [reserveFor_of_fits hledgers hroom hcovered]
      exact .allowed hentitled hledgers hroom hcovered
    · rw [Dioptron.reserveFor, ledgerStates_eq_ok.mpr hledgers, ok_bind, planReservation_eq hroom,
        ok_bind]
      cases hfirst : (visits ledgers).find? (Dioptron.ownShort request.declared) with
      | some =>
        obtain ⟨hv, pre, post, hvisits, hpre⟩ := List.find?_eq_some_iff_append.mp hfirst
        simp only [Dioptron.ownShort, Bool.and_eq_true, decide_eq_true_eq] at hv
        refine .ownShort hentitled hledgers hroom hvisits (fun u hu hown hshort => ?_) hv.1 hv.2
        simpa [Dioptron.ownShort, hown, hshort] using hpre u hu
      | none =>
        have hown : ∀ ledger ∈ ledgers, ledger.own = true →
            ∀ d, ¬ ledger.Short request.declared d := by
          intro ledger hledger hown d hshort
          have hvisit := List.find?_eq_none.mp hfirst (ledger, d) (mem_visits.mpr hledger)
          simp [Dioptron.ownShort, hown, hshort] at hvisit
        simp only [not_forall, not_not] at hcovered
        obtain ⟨ledger, hledger, d, hshort⟩ := hcovered
        have hupstream : ledger.own = false := by
          cases howned : ledger.own with
          | true => exact absurd hshort (hown ledger hledger howned d)
          | false => rfl
        have hany : (visits ledgers).any (Dioptron.upstreamShort request.declared) = true :=
          List.any_eq_true.mpr ⟨(ledger, d), mem_visits.mpr hledger, by
            simp [Dioptron.upstreamShort, hupstream, hshort]⟩
        simp only [hany, if_true]
        exact .upstreamShort hentitled hledgers hroom hown ⟨ledger, hledger, d, hshort⟩

/-! ## The decision -/

theorem applies_iff : Applies request ↔ ¬ (request.session.isSome ∧
    sessionRequirement request.capability = .forbidden) :=
  not_and.symm

theorem authorize_of_not_applies (h : ¬ Applies request) :
    authorize view request now = .error (.sessionNotApplicable request.capability) := by
  rw [applies_iff] at h
  rw [authorize, ensure, if_neg h]
  rfl

section Stages
variable {chain : List Grant} {refusal : Decision} (happlies : Applies request)
include happlies

theorem authorize_of_refusal
    (h : designatedChain view request.tenant request.grant request.capability now =
      .ok (.error refusal)) : authorize view request now = .ok refusal := by
  rw [authorize, ensure_of_true (applies_iff.mp happlies), ok_bind, h]
  rfl

theorem authorize_of_notServed
    (h : Designated view request.tenant request.grant request.capability now chain)
    (hserved : isServed request.capability = false) :
    authorize view request now = .ok (.denied .notSupported) := by
  rw [authorize, ensure_of_true (applies_iff.mp happlies), ok_bind, designatedChain_eq_ok.mpr h,
    ok_bind, hserved]
  rfl

variable (h : Designated view request.tenant request.grant request.capability now chain)
  (hserved : isServed request.capability = true)
include h hserved

theorem authorize_of_sessionFor :
    authorize view request now = (do
      match ← sessionFor view request chain with
      | .error refusal => return refusal
      | .ok session =>
        if targetAdmitted chain request.capability request.target then
          reserveFor view request.tenant chain session request.declared
        else
          return .denied .scopeViolation) := by
  rw [authorize, ensure_of_true (applies_iff.mp happlies), ok_bind, designatedChain_eq_ok.mpr h,
    ok_bind, hserved]
  rfl

end Stages

/-- Every request gets the verdict of the policy. -/
theorem Snapshot.WellFormed.verdict (hview : view.WellFormed) (request : AuthzRequest)
    (now : Timestamp) : Verdict view request now (authorize view request now) := by
  by_cases happlies : Applies request
  · rcases hview.designatedChain request now happlies with
      ⟨refusal, hrefusal, hverdict⟩ | ⟨chain, hdesignated⟩
    · rw [authorize_of_refusal happlies hrefusal]
      exact hverdict
    · cases hserved : isServed request.capability with
      | false =>
        rw [authorize_of_notServed happlies hdesignated hserved]
        exact .notServed happlies hdesignated hserved
      | true =>
        rw [authorize_of_sessionFor happlies hdesignated hserved]
        rcases hview.sessionFor happlies hdesignated hserved with
          ⟨refusal, hrefusal, hverdict⟩ | ⟨session, hsession, hacts⟩
        · rw [hrefusal]
          exact hverdict
        · rw [hsession, ok_bind]
          by_cases htarget : TargetAdmitted chain request
          · simp only [targetAdmitted_iff.mpr htarget, if_true]
            exact hview.toAnswers.reserveFor ⟨happlies, hdesignated, hserved, hacts, htarget⟩
          · simp only [mt targetAdmitted_iff.mp htarget]
            exact .targetOutside happlies hdesignated hserved hacts htarget
  · rw [authorize_of_not_applies happlies]
    exact .notApplicable happlies

theorem sessionFor_of_actsIn (hview : view.LineagesEnd) {session : Option (SessionId × TenantId)}
    (h : ActsIn view request chain session) :
    sessionFor view request chain = .ok (.ok session) := by
  unfold sessionFor
  cases h with
  | none hsession hrequirement =>
    rw [hsession]
    exact if_neg hrequirement
  | some hsession howner hadmits =>
    obtain ⟨admitted, hlinks, hiff⟩ := hview.linksAdmit _ _ chain
    obtain rfl := hiff.mpr hadmits
    rw [hsession]
    simp only [checkSession, howner, ok_bind, hlinks, if_true]
    rfl

theorem authorize_of_entitled (hview : view.LineagesEnd) {session : Option (SessionId × TenantId)}
    (h : Entitled view request now chain session) :
    authorize view request now =
      reserveFor view request.tenant chain session request.declared := by
  rw [authorize_of_sessionFor h.applies h.designated h.served, sessionFor_of_actsIn hview h.session,
    ok_bind]
  simp only [targetAdmitted_iff.mpr h.target, if_true]

theorem designatedChain_of_held {leaf : Grant} (h : Held view request leaf) :
    designatedChain view request.tenant request.grant request.capability now = (do
      match ← checkChain view leaf now with
      | .invalid code _ => return .error (.denied code)
      | .valid chain =>
        if chain.all fun link => decide (request.capability ∈ link.capabilities) then
          return .ok chain
        else
          return .error (.denied .capabilityNotGranted)) := by
  rw [designatedChain, h.1, ok_bind]
  exact if_pos h.2

/-- The policy gives every request one verdict. -/
theorem Verdict.authorize_eq (hview : view.WellFormed) {r : Except AuthzError Decision}
    (h : Verdict view request now r) : authorize view request now = r := by
  cases h with
  | notApplicable happlies => exact authorize_of_not_applies happlies
  | unheld happlies hheld =>
    refine authorize_of_refusal happlies ?_
    obtain ⟨found, hfound⟩ := hview.grant request.grant
    rw [designatedChain, hfound, ok_bind]
    cases found with
    | none => rfl
    | some leaf => exact if_neg fun hleaf => hheld leaf ⟨hfound, hleaf⟩
  | unusable happlies hheld hchain hpre hlink =>
    refine authorize_of_refusal happlies ?_
    rw [designatedChain_of_held hheld, checkChain_invalid.mpr ⟨_, _, _, hchain, hpre, rfl, hlink⟩]
    rfl
  | @notConferred _ chain happlies hheld hchain husable hconfers =>
    refine authorize_of_refusal happlies ?_
    have hall : (chain.all fun link => decide (request.capability ∈ link.capabilities)) =
      false := by
      simpa using hconfers
    rw [designatedChain_of_held hheld, checkChain_valid.mpr ⟨hchain, husable⟩, ok_bind]
    simp only [hall, Bool.false_eq_true, if_false]
    rfl
  | notServed happlies hdesignated hserved =>
    exact authorize_of_notServed happlies hdesignated hserved
  | sessionRequired happlies hdesignated hserved hsession hrequirement =>
    rw [authorize_of_sessionFor happlies hdesignated hserved, sessionFor, hsession]
    simp only [if_pos hrequirement]
    rfl
  | sessionMissing happlies hdesignated hserved hsession howner =>
    rw [authorize_of_sessionFor happlies hdesignated hserved, sessionFor, hsession]
    simp only [checkSession, howner, ok_bind]
    rfl
  | @sessionOutside chain id owner happlies hdesignated hserved hsession howner hadmits =>
    rw [authorize_of_sessionFor happlies hdesignated hserved, sessionFor, hsession]
    obtain ⟨admitted, hlinks, hiff⟩ := hview.lineages.linksAdmit owner id chain
    obtain rfl : admitted = false := Bool.not_eq_true _ |>.mp (mt hiff.mp hadmits)
    simp only [checkSession, howner, ok_bind, hlinks, Bool.false_eq_true, if_false]
    by_cases hown : owner = request.tenant <;> simp only [hown, if_true, if_false] <;> rfl
  | targetOutside happlies hdesignated hserved hsession htarget =>
    rw [authorize_of_sessionFor happlies hdesignated hserved,
      sessionFor_of_actsIn hview.lineages hsession, ok_bind]
    simp only [mt targetAdmitted_iff.mp htarget]
    rfl
  | overflow hentitled hledgers hvisits hpre hover =>
    rw [authorize_of_entitled hview.lineages hentitled, reserveFor, ledgerStates_eq_ok.mpr hledgers,
      ok_bind, planReservation_overflow hvisits hpre hover]
    rfl
  | @ownShort _ _ ledgers pre post v hentitled hledgers hroom hvisits hpre hown hshort =>
    have hfirst : (visits ledgers).find? (Dioptron.ownShort request.declared) = some v := by
      refine List.find?_eq_some_iff_append.mpr ⟨by simp [Dioptron.ownShort, hown, hshort],
        pre, post, hvisits, fun u hu => ?_⟩
      cases hother : u.1.own with
      | false => simp [Dioptron.ownShort, hother]
      | true => simp [Dioptron.ownShort, hother, hpre u hu hother]
    rw [authorize_of_entitled hview.lineages hentitled, reserveFor, ledgerStates_eq_ok.mpr hledgers,
      ok_bind, planReservation_eq hroom, ok_bind, hfirst]
    rfl
  | @upstreamShort _ _ ledgers hentitled hledgers hroom hown hshort =>
    have hfirst : (visits ledgers).find? (Dioptron.ownShort request.declared) = none := by
      refine List.find?_eq_none.mpr fun u hu => ?_
      simp only [Dioptron.ownShort, Bool.and_eq_true, decide_eq_true_eq, not_and]
      exact fun howned => hown u.1 (mem_visits.mp hu) howned u.2
    obtain ⟨ledger, hledger, d, hshort⟩ := hshort
    have hother : ledger.own = false :=
      Bool.not_eq_true _ |>.mp fun howned => hown ledger hledger howned d hshort
    have hany : (visits ledgers).any (Dioptron.upstreamShort request.declared) = true :=
      List.any_eq_true.mpr ⟨(ledger, d), mem_visits.mpr hledger, by
        simp [Dioptron.upstreamShort, hother, hshort]⟩
    rw [authorize_of_entitled hview.lineages hentitled, reserveFor, ledgerStates_eq_ok.mpr hledgers,
      ok_bind, planReservation_eq hroom, ok_bind, hfirst, hany]
    rfl
  | allowed hentitled hledgers hroom hcovered =>
    rw [authorize_of_entitled hview.lineages hentitled]
    exact reserveFor_of_fits hledgers hroom hcovered

/-- A plan debits each grant of the chain, the session and the tenant once. -/
theorem Debits.ids {tenant : TenantId} {session : Option (SessionId × TenantId)}
    (h : Debits view tenant chain session ledgers) : ledgers.map LedgerState.id =
      chain.map (LedgerId.grant ∘ Grant.id) ++ sessionLedger session ++ [.tenant tenant] :=
  (ledgerStates_spec (ledgerStates_eq_ok.mpr h)).1

/-- **The decision is the policy.**  On a well-formed view, for every request at every
instant, the answer is the verdict of the first condition that fails.  It is an allowance
exactly when every condition holds, and then the plan lists each grant of the chain, the
session and the tenant once. -/
theorem authorize_decides_policy (hview : view.WellFormed) (request : AuthzRequest)
    (now : Timestamp) :
    (∀ r, authorize view request now = r ↔ Verdict view request now r) ∧
    (∀ ids plan, authorize view request now = .ok (.allowed ids plan) ↔
      ∃ chain session ledgers, Entitled view request now chain session ∧
        Debits view request.tenant chain session ledgers ∧
        (∀ ledger ∈ ledgers, ledger.Covers request.declared) ∧
        ids = chain.map Grant.id ∧ plan = ⟨request.declared, ledgers.map LedgerState.id⟩) ∧
    ∀ ids plan, authorize view request now = .ok (.allowed ids plan) →
      plan.ledgers.Nodup ∧ ∃ chain session, Entitled view request now chain session ∧
        ∀ id, id ∈ plan.ledgers ↔ (∃ link ∈ chain, id = .grant link.id) ∨
          (∃ owner s, session = some (s, owner) ∧ id = .session s) ∨
            id = .tenant request.tenant := by
  have hallowed (ids : List GrantId) (plan : ReservationPlan) :
      authorize view request now = .ok (.allowed ids plan) ↔
      ∃ chain session ledgers, Entitled view request now chain session ∧
        Debits view request.tenant chain session ledgers ∧
        (∀ ledger ∈ ledgers, ledger.Covers request.declared) ∧
        ids = chain.map Grant.id ∧ plan = ⟨request.declared, ledgers.map LedgerState.id⟩ := by
    simp only [LedgerState.covers_iff]
    constructor
    · intro h
      have hverdict := hview.verdict request now
      rw [h] at hverdict
      generalize hr : (Except.ok (Decision.allowed ids plan) : Except AuthzError Decision) = r
        at hverdict
      cases hverdict with
      | allowed hentitled hledgers hroom hcovered =>
        cases hr
        exact ⟨_, _, _, hentitled, hledgers,
          fun l hl d => ⟨hcovered l hl d, hroom l hl d⟩, rfl, rfl⟩
      | sessionOutside => split at hr <;> cases hr
      | _ => cases hr
    · rintro ⟨chain, session, ledgers, hentitled, hledgers, hcovers, rfl, rfl⟩
      exact Verdict.authorize_eq hview (.allowed hentitled hledgers
        (fun l hl d => (hcovers l hl d).2) fun l hl d => (hcovers l hl d).1)
  refine ⟨fun r => ⟨?_, Verdict.authorize_eq hview⟩, hallowed, fun ids plan h => ?_⟩
  · rintro rfl
    exact hview.verdict request now
  · obtain ⟨chain, session, ledgers, hentitled, hledgers, -, -, rfl⟩ := (hallowed ids plan).mp h
    refine ⟨?_, chain, session, hentitled, fun id => ?_⟩
    · rw [hledgers.ids]
      exact debited_nodup hentitled.designated.ids_nodup session request.tenant
    · rw [hledgers.ids]
      rcases session with _ | ⟨s, owner⟩ <;> simp [sessionLedger, eq_comm]

/-! ## One grant, and one below it -/

namespace Sample

def soleGrant : Grant where
  id := ⟨1⟩
  issuer := ⟨1⟩
  holder := ⟨1⟩
  capabilities := {.read, .sessionCreate}
  sessionScope := .own
  targetScope := ⟨[]⟩
  auditScope := .all
  ceilings := Ceilings.default
  notBefore := 0
  expiresAt := 100
  parent := none
  depth := 0
  maxDepth := 3

/-- One root grant and one tenant that owns every session. -/
def soleView : Snapshot where
  grant id := .ok (if id = ⟨1⟩ then some soleGrant else none)
  revocation _ := .ok none
  sessionOwner _ := .ok (some ⟨1⟩)
  tenantParent _ := .ok none
  used _ := .ok Cost.zero
  sessionCeilings _ := .ok Ceilings.default
  tenantCeilings _ := .ok Ceilings.default

/-- A call of the sole tenant in one of its sessions. -/
def soleCall (capability : Capability) : AuthzRequest :=
  ⟨⟨1⟩, ⟨1⟩, capability, none, some ⟨5⟩, Cost.zero⟩

theorem soleView_wellFormed : soleView.WellFormed where
  grant _ := ⟨_, rfl⟩
  revocation _ := ⟨_, rfl⟩
  sessionOwner _ := ⟨_, rfl⟩
  used _ := ⟨_, rfl⟩
  sessionCeilings _ := ⟨_, rfl⟩
  tenantCeilings _ := ⟨_, rfl⟩
  chains id g hg := by
    simp only [soleView, Except.ok.injEq] at hg
    split at hg
    · cases hg
      exact ⟨[soleGrant], .root rfl rfl⟩
    · cases hg
  lineages t := ⟨0, Nat.zero_le _, .top rfl⟩

theorem soleView_covers {session : Option (SessionId × TenantId)} {ledgers : List LedgerState}
    (h : Debits soleView ⟨1⟩ [soleGrant] session ledgers) :
    ∀ ledger ∈ ledgers, ledger.Covers Cost.zero := by
  intro ledger hledger d
  have hof := (ledgerStates_spec (ledgerStates_eq_ok.mpr h)).2 ledger hledger
  have hstate : ledger.ceilings = Ceilings.default ∧ ledger.used = Cost.zero := by
    cases hof with
    | grant hlink hused =>
      obtain rfl := List.mem_singleton.mp hlink
      cases hused
      exact ⟨rfl, rfl⟩
    | session _ hceilings hused =>
      cases hceilings
      cases hused
      exact ⟨rfl, rfl⟩
    | tenant hceilings hused =>
      cases hceilings
      cases hused
      exact ⟨rfl, rfl⟩
  rw [hstate.1, hstate.2, Cost.get_zero, Ceilings.get_default]
  exact ⟨by decide, nofun⟩

/-- A grant for three fetches below the sole grant, held by a tenant below its holder. -/
def pairGrant : Grant :=
  { soleGrant with
    id := ⟨2⟩
    holder := ⟨2⟩
    ceilings := { Ceilings.default with fetches := some 3 }
    parent := some ⟨1⟩
    depth := 1 }

def pairView : Snapshot :=
  { soleView with
    grant := fun id =>
      .ok (if id = ⟨1⟩ then some soleGrant else if id = ⟨2⟩ then some pairGrant else none)
    sessionOwner := fun _ => .ok (some ⟨2⟩)
    tenantParent := fun t => .ok (if t = ⟨2⟩ then some ⟨1⟩ else none) }

def pairCall (fetches : UInt64) : AuthzRequest :=
  ⟨⟨2⟩, ⟨2⟩, .read, none, some ⟨5⟩, { Cost.zero with fetches := fetches }⟩

theorem pairView_wellFormed : pairView.WellFormed where
  grant _ := ⟨_, rfl⟩
  revocation _ := ⟨_, rfl⟩
  sessionOwner _ := ⟨_, rfl⟩
  used _ := ⟨_, rfl⟩
  sessionCeilings _ := ⟨_, rfl⟩
  tenantCeilings _ := ⟨_, rfl⟩
  chains id g hg := by
    simp only [pairView, Except.ok.injEq] at hg
    split_ifs at hg <;> cases hg
    · exact ⟨_, .root rfl rfl⟩
    · exact ⟨_, .link rfl rfl (by decide) (.root rfl rfl)⟩
  lineages t := by
    by_cases ht : t = ⟨2⟩
    · exact ⟨1, by decide, .link (congrArg _ (if_pos ht)) (.top rfl)⟩
    · exact ⟨0, Nat.zero_le _, .top (congrArg _ (if_neg ht))⟩

end Sample

/-- Under the lower grant a call in an own session may spend two fetches of three and not four. -/
theorem authorize_decides_policy_of_pair : Sample.pairView.WellFormed ∧
    Verdict Sample.pairView (Sample.pairCall 2) 1
      (.ok (.allowed [⟨2⟩, ⟨1⟩] ⟨{ Cost.zero with fetches := 2 },
        [.grant ⟨2⟩, .grant ⟨1⟩, .session ⟨5⟩, .tenant ⟨2⟩]⟩)) ∧
    Verdict Sample.pairView (Sample.pairCall 4) 1 (.ok (.budgetExceeded .fetches)) :=
  ⟨Sample.pairView_wellFormed,
    ((authorize_decides_policy Sample.pairView_wellFormed (Sample.pairCall 2) 1).1 _).mp
      (by decide +kernel),
    ((authorize_decides_policy Sample.pairView_wellFormed (Sample.pairCall 4) 1).1 _).mp
      (by decide +kernel)⟩

/-- The grant is held, usable and confers the served capability, the named session exists
and is admitted, and every ledger has room; yet opening a session in a session is a fault. -/
theorem authorize_faults_on_named_session : Sample.soleView.WellFormed ∧
    Designated Sample.soleView ⟨1⟩ ⟨1⟩ .sessionCreate 1 [Sample.soleGrant] ∧
    isServed .sessionCreate = true ∧ ActsIn Sample.soleView (Sample.soleCall .sessionCreate)
      [Sample.soleGrant] (some (⟨5⟩, ⟨1⟩)) ∧
    TargetAdmitted [Sample.soleGrant] (Sample.soleCall .sessionCreate) ∧
    (∀ ledgers, Debits Sample.soleView ⟨1⟩ [Sample.soleGrant] (some (⟨5⟩, ⟨1⟩)) ledgers →
      ∀ ledger ∈ ledgers, ledger.Covers (Sample.soleCall .sessionCreate).declared) ∧
    authorize Sample.soleView (Sample.soleCall .sessionCreate) 1 =
      .error (.sessionNotApplicable .sessionCreate) := by
  refine ⟨Sample.soleView_wellFormed, ⟨⟨_, rfl, rfl, rfl, .root rfl rfl⟩, ?_, ?_⟩, rfl,
    .some rfl rfl ?_, nofun, fun ledgers h => Sample.soleView_covers h, rfl⟩
  · exact List.forall_mem_singleton.mpr ⟨rfl, by decide, by decide⟩
  · exact List.forall_mem_singleton.mpr (by decide)
  · exact List.forall_mem_singleton.mpr .refl

end Dioptron
