import Dioptron.Calls
import Dioptron.Ideal

/-! # Budgets of others

Two snapshots that differ only in amounts of ledgers the caller does not own: the ceilings
and the used amounts of grants it does not hold and of sessions it does not own.  Every part
of a decision before the reservation reads neither, the default limits read the caller's own
ledgers alone, and the reservation keeps own and upstream shortfalls apart.
-/
namespace Dioptron

theorem map_eq_map_of_forall₂ {α β γ : Type} {R : α → β → Prop} {f : α → γ} {g : β → γ}
    (hR : ∀ a b, R a b → g b = f a) {l : List α} {l' : List β} (h : List.Forall₂ R l l') :
    l'.map g = l.map f := by
  induction h with
  | nil => rfl
  | cons hab _ ih => rw [List.map_cons, List.map_cons, ih, hR _ _ hab]

/-- The grants differ in their ceilings at most, and not when `tenant` holds them. -/
structure SameGrant (tenant : TenantId) (g g' : Grant) : Prop where
  rest : g' = { g with ceilings := g'.ceilings }
  held : g.holder = tenant → g'.ceilings = g.ceilings

namespace SameGrant

variable {tenant : TenantId} {g g' p p' : Grant}

theorem id (h : SameGrant tenant g g') : g'.id = g.id := by rw [h.rest]
theorem holder (h : SameGrant tenant g g') : g'.holder = g.holder := by rw [h.rest]
theorem parent (h : SameGrant tenant g g') : g'.parent = g.parent := by rw [h.rest]
theorem depth (h : SameGrant tenant g g') : g'.depth = g.depth := by rw [h.rest]

theorem linkOk_eq (h : SameGrant tenant g g') (hp : SameGrant tenant p p') (parentId : GrantId) :
    linkOk parentId p' g' = linkOk parentId p g := by
  rw [h.rest, hp.rest]
  rfl

theorem all_eq {f : Grant → Bool} (hf : ∀ g g', SameGrant tenant g g' → f g' = f g)
    {chain chain' : List Grant} (h : List.Forall₂ (SameGrant tenant) chain chain') :
    chain'.all f = chain.all f := by
  induction h with
  | nil => rfl
  | cons hlink _ ih => rw [List.all_cons, List.all_cons, ih, hf _ _ hlink]

end SameGrant

/-- The snapshots differ only in the used amounts and ceilings of ledgers `tenant` does not
own. -/
structure SameButUpstream (tenant : TenantId) (v v' : Snapshot) : Prop where
  grant : ∀ id, Related (Option.Rel (SameGrant tenant)) (v.grant id) (v'.grant id)
  revocation : v'.revocation = v.revocation
  sessionOwner : v'.sessionOwner = v.sessionOwner
  tenantParent : v'.tenantParent = v.tenantParent
  grantUsed : ∀ id, Related (fun a b => ∀ g, v.grant id = .ok (some g) → g.holder = tenant → b = a)
    (v.used (.grant id)) (v'.used (.grant id))
  sessionUsed : ∀ id, Related (fun a b => v.sessionOwner id = .ok (some tenant) → b = a)
    (v.used (.session id)) (v'.used (.session id))
  sessionCeilings : ∀ id, Related (fun a b => v.sessionOwner id = .ok (some tenant) → b = a)
    (v.sessionCeilings id) (v'.sessionCeilings id)
  tenantUsed : v'.used (.tenant tenant) = v.used (.tenant tenant)
  tenantCeilings : v'.tenantCeilings tenant = v.tenantCeilings tenant

namespace SameButUpstream

variable {tenant : TenantId} {v v' : Snapshot} {now : Timestamp} {chain chain' : List Grant}
  {ledgers ledgers' : List LedgerState} {declared : Cost} {d : Dimension} {e : AuthzError}
  {a a' r r' : Option BudgetRefusal × Bool}

/-! ## Chains and sessions -/

theorem loadLinks_related (h : SameButUpstream tenant v v') (fuel : Nat) {g g' : Grant}
    (hg : SameGrant tenant g g') :
    Related (List.Forall₂ (SameGrant tenant)) (loadLinks v fuel g) (loadLinks v' fuel g') := by
  induction fuel generalizing g g' with
  | zero =>
    rw [loadLinks, loadLinks, hg.parent, hg.depth, hg.id]
    cases g.parent with
    | none =>
      dsimp only
      split_ifs
      · exact .ok (.cons hg .nil)
      · exact .error _
    | some parentId =>
      refine (h.grant parentId).bind ?_
      rintro _ _ (⟨hp⟩ | ⟨⟩)
      · dsimp only
        rw [hg.linkOk_eq hp]
        split
        · exact .error _
        · exact .error _
      · exact .error _
  | succ _ ih =>
    rw [loadLinks, loadLinks, hg.parent, hg.depth, hg.id]
    cases g.parent with
    | none =>
      dsimp only
      split_ifs
      · exact .ok (.cons hg .nil)
      · exact .error _
    | some parentId =>
      refine (h.grant parentId).bind ?_
      rintro _ _ (⟨hp⟩ | ⟨⟩)
      · dsimp only
        rw [hg.linkOk_eq hp]
        split
        · exact (ih hp).bind fun rest rest' hrest => .ok (.cons hg hrest)
        · exact .error _
      · exact .error _

theorem firstUnusable_eq (h : SameButUpstream tenant v v')
    (hchain : List.Forall₂ (SameGrant tenant) chain chain') :
    firstUnusable v' now chain' = firstUnusable v now chain := by
  induction hchain with
  | nil => rfl
  | cons hlink _ ih =>
    rw [firstUnusable, firstUnusable, hlink.rest, h.revocation, ih]
    rfl

theorem designatedChain_related (h : SameButUpstream tenant v v') (caller : TenantId)
    (grant : GrantId) (capability : Capability) (now : Timestamp) :
    Related (Related (List.Forall₂ (SameGrant tenant)))
      (designatedChain v caller grant capability now)
      (designatedChain v' caller grant capability now) := by
  unfold designatedChain
  refine (h.grant grant).bind ?_
  rintro _ _ (⟨hleaf⟩ | ⟨⟩)
  · dsimp only
    rw [hleaf.id, hleaf.holder]
    split_ifs with hheld
    · unfold checkChain loadChain
      simp only [bind_assoc]
      rw [hleaf.depth]
      refine (h.loadLinks_related _ hleaf).bind fun chain chain' hchain => ?_
      rw [h.firstUnusable_eq hchain]
      refine .bind_same fun found _ => ?_
      cases found with
      | some => exact .ok (.error _)
      | none =>
        have hall := SameGrant.all_eq (f := fun link => decide (capability ∈ link.capabilities))
          (fun g g' hg => by rw [hg.rest]) hchain
        simp only [pure_bind, hall]
        split_ifs
        · exact .ok (.ok hchain)
        · exact .ok (.error _)
    · exact .ok (.error _)
  · exact .ok (.error _)

theorem inLineage_eq (h : SameButUpstream tenant v v') (owner ancestor : TenantId) :
    inLineage v' owner ancestor = inLineage v owner ancestor := by
  have hwalk : ∀ turns current,
      walkLineage v' owner ancestor turns current = walkLineage v owner ancestor turns current := by
    intro turns
    induction turns with
    | zero => exact fun _ => rfl
    | succ _ ih =>
      intro current
      rw [walkLineage, walkLineage, h.tenantParent]
      simp only [ih]
  exact hwalk _ _

theorem linksAdmit_eq (h : SameButUpstream tenant v v') (owner : TenantId) (session : SessionId)
    (hchain : List.Forall₂ (SameGrant tenant) chain chain') :
    linksAdmit v' owner session chain' = linksAdmit v owner session chain := by
  induction hchain with
  | nil => rfl
  | @cons link link' _ _ hlink _ ih =>
    have hadmits : linkAdmits v' owner session link' = linkAdmits v owner session link := by
      rw [linkAdmits, linkAdmits, hlink.rest]
      simp only [h.inLineage_eq]
    rw [linksAdmit, linksAdmit, ih, hadmits]

theorem sessionFor_eq (h : SameButUpstream tenant v v') (request : AuthzRequest)
    (hchain : List.Forall₂ (SameGrant tenant) chain chain') :
    sessionFor v' request chain' = sessionFor v request chain := by
  unfold sessionFor checkSession
  simp only [h.sessionOwner, h.linksAdmit_eq _ _ hchain]

theorem targetAdmitted_eq (hchain : List.Forall₂ (SameGrant tenant) chain chain')
    (capability : Capability) (target : Option Bytes) :
    targetAdmitted chain' capability target = targetAdmitted chain capability target := by
  unfold targetAdmitted
  cases target with
  | none => rfl
  | some target =>
    dsimp only
    cases Origin.parse target with
    | error => rfl
    | ok origin =>
      exact SameGrant.all_eq (f := fun link => link.targetScope.matches_ origin)
        (fun g g' hg => by rw [hg.rest]) hchain

/-! ## Ledgers -/

/-- The ledgers differ in amounts at most, and not when they are the caller's own. -/
structure SameLedger (l l' : LedgerState) : Prop where
  id : l'.id = l.id
  own : l'.own = l.own
  held : l.own = true → l' = l

theorem grantLedgers_related (h : SameButUpstream tenant v v')
    (hchain : List.Forall₂ (SameGrant tenant) chain chain')
    (hview : ∀ link ∈ chain, v.grant link.id = .ok (some link)) :
    Related (List.Forall₂ SameLedger) (grantLedgers v tenant chain)
      (grantLedgers v' tenant chain') := by
  induction hchain with
  | nil => exact .ok .nil
  | @cons link _ _ _ hlink _ ih =>
    rw [grantLedgers, grantLedgers, hlink.id, hlink.holder]
    refine (h.grantUsed link.id).bind fun used used' hused => ?_
    refine (ih fun l hl => hview l (List.mem_cons_of_mem _ hl)).bind fun ls ls' hls => ?_
    refine .ok (.cons ⟨rfl, rfl, fun hown => ?_⟩ hls)
    have hheld : link.holder = tenant := of_decide_eq_true hown
    rw [hlink.held hheld, hused link (hview link List.mem_cons_self) hheld]

theorem sessionLedgers_related (h : SameButUpstream tenant v v')
    {session : Option (SessionId × TenantId)}
    (howner : ∀ id owner, session = some (id, owner) → v.sessionOwner id = .ok (some owner)) :
    Related (List.Forall₂ SameLedger) (sessionLedgers v tenant session)
      (sessionLedgers v' tenant session) := by
  rcases session with _ | ⟨id, owner⟩
  · exact .ok .nil
  · rw [sessionLedgers, sessionLedgers]
    refine (h.sessionCeilings id).bind fun ceilings ceilings' hceilings => ?_
    refine (h.sessionUsed id).bind fun used used' hused => ?_
    refine .ok (.cons ⟨rfl, rfl, fun hown => ?_⟩ .nil)
    have howned : v.sessionOwner id = .ok (some tenant) := by
      rw [howner id owner rfl, of_decide_eq_true hown]
    rw [hceilings howned, hused howned]

theorem ledgerStates_related (h : SameButUpstream tenant v v')
    (hchain : List.Forall₂ (SameGrant tenant) chain chain')
    (hview : ∀ link ∈ chain, v.grant link.id = .ok (some link))
    {session : Option (SessionId × TenantId)}
    (howner : ∀ id owner, session = some (id, owner) → v.sessionOwner id = .ok (some owner)) :
    Related (List.Forall₂ SameLedger) (ledgerStates v tenant chain session)
      (ledgerStates v' tenant chain' session) := by
  unfold ledgerStates
  refine (h.grantLedgers_related hchain hview).bind fun grants grants' hgrants => ?_
  refine (h.sessionLedgers_related howner).bind fun sessions sessions' hsessions => ?_
  rw [h.tenantCeilings, h.tenantUsed]
  refine .bind_same fun ceilings _ => .bind_same fun used _ => .ok ?_
  exact List.rel_append (List.rel_append hgrants hsessions) (.cons ⟨rfl, rfl, fun _ => rfl⟩ .nil)

/-- What is left of the caller's own ceilings is the same. -/
theorem ownRemaining_eq (h : List.Forall₂ SameLedger ledgers ledgers') :
    ownRemaining ledgers' = ownRemaining ledgers := by
  have hown : ledgers'.filter LedgerState.own = ledgers.filter LedgerState.own := by
    induction h with
    | nil => rfl
    | @cons l l' _ _ hl hrest ih =>
      rw [List.filter_cons, List.filter_cons, hl.own, ih]
      split
      · rename_i hheld
        rw [hl.held hheld]
      · rfl
  unfold ownRemaining
  rw [hown]

/-! ## The reservation -/

/-- Planning fails only on an overflow. -/
theorem coversDimension_error {ledger : LedgerState}
    (h : coversDimension ledger declared d = .error e) : e = .ledgerOverflow d := by
  unfold coversDimension at h
  split at h <;> cases h
  rfl

theorem planDimension_error {ledger : LedgerState} {acc : Option BudgetRefusal × Bool}
    (h : planDimension declared ledger acc d = .error e) : e = .ledgerOverflow d := by
  unfold planDimension at h
  rcases bind_eq_error.mp h with h | ⟨covers, -, h⟩
  · exact coversDimension_error h
  · split_ifs at h <;> cases h

/-- One turn of the planner finds the same own shortfall on both. -/
theorem planDimension_own {l l' : LedgerState} (hl : SameLedger l l') (hacc : a'.1 = a.1)
    (h : planDimension declared l a d = .ok r) (h' : planDimension declared l' a' d = .ok r') :
    r'.1 = r.1 := by
  cases hown : l.own with
  | true =>
    -- the caller's own ledger is the same on both, shortfall included
    rw [hl.held hown] at h'
    unfold planDimension at h h'
    obtain ⟨covers, hcovers, h⟩ := bind_eq_ok.mp h
    rw [hcovers, ok_bind] at h'
    rw [hown] at h h'
    cases covers <;> cases h <;> cases h'
    · rw [hacc]
    · exact hacc
  | false =>
    have hkeep : ∀ {m : LedgerState} {b q : Option BudgetRefusal × Bool}, m.own = false →
        planDimension declared m b d = .ok q → q.1 = b.1 := by
      intro m b q hm hq
      unfold planDimension at hq
      obtain ⟨covers, -, hq⟩ := bind_eq_ok.mp hq
      rw [hm] at hq
      cases covers <;> cases hq <;> rfl
    rw [hkeep hown h, hkeep (hl.own.trans hown) h', hacc]

theorem foldlM_planDimension_own {l l' : LedgerState} (hl : SameLedger l l') {ds : List Dimension}
    (hacc : a'.1 = a.1) (h : ds.foldlM (planDimension declared l) a = .ok r)
    (h' : ds.foldlM (planDimension declared l') a' = .ok r') : r'.1 = r.1 := by
  induction ds generalizing a a' with
  | nil =>
    cases h
    cases h'
    exact hacc
  | cons _ _ ih =>
    rw [List.foldlM_cons] at h h'
    obtain ⟨b, hb, h⟩ := bind_eq_ok.mp h
    obtain ⟨b', hb', h'⟩ := bind_eq_ok.mp h'
    exact ih (planDimension_own hl hacc hb hb') h h'

theorem foldlM_ledgers_own (hl : List.Forall₂ SameLedger ledgers ledgers') (hacc : a'.1 = a.1)
    (h : ledgers.foldlM (fun acc l => Dimension.all.foldlM (planDimension declared l) acc) a =
      .ok r)
    (h' : ledgers'.foldlM (fun acc l => Dimension.all.foldlM (planDimension declared l) acc) a' =
      .ok r') : r'.1 = r.1 := by
  induction hl generalizing a a' with
  | nil =>
    cases h
    cases h'
    exact hacc
  | cons hlink _ ih =>
    rw [List.foldlM_cons] at h h'
    obtain ⟨b, hb, h⟩ := bind_eq_ok.mp h
    obtain ⟨b', hb', h'⟩ := bind_eq_ok.mp h'
    exact ih (foldlM_planDimension_own hlink hacc hb hb') h h'

theorem foldlM_error {α β ε : Type} {f : β → α → Except ε β} {P : ε → Prop}
    (hf : ∀ b a e, f b a = .error e → P e) {l : List α} {b : β} {e : ε}
    (h : l.foldlM f b = .error e) : P e := by
  induction l generalizing b with
  | nil => cases h
  | cons a l ih =>
    rw [List.foldlM_cons] at h
    rcases bind_eq_error.mp h with h | ⟨b', -, h⟩
    · exact hf b a e h
    · exact ih h

theorem planReservation_error (h : planReservation ledgers declared = .error e) :
    ∃ d, e = .ledgerOverflow d := by
  unfold planReservation at h
  rcases bind_eq_error.mp h with h | ⟨acc, -, h⟩
  · refine foldlM_error (P := fun e => ∃ d, e = .ledgerOverflow d) (fun acc l e hl => ?_) h
    exact foldlM_error (P := fun e => ∃ d, e = .ledgerOverflow d)
      (fun acc d e hd => ⟨d, planDimension_error hd⟩) hl
  · cases h

/-- The reservation is planned alike, or it fits on one and an upstream ledger falls short on
the other. -/
theorem planReservation_cases (hl : List.Forall₂ SameLedger ledgers ledgers') {c c' : BudgetCheck}
    (h : planReservation ledgers declared = .ok c)
    (h' : planReservation ledgers' declared = .ok c') :
    c' = c ∨ (∃ plan, c = .fits plan ∧ c' = .exceeded .upstream) ∨
      ∃ plan, c = .exceeded .upstream ∧ c' = .fits plan := by
  unfold planReservation at h h'
  obtain ⟨⟨own, upstream⟩, hacc, h⟩ := bind_eq_ok.mp h
  obtain ⟨⟨own', upstream'⟩, hacc', h'⟩ := bind_eq_ok.mp h'
  obtain rfl : own' = own := foldlM_ledgers_own hl rfl hacc hacc'
  have hids : ledgers'.map LedgerState.id = ledgers.map LedgerState.id :=
    map_eq_map_of_forall₂ (fun _ _ hlink => hlink.id) hl
  cases own' with
  | some =>
    cases h
    cases h'
    exact .inl rfl
  | none =>
    cases upstream <;> cases upstream' <;> cases h <;> cases h'
    · exact .inl (by rw [hids])
    · exact .inr (.inl ⟨_, rfl, rfl⟩)
    · exact .inr (.inr ⟨_, rfl, rfl⟩)
    · exact .inl rfl

end SameButUpstream

/-- Two decisions are the same, or one allows what the other refuses for a budget it does not
name. -/
inductive SameOrUnavailable : Except AuthzError Decision → Except AuthzError Decision → Prop
  | same (decision : Except AuthzError Decision) : SameOrUnavailable decision decision
  | left (chain : List GrantId) (reservation : ReservationPlan) :
      SameOrUnavailable (.ok (.allowed chain reservation)) (.ok (.denied .budgetUnavailable))
  | right (chain : List GrantId) (reservation : ReservationPlan) :
      SameOrUnavailable (.ok (.denied .budgetUnavailable)) (.ok (.allowed chain reservation))

/-- An own shortfall is answered alike. -/
theorem SameOrUnavailable.budgetExceeded {x y : Except AuthzError Decision}
    (h : SameOrUnavailable x y) (dimension : Dimension) :
    x = .ok (.budgetExceeded dimension) ↔ y = .ok (.budgetExceeded dimension) := by
  cases h <;> simp

namespace SameButUpstream

variable {tenant : TenantId} {v v' : Snapshot} {now : Timestamp}

theorem reserveFor_cases (h : SameButUpstream tenant v v') {chain chain' : List Grant}
    (hchain : List.Forall₂ (SameGrant tenant) chain chain')
    (hview : ∀ link ∈ chain, v.grant link.id = .ok (some link))
    {session : Option (SessionId × TenantId)}
    (howner : ∀ id owner, session = some (id, owner) → v.sessionOwner id = .ok (some owner))
    {declared : Cost}
    (hroom : ∀ d, reserveFor v tenant chain session declared ≠ .error (.ledgerOverflow d))
    (hroom' : ∀ d, reserveFor v' tenant chain' session declared ≠ .error (.ledgerOverflow d)) :
    SameOrUnavailable (reserveFor v tenant chain session declared)
      (reserveFor v' tenant chain' session declared) := by
  unfold reserveFor at *
  have hids : chain'.map Grant.id = chain.map Grant.id :=
    map_eq_map_of_forall₂ (fun _ _ hlink => hlink.id) hchain
  have hstates := h.ledgerStates_related hchain hview howner
  generalize ledgerStates v tenant chain session = states at hstates hroom ⊢
  generalize ledgerStates v' tenant chain' session = states' at hstates hroom' ⊢
  cases hstates with
  | error => exact .same _
  | @ok ledgers ledgers' hledgers =>
    simp only [ok_bind] at hroom hroom' ⊢
    cases hcheck : planReservation ledgers declared with
    | error =>
      obtain ⟨d, rfl⟩ := planReservation_error hcheck
      exact absurd (by rw [hcheck]; rfl) (hroom d)
    | ok =>
      cases hcheck' : planReservation ledgers' declared with
      | error =>
        obtain ⟨d, rfl⟩ := planReservation_error hcheck'
        exact absurd (by rw [hcheck']; rfl) (hroom' d)
      | ok =>
        rcases planReservation_cases hledgers hcheck hcheck' with
          rfl | ⟨plan, rfl, rfl⟩ | ⟨plan, rfl, rfl⟩
        · rw [hids]
          exact .same _
        · exact .left _ _
        · exact .right _ _

/-- **The decision depends on upstream amounts only by whether they suffice.** -/
theorem authorize_cases (h : SameButUpstream tenant v v') {request : AuthzRequest}
    (hcaller : request.tenant = tenant)
    (hroom : ∀ d, authorize v request now ≠ .error (.ledgerOverflow d))
    (hroom' : ∀ d, authorize v' request now ≠ .error (.ledgerOverflow d)) :
    SameOrUnavailable (authorize v request now) (authorize v' request now) := by
  subst hcaller
  unfold authorize at *
  cases hensure : ensure (¬ (request.session.isSome ∧
      sessionRequirement request.capability = .forbidden))
      (AuthzError.sessionNotApplicable request.capability) with
  | error => exact .same _
  | ok =>
    simp only [hensure, ok_bind] at hroom hroom' ⊢
    have hchains := h.designatedChain_related request.tenant request.grant request.capability now
    generalize hdesignated : designatedChain v request.tenant request.grant request.capability now
      = designated at hchains hroom ⊢
    generalize designatedChain v' request.tenant request.grant request.capability now
      = designated' at hchains hroom' ⊢
    cases hchains with
    | error => exact .same _
    | ok hdecided =>
      cases hdecided with
      | error => exact .same _
      | @ok chain _ hchain =>
        obtain ⟨leaf, hfound, hid, -, hlinked⟩ := (designatedChain_eq_ok.mp hdesignated).exists_leaf
        have hview : ∀ link ∈ chain, v.grant link.id = .ok (some link) := fun link hlink =>
          hlinked.view_grant (hid.symm ▸ hfound) hlink
        simp only [ok_bind, h.sessionFor_eq request hchain, targetAdmitted_eq hchain]
          at hroom hroom' ⊢
        by_cases hserved : isServed request.capability = true
        · simp only [if_pos hserved] at hroom hroom' ⊢
          cases hfor : sessionFor v request chain with
          | error => exact .same _
          | ok decidedSession =>
            simp only [hfor, ok_bind] at hroom hroom' ⊢
            cases decidedSession with
            | error => exact .same _
            | ok =>
              by_cases htarget : targetAdmitted chain request.capability request.target = true
              · simp only [if_pos htarget] at hroom hroom' ⊢
                exact h.reserveFor_cases hchain hview (sessionFor_eq_ok hfor).2 hroom hroom'
              · simp only [if_neg htarget]
                exact .same _
        · simp only [if_neg hserved]
          exact .same _

theorem callerRemaining_eq (h : SameButUpstream tenant v v') {chain chain' : List Grant}
    (hchain : List.Forall₂ (SameGrant tenant) chain chain')
    (hview : ∀ link ∈ chain, v.grant link.id = .ok (some link)) (session : SessionId) :
    callerRemaining v' tenant chain' (some session) =
      callerRemaining v tenant chain (some session) := by
  have howned : ownedSession v' tenant (some session) = ownedSession v tenant (some session) := by
    unfold ownedSession
    rw [h.sessionOwner]
  unfold callerRemaining
  rw [howned]
  refine (Related.bind_same fun owned hown => ?_).eq.symm
  have howner : ∀ id owner, owned = some (id, owner) → v.sessionOwner id = .ok (some owner) := by
    rintro id owner rfl
    obtain ⟨found, hfound, hown⟩ := bind_eq_ok.mp hown
    cases found with
    | none => cases hown
    | some =>
      dsimp only at hown
      split_ifs at hown with heq
      · cases hown
        exact hfound
      · cases hown
  exact (h.ledgerStates_related hchain hview howner).bind fun ledgers ledgers' hledgers =>
    .ok (ownRemaining_eq hledgers).symm

/-- **The declared cost does not depend on upstream amounts.** -/
theorem captureLimits_eq {C : Crypto} {call : Call C} (h : SameButUpstream call.tenant v v')
    (session : SessionId) (requested : CaptureLimits) :
    call.captureLimits v' now session requested = call.captureLimits v now session requested := by
  have hremaining : call.ownRemaining v' now session = call.ownRemaining v now session := by
    unfold Call.ownRemaining
    have hchains := h.designatedChain_related call.tenant call.grant .capture now
    generalize hdesignated : designatedChain v call.tenant call.grant .capture now
      = designated at hchains ⊢
    generalize designatedChain v' call.tenant call.grant .capture now
      = designated' at hchains ⊢
    cases hchains with
    | error => rfl
    | ok hdecided =>
      cases hdecided with
      | error => rfl
      | @ok chain _ hchain =>
        obtain ⟨leaf, hfound, hid, -, hlinked⟩ := (designatedChain_eq_ok.mp hdesignated).exists_leaf
        have hview : ∀ link ∈ chain, v.grant link.id = .ok (some link) := fun link hlink =>
          hlinked.view_grant (hid.symm ▸ hfound) hlink
        exact h.callerRemaining_eq hchain hview session
  unfold Call.captureLimits
  rw [hremaining]

end SameButUpstream

/-- A ledger of the call without a ceiling would pass the word size. -/
def Overflows (view : Snapshot) (request : AuthzRequest) (now : Timestamp) : Prop :=
  ∃ dimension, authorize view request now = .error (.ledgerOverflow dimension)

/-- **Upstream budgets do not leak.**  On snapshots that differ only in amounts of ledgers the
caller does not own a capture declares the same limits, and so the same cost.  Where no
uncapped ledger overflows, its decision is the same on both, or it is allowed on one and
refused as unavailable on the other; an own shortfall and its dimension are answered alike. -/
theorem upstream_budgets_hidden {C : Crypto} (call : Call C) (capture : CaptureRequest)
    (now : Timestamp) {v v' : Snapshot} (h : SameButUpstream call.tenant v v') :
    call.captureLimits v' now capture.session capture.limits =
        call.captureLimits v now capture.session capture.limits ∧
      ∀ limits, call.captureLimits v now capture.session capture.limits = .ok limits →
        ¬ Overflows v (call.captureAuthz capture limits) now →
        ¬ Overflows v' (call.captureAuthz capture limits) now →
        SameOrUnavailable (authorize v (call.captureAuthz capture limits) now)
            (authorize v' (call.captureAuthz capture limits) now) ∧
          ∀ dimension,
            authorize v (call.captureAuthz capture limits) now = .ok (.budgetExceeded dimension) ↔
            authorize v' (call.captureAuthz capture limits) now =
              .ok (.budgetExceeded dimension) := by
  refine ⟨h.captureLimits_eq capture.session capture.limits, fun limits _ hroom hroom' => ?_⟩
  have hcases := h.authorize_cases rfl (fun d hd => hroom ⟨d, hd⟩) (fun d hd => hroom' ⟨d, hd⟩)
  exact ⟨hcases, hcases.budgetExceeded⟩

namespace Sample

def rootLink (fetches : UInt64) : Grant where
  id := ⟨1⟩
  issuer := operator
  holder := operator
  capabilities := {.capture}
  sessionScope := .own
  targetScope := (TargetScope.parse site).toOption.getD ⟨[]⟩
  auditScope := .all
  ceilings := { Ceilings.default with fetches := some fetches }
  notBefore := 0
  expiresAt := 100
  parent := none
  depth := 0
  maxDepth := 3

def agentLink : Grant :=
  { rootLink 1 with id := ⟨2⟩, holder := agent, parent := some ⟨1⟩, depth := 1 }

/-- The agent's grant under one of the operator with a ceiling of so many fetches. -/
def underOperator (fetches : UInt64) : Snapshot where
  grant id := .ok (if id = ⟨1⟩ then some (rootLink fetches) else
    if id = ⟨2⟩ then some agentLink else none)
  revocation _ := .ok none
  sessionOwner _ := .ok (some agent)
  tenantParent id := .ok (if id = agent then some operator else none)
  used _ := .ok Cost.zero
  sessionCeilings _ := .ok .default
  tenantCeilings _ := .ok .default

theorem underOperator_sameButUpstream (fetches fetches' : UInt64) :
    SameButUpstream agent (underOperator fetches) (underOperator fetches') where
  grant id := by
    unfold underOperator
    dsimp only
    split_ifs
    · exact .ok (.some ⟨rfl, fun hheld => by cases hheld⟩)
    · exact .ok (.some ⟨rfl, fun _ => rfl⟩)
    · exact .ok .none
  revocation := rfl
  sessionOwner := rfl
  tenantParent := rfl
  grantUsed _ := .ok fun _ _ _ => rfl
  sessionUsed _ := .ok fun _ => rfl
  sessionCeilings _ := .ok fun _ => rfl
  tenantUsed := rfl
  tenantCeilings := rfl

def agentCall : Call Crypto.ideal := ⟨agent, ⟨2⟩, none, ([0] : List ℕ), 1000, 4096⟩

/-- A capture with both limits left to the daemon. -/
def openCapture : CaptureRequest := ⟨session, ascii "https://example.org/a", ⟨none, none⟩, none⟩

/-- The limits it is declared with. -/
def openLimits : CaptureLimits := ⟨some 3072, some maxTransferBytes⟩

end Sample

/-- The agent's capture is allowed under an operator with a fetch left and refused as
unavailable under one with none; it declares the same limits. -/
theorem upstream_budgets_hidden_of_spent :
    authorize (Sample.underOperator 1) (Sample.agentCall.captureAuthz Sample.openCapture
        Sample.openLimits) 5 ≠
      authorize (Sample.underOperator 0) (Sample.agentCall.captureAuthz Sample.openCapture
        Sample.openLimits) 5 ∧
      Sample.agentCall.captureLimits (Sample.underOperator 0) 5 Sample.session ⟨none, none⟩ =
        .ok Sample.openLimits ∧
      SameOrUnavailable
        (authorize (Sample.underOperator 1) (Sample.agentCall.captureAuthz Sample.openCapture
          Sample.openLimits) 5)
        (authorize (Sample.underOperator 0) (Sample.agentCall.captureAuthz Sample.openCapture
          Sample.openLimits) 5) := by
  have hallowed : authorize (Sample.underOperator 1)
      (Sample.agentCall.captureAuthz Sample.openCapture Sample.openLimits) 5 =
        .ok (.allowed [⟨2⟩, ⟨1⟩] ⟨captureCost Sample.openLimits 1000,
          [.grant ⟨2⟩, .grant ⟨1⟩, .session Sample.session, .tenant Sample.agent]⟩) := by
    decide +kernel
  have hrefused : authorize (Sample.underOperator 0)
      (Sample.agentCall.captureAuthz Sample.openCapture Sample.openLimits) 5 =
        .ok (.denied .budgetUnavailable) := by decide +kernel
  have hlimits : Sample.agentCall.captureLimits (Sample.underOperator 1) 5 Sample.session
      ⟨none, none⟩ = .ok Sample.openLimits := by decide +kernel
  obtain ⟨hsame, hdecided⟩ := upstream_budgets_hidden Sample.agentCall Sample.openCapture 5
    (Sample.underOperator_sameButUpstream 1 0)
  refine ⟨?_, hsame.trans hlimits, (hdecided _ hlimits ?_ ?_).1⟩
  · rw [hallowed, hrefused]
    intro heq
    cases heq
  · rintro ⟨d, hd⟩
    rw [hallowed] at hd
    cases hd
  · rintro ⟨d, hd⟩
    rw [hrefused] at hd
    cases hd

end Dioptron
