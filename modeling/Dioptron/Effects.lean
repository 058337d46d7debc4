import Dioptron.Writes

/-! # What each transaction does

One lemma per transaction of the directory and of the invocation life cycle: a
transaction that succeeds made one of the writes of `Custody.Write`.  What the reply says
about the write is part of the lemma where callers depend on it.  On the book alone a
write is nothing or one `Book.Step`.
-/
namespace Dioptron

open Relation (ReflGen)

variable {C : Crypto} {L L' : Custody C}

theorem RootGrant.id_of_toGrant {root : RootGrant} {grant : Grant} (h : root.toGrant = .ok grant) :
    grant.id = root.id := by
  unfold RootGrant.toGrant at h
  obtain ⟨scope, -, h⟩ := bind_eq_ok.mp h
  cases h
  rfl

namespace Custody

variable {L : Custody C} {x : Bool × Custody C}

/-! ## The directory -/

theorem run_putNewGrant {r : GrantRecord} (h : L.run (Tx.putNewGrant r) = .ok x) :
    L.grants r.id = some r ∧ x = (false, L) ∨
      L.grants r.id = none ∧ x = (true, L.put (.grant r)) := by
  simp only [Tx.putNewGrant, run_bind_grantRecord] at h
  cases hr : L.grants r.id with
  | some =>
    simp only [hr, run_bind_guard, run_pure] at h
    obtain ⟨rfl, h⟩ := h
    exact .inl ⟨rfl, (Except.ok.inj h).symm⟩
  | none =>
    simp only [hr, run_bind_put, run_pure] at h
    exact .inr ⟨rfl, (Except.ok.inj h.2).symm⟩

theorem installRootGrant_write {root : RootGrant} {x : Unit × Custody C}
    (h : L.run (Tx.installRootGrant root) = .ok x) : L.Write (.installRootGrant root) x.2 := by
  simp only [Tx.installRootGrant, run_bind_decide, run_bind_profile, run_bind_expect] at h
  obtain ⟨grant, hgrant, p, hp, h⟩ := h
  obtain ⟨added, mid, hadd, h⟩ := run_bind_ok.mp h
  cases h
  have hid := RootGrant.id_of_toGrant hgrant
  rcases run_putNewGrant hadd with ⟨-, hx⟩ | ⟨hnew, hx⟩
  · cases hx
    exact .quiet rfl L.clock
  · cases hx
    refine .installRootGrant root grant L.clock hgrant (by rw [hp]; rfl) ?_
    rw [← hid]
    exact hnew

theorem storeIssued_write {issue : GrantIssue} {child : Grant} {x : IssueOutcome × Custody C}
    {now : Timestamp}
    (hissue : checkIssue L.toBook.view issue.context issue.request now = .ok (.issued child))
    (h : L.run (Tx.storeIssued issue child) = .ok x) : L.Write (.issueGrant issue) x.2 := by
  unfold Tx.storeIssued at h
  obtain ⟨added, mid, hadd, h⟩ := run_bind_ok.mp h
  rcases run_putNewGrant hadd with ⟨-, hx⟩ | ⟨hnew, hx⟩
  · cases hx
    cases h
    exact .quiet rfl L.clock
  · cases hx
    simp only [if_true, run_bind_appendAudit, run_pure] at h
    obtain ⟨⟨hroom, hlive⟩, h⟩ := h
    cases h
    exact .issueGrant issue child now _ _ hissue hnew ⟨hroom, hlive⟩

theorem refuseIssue_write {issue : GrantIssue} {failure : Failure} {x : IssueOutcome × Custody C}
    (h : L.run (Tx.refuseIssue issue failure) = .ok x) : L.Write (.issueGrant issue) x.2 := by
  simp only [Tx.refuseIssue, run_bind_appendAudit, run_pure] at h
  obtain ⟨⟨hroom, hlive⟩, h⟩ := h
  cases h
  exact .refuse failure _ _ _ rfl ⟨hroom, hlive⟩

theorem run_issuedFrom {existing : GrantRecord} {request : GrantIssueRequest}
    (h : L.run (Tx.issuedFrom existing request) = .ok x) : x.2 = L := by
  unfold Tx.issuedFrom at h
  obtain ⟨depth, mid, hdepth, h⟩ := run_bind_ok.mp h
  cases h
  unfold Tx.requestedMaxDepth at hdepth
  split at hdepth
  · cases hdepth
    rfl
  · rw [run_bind_grantRecord] at hdepth
    cases hdepth
    rfl
  · cases hdepth
    rfl

/-- A write after a reading of the clock. -/
theorem Write.of_tick {t : Transaction C} {L' : Custody C} (h : L.tick.Write t L') :
    L.Write t L' := by
  cases h with
  | quiet ht clock => exact .quiet ht clock
  | refuse failure entry time clock hentry haudit =>
    exact .refuse failure entry time clock hentry ⟨haudit.room, haudit.live⟩
  | recordAudit note time clock haudit =>
    exact .recordAudit note time clock ⟨haudit.room, haudit.live⟩
  | installRootGrant root grant clock hgrant hholder hnew =>
    exact .installRootGrant root grant clock hgrant hholder hnew
  | issueGrant issue child decided time clock hissue hnew haudit =>
    exact .issueGrant issue child decided time clock hissue hnew ⟨haudit.room, haudit.live⟩
  | revokeGrant revoke time now clock hgrant hnew haudit =>
    exact .revokeGrant revoke time now clock hgrant hnew ⟨haudit.room, haudit.live⟩
  | openSession new parent now time clock ht hparent hnew haudit =>
    exact .openSession new parent now time clock ht hparent hnew ⟨haudit.room, haudit.live⟩
  | begin intent chain plan decided now clock hadmits =>
    exact .begin intent chain plan decided now clock hadmits
  | dispatch id r now clock hr hstate => exact .dispatch id r now clock hr hstate
  | completeTransfer id r transfer now clock hr hstate hlive =>
    exact .completeTransfer id r transfer now clock hr hstate hlive
  | publish id r a published now clock hr hstate ha hnew hlive howner =>
    exact .publish id r a published now clock hr hstate ha hnew hlive howner
  | finish id r step next terminal settlement actual now time clock ht hr hnext hterminal hends
      hpaid haudit =>
    exact .finish id r step next terminal settlement actual now time clock ht hr hnext hterminal
      hends hpaid ⟨haudit.room, haudit.live⟩

theorem issueGrant_write {issue : GrantIssue} {x : IssueOutcome × Custody C}
    (h : L.run (Tx.issueGrant issue) = .ok x) : L.Write (.issueGrant issue) x.2 := by
  unfold Tx.issueGrant at h
  obtain ⟨existing, mid, hread, h⟩ := run_bind_ok.mp h
  simp only [Tx.alreadyIssued, run_bind_grantRecord, run_pure] at hread
  cases hread
  cases hexisting : (L.grants issue.context.child).filter fun existing =>
      decide (existing.issuer = issue.context.issuer ∧
        existing.parent = some issue.context.designated) with
  | some =>
    rw [hexisting] at h
    obtain ⟨same, mid, hsame, h⟩ := run_bind_ok.mp h
    have hmid : mid = L := run_issuedFrom hsame
    simp only [run_bind_guard, run_pure, hmid] at h
    cases h.2
    exact .quiet rfl L.clock
  | none =>
    rw [hexisting] at h
    simp only [run_bind_view, run_bind_now, run_bind_decide] at h
    obtain ⟨decision, hdecision, h⟩ := h
    cases decision with
    | issued => exact (storeIssued_write (L := L.tick) hdecision h).of_tick
    | notFoundOrDenied | denied code | narrowing axis =>
      exact (refuseIssue_write (L := L.tick) h).of_tick

theorem revokeGrant_write {revoke : RevokeGrant} {x : Option Revocation × Custody C}
    (h : L.run (Tx.revokeGrant revoke) = .ok x) : L.Write (.revokeGrant revoke) x.2 := by
  simp only [Tx.revokeGrant, run_bind_grantRecord] at h
  cases hgrant : L.grants revoke.grant with
  | none =>
    rw [hgrant] at h
    cases h
    exact .quiet rfl L.clock
  | some =>
    simp only [hgrant, run_bind_revocationRecord] at h
    cases hrev : L.revocations revoke.grant with
    | some =>
      rw [hrev] at h
      cases h
      exact .quiet rfl L.clock
    | none =>
      simp only [hrev, run_bind_appendAudit, run_bind_now, run_bind_put, run_pure] at h
      obtain ⟨⟨hroom, hlive⟩, -, h⟩ := h
      cases h
      exact .revokeGrant revoke _ _ _ (by rw [hgrant]; rfl) hrev ⟨hroom, hlive⟩

/-- The parent check reads one session and writes nothing. -/
theorem run_parentMissing {parent : Option SessionId} {missing : Bool} {mid : Custody C}
    (h : L.run (Tx.parentMissing parent) = .ok (missing, mid)) :
    mid = L ∧ (missing = false → ∀ q ∈ parent, (L.sessions q).isSome) := by
  cases parent with
  | none =>
    cases h
    exact ⟨rfl, by simp⟩
  | some =>
    simp only [Tx.parentMissing, run_bind_sessionRecord, run_pure] at h
    cases h
    simp [Option.isSome_iff_ne_none]

theorem openSession_write {t : Transaction C} {new : NewSession} {parent : Option SessionId}
    (ht : t.opens = some (new, parent)) {x : Option SessionOpened × Custody C}
    (h : L.run (Tx.openSession new parent) = .ok x) : L.Write t x.2 := by
  simp only [Tx.openSession, run_bind_profile, run_bind_expect] at h
  obtain ⟨p, hp, h⟩ := h
  obtain ⟨missing, mid, hmissing, h⟩ := run_bind_ok.mp h
  obtain ⟨rfl, hparent⟩ := run_parentMissing hmissing
  cases missing with
  | true =>
    cases h
    exact .quiet (Transaction.repeatable_of_opens ht) mid.clock
  | false =>
    simp only [Bool.false_eq_true, if_false, run_bind_sessionRecord] at h
    cases hsession : mid.sessions new.session with
    | some =>
      simp only [hsession, run_bind_guard, run_pure] at h
      cases h.2
      exact .quiet (Transaction.repeatable_of_opens ht) mid.clock
    | none =>
      simp only [hsession, run_bind_now, run_bind_put, run_bind_appendAudit, run_pure] at h
      obtain ⟨-, ⟨hroom, hlive⟩, h⟩ := h
      cases h
      exact .openSession new parent _ _ _ ht (hparent rfl) hsession ⟨hroom, hlive⟩

/-! ## Beginning an invocation -/

/-- Moving ledgers in a transaction moves them in the book and touches nothing else. -/
theorem run_moveLedgers_ok {move : Cost → Except AuthzError Cost} {ids : List LedgerRef}
    {x : Unit × Custody C} :
    L.run (Tx.moveLedgers move ids) = .ok x ↔
      ∃ b, L.toBook.moveLedgers move ids = .ok b ∧ x = ((), { L with toBook := b }) := by
  induction ids generalizing L with
  | nil =>
    simp only [Tx.moveLedgers, run_pure, Book.moveLedgers, Except.ok.injEq, exists_eq_left']
    exact eq_comm
  | cons _ _ ih =>
    simp only [Tx.moveLedgers, run_bind_ledger, run_bind_decide, Tx.putLedger, run_bind_put, ih,
      Book.moveLedgers, bind_eq_ok]
    constructor
    · rintro ⟨used, hused, -, b, hb, rfl⟩
      exact ⟨b, ⟨used, hused, hb⟩, rfl⟩
    · rintro ⟨b, ⟨used, hused, hb⟩, rfl⟩
      exact ⟨used, hused, C.encodedLen_ledger _, b, hb, rfl⟩

theorem run_sessionOwnerShredded {session : Option SessionId}
    (h : L.run (Tx.sessionOwnerShredded session) = .ok x) :
    x.2 = L ∧ (x.1 = false → ∀ s ∈ session, ∀ r ∈ L.sessions s, L.tombstones r.owner = none) := by
  cases session with
  | none =>
    cases h
    exact ⟨rfl, by simp⟩
  | some s =>
    simp only [Tx.sessionOwnerShredded, run_bind_sessionRecord] at h
    cases hr : L.sessions s with
    | none =>
      rw [hr] at h
      cases h
      exact ⟨rfl, by simp [hr]⟩
    | some =>
      simp only [hr, run_bind_tombstone, run_pure] at h
      cases h
      refine ⟨rfl, ?_⟩
      intro hnot s' hs' r' hr'
      cases hs'
      rw [hr] at hr'
      cases hr'
      simpa using hnot

end Custody

/-- What `begin` does and answers. -/
inductive Begun (L : Custody C) (intent : Intent C) : Begin → Custody C → Prop
  | persisted {charged : Book C} (chain : List GrantId) (plan : ReservationPlan)
      (decided now : Timestamp) (clock : Nat → Timestamp)
      (hadmits : L.Admits intent chain plan decided charged) :
      Begun L intent (.persisted (intent.fresh chain plan now).status) { L with
        toBook := charged.persisted intent (intent.fresh chain plan now)
        clock := clock }
  | replayed (idem : IdemRecord C.Block) (r : InvocationRecord)
      (hkey : L.idem intent.slot =
        some idem)
      (hbinding : idem.requestBinding = requestBinding intent)
      (hr : L.invocations idem.invocation = some r) :
      Begun L intent (.replayed r.status) L
  | conflict (idem : IdemRecord C.Block)
      (hkey : L.idem intent.slot =
        some idem)
      (hbinding : idem.requestBinding ≠ requestBinding intent) : Begun L intent .conflict L
  | refused (failure : Failure) (entry : AuditEntry) (time : Timestamp) (clock : Nat → Timestamp)
      (hkey : L.idem intent.slot = none)
      (hentry : (Transaction.begin intent).denial failure = some entry)
      (haudit : L.CanAudit entry.tenant) :
      Begun L intent (.refused failure L.nextSeq) { L.recorded entry time with clock := clock }

/-- What `begin` did after a reading of the clock. -/
theorem Begun.of_tick {intent : Intent C} {out : Begin} (hkey : L.idem intent.slot = none)
    (h : Begun L.tick intent out L') : Begun L intent out L' := by
  cases h with
  | persisted chain plan decided now clock hadmits =>
    exact .persisted chain plan decided now clock hadmits
  | replayed idem r hbound | conflict idem hbound =>
    rw [show L.tick.idem = L.idem from rfl, hkey] at hbound
    cases hbound
  | refused failure entry time clock hkey hentry haudit =>
    exact .refused failure entry time clock hkey hentry ⟨haudit.room, haudit.live⟩

namespace Custody

variable {L : Custody C} {x : Begin × Custody C}

theorem refuse_begun {intent : Intent C} {failure : Failure} (hkey : L.idem intent.slot = none)
    (h : L.run (Tx.refuse intent failure) = .ok x) : Begun L intent x.1 x.2 := by
  simp only [Tx.refuse, run_bind_appendAudit, run_pure] at h
  obtain ⟨⟨hroom, hlive⟩, h⟩ := h
  cases h
  exact .refused failure _ _ _ hkey rfl ⟨hroom, hlive⟩

theorem replay_begun {intent : Intent C} {idem : IdemRecord C.Block} (hkey : L.idem intent.slot =
      some idem) (h : L.run (Tx.replay intent idem) = .ok x) : Begun L intent x.1 x.2 := by
  unfold Tx.replay at h
  by_cases hbinding : idem.requestBinding = requestBinding intent
  · simp only [hbinding, if_true, run_bind_invocationRecord, run_bind_expect, run_pure] at h
    obtain ⟨r, hr, h⟩ := h
    cases h
    exact .replayed idem r hkey hbinding hr
  · simp only [hbinding, if_false, run_pure] at h
    cases h
    exact .conflict idem hkey hbinding

theorem persist_begun {intent : Intent C} {chain : List GrantId} {plan : ReservationPlan}
    {decided : Timestamp} (hadmits : ∀ charged, L.moveLedgers (fun used => reserve used plan.cost)
      (plan.ledgers.map LedgerRef.fromLedgerId) = .ok charged →
      L.Admits intent chain plan decided charged)
    (h : L.run (Tx.persist intent ⟨intent.authz.tenant⟩ chain plan) = .ok x) :
    Begun L intent x.1 x.2 := by
  unfold Tx.persist at h
  obtain ⟨r, mid, hintent, h⟩ := run_bind_ok.mp h
  unfold Tx.intentRecord at hintent
  obtain ⟨ledgers, charged, hdebit, hintent⟩ := run_bind_ok.mp hintent
  unfold Tx.debitReservation at hdebit
  obtain ⟨u, moved, hmoved, hdebit⟩ := run_bind_ok.mp hdebit
  obtain ⟨b, hb, hx⟩ := run_moveLedgers_ok.mp hmoved
  cases hx
  cases hdebit
  simp only [run_bind_now, run_pure] at hintent
  cases hintent
  simp only [Tx.putInvocation, run_bind_put, run_bind_putSealed, run_pure] at h
  cases h.2.2
  exact .persisted chain plan decided _ _ (hadmits b hb)

theorem decideIntent_begun {intent : Intent C} (hlive : (L.profiles intent.authz.tenant).isSome)
    (hkey : L.idem intent.slot = none)
    (h : L.run (Tx.decideIntent intent ⟨intent.authz.tenant⟩) = .ok x) :
    Begun L intent x.1 x.2 := by
  simp only [Tx.decideIntent, run_bind_invocationRecord, run_bind_guard, run_bind_view,
    run_bind_now, run_bind_decide, Option.isNone_iff_eq_none] at h
  obtain ⟨hnew, decision, hauth, h⟩ := h
  refine .of_tick hkey ?_
  cases decision with
  | allowed =>
    obtain ⟨shredded, mid, hshredded, h⟩ := run_bind_ok.mp h
    obtain ⟨hmid, hsession⟩ := run_sessionOwnerShredded hshredded
    have hmid : mid = L.tick := hmid
    subst hmid
    cases shredded with
    | true => exact refuse_begun hkey h
    | false =>
      exact persist_begun (fun charged hdebit => ⟨hlive, hkey, hnew, hauth, hsession rfl, hdebit⟩) h
  | denied code | budgetExceeded d | notFoundOrDenied => exact refuse_begun hkey h

theorem begin_begun {intent : Intent C} (h : L.run (Tx.begin intent) = .ok x) :
    Begun L intent x.1 x.2 := by
  simp only [Tx.begin, run_bind_tenantKeys] at h
  obtain ⟨hlive, h⟩ := h
  obtain ⟨idem, mid, hidem, h⟩ := run_bind_ok.mp h
  rw [run_sealedRecord_ok L (x := L.idem intent.slot) rfl] at hidem
  cases hidem.2
  cases hkey : L.idem intent.slot with
  | some =>
    rw [hkey] at h
    exact replay_begun hkey h
  | none =>
    rw [hkey] at h
    exact decideIntent_begun hlive hkey h

end Custody

theorem Begun.write {intent : Intent C} {out : Begin} (h : Begun L intent out L') :
    L.Write (.begin intent) L' := by
  cases h with
  | persisted chain plan decided now clock hadmits =>
    exact .begin intent chain plan decided now clock hadmits
  | replayed | conflict => exact .quiet rfl L.clock
  | refused failure entry time clock _ hentry haudit =>
    exact .refuse failure entry time clock hentry haudit

namespace Custody

variable {L : Custody C} {x : InvocationStatus × Custody C}
  {apply : InvocationRecord → Tx C InvocationRecord}

/-! ## Transitions -/

theorem run_bind_existingInvocation {β : Type} {id : InvocationId} {f : InvocationRecord → Tx C β}
    {x : β × Custody C} :
    L.run (Tx.existingInvocation id >>= f) = .ok x ↔
      ∃ r, L.invocations id = some r ∧ L.run (f r) = .ok x := by
  refine run_bind_of_exists fun y => ?_
  rw [Tx.existingInvocation, run_bind_invocationRecord, run_expect_ok]

/-- A terminal state is audited, from the terminal record that matches it. -/
theorem run_auditTerminal_ok {r : InvocationRecord} {x : Unit × Custody C} :
    L.run (Tx.auditTerminal r) = .ok x ↔
      (r.state.isTerminal = false ∧ x = ((), L)) ∨
      (r.state.isTerminal = true ∧ ∃ terminal, r.terminal = some terminal ∧
        terminal.state = r.state ∧ L.lastSeq + 1 < 2 ^ 64 ∧ (L.profiles r.tenant).isSome ∧
        x = ((), L.appended (terminalEntry r terminal))) := by
  unfold Tx.auditTerminal
  cases hterm : r.state.isTerminal with
  | false =>
    simp only [Bool.false_eq_true, if_false, run_pure, Except.ok.injEq, true_and, false_and,
      or_false]
    exact eq_comm
  | true =>
    simp only [if_true, run_bind_expect, run_bind_appendAudit, run_pure, Except.ok.injEq,
      Option.filter_eq_some_iff, decide_eq_true_eq, true_and, Bool.true_eq_false, false_and,
      false_or]
    constructor
    · rintro ⟨terminal, ⟨hsome, hstate⟩, ⟨hseq, hlive⟩, rfl⟩
      exact ⟨terminal, hsome, hstate, hseq, hlive, rfl⟩
    · rintro ⟨terminal, hsome, hstate, hseq, hlive, rfl⟩
      exact ⟨terminal, ⟨hsome, hstate⟩, ⟨hseq, hlive⟩, rfl⟩

/-- Everything a transition reads and writes, in order. -/
theorem run_transition_ok {id : InvocationId} {step : Step} :
    L.run (Tx.transition id step apply) = .ok x ↔
      ∃ r next applied mid audited, L.invocations id = some r ∧
        nextState r.state step = .ok next ∧ L.run (apply r) = .ok (applied, mid) ∧
        mid.tick.run (Tx.auditTerminal (applied.moved next (mid.clock 0))) =
          .ok ((), audited) ∧
        C.encodedLen (.invocation (applied.moved next (mid.clock 0))) ≤ maxPlaintextLen ∧
        x = ((applied.moved next (mid.clock 0)).status,
          audited.put (.invocation (applied.moved next (mid.clock 0)))) := by
  simp only [Tx.transition, run_bind_existingInvocation, run_bind_decide]
  constructor
  · rintro ⟨r, hr, next, hnext, h⟩
    obtain ⟨applied, mid, happly, h⟩ := run_bind_ok.mp h
    rw [run_bind_now] at h
    obtain ⟨u, audited, haudit, h⟩ := run_bind_ok.mp h
    simp only [Tx.putInvocation, run_bind_put, run_pure] at h
    obtain ⟨hlen, h⟩ := h
    exact ⟨r, next, applied, mid, audited, hr, hnext, happly, haudit, hlen,
      (Except.ok.inj h).symm⟩
  · rintro ⟨r, next, applied, mid, audited, hr, hnext, happly, haudit, hlen, rfl⟩
    refine ⟨r, hr, next, hnext, ?_⟩
    rw [run_bind_of_ok happly, run_bind_now, run_bind_of_ok haudit]
    exact run_bind_put.mpr ⟨hlen, rfl⟩

/-- A transition to an open state audits nothing. -/
theorem transition_open {id : InvocationId} {step : Step}
    (h : L.run (Tx.transition id step apply) = .ok x)
    (hopen : ∀ source next, stepTarget source step = some next → next.isTerminal = false) :
    ∃ r next applied mid, L.invocations id = some r ∧ stepTarget r.state step = some next ∧
      L.run (apply r) = .ok (applied, mid) ∧
      x.2 = mid.tick.put (.invocation (applied.moved next (mid.clock 0))) := by
  obtain ⟨r, next, applied, mid, audited, hr, hnext, happly, haudit, -, rfl⟩ :=
    run_transition_ok.mp h
  have hnext := nextState_eq_ok.mp hnext
  refine ⟨r, next, applied, mid, hr, hnext, happly, ?_⟩
  rcases run_auditTerminal_ok.mp haudit with ⟨-, heq⟩ | ⟨hterm, -⟩
  · cases heq
    rfl
  · have hterm : next.isTerminal = true := hterm
    rw [hopen _ _ hnext] at hterm
    cases hterm

theorem dispatch_write {id : InvocationId} (h : L.run (Tx.dispatch id) = .ok x) :
    L.Write (.dispatch id) x.2 := by
  obtain ⟨r, next, applied, mid, hr, hnext, happly, hx⟩ :=
    transition_open h fun source next hnext => by
    rw [(stepTarget_dispatch hnext).2]
    rfl
  cases happly
  have hstep := stepTarget_dispatch hnext
  rw [hx, hstep.2]
  exact .dispatch id r _ _ hr hstep.1

/-- Storing an envelope that is there already does nothing. -/
theorem run_storeBlob_ok {tenant : TenantId} {envelope : Bytes} {x : Unit × Custody C}
    (h : L.run (Tx.storeBlob ⟨tenant⟩ ((L.address tenant).blobAddress envelope) envelope) = .ok x) :
    x.2 = { L with blobs := L.withBlob tenant envelope } := by
  unfold Tx.storeBlob at h
  obtain ⟨present, mid, hpresent, h⟩ := run_bind_ok.mp h
  simp only [run_perform, handler, bind_checkLive_ok] at hpresent
  cases hpresent.2
  have hsealed : (L.sealed tenant (.blob ((L.address tenant).blobAddress envelope))).isSome =
      (L.blobs (tenant, (L.address tenant).blobAddress envelope)).isSome := Option.isSome_map
  simp only [hsealed] at h
  unfold withBlob
  cases hfound : (L.blobs (tenant, (L.address tenant).blobAddress envelope)).isSome with
  | true =>
    rw [hfound] at h
    cases h
    simp only [hfound, if_true]
  | false =>
    rw [hfound] at h
    obtain ⟨-, -, rfl⟩ := (run_putSealed_ok L).mp h
    simp only [hfound, Bool.false_eq_true, if_false]
    rfl

theorem completeTransfer_write {id : InvocationId} {transfer : Transfer}
    (h : L.run (Tx.completeTransfer id transfer) = .ok x) :
    L.Write (.completeTransfer id transfer) x.2 := by
  obtain ⟨r, next, applied, mid, hr, hnext, happly, hx⟩ :=
    transition_open h fun source next hnext => by
    rw [(stepTarget_completeTransfer hnext).2]
    rfl
  have hstep := stepTarget_completeTransfer hnext
  simp only [Tx.stageTransfer, run_bind_tenantKeys] at happly
  obtain ⟨hlive, happly⟩ := happly
  obtain ⟨address, L₁, haddress, happly⟩ := run_bind_ok.mp happly
  simp only [run_perform, handler, bind_checkLive_ok] at haddress
  cases haddress.2
  obtain ⟨u, L₂, hblob, happly⟩ := run_bind_ok.mp happly
  have hblob : L₂ = { L with blobs := L.withBlob r.tenant transfer.envelope } :=
    run_storeBlob_ok hblob
  simp only [run_bind_putSealed, run_pure] at happly
  cases happly.2
  rw [hx, hstep.2, hblob]
  exact .completeTransfer id r transfer _ _ hr hstep.1 hlive

theorem run_indexArtifact_ok {r : InvocationRecord} {artifact : ArtifactRef} {now : Timestamp}
    {x : Unit × Custody C} (h : L.run (Tx.indexArtifact r artifact now r.session) = .ok x) :
    x.2 = { L with sessionIndex := L.withIndex r artifact now } ∧
      ∀ session ∈ r.session, ∃ sr, L.sessions session = some sr ∧ (L.profiles sr.owner).isSome := by
  unfold withIndex
  cases hsession : r.session with
  | none =>
    rw [hsession] at h
    cases h
    exact ⟨rfl, fun _ hs => by cases hs⟩
  | some =>
    rw [hsession] at h
    simp only [Tx.indexArtifact, run_bind_sessionRecord, run_bind_expect, run_bind_tenantKeys] at h
    obtain ⟨sr, hsr, hlive, h⟩ := h
    obtain ⟨-, -, rfl⟩ := (run_putSealed_ok L).mp h
    refine ⟨?_, ?_⟩
    · simp only [hsr]
      rfl
    · rintro _ ⟨⟩
      exact ⟨sr, hsr, hlive⟩

theorem publish_write {id : InvocationId} (h : L.run (Tx.publish id) = .ok x) :
    L.Write (.publish id) x.2 := by
  obtain ⟨r, next, applied, mid, hr, hnext, happly, hx⟩ :=
    transition_open h fun source next hnext => by
    rw [(stepTarget_publish hnext).2]
    rfl
  have hstep := stepTarget_publish hnext
  simp only [Tx.stagePublish, run_bind_tenantKeys] at happly
  obtain ⟨hlive, happly⟩ := happly
  obtain ⟨pending, L₁, hpending, happly⟩ := run_bind_ok.mp happly
  rw [run_sealedRecord_ok L (x := L.pending (r.tenant, r.id)) rfl] at hpending
  cases hpending.2
  simp only [run_bind_expect] at happly
  obtain ⟨a, ha, happly⟩ := happly
  obtain ⟨found, L₂, hfound, happly⟩ := run_bind_ok.mp happly
  cases hfound
  simp only [run_bind_guard, run_bind_now, run_bind_putSealed] at happly
  obtain ⟨hnew, -, happly⟩ := happly
  obtain ⟨u, L₃, hremove, happly⟩ := run_bind_ok.mp happly
  simp only [run_perform, handler, bind_checkLive_ok] at hremove
  cases hremove.2
  simp only [run_bind_put] at happly
  obtain ⟨u, L₄, hindex, happly⟩ := run_bind_ok.mp happly.2
  cases happly
  have hlocator : L.locators a.artifact = none := by
    simpa [Custody.global] using hnew
  obtain ⟨hmid, howner⟩ := run_indexArtifact_ok hindex
  dsimp only at hmid
  rw [hx, hstep.2, hmid]
  exact .publish id r a _ _ _ hr hstep.1 ha hlocator hlive howner

/-- A transition that pays back part of the reservation finishes the invocation. -/
theorem finish_write {t : Transaction C} {id : InvocationId} {step : Step}
    (ht : t.finishes = some (id, step)) (h : L.run (Tx.transition id step apply) = .ok x)
    (hclosed : ∀ source next, stepTarget source step = some next → next.isTerminal = true)
    (happly : ∀ r y, L.run (apply r) = .ok y → ∃ actual terminal settlement,
      t.Ends r actual terminal settlement ∧
      L.run (Tx.applySettlement { r with actual := actual, terminal := some terminal } settlement) =
        .ok y) : L.Write t x.2 := by
  obtain ⟨r, next, applied, mid, audited, hr, hnext, hrun, haudit, -, rfl⟩ :=
    run_transition_ok.mp h
  obtain ⟨actual, terminal, settlement, hends, hrun⟩ := happly r _ hrun
  unfold Tx.applySettlement at hrun
  obtain ⟨u, paid, hpaid, hrun⟩ := run_bind_ok.mp hrun
  obtain ⟨b, hb, hx⟩ := run_moveLedgers_ok.mp hpaid
  cases hx
  cases hrun
  have hterm := hclosed _ _ (nextState_eq_ok.mp hnext)
  obtain ⟨f, hframe, -⟩ := Book.moveLedgers_frame hb
  rcases run_auditTerminal_ok.mp haudit with ⟨hnot, -⟩ | ⟨-, t', ht', hstate, hroom, hlive, heq⟩
  · have hnot : next.isTerminal = false := hnot
    rw [hterm] at hnot
    cases hnot
  · cases ht'
    cases heq
    refine .finish id r step next terminal settlement actual _ _ _ ht hr hnext hstate hends hb
      ⟨hroom, ?_⟩
    rw [hframe] at hlive
    exact hlive

theorem settle_write {id : InvocationId} {outcome : SettleOutcome}
    (h : L.run (Tx.settle id outcome) = .ok x) : L.Write (.settle id outcome) x.2 := by
  refine finish_write rfl h ?_ ?_
  · intro source next hnext
    rw [(stepTarget_settle hnext).2]
    rfl
  · intro r y hy
    simp only [Tx.stageSettle, run_bind_ofExcept] at hy
    obtain ⟨amount, hamount, settlement, hsettlement, hy⟩ := hy
    exact ⟨_, _, settlement, ⟨amount, hamount, rfl, rfl, hsettlement⟩, hy⟩

theorem release_write {id : InvocationId} {reason : ReleaseReason}
    (h : L.run (Tx.release id reason) = .ok x) : L.Write (.release id reason) x.2 := by
  refine finish_write rfl h ?_ fun r y hy => ⟨_, _, _, ⟨rfl, rfl, rfl⟩, hy⟩
  intro source next hnext
  rw [(stepTarget_release hnext).2]
  rfl

theorem markUnknownEffect_write {id : InvocationId} (h : L.run (Tx.markUnknownEffect id) = .ok x) :
    L.Write (.markUnknownEffect id) x.2 := by
  refine finish_write rfl h ?_ fun r y hy => ⟨_, _, _, ⟨rfl, rfl, rfl⟩, hy⟩
  intro source next hnext
  rw [(stepTarget_markUnknownEffect hnext).2]
  rfl

/-- **What a transaction that succeeds wrote.** -/
theorem transact_write (t : Transaction C) {r : t.Reply × Custody C}
    (h : L.run t.program = .ok r) : L.Write t r.2 := by
  cases t with
  | installRootGrant => exact installRootGrant_write h
  | issueGrant => exact issueGrant_write h
  | revokeGrant => exact revokeGrant_write h
  | createSession =>
    obtain ⟨opened, mid, hopen, hreply⟩ := run_bind_ok.mp h
    cases hreply
    exact openSession_write rfl hopen
  | forkSession => exact openSession_write rfl h
  | begin => exact (begin_begun h).write
  | dispatch => exact dispatch_write h
  | completeTransfer => exact completeTransfer_write h
  | publish => exact publish_write h
  | settle => exact settle_write h
  | release => exact release_write h
  | markUnknownEffect => exact markUnknownEffect_write h
  | recordAudit note =>
    obtain ⟨hroom, hlive, rfl⟩ := (run_appendAudit_ok L).mp h
    rw [note.entry_tenant] at hlive
    exact .recordAudit note _ _ ⟨hroom, hlive⟩

theorem settlementOf_splits {reserved actual : Cost} {settlement : Settlement}
    (h : Tx.settlementOf reserved actual = .ok settlement) : settlement.Splits reserved := by
  unfold Tx.settlementOf Dioptron.settle at h
  cases hover : Dimension.all.find? fun d => decide (reserved.get d < actual.get d) with
  | none =>
    rw [hover] at h
    cases h
    exact clampedSettlement_splits reserved actual
  | some =>
    rw [hover] at h
    cases h
    exact clampedSettlement_splits reserved actual

end Custody

namespace Transaction.Ends

variable {r : InvocationRecord} {actual : Option Cost} {terminal : Terminal}
  {settlement : Settlement} {t : Transaction C}

/-- An ending divides the reservation. -/
theorem splits (h : t.Ends r actual terminal settlement) : settlement.Splits r.reserved := by
  cases t with
  | settle =>
    obtain ⟨amount, -, -, -, hsettlement⟩ := h
    exact Custody.settlementOf_splits hsettlement
  | release =>
    obtain ⟨-, -, rfl⟩ := h
    intro d
    simp
  | markUnknownEffect =>
    obtain ⟨-, -, rfl⟩ := h
    exact unknownEffectSettlement_splits r.reserved
  | _ => exact h.elim

/-- An ending is a success exactly for a published capture. -/
theorem success (h : t.Ends r actual terminal settlement) {id : InvocationId} {step : Step}
    {next : InvocationState} (ht : t.finishes = some (id, step))
    (hnext : nextState r.state step = .ok next) :
    terminal = .settled none ↔ r.state = .published := by
  have htarget := nextState_eq_ok.mp hnext
  cases t with
  | settle =>
    obtain ⟨amount, hamount, -, rfl, -⟩ := h
    unfold Tx.settledAmount at hamount
    split at hamount
    · obtain ⟨c, -, hc⟩ := bind_eq_ok.mp hamount
      cases hc
      simp_all
    · obtain ⟨u, -, hc⟩ := bind_eq_ok.mp hamount
      cases hc
      simp_all
    · cases hamount
  | release =>
    obtain ⟨-, rfl, -⟩ := h
    cases ht
    have hsource := (stepTarget_release htarget).1
    constructor
    · intro hsettled
      cases hsettled
    · intro hstate
      rw [hstate] at hsource
      rcases hsource with hsource | hsource <;> cases hsource
  | markUnknownEffect =>
    obtain ⟨-, rfl, -⟩ := h
    cases ht
    have hsource := (stepTarget_markUnknownEffect htarget).1
    constructor
    · intro hsettled
      cases hsettled
    · intro hstate
      rw [hstate] at hsource
      cases hsource
  | _ => exact h.elim

end Transaction.Ends

/-- **A write leaves the book alone or takes one step.** -/
theorem Custody.Write.book {t : Transaction C} (h : L.Write t L') :
    ReflGen Book.Step L.toBook L'.toBook := by
  cases h with
  | quiet | refuse | recordAudit => exact .refl
  | installRootGrant root grant _ hgrant hholder hnew =>
    exact .single (.install root grant hgrant hholder hnew)
  | issueGrant issue child decided _ _ hissue hnew =>
    exact .single (.issue issue.context issue.request child decided hissue hnew)
  | revokeGrant _ _ _ _ hgrant hnew => exact .single (.revoke _ hgrant hnew)
  | openSession _ _ _ _ _ _ hparent hnew haudit =>
    exact .single (.openSession _ haudit.live hparent hnew)
  | begin intent chain plan decided now _ hadmits =>
    exact .single (.persist intent chain plan decided now hadmits)
  | dispatch id r now _ hr hstate => exact .single (.dispatch id r now hr hstate)
  | completeTransfer id r transfer now _ hr hstate =>
    exact .single (.transfer id r transfer _ now hr hstate)
  | publish id r a published now _ hr hstate ha hnew =>
    exact .single (.publish id r a published now hr hstate ha hnew)
  | finish id r step next terminal settlement actual now _ _ ht hr hnext hterminal hends hpaid =>
    exact .single (.finish id r step next terminal settlement actual now hr hnext hterminal
      hends.splits (hends.success ht hnext) hpaid)

end Dioptron
