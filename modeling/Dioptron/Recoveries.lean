import Dioptron.Visibility

/-! # Recovery closes every invocation

Each recovery transaction moves an open invocation towards the end its last durable
boundary calls for (`InvocationRecord.Recovers`), so a recovery that was cut off by a
crash, any number of times, has only done part of what the next one finishes.  An open
invocation has everything its recovery reads: a live tenant and session owner, a pending
record when its transfer is complete, and a balance on each of its ledgers.
-/
namespace Dioptron

open Relation (ReflTransGen)

variable {C : Crypto}

/-- The transactions that carry out a recovery action. -/
def RecoveryAction.transactions (id : InvocationId) : RecoveryAction → List (Transaction C)
  | .releaseAbandoned => [.release id .abandoned]
  | .markUnknownEffect => [.markUnknownEffect id]
  | .rollForwardPublish => [.publish id, .settle id .success]
  | .rollForwardSettle => [.settle id .success]

namespace Store

/-- Commits transactions in order, up to the first that fails. -/
def commitAll : List (Transaction C) → Store C → Except Error (Store C)
  | [], s => .ok s
  | t :: rest, s => do commitAll rest (← s.commit t.program).2

theorem commitAll_cons {s s' : Store C} {t : Transaction C} {ts : List (Transaction C)}
    {reply : t.Reply} (h : s.commit t.program = .ok (reply, s')) :
    s.commitAll (t :: ts) = s'.commitAll ts := by
  rw [commitAll, h]
  rfl

theorem recoverOne_eq (s : Store C) (id : InvocationId) (action : RecoveryAction) :
    s.recoverOne id action = s.commitAll (action.transactions id) := by
  cases action <;> rfl

end Store

/-- A recovery that a crash cut off after some of its transactions, and a restart. -/
def World.Interrupted (w w' : World C) : Prop :=
  ∃ todo k s nonce clock, w.store.openInvocations = .ok todo ∧
    w.store.commitAll ((todo.flatMap fun x => x.2.transactions x.1).take k) = .ok s ∧
    w' = ⟨{ s with nonce := nonce, clock := clock }, w.drawn⟩

/-- What recovery does to an invocation: nothing, or it brings it nearer to the end that its
last durable boundary calls for. -/
def InvocationRecord.Recovers (r r' : InvocationRecord) : Prop :=
  r.SameCall r' ∧ (r' = r ∨ match r.state with
    | .intentPersisted => r'.state = .released ∧ r'.terminal = some (.released .abandoned) ∧
        r'.debited = some Cost.zero
    | .dispatched => r'.state = .unknownEffect ∧ r'.terminal = some .unknownEffect ∧
        r'.debited = some r.reserved
    | .transferComplete => r'.state = .published ∨
        r'.state = .settled ∧ r'.terminal = some (.settled none)
    | .published => r'.state = .settled ∧ r'.terminal = some (.settled none)
    | _ => False)

namespace InvocationRecord.Recovers

theorem refl (r : InvocationRecord) : r.Recovers r := ⟨.refl r, .inl rfl⟩

theorem trans {r r' r'' : InvocationRecord} (h : r.Recovers r') (h' : r'.Recovers r'') :
    r.Recovers r'' := by
  obtain ⟨hsame, rfl | hmove⟩ := h
  · exact h'
  obtain ⟨hsame', rfl | hmove'⟩ := h'
  · exact ⟨hsame, .inr hmove⟩
  refine ⟨hsame.trans hsame', .inr ?_⟩
  -- Only a publication is followed by another move.
  cases hstate : r.state <;> simp only [hstate] at hmove ⊢
  case transferComplete =>
    rcases hmove with hpublished | ⟨hsettled, -⟩
    · simp only [hpublished] at hmove'
      exact .inr hmove'
    · simp only [hsettled] at hmove'
  case intentPersisted | dispatched | published => simp only [hmove.1] at hmove'

end InvocationRecord.Recovers

/-- The transactions recovery uses on the invocation `id`. -/
inductive Transaction.Recovery (id : InvocationId) : Transaction C → Prop
  | release : Recovery id (.release id .abandoned)
  | markUnknownEffect : Recovery id (.markUnknownEffect id)
  | publish : Recovery id (.publish id)
  | settle : Recovery id (.settle id .success)

theorem RecoveryAction.recovery_of_mem {action : RecoveryAction} {id : InvocationId}
    {t : Transaction C} (h : t ∈ action.transactions id) : t.Recovery id := by
  cases action with
  | releaseAbandoned =>
    obtain rfl := List.mem_singleton.mp h
    exact .release
  | markUnknownEffect =>
    obtain rfl := List.mem_singleton.mp h
    exact .markUnknownEffect
  | rollForwardPublish =>
    rcases List.mem_cons.mp h with rfl | h
    · exact .publish
    · obtain rfl := List.mem_singleton.mp h
      exact .settle
  | rollForwardSettle =>
    obtain rfl := List.mem_singleton.mp h
    exact .settle

namespace Custody

variable {L L' : Custody C} {r : InvocationRecord}

/-- Only an intent is abandoned. -/
theorem state_of_abandoned {state next : InvocationState}
    (h : nextState state (.release .abandoned) = .ok next) : state = .intentPersisted := by
  have htarget := nextState_eq_ok.mp h
  cases state <;> first | rfl | cases htarget

/-- Only a dispatched call has an unknown effect. -/
theorem state_of_unknownEffect {state next : InvocationState}
    (h : nextState state .markUnknownEffect = .ok next) : state = .dispatched := by
  have htarget := nextState_eq_ok.mp h
  cases state <;> first | rfl | cases htarget

/-- Only a published capture settles as a success. -/
theorem settledAmount_success {amount : Cost × Option Failure}
    (h : Tx.settledAmount r .success = .ok amount) : r.state = .published ∧ amount.2 = none := by
  unfold Tx.settledAmount at h
  cases hstate : r.state <;> rw [hstate] at h
  case published =>
    obtain ⟨actual, -, hamount⟩ := bind_eq_ok.mp h
    cases hamount
    exact ⟨rfl, rfl⟩
  all_goals cases h

/-- **What a recovery transaction does**: it moves its invocation along, adds at most one
audit entry, and nobody is registered or shredded. -/
structure RecoveryStep (L L' : Custody C) (id : InvocationId) (r r' : InvocationRecord) : Prop where
  before : L.invocations id = some r
  recovers : r.Recovers r'
  moved : r'.state ≠ r.state
  after : L'.invocations = Function.update L.invocations id (some r')
  lastSeq : L'.lastSeq ≤ L.lastSeq + 1
  profiles : L'.profiles = L.profiles
  tombstones : L'.tombstones = L.tombstones

theorem recorded_lastSeq_le (L : Custody C) (entry : AuditEntry) (time : Timestamp) :
    (L.recorded entry time).lastSeq ≤ L.lastSeq + 1 := by
  show max L.lastSeq L.nextSeq.toNat ≤ L.lastSeq + 1
  have hseq : L.nextSeq.toNat ≤ L.lastSeq + 1 := by
    rw [nextSeq, UInt64.toNat_ofNat']
    exact Nat.mod_le _ _
  omega

theorem Write.recovery {t : Transaction C} {id : InvocationId} (h : L.Write t L')
    (ht : t.Recovery id) (hnamed : L.InvocationsNamed) : ∃ r r', L.RecoveryStep L' id r r' := by
  cases h with
  | publish _ r _ _ now _ hr hstate =>
    cases ht
    obtain rfl := hnamed id r hr
    refine ⟨r, r.moved .published now, ⟨hr, ⟨⟨rfl, rfl, rfl, rfl, rfl, rfl, rfl, rfl⟩, .inr ?_⟩, ?_,
      rfl, Nat.le_succ _, rfl, rfl⟩⟩
    · simp only [hstate]
      exact .inl rfl
    · rw [hstate]
      exact nofun
  | finish id₀ r step next terminal settlement actual now time clock hfinish hr
    hnext hterminal hends
      hpaid haudit =>
    obtain rfl : id₀ = id := by
      cases ht <;> cases hfinish <;> rfl
    obtain rfl := hnamed id₀ r hr
    obtain ⟨f, rfl, -⟩ := Book.moveLedgers_frame hpaid
    have hmoved : next ≠ r.state := by
      rintro rfl
      have hopen := not_isTerminal_of_nextState hnext
      rw [← hterminal, terminal.isTerminal_state] at hopen
      cases hopen
    refine ⟨r, InvocationRecord.moved { r with
      actual := actual, terminal := some terminal, debited := some settlement.debit } next now,
      ⟨hr, ⟨⟨rfl, rfl, rfl, rfl, rfl, rfl, rfl, rfl⟩, .inr ?_⟩, hmoved, rfl,
        recorded_lastSeq_le L (terminalEntry r terminal) time, rfl, rfl⟩⟩
    cases ht with
    | release =>
      cases hfinish
      obtain ⟨-, rfl, rfl⟩ := hends
      obtain rfl := hterminal
      simp only [state_of_abandoned hnext]
      exact ⟨rfl, rfl, rfl⟩
    | markUnknownEffect =>
      cases hfinish
      obtain ⟨-, rfl, rfl⟩ := hends
      obtain rfl := hterminal
      simp only [state_of_unknownEffect hnext]
      exact ⟨rfl, rfl, rfl⟩
    | settle =>
      cases hfinish
      obtain ⟨amount, hamount, -, rfl, -⟩ := hends
      obtain ⟨hstate, hnone⟩ := settledAmount_success hamount
      obtain rfl := hterminal
      simp only [hstate, hnone]
      exact ⟨rfl, rfl⟩
    | publish => cases hfinish
  | quiet hquiet => cases ht <;> cases hquiet
  | refuse _ _ _ _ hentry => cases ht <;> cases hentry
  | openSession _ _ _ _ _ hopens => cases ht <;> cases hopens
  | _ => cases ht

/-- Every recovery transaction but a publication closes its invocation. -/
theorem RecoveryStep.closed {id : InvocationId} {r' : InvocationRecord}
    (h : L.RecoveryStep L' id r r') (hstate : r.state ≠ .transferComplete) :
    r'.state.isTerminal = true := by
  rcases h.recovers.2 with rfl | hmove
  · exact absurd rfl h.moved
  · cases hr : r.state <;> simp only [hr] at hmove
    case transferComplete => exact absurd hr hstate
    all_goals rw [hmove.1]; rfl

theorem RecoveryStep.trans {L'' : Custody C} {id : InvocationId} {r' r'' : InvocationRecord}
    (h : L.RecoveryStep L' id r r') (h' : L'.RecoveryStep L'' id r' r'')
    (hseq : L'.lastSeq = L.lastSeq) (hmoved : r''.state ≠ r.state) :
    L.RecoveryStep L'' id r r'' where
  before := h.before
  recovers := h.recovers.trans h'.recovers
  moved := hmoved
  after := by rw [h'.after, h.after, Function.update_idem]
  lastSeq := hseq ▸ h'.lastSeq
  profiles := h'.profiles.trans h.profiles
  tombstones := h'.tombstones.trans h.tombstones

/-- What a publication does to its invocation; it adds no audit entry. -/
theorem Write.publish_moved {id : InvocationId} (h : L.Write (.publish id) L')
    (hnamed : L.InvocationsNamed) :
    L'.lastSeq = L.lastSeq ∧ ∃ r', L'.invocations id = some r' ∧ r'.state = .published := by
  cases h with
  | publish id r _ _ _ _ hr =>
    obtain rfl := hnamed id r hr
    exact ⟨rfl, _, Function.update_self .., rfl⟩
  | quiet hquiet => cases hquiet
  | refuse _ _ _ _ hentry => cases hentry
  | openSession _ _ _ _ _ hopens => cases hopens
  | finish _ _ _ _ _ _ _ _ _ _ hfinish => cases hfinish

/-! ## Recovery transactions succeed -/

/-- An open invocation that can be audited can be finished by a step of the table. -/
theorem exists_finish {id : InvocationId} {step : Dioptron.Step} {next : InvocationState}
    {apply : InvocationRecord → Tx C InvocationRecord} (actual : Option Cost)
    (terminal : Terminal) (settlement : Settlement) (hconserved : L.toBook.Conserved)
    (hr : L.invocations id = some r) (hnext : nextState r.state step = .ok next)
    (hterminal : terminal.state = next) (hsplit : settlement.Splits r.reserved)
    (happly : L.run (apply r) = L.run (Tx.applySettlement
      { r with actual := actual, terminal := some terminal } settlement))
    (hlen : C.encodedLen (.invocation r) ≤ maxPlaintextLen) (haudit : L.CanAudit r.tenant) :
    ∃ x, L.run (Tx.transition id step apply) = .ok x := by
  obtain ⟨paid, hpaid, hrun⟩ := exists_applySettlement hconserved hr
    (not_isTerminal_of_nextState hnext) hsplit actual (some terminal)
  obtain ⟨f, rfl, -⟩ := Book.moveLedgers_frame hpaid
  have hclosed : next.isTerminal = true := hterminal ▸ terminal.isTerminal_state
  set applied : InvocationRecord := { r with
    actual := actual, terminal := some terminal, debited := some settlement.debit }
  set mid : Custody C := { L with toBook := { L.toBook with ledgers := f } }
  have haudited : mid.tick.run (Tx.auditTerminal (applied.moved next (mid.clock 0))) =
      .ok ((), mid.tick.appended (terminalEntry (applied.moved next (mid.clock 0)) terminal)) :=
    run_auditTerminal_ok.mpr (.inr ⟨hclosed, terminal, rfl, hterminal, haudit.room, haudit.live,
      rfl⟩)
  refine ⟨_, run_transition_ok.mpr
    ⟨r, next, applied, mid, _, hr, hnext, happly.trans hrun, haudited, ?_, rfl⟩⟩
  exact le_of_eq_of_le (C.encodedLen_invocation _ r rfl rfl) hlen

theorem exists_indexArtifact (artifact : ArtifactRef) (now : Timestamp)
    (howner : ∀ session ∈ r.session, ∃ sr, L.sessions session = some sr ∧
      (L.profiles sr.owner).isSome) :
    ∃ L', L.run (Tx.indexArtifact r artifact now r.session) = .ok ((), L') := by
  cases hsession : r.session with
  | none => exact ⟨L, rfl⟩
  | some session =>
    obtain ⟨sr, hsr, hlive⟩ := howner session hsession
    refine ⟨L.putSealed sr.owner (.sessionIndex session ⟨artifact, r.tenant, now⟩), ?_⟩
    simp only [Tx.indexArtifact, run_bind_sessionRecord, run_bind_expect, run_bind_tenantKeys]
    exact ⟨sr, hsr, hlive, (run_putSealed_ok L).mpr ⟨hlive, C.encodedLen_sessionIndex _, rfl⟩⟩

/-- A capture whose transfer is complete can be published. -/
theorem exists_publish {id : InvocationId} (hfiled : L.Filed) (hnamed : L.InvocationsNamed)
    (hattended : L.toBook.Attended) (hr : L.invocations id = some r)
    (hstate : r.state = .transferComplete) (hlen : C.encodedLen (.invocation r) ≤ maxPlaintextLen)
    (hpending : ∀ a, L.pending (r.tenant, r.id) = some a →
      C.encodedLen (.artifact a) ≤ maxPlaintextLen) : ∃ x, L.run (Tx.publish id) = .ok x := by
  have hfiles := hfiled.records id r hr
  have hopen : r.state.isTerminal = false := by rw [hstate]; rfl
  have hlive := hattended.tenant id r hr hopen
  obtain ⟨a, hstages⟩ := hfiles.staged hstate
  have hlocator : L.locators a.artifact = none := by
    rw [hstages.isFor.artifact, hnamed id r hr]
    refine hfiled.locator_eq_none hr ?_
    rintro (hnow | hnow)
    · rw [hstate] at hnow
      cases hnow
    · rw [hfiles.terminal_eq_none hopen] at hnow
      cases hnow
  have hside : C.encodedLen
    (TenantEntry.artifact { a with publishedAt := some (L.clock 0) }).plain ≤
      maxPlaintextLen := le_of_eq_of_le (C.encodedLen_artifact a _) (hpending a hstages.pending)
  -- The book once the side record, the pending record and the locator are written.
  set written : Custody C :=
    L.tick.putSealed r.tenant (.artifact { a with publishedAt := some (L.clock 0) })
  set filed : Custody C := (written.removeSealed r.tenant (.pending r.id)).put
    (.locator ⟨a.artifact, r.tenant, r.session⟩)
  obtain ⟨indexed, hindexed⟩ :=
    exists_indexArtifact (L := filed) (r := r) a.artifact (L.clock 0) (by
    intro session hsession
    obtain ⟨sr, hsr⟩ := Option.isSome_iff_exists.mp (hattended.sessions id r hr session hsession)
    exact ⟨sr, hsr, hattended.owner id r hr hopen session hsession sr hsr⟩)
  have hstage : L.run (Tx.stagePublish r) = .ok (r, indexed) := by
    have hread : L.run (Tx.sealedRecord (ArtifactRecord C.Block) ⟨r.tenant⟩ (.pending r.id)) =
        .ok (L.pending (r.tenant, r.id), L) :=
      (run_sealedRecord_ok L rfl).mpr ⟨hlive, rfl⟩
    have hfree : L.run (.perform (.contains (.locator a.artifact))) = .ok (false, L) := by
      rw [run_perform, handler, global, hlocator]
      rfl
    have hremove : written.run (.perform (.removeSealed ⟨r.tenant⟩ (.pending r.id))) =
        .ok ((), written.removeSealed r.tenant (.pending r.id)) := by
      rw [run_perform]
      exact (bind_checkLive_ok written).mpr ⟨hlive, rfl⟩
    simp only [Tx.stagePublish, run_bind_tenantKeys]
    refine ⟨hlive, ?_⟩
    rw [run_bind_of_ok hread, run_bind_expect]
    refine ⟨a, hstages.pending, ?_⟩
    rw [run_bind_of_ok hfree, run_bind_guard]
    refine ⟨Bool.false_ne_true, ?_⟩
    rw [run_bind_now, run_bind_putSealed]
    refine ⟨⟨hlive, hside⟩, ?_⟩
    rw [run_bind_of_ok hremove, run_bind_put]
    refine ⟨C.encodedLen_locator _, ?_⟩
    rw [run_bind_of_ok hindexed]
    rfl
  refine ⟨_, run_transition_ok.mpr ⟨r, .published, r, indexed, indexed.tick, hr, ?_, hstage,
    run_auditTerminal_ok.mpr (.inl ⟨rfl, rfl⟩), ?_, rfl⟩⟩
  · rw [hstate]
    rfl
  · exact le_of_eq_of_le (C.encodedLen_invocation _ r rfl rfl) hlen

/-- A published capture can be settled as a success. -/
theorem exists_settle {id : InvocationId} (hfiled : L.Filed) (hconserved : L.toBook.Conserved)
    (hr : L.invocations id = some r) (hstate : r.state = .published)
    (hlen : C.encodedLen (.invocation r) ≤ maxPlaintextLen) (haudit : L.CanAudit r.tenant) :
    ∃ x, L.run (Tx.settle id .success) = .ok x := by
  obtain ⟨hsome, -⟩ := (hfiled.records id r hr).produced (.inr (.inl hstate))
  obtain ⟨actual, hactual⟩ := Option.isSome_iff_exists.mp hsome
  obtain ⟨settlement, hsettlement⟩ := exists_settlementOf r.reserved actual
  have hamount : Tx.settledAmount r .success = .ok (actual, none) := by
    unfold Tx.settledAmount
    rw [hstate, hactual]
    rfl
  have hnext : nextState r.state .settle = .ok .settled := by rw [hstate]; rfl
  refine exists_finish (some actual) (.settled none) settlement hconserved hr hnext rfl
    (settlementOf_splits hsettlement) ?_ hlen haudit
  rw [Tx.stageSettle, run_bind_of_ok ((run_ofExcept_ok L).mpr ⟨_, hamount, rfl⟩),
    run_bind_of_ok ((run_ofExcept_ok L).mpr ⟨_, hsettlement, rfl⟩)]

end Custody

/-! ## Whole recoveries -/

namespace World.Holds

variable {w : World C} {K : KeyState C} {L : Custody C}

/-- A transaction that goes through on the book commits on the store. -/
theorem commit (h : w.Holds K L) (t : Transaction C) {x : t.Reply × Custody C}
    (hx : L.run t.program = .ok x) :
    ∃ s, w.store.commit t.program = .ok (x.1, s) ∧ World.Holds ⟨s, w.drawn⟩ K x.2 := by
  obtain ⟨s, hs, hrep⟩ := h.represents.commit_of_run hx
  exact ⟨s, hs, hrep, h.reachable.next (.transact t hx), h.drawn⟩

theorem invocation_len (h : w.Holds K L) {id : InvocationId} {r : InvocationRecord}
    (hr : L.invocations id = some r) : C.encodedLen (.invocation r) ≤ maxPlaintextLen :=
  h.represents.sized (.global (.invocation id)) _ (congrArg (Option.map Plain.invocation) hr)

/-- A recovery transaction commits when the book lets it. -/
theorem recovery (h : w.Holds K L) {t : Transaction C} {id : InvocationId} (ht : t.Recovery id)
    (hok : ∃ x, L.run t.program = .ok x) :
    ∃ reply s L' r r', w.store.commit t.program = .ok (reply, s) ∧
      World.Holds ⟨s, w.drawn⟩ K L' ∧ L.RecoveryStep L' id r r' ∧ L.Write t L' := by
  obtain ⟨x, hx⟩ := hok
  obtain ⟨s, hs, hholds⟩ := h.commit t hx
  have hwrite := Custody.transact_write t hx
  obtain ⟨r, r', hstep⟩ := hwrite.recovery ht h.reachable.named.invocations
  exact ⟨x.1, s, x.2, r, r', hs, hholds, hstep, hwrite⟩

/-- **One recovery action** closes its invocation. -/
theorem recoverOne (h : w.Holds K L) {id : InvocationId} {r : InvocationRecord}
    {action : RecoveryAction} (hr : L.invocations id = some r)
    (haction : recoveryAction r.state = some action) (hroom : L.lastSeq + 1 < 2 ^ 64) :
    ∃ s L' r', w.store.recoverOne id action = .ok s ∧ World.Holds ⟨s, w.drawn⟩ K L' ∧
      L.RecoveryStep L' id r r' ∧ r'.state.isTerminal = true := by
  have hconserved := h.reachable.conserved
  have hlen := h.invocation_len hr
  have hopen : r.state.isTerminal = false := by
    cases hstate : r.state <;> rw [hstate] at haction <;> first | rfl | cases haction
  have haudit : L.CanAudit r.tenant := ⟨hroom, h.reachable.attended.tenant id r hr hopen⟩
  -- One transaction that closes the invocation.
  have hone {t : Transaction C} (ht : t.Recovery id) (hne : r.state ≠ .transferComplete)
      (hok : ∃ x, L.run t.program = .ok x) :
      ∃ s L' r', w.store.commitAll [t] = .ok s ∧ World.Holds ⟨s, w.drawn⟩ K L' ∧
        L.RecoveryStep L' id r r' ∧ r'.state.isTerminal = true := by
    obtain ⟨reply, s, L', r₀, r', hcommit, hholds, hstep, -⟩ := h.recovery ht hok
    obtain rfl := Option.some.inj (hr.symm.trans hstep.before)
    refine ⟨s, L', r', ?_, hholds, hstep, hstep.closed hne⟩
    rw [Store.commitAll_cons hcommit]
    rfl
  rw [Store.recoverOne_eq]
  cases hstate : r.state <;> rw [hstate] at haction <;> cases haction
  case intentPersisted =>
    have hnext : nextState r.state (.release .abandoned) = .ok .released := by rw [hstate]; rfl
    have hsplit : Settlement.Splits ⟨Cost.zero, r.reserved⟩ r.reserved := fun d => by simp
    exact hone .release (by rw [hstate]; exact nofun) (Custody.exists_finish r.actual
      (.released .abandoned) _ hconserved hr hnext rfl hsplit rfl hlen haudit)
  case dispatched =>
    have hnext : nextState r.state .markUnknownEffect = .ok .unknownEffect := by rw [hstate]; rfl
    exact hone .markUnknownEffect (by rw [hstate]; exact nofun) (Custody.exists_finish r.actual
      .unknownEffect _ hconserved hr hnext rfl (unknownEffectSettlement_splits r.reserved) rfl hlen
      haudit)
  case transferComplete =>
    have hok := Custody.exists_publish h.reachable.filed h.reachable.named.invocations
      h.reachable.attended hr hstate hlen fun a ha => h.represents.sized
        (.sealed r.tenant (.pending r.id)) _ (congrArg (Option.map Plain.artifact) ha)
    obtain ⟨reply, s, L', r₀, r', hcommit, hholds, hstep, hwrite⟩ :=
      h.recovery (t := .publish id) .publish hok
    obtain rfl := Option.some.inj (hr.symm.trans hstep.before)
    obtain ⟨hseq, q, hq, hpublished⟩ :=
      hwrite.publish_moved h.reachable.named.invocations
    obtain rfl : q = r' := by
      rw [hstep.after, Function.update_self] at hq
      exact (Option.some.inj hq).symm
    have haudit' : L'.CanAudit q.tenant := by
      refine ⟨hseq ▸ hroom, ?_⟩
      rw [hstep.profiles, hstep.recovers.1.tenant]
      exact haudit.live
    obtain ⟨reply', s', L'', q₀, q', hcommit', hholds', hstep', -⟩ :=
      hholds.recovery (t := .settle id .success) .settle
        (Custody.exists_settle hholds.reachable.filed hholds.reachable.conserved hq hpublished
          (hholds.invocation_len hq) haudit')
    obtain rfl := Option.some.inj (hq.symm.trans hstep'.before)
    have hclosed := hstep'.closed (by rw [hpublished]; exact nofun)
    refine ⟨s', L'', q', ?_, hholds', hstep.trans hstep' hseq ?_, hclosed⟩
    · rw [RecoveryAction.transactions, Store.commitAll_cons hcommit, Store.commitAll_cons hcommit']
      rfl
    · intro heq
      rw [heq, hstate] at hclosed
      cases hclosed
  case published =>
    exact hone .settle (by rw [hstate]; exact nofun)
      (Custody.exists_settle h.reachable.filed hconserved hr hstate hlen haudit)

end World.Holds

namespace Custody

/-- What recovery did from `L` to `L'`. -/
structure Recovered (L L' : Custody C) : Prop where
  records : ∀ id r, L.invocations id = some r → ∃ r', L'.invocations id = some r' ∧ r.Recovers r'
  absent : ∀ id, L.invocations id = none → L'.invocations id = none
  profiles : L'.profiles = L.profiles
  tombstones : L'.tombstones = L.tombstones

theorem Recovered.refl (L : Custody C) : L.Recovered L :=
  ⟨fun _ r hr => ⟨r, hr, .refl r⟩, fun _ h => h, rfl, rfl⟩

theorem Recovered.trans {L L' L'' : Custody C} (h : L.Recovered L') (h' : L'.Recovered L'') :
    L.Recovered L'' where
  records := by
    intro id r hr
    obtain ⟨r', hr', hmove⟩ := h.records id r hr
    obtain ⟨r'', hr'', hmove'⟩ := h'.records id r' hr'
    exact ⟨r'', hr'', hmove.trans hmove'⟩
  absent := fun id hid => h'.absent id (h.absent id hid)
  profiles := h'.profiles.trans h.profiles
  tombstones := h'.tombstones.trans h.tombstones

theorem RecoveryStep.recovered {L L' : Custody C} {id : InvocationId} {r r' : InvocationRecord}
    (h : L.RecoveryStep L' id r r') : L.Recovered L' where
  records := by
    intro id' q hq
    by_cases heq : id' = id
    · rw [heq, h.before] at hq
      cases hq
      exact ⟨r', by rw [h.after, heq, Function.update_self], h.recovers⟩
    · exact ⟨q, by rw [h.after, Function.update_of_ne heq, hq], .refl q⟩
  absent := by
    intro id' hid'
    rw [h.after, Function.update_of_ne, hid']
    rintro rfl
    rw [h.before] at hid'
    cases hid'
  profiles := h.profiles
  tombstones := h.tombstones

end Custody

namespace World.Holds

variable {w : World C} {K : KeyState C} {L : Custody C}

/-- **A recovery** that nothing interrupts closes every invocation it set out to close. -/
theorem recoverEach {todo : List (InvocationId × RecoveryAction)} (h : w.Holds K L)
    (hnodup : (todo.map Prod.fst).Nodup)
    (htodo : ∀ x ∈ todo, ∃ r, L.invocations x.1 = some r ∧ recoveryAction r.state = some x.2)
    (hroom : L.lastSeq + todo.length < 2 ^ 64) (report : RecoveryReport) :
    ∃ report' s L', Store.recoverEach todo report w.store = .ok (report', s) ∧
      World.Holds ⟨s, w.drawn⟩ K L' ∧ L.Recovered L' ∧
      ∀ id r', id ∈ todo.map Prod.fst → L'.invocations id = some r' →
        r'.state.isTerminal = true := by
  induction todo generalizing w L report with
  | nil => exact ⟨report, w.store, L, rfl, h, .refl L, fun _ _ hid => by cases hid⟩
  | cons x todo ih =>
    obtain ⟨id, action⟩ := x
    obtain ⟨hnot, hnodup⟩ := List.nodup_cons.mp hnodup
    rw [List.length_cons] at hroom
    obtain ⟨r, hr, haction⟩ := htodo _ List.mem_cons_self
    obtain ⟨s, L', r', hone, hholds, hstep, hclosed⟩ := h.recoverOne hr haction (by omega)
    -- The others are still where they were.
    have hothers : ∀ x ∈ todo, ∃ r, L'.invocations x.1 = some r ∧
        recoveryAction r.state = some x.2 := by
      intro x hx
      obtain ⟨q, hq, hqaction⟩ := htodo x (List.mem_cons_of_mem _ hx)
      refine ⟨q, ?_, hqaction⟩
      rw [hstep.after, Function.update_of_ne, hq]
      rintro heq
      exact hnot (heq ▸ List.mem_map_of_mem hx)
    have hroom' : L'.lastSeq + todo.length < 2 ^ 64 := by
      have := hstep.lastSeq
      omega
    obtain ⟨report', s', L'', hrest, hholds', hrecovered, hall⟩ :=
      ih hholds hnodup hothers hroom' (report.count action)
    refine ⟨report', s', L'', ?_, hholds', hstep.recovered.trans hrecovered, ?_⟩
    · rw [Store.recoverEach, hone, ok_bind]
      exact hrest
    · intro id' q hmem hq
      rcases List.mem_cons.mp hmem with rfl | hmem
      · -- A closed invocation stays as it is.
        obtain ⟨q', hq', -, rfl | hmove⟩ := hrecovered.records id' r' (by
          rw [hstep.after]
          exact Function.update_self ..)
        · rw [hq] at hq'
          cases hq'
          exact hclosed
        · cases hstate : r'.state <;> simp only [hstate] at hmove hclosed <;> cases hclosed
      · exact hall id' q hmem hq

/-- A recovery that was cut off has brought invocations nearer to their ends. -/
theorem commitAll {ts : List (Transaction C)} {s : Store C} (h : w.Holds K L)
    (hts : ∀ t ∈ ts, ∃ id, t.Recovery id) (hrun : w.store.commitAll ts = .ok s) :
    ∃ L', World.Holds ⟨s, w.drawn⟩ K L' ∧ L.Recovered L' := by
  induction ts generalizing w L with
  | nil =>
    cases hrun
    exact ⟨L, h, .refl L⟩
  | cons t _ ih =>
    obtain ⟨⟨reply, s₁⟩, hcommit, hrest⟩ := bind_eq_ok.mp hrun
    obtain ⟨L₁, hL₁, hrep⟩ := h.represents.commit_ok hcommit
    have h₁ : World.Holds ⟨s₁, w.drawn⟩ K L₁ :=
      ⟨hrep, h.reachable.next (.transact t hL₁), h.drawn⟩
    obtain ⟨id, ht⟩ := hts t List.mem_cons_self
    obtain ⟨r, r', hstep⟩ :=
      (Custody.transact_write t hL₁).recovery ht h.reachable.named.invocations
    obtain ⟨L', h', hrecovered⟩ := ih h₁ (fun t ht => hts t (List.mem_cons_of_mem _ ht)) hrest
    exact ⟨L', h', hstep.recovered.trans hrecovered⟩

/-- Recoveries that were cut off one after the other. -/
theorem interrupted {w' : World C} (h : w.Holds K L) (hrun : ReflTransGen World.Interrupted w w') :
    ∃ L', w'.Holds K L' ∧ L.Recovered L' := by
  induction hrun with
  | refl => exact ⟨L, h, .refl L⟩
  | tail _ hlast ih =>
    obtain ⟨L₁, h₁, hrecovered⟩ := ih
    obtain ⟨todo, k, s, nonce, clock, -, hcommits, rfl⟩ := hlast
    obtain ⟨L₂, h₂, hrecovered'⟩ := h₁.commitAll (fun t ht => by
      obtain ⟨x, -, hx⟩ := List.mem_flatMap.mp (List.mem_of_mem_take ht)
      exact ⟨x.1, RecoveryAction.recovery_of_mem hx⟩) hcommits
    refine ⟨{ L₂ with clock := clock }, ⟨(h₂.represents.setNonce nonce).setClock clock,
      h₂.reachable.next (.clock clock), h₂.drawn⟩, ?_⟩
    exact hrecovered.trans ⟨hrecovered'.records, hrecovered'.absent, hrecovered'.profiles,
      hrecovered'.tombstones⟩

/-- The invocations a recovery sets out to close. -/
theorem exists_openInvocations (h : w.Holds K L) :
    ∃ todo, w.store.openInvocations = .ok todo ∧ (todo.map Prod.fst).Nodup ∧
      (∀ x ∈ todo, ∃ r, L.invocations x.1 = some r ∧ recoveryAction r.state = some x.2) ∧
      ∀ id r action, L.invocations id = some r → recoveryAction r.state = some action →
        id ∈ todo.map Prod.fst := by
  obtain ⟨rs, hrs, hnodup, hmem⟩ := h.openAll_invocations
  refine ⟨rs.filterMap fun r => (recoveryAction r.state).map fun action => (r.id, action),
    ?_, ?_, ?_, ?_⟩
  · rw [Store.openInvocations, hrs]
    rfl
  · rw [List.nodup_iff_pairwise_ne, List.pairwise_map] at hnodup ⊢
    rw [List.pairwise_filterMap]
    refine hnodup.imp fun {r r'} hne x hx x' hx' heq => hne ?_
    obtain ⟨action, -, rfl⟩ := Option.map_eq_some_iff.mp hx
    obtain ⟨action', -, rfl⟩ := Option.map_eq_some_iff.mp hx'
    exact heq
  · intro x hx
    obtain ⟨r, hr, hx⟩ := List.mem_filterMap.mp hx
    obtain ⟨action, haction, rfl⟩ := Option.map_eq_some_iff.mp hx
    exact ⟨r, (hmem r).mp hr, haction⟩
  · intro id r action hr haction
    obtain rfl := h.reachable.named.invocations id r hr
    refine List.mem_map.mpr ⟨(r.id, action), List.mem_filterMap.mpr ⟨r, (hmem r).mpr hr, ?_⟩, rfl⟩
    rw [haction]
    rfl

end World.Holds

/-- Every state of a stored invocation is terminal or has a recovery action. -/
theorem exists_recoveryAction {state : InvocationState} (hplanned : state ≠ .planned)
    (hopen : state.isTerminal = false) : ∃ action, recoveryAction state = some action := by
  cases state <;> first | exact absurd rfl hplanned | exact ⟨_, rfl⟩ | cases hopen

/-- How an invocation found as `r` is left by a recovery. -/
structure InvocationRecord.RecoveredAs (r r' : InvocationRecord) : Prop where
  sameCall : r.SameCall r'
  closed : r'.state.isTerminal = true
  finished : r.state.isTerminal = true → r' = r
  intentPersisted : r.state = .intentPersisted →
    r'.terminal = some (.released .abandoned) ∧ r'.debited = some Cost.zero
  dispatched : r.state = .dispatched →
    r'.terminal = some .unknownEffect ∧ r'.debited = some r.reserved
  produced : r.state = .transferComplete ∨ r.state = .published → r'.terminal = some (.settled none)

theorem InvocationRecord.Recovers.recoveredAs {r r' : InvocationRecord} (h : r.Recovers r')
    (hclosed : r'.state.isTerminal = true) : r.RecoveredAs r' := by
  obtain ⟨hsame, rfl | hmove⟩ := h
  · refine ⟨hsame, hclosed, fun _ => rfl, fun hstate => ?_, fun hstate => ?_, fun hstate => ?_⟩
    · rw [hstate] at hclosed
      cases hclosed
    · rw [hstate] at hclosed
      cases hclosed
    · rcases hstate with hstate | hstate <;> rw [hstate] at hclosed <;> cases hclosed
  · refine ⟨hsame, hclosed, fun hdone => ?_, fun hstate => ?_, fun hstate => ?_, fun hstate => ?_⟩
    · cases hstate : r.state <;> simp only [hstate] at hmove hdone <;> cases hdone
    · simp only [hstate] at hmove
      exact hmove.2
    · simp only [hstate] at hmove
      exact hmove.2
    · rcases hstate with hstate | hstate <;> simp only [hstate] at hmove
      · rcases hmove with hpublished | hsettled
        · rw [hpublished] at hclosed
          cases hclosed
        · exact hsettled.2
      · exact hmove.2

/-- **Recovery closes every invocation.**  From every reachable store, after any number of
recoveries cut off at any transaction, a recovery that nothing cuts off succeeds, unless
audit sequence numbers run out.  Every invocation is then closed: an intent as abandoned
with nothing charged, a dispatched call as an unknown effect with its whole reservation
charged, a transferred or published capture as a success, with its artifact published; one
that was closed is left alone.  A second recovery writes nothing. -/
theorem recovery_closes {w w' : World C} (h : w.Reachable)
    (hcrashes : ReflTransGen World.Interrupted w w')
    (hroom : ∀ last todo, w'.store.lastAuditSeq = .ok last → w'.store.openInvocations = .ok todo →
      last + todo.length < 2 ^ 64) :
    ∃ report s, w'.store.recover = .ok (report, s) ∧
      (∀ id r, w.store.invocationAt id = some r → ∃ r', s.invocationAt id = some r' ∧
        r.RecoveredAs r' ∧ (r.state = .transferComplete ∨ r.state = .published →
          ∃ info, s.artifact (artifactRef id) = .ok (some info))) ∧
      (∀ id r', s.invocationAt id = some r' → r'.state.isTerminal = true) ∧
      s.recover = .ok (.empty, s) := by
  obtain ⟨K, L, hw⟩ := h.holds
  obtain ⟨L', hw', hrecovered⟩ := hw.interrupted hcrashes
  obtain ⟨todo, htodo, hnodup, hopen, hall⟩ := hw'.exists_openInvocations
  obtain ⟨report, s, L'', hrun, hs, hrecovered', hclosed⟩ := hw'.recoverEach hnodup hopen
    (hroom _ _ hw'.represents.lastAuditSeq_eq htodo) .empty
  -- Whatever the book holds is closed: it was closed before, or it was on the list.
  have hend : ∀ id r'', L''.invocations id = some r'' → r''.state.isTerminal = true := by
    intro id r'' hr''
    cases hr' : L'.invocations id with
    | none =>
      rw [hrecovered'.absent id hr'] at hr''
      cases hr''
    | some r' =>
      by_cases hdone : r'.state.isTerminal = true
      · obtain ⟨q, hq, -, rfl | hmove⟩ := hrecovered'.records id r' hr'
        · obtain rfl := Option.some.inj (hr''.symm.trans hq)
          exact hdone
        · cases hstate : r'.state <;> simp only [hstate] at hmove hdone <;> cases hdone
      · obtain ⟨action, haction⟩ := exists_recoveryAction
          (hw'.reachable.filed.records id r' hr').started.1 (by simpa using hdone)
        exact hclosed id r'' (hall id r' action hr' haction) hr''
  have hboth := hrecovered.trans hrecovered'
  refine ⟨report, s, ?_, ?_, ?_, ?_⟩
  · rw [Store.recover, htodo, ok_bind]
    exact hrun
  · intro id r hr
    rw [hw.represents.invocationAt_eq] at hr
    obtain ⟨r'', hr'', hmove⟩ := hboth.records id r hr
    have hras := hmove.recoveredAs (hend id r'' hr'')
    refine ⟨r'', ?_, hras, fun hproduced => ?_⟩
    · have heq : s.invocationAt = L''.invocations := hs.represents.invocationAt_eq
      rw [heq, hr'']
    · obtain rfl := hs.reachable.named.invocations id r'' hr''
      have hopen : r.state.isTerminal = false := by
        rcases hproduced with hstate | hstate <;> rw [hstate] <;> rfl
      obtain ⟨a, published, hshows⟩ := (hs.reachable.filed.records _ r'' hr'').visible
        (.inr (hras.produced hproduced))
      obtain ⟨bytes, hbytes⟩ := Option.isSome_iff_exists.mp hshows.blob
      have hlive : (L''.profiles r''.tenant).isSome := by
        rw [hboth.profiles, hras.sameCall.tenant]
        exact hw.reachable.attended.tenant _ r hr hopen
      refine ⟨_, (hs.reads_visible hshows hbytes ?_).1⟩
      rw [hs.represents.tombstoneAt_eq]
      exact hs.reachable.owned.live _ hlive
  · intro id r' hr'
    have heq : s.invocationAt = L''.invocations := hs.represents.invocationAt_eq
    rw [heq] at hr'
    exact hend id r' hr'
  · obtain ⟨todo', htodo', -, hopen', -⟩ := hs.exists_openInvocations
    -- Nothing is open, so there is nothing to do.
    have hnil : todo' = [] := by
      rw [List.eq_nil_iff_forall_not_mem]
      intro x hx
      obtain ⟨q, hq, haction⟩ := hopen' x hx
      have hdone := hend x.1 q hq
      cases hstate : q.state <;> rw [hstate] at haction hdone <;>
        first | cases haction | cases hdone
    have htodo' : s.openInvocations = .ok todo' := htodo'
    rw [Store.recover, htodo', ok_bind, hnil]
    rfl

/-- A new invocation is one that was begun. -/
theorem Custody.Write.begun {L L' : Custody C} {t : Transaction C} (h : L.Write t L')
    (hnamed : L.InvocationsNamed) {id : InvocationId} (hnew : L.invocations id = none)
    (hid : L'.invocations id ≠ none) : ∃ intent, t = .begin intent ∧ intent.invocation = id := by
  have hother {id₀ : InvocationId} {r₀ : InvocationRecord} (hr₀ : L.invocations id₀ = some r₀)
      (x : Option InvocationRecord) : Function.update L.invocations id₀ x id = none := by
    rw [Function.update_of_ne, hnew]
    rintro rfl
    rw [hnew] at hr₀
    cases hr₀
  cases h with
  | begin intent _ _ _ _ _ hadmits =>
    obtain ⟨f, rfl, -⟩ := Book.moveLedgers_frame hadmits.debit
    refine ⟨intent, rfl, ?_⟩
    by_contra hne
    exact hid ((Function.update_of_ne (Ne.symm hne) ..).trans hnew)
  | dispatch id r _ _ hr =>
    obtain rfl := hnamed id r hr
    exact (hid (hother hr _)).elim
  | completeTransfer id r _ _ _ hr =>
    obtain rfl := hnamed id r hr
    exact (hid (hother hr _)).elim
  | publish id r _ _ _ _ hr =>
    obtain rfl := hnamed id r hr
    exact (hid (hother hr _)).elim
  | finish id r _ _ _ _ _ _ _ _ _ hr _ _ _ hpaid =>
    obtain rfl := hnamed id r hr
    obtain ⟨f, rfl, -⟩ := Book.moveLedgers_frame hpaid
    exact (hid (hother hr _)).elim
  | _ => exact absurd hnew hid

/-- A deployment in which one call is begun has no other. -/
theorem Sample.eq_call {ts : List (Transaction Crypto.ideal)} {L L' : Custody Crypto.ideal}
    (hts : ∀ intent, .begin intent ∈ ts → intent.invocation = call)
    (hL : ∀ id, L.invocations id ≠ none → id = call) (hreach : L.Reachable)
    (hrun : Custody.runAll ts L = .ok L') : ∀ id, L'.invocations id ≠ none → id = call := by
  induction ts generalizing L with
  | nil =>
    cases hrun
    exact hL
  | cons t _ ih =>
    obtain ⟨r, hr, hrest⟩ := bind_eq_ok.mp hrun
    refine ih (fun intent hmem => hts intent (List.mem_cons_of_mem _ hmem)) (fun id hid => ?_)
      (hreach.next (.transact t hr)) hrest
    by_cases hold : L.invocations id = none
    · obtain ⟨intent, rfl, rfl⟩ :=
        (Custody.transact_write t hr).begun hreach.named.invocations hold hid
      exact hts intent List.mem_cons_self
    · exact hL id hold

/-- Such a deployment has at most that one call to recover. -/
theorem Sample.exists_few {w : World Crypto.ideal} {K : KeyState Crypto.ideal}
    {L : Custody Crypto.ideal} (h : w.Holds K L)
    (honly : ∀ id, L.invocations id ≠ none → id = call) :
    ∃ todo, w.store.openInvocations = .ok todo ∧ todo.length ≤ 1 ∧ ∀ r action,
      L.invocations call = some r → recoveryAction r.state = some action →
        todo = [(call, action)] := by
  obtain ⟨todo, htodo, hnodup, hopen, hall⟩ := h.exists_openInvocations
  have hsub : todo.map Prod.fst ⊆ [call] := by
    intro id hid
    obtain ⟨x, hx, rfl⟩ := List.mem_map.mp hid
    obtain ⟨r, hr, -⟩ := hopen x hx
    exact List.mem_singleton.mpr (honly _ (by rw [hr]; exact nofun))
  have hlength : todo.length ≤ 1 := by simpa using (hnodup.subperm hsub).length_le
  refine ⟨todo, htodo, hlength, fun r action hr haction => ?_⟩
  obtain ⟨⟨id, found⟩, hx, rfl⟩ := List.mem_map.mp (hall call r action hr haction)
  obtain ⟨r', hr', hfound⟩ := hopen _ hx
  cases hr.symm.trans hr'
  cases haction.symm.trans hfound
  obtain ⟨y, rfl⟩ := List.length_eq_one_iff.mp (le_antisymm hlength (List.length_pos_of_mem hx))
  rw [List.mem_singleton.mp hx]

/-- A transferred capture that a crash left open is published, a second crash cuts the recovery
off there, and the next one settles it. -/
theorem recovery_closes_of_transferred :
    ∃ (w w' : World Crypto.ideal) (report : RecoveryReport) (s : Store Crypto.ideal),
      w.Reachable ∧ w.Interrupted w' ∧ w'.store.recover = .ok (report, s) ∧
      (w.store.invocationAt Sample.call).map InvocationRecord.state = some .transferComplete ∧
      (w'.store.invocationAt Sample.call).map InvocationRecord.state = some .published ∧
      (s.invocationAt Sample.call).map InvocationRecord.terminal = some (some (.settled none)) := by
  obtain ⟨w, K, hreach, h⟩ :=
    Sample.exists_world (Sample.setUp ++ Sample.capture.take 3) (by decide +kernel)
  have hcall : ((Sample.book (Sample.setUp ++ Sample.capture.take 3)).invocations
      Sample.call).map InvocationRecord.state = some .transferComplete := by
    decide +kernel
  have hpublish : ((Sample.book (Sample.setUp ++ Sample.capture.take 3)).run
      (Transaction.publish (C := Crypto.ideal) Sample.call).program).toOption.map (fun x =>
        decide (x.2.lastSeq < 10 ∧ (x.2.invocations Sample.call).map InvocationRecord.state =
          some .published)) = some true := by
    decide +kernel
  have honly : ∀ id, (Sample.book (Sample.setUp ++ Sample.capture.take 3)).invocations id ≠ none →
      id = Sample.call := by
    obtain ⟨w₀, K₀, -, hregistered, -⟩ := Sample.exists_registered
    refine Sample.eq_call (fun intent hmem => ?_) (fun id hid => absurd rfl hid)
      hregistered.reachable (Sample.runAll_book (by decide +kernel))
    simp only [Sample.setUp, Sample.capture, List.take, List.cons_append, List.nil_append,
      List.mem_cons, List.not_mem_nil, Transaction.begin.injEq, reduceCtorEq, false_or,
      or_false] at hmem
    rw [hmem]
    rfl
  generalize Sample.book (Sample.setUp ++ Sample.capture.take 3) = L at h hcall hpublish honly
  obtain ⟨x, hx, hfacts⟩ := exists_of_toOption_map hpublish
  obtain ⟨hlast, hpublished⟩ := of_decide_eq_true hfacts
  obtain ⟨s₁, hs₁, hrep₁⟩ := h.represents.commit_of_run hx
  have h₁ : World.Holds ⟨s₁, w.drawn⟩ K x.2 :=
    ⟨hrep₁, h.reachable.next (.transact (.publish Sample.call) hx), h.drawn⟩
  obtain ⟨r, hr, hstate⟩ := Option.map_eq_some_iff.mp hcall
  obtain ⟨todo, htodo, -, hsole⟩ := Sample.exists_few h honly
  obtain rfl := hsole r .rollForwardPublish hr (by rw [hstate]; rfl)
  have hcut : w.store.commitAll [.publish Sample.call] = .ok s₁ :=
    Store.commitAll_cons (t := .publish Sample.call) hs₁
  have hinterrupted : w.Interrupted ⟨s₁, w.drawn⟩ :=
    ⟨_, 1, s₁, s₁.nonce, s₁.clock, htodo, hcut, rfl⟩
  have hrun : Custody.runAll [.publish Sample.call] L = .ok x.2 := bind_eq_ok.mpr ⟨x, hx, rfl⟩
  obtain ⟨todo₁, htodo₁, hfew, -⟩ :=
    Sample.exists_few h₁ (Sample.eq_call (by simp) honly h.reachable hrun)
  obtain ⟨report, s, hrecover, hrecords, -⟩ := recovery_closes hreach
    (.single hinterrupted) fun last todo' hlast' htodo' => by
      rw [hrep₁.lastAuditSeq_eq] at hlast'
      rw [htodo₁] at htodo'
      cases hlast'
      cases htodo'
      omega
  have hfirst := h.represents.invocationAt_eq
  obtain ⟨r', hr', hras, -⟩ := hrecords _ r (by rw [hfirst]; exact hr)
  refine ⟨w, _, report, s, hreach, hinterrupted, hrecover, by rw [hfirst]; exact hcall, ?_, ?_⟩
  · rw [hrep₁.invocationAt_eq]
    exact hpublished
  · rw [hr', Option.map_some, hras.produced (.inl hstate)]

end Dioptron
