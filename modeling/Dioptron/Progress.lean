import Dioptron.Recoveries

/-! # A capture goes through

An intent that the book allows is persisted, and the capture then goes on to its
publication: nothing that can have happened to a reachable book stands in the way of a step
of it, as long as its records fit the seal.
-/
namespace Dioptron

open Relation (ReflTransGen)

variable {C : Crypto}

namespace Custody

variable {L L' : Custody C}

theorem runAll_cons {t : Transaction C} {ts : List (Transaction C)} {x : t.Reply × Custody C}
    (h : L.run t.program = .ok x) : runAll (t :: ts) L = runAll ts x.2 := by
  rw [runAll, h]
  rfl

theorem runAll_append {ts us : List (Transaction C)} (h : runAll ts L = .ok L') :
    runAll (ts ++ us) L = runAll us L' := by
  induction ts generalizing L with
  | nil =>
    cases h
    rfl
  | cons _ _ ih =>
    obtain ⟨x, hx, hrest⟩ := bind_eq_ok.mp h
    rw [List.cons_append, runAll_cons hx, ih hrest]

theorem steps_of_runAll {ts : List (Transaction C)} (h : runAll ts L = .ok L') :
    ReflTransGen Custody.Step L L' := by
  induction ts generalizing L with
  | nil =>
    cases h
    exact .refl
  | cons t _ ih =>
    obtain ⟨x, hx, hrest⟩ := bind_eq_ok.mp h
    exact .head (.transact t hx) (ih hrest)

theorem run_sessionOwnerShredded_live {session : Option SessionId}
    (h : ∀ s ∈ session, ∀ r ∈ L.sessions s, L.tombstones r.owner = none) :
    L.run (Tx.sessionOwnerShredded session) = .ok (false, L) := by
  cases session with
  | none => rfl
  | some s =>
    rw [Tx.sessionOwnerShredded, run_bind_sessionRecord]
    cases hr : L.sessions s with
    | none => rfl
    | some r =>
      dsimp only
      rw [run_bind_tombstone, h s rfl r hr]
      rfl

/-- **An allowed intent is persisted.** -/
theorem exists_begin {intent : Intent C} {chain : List GrantId} {plan : ReservationPlan}
    {charged : Book C} (hadmits : L.Admits intent chain plan (L.clock 0) charged)
    (hlen : ∀ now, C.encodedLen (.invocation (intent.fresh chain plan now)) ≤ maxPlaintextLen) :
    ∃ now clock, L.run (Tx.begin intent) =
      .ok (.persisted (intent.fresh chain plan now).status, { L with
        toBook := charged.persisted intent (intent.fresh chain plan now)
        clock := clock }) := by
  have hidem : L.run (Tx.sealedRecord (IdemRecord C.Block) ⟨intent.authz.tenant⟩
      (.idem intent.authz.capability intent.idempotencyKey)) = .ok (none, L) := by
    rw [run_sealedRecord_ok L (x := L.idem intent.slot) rfl, hadmits.key]
    exact ⟨hadmits.live, rfl⟩
  have hmoved : L.tick.run (Tx.moveLedgers (fun used => reserve used plan.cost)
      (plan.ledgers.map LedgerRef.fromLedgerId)) = .ok ((), { L.tick with toBook := charged }) :=
    run_moveLedgers_ok.mpr ⟨charged, hadmits.debit, rfl⟩
  have hintent : L.tick.run (Tx.intentRecord intent chain plan) =
      .ok (intent.fresh chain plan (L.clock 1), { L.tick.tick with toBook := charged }) := by
    have hdebited : L.tick.run (Tx.debitReservation plan) =
        .ok (plan.ledgers.map LedgerRef.fromLedgerId, { L.tick with toBook := charged }) := by
      rw [Tx.debitReservation, run_bind_of_ok hmoved]
      rfl
    rw [Tx.intentRecord, run_bind_of_ok hdebited]
    rfl
  obtain ⟨f, rfl, -⟩ := Book.moveLedgers_frame hadmits.debit
  refine ⟨L.clock 1, fun i => L.clock (i + 2), ?_⟩
  rw [Tx.begin, run_bind_tenantKeys]
  refine ⟨hadmits.live, ?_⟩
  rw [run_bind_of_ok hidem]
  dsimp only
  rw [Tx.decideIntent, run_bind_invocationRecord, run_bind_guard]
  refine ⟨by rw [hadmits.new]; rfl, ?_⟩
  rw [run_bind_view, run_bind_now, run_bind_decide]
  refine ⟨.allowed chain plan, hadmits.auth, ?_⟩
  dsimp only
  rw [run_bind_of_ok (run_sessionOwnerShredded_live (L := L.tick) hadmits.session)]
  rw [if_neg Bool.false_ne_true, Tx.persist, run_bind_of_ok hintent, Tx.putInvocation, run_bind_put]
  refine ⟨hlen _, ?_⟩
  rw [run_bind_putSealed]
  exact ⟨⟨hadmits.live, C.encodedLen_idem _⟩, rfl⟩

theorem exists_dispatch {id : InvocationId} {r : InvocationRecord} (hr : L.invocations id = some r)
    (hstate : r.state = .intentPersisted)
    (hlen : C.encodedLen (.invocation r) ≤ maxPlaintextLen) :
    ∃ status now clock, L.run (Tx.dispatch id) = .ok (status,
      { L with toBook := L.setInvocation (r.moved .dispatched now), clock := clock }) := by
  refine ⟨_, _, _, run_transition_ok.mpr ⟨r, .dispatched, r, L, L.tick, hr, ?_, rfl,
    run_auditTerminal_ok.mpr (.inl ⟨rfl, rfl⟩), ?_, rfl⟩⟩
  · rw [hstate]
    rfl
  · exact le_of_eq_of_le (C.encodedLen_invocation _ r rfl rfl) hlen

theorem exists_storeBlob {tenant : TenantId} {envelope : Bytes}
    (hlive : (L.profiles tenant).isSome) (hlen : envelope.length ≤ maxPlaintextLen) :
    ∃ L', L.run (Tx.storeBlob ⟨tenant⟩ ((L.address tenant).blobAddress envelope) envelope) =
      .ok ((), L') := by
  have hfound : L.run (.perform (.containsSealed ⟨tenant⟩
      (.blob ((L.address tenant).blobAddress envelope)))) =
      .ok ((L.sealed tenant (.blob ((L.address tenant).blobAddress envelope))).isSome, L) := by
    rw [run_perform]
    exact (bind_checkLive_ok L).mpr ⟨hlive, rfl⟩
  rw [Tx.storeBlob, run_bind_of_ok hfound]
  cases (L.sealed tenant (.blob ((L.address tenant).blobAddress envelope))).isSome with
  | true => exact ⟨L, rfl⟩
  | false =>
    refine ⟨_, (run_putSealed_ok L).mpr ⟨hlive, ?_, rfl⟩⟩
    exact le_of_eq_of_le (C.encodedLen_blob envelope) hlen

/-- A dispatched capture takes the transfer that fits. -/
theorem exists_completeTransfer {id : InvocationId} {r : InvocationRecord} {transfer : Transfer}
    (hr : L.invocations id = some r) (hstate : r.state = .dispatched)
    (hlive : (L.profiles r.tenant).isSome) (hlen : C.encodedLen (.invocation r) ≤ maxPlaintextLen)
    (henvelope : transfer.envelope.length ≤ maxPlaintextLen)
    (hside : ∀ address, C.encodedLen (.artifact (Tx.pendingArtifact r transfer address)) ≤
      maxPlaintextLen) :
    ∃ status now clock, L.run (Tx.completeTransfer id transfer) = .ok (status, { L with
      toBook := Book.setInvocation
        { L.toBook with
          pending := Function.update L.pending (r.tenant, r.id)
            (some (Tx.pendingArtifact r transfer
              ((L.address r.tenant).blobAddress transfer.envelope))) }
        (r.delivered transfer now)
      blobs := L.withBlob r.tenant transfer.envelope
      clock := clock }) := by
  obtain ⟨stored, hstored⟩ := exists_storeBlob hlive henvelope
  have haddress : L.run (.perform (.blobAddress ⟨r.tenant⟩ transfer.envelope)) =
      .ok ((L.address r.tenant).blobAddress transfer.envelope, L) := by
    rw [run_perform]
    exact (bind_checkLive_ok L).mpr ⟨hlive, rfl⟩
  obtain rfl : stored = { L with blobs := L.withBlob r.tenant transfer.envelope } :=
    run_storeBlob_ok hstored
  have hstage : L.run (Tx.stageTransfer transfer r) = .ok ({ r with
        artifact := some (artifactRef r.id)
        actual := some transfer.actual
        revokedAfterEffect := transfer.revokedAfterEffect },
      { L with blobs := L.withBlob r.tenant transfer.envelope }.putSealed r.tenant
        (.pending (Tx.pendingArtifact r transfer
          ((L.address r.tenant).blobAddress transfer.envelope)))) := by
    rw [Tx.stageTransfer, run_bind_tenantKeys]
    refine ⟨hlive, ?_⟩
    rw [run_bind_of_ok haddress, run_bind_of_ok hstored, run_bind_putSealed]
    exact ⟨⟨hlive, hside _⟩, rfl⟩
  refine ⟨_, _, _, run_transition_ok.mpr ⟨r, .transferComplete, _, _, _, hr, ?_, hstage,
    run_auditTerminal_ok.mpr (.inl ⟨rfl, rfl⟩), ?_, rfl⟩⟩
  · rw [hstate]
    rfl
  · exact le_of_eq_of_le (C.encodedLen_invocation _ r rfl rfl) hlen

/-- What a capture leaves that went from its intent to the book `L'`, apart from its side
record. -/
structure Progressed (L : Custody C) (intent : Intent C) (r : InvocationRecord) (charged : Book C)
    (L' : Custody C) : Prop where
  tenant : r.tenant = intent.authz.tenant
  session : r.session = intent.authz.session
  invocations : L'.invocations = Function.update L.invocations intent.invocation (some r)
  idem : L'.idem = Function.update L.idem
    intent.slot
    (some ⟨intent.invocation, requestBinding intent⟩)
  ledgers : L'.ledgers = charged.ledgers
  profiles : L'.profiles = L.profiles
  tombstones : L'.tombstones = L.tombstones
  grants : L'.grants = L.grants
  revocations : L'.revocations = L.revocations
  sessions : L'.sessions = L.sessions

section Captures

variable {intent : Intent C} {transfer : Transfer} {chain : List GrantId} {plan : ReservationPlan}
  {charged : Book C} (hadmits : L.Admits intent chain plan (L.clock 0) charged)
  (hlen : ∀ r : InvocationRecord, r.grantChain = chain →
    r.ledgers = plan.ledgers.map LedgerRef.fromLedgerId →
    C.encodedLen (.invocation r) ≤ maxPlaintextLen)
  (henvelope : transfer.envelope.length ≤ maxPlaintextLen)
  (hside : ∀ r address, C.encodedLen (.artifact (Tx.pendingArtifact r transfer address)) ≤
    maxPlaintextLen)

/-- The transactions of a capture up to its transfer. -/
def delivering (intent : Intent C) (transfer : Transfer) : List (Transaction C) :=
  [.begin intent, .dispatch intent.invocation, .completeTransfer intent.invocation transfer]

/-- The transactions of a capture up to its publication. -/
def capturing (intent : Intent C) (transfer : Transfer) : List (Transaction C) :=
  delivering intent transfer ++ [.publish intent.invocation]

include hadmits hlen henvelope hside

theorem exists_delivered :
    ∃ L' r r₀ address, runAll (delivering intent transfer) L = .ok L' ∧
      L.Progressed intent r charged L' ∧ r.id = intent.invocation ∧ r.state = .transferComplete ∧
      C.encodedLen (.invocation r) ≤ maxPlaintextLen ∧ r₀.id = intent.invocation ∧
      L'.pending (intent.authz.tenant, intent.invocation) =
        some (Tx.pendingArtifact r₀ transfer address) ∧ L'.artifacts = L.artifacts := by
  obtain ⟨now, clock, hbegin⟩ := exists_begin hadmits fun now => hlen _ rfl rfl
  obtain ⟨f, rfl, -⟩ := Book.moveLedgers_frame hadmits.debit
  set fresh := intent.fresh chain plan now
  set L₁ : Custody C := { L with
    toBook := Book.persisted { L.toBook with ledgers := f } intent fresh
    clock := clock }
  have hr₁ : L₁.invocations intent.invocation = some fresh := Function.update_self ..
  obtain ⟨status₂, now₂, clock₂, hdispatch⟩ := exists_dispatch hr₁ rfl (hlen fresh rfl rfl)
  set L₂ : Custody C := { L₁ with
    toBook := L₁.setInvocation (fresh.moved .dispatched now₂), clock := clock₂ }
  have hr₂ : L₂.invocations intent.invocation = some (fresh.moved .dispatched now₂) :=
    Function.update_self ..
  obtain ⟨status₃, now₃, clock₃, htransfer⟩ := exists_completeTransfer hr₂ rfl hadmits.live
    (hlen _ rfl rfl) henvelope (hside _)
  have hlast : runAll [.completeTransfer intent.invocation transfer] L₂ = runAll [] _ :=
    runAll_cons (t := .completeTransfer intent.invocation transfer) htransfer
  have hrun := (runAll_cons (t := .begin intent) hbegin).trans
    ((runAll_cons (t := .dispatch intent.invocation) hdispatch).trans hlast)
  let delivered : InvocationRecord := (fresh.moved .dispatched now₂).delivered transfer now₃
  refine ⟨_, delivered, fresh.moved .dispatched now₂, _, hrun,
    ⟨rfl, rfl, ?_, rfl, rfl, rfl, rfl, rfl,
    rfl, rfl⟩, rfl, rfl, hlen _ rfl rfl, rfl, Function.update_self .., rfl⟩
  change Function.update (Function.update (Function.update L.invocations intent.invocation
    (some fresh)) intent.invocation (some (fresh.moved .dispatched now₂))) intent.invocation
    (some delivered) = _
  rw [Function.update_idem, Function.update_idem]

/-- **A capture goes through**, from an allowed intent to its publication. -/
theorem exists_captured (hreach : L.Reachable) :
    ∃ L' r a, runAll (capturing intent transfer) L = .ok L' ∧
      L.Progressed intent r charged L' ∧ r.state = .published ∧ a.textView = transfer.textView ∧
      L'.artifacts = Function.update L.artifacts
        (intent.authz.tenant, artifactRef intent.invocation) (some a) := by
  obtain ⟨mid, r, r₀, address, hrun, hprogress, hid, hstate, hsized, hid₀, hpending, hartifacts⟩ :=
    exists_delivered hadmits hlen henvelope hside
  have hmid : mid.Reachable := hreach.trans (steps_of_runAll hrun)
  have hr : mid.invocations intent.invocation = some r := by
    rw [hprogress.invocations, Function.update_self]
  obtain ⟨⟨status, L'⟩, hpublish⟩ := exists_publish hmid.filed hmid.named.invocations hmid.attended
    hr hstate hsized (fun a ha => by
      rw [hprogress.tenant, hid, hpending] at ha
      cases ha
      exact hside _ _)
  have hwrite : mid.Write (.publish intent.invocation) L' := publish_write hpublish
  have hall : runAll (capturing intent transfer) L = .ok L' := by
    rw [capturing, runAll_append hrun, runAll_cons (t := .publish intent.invocation) hpublish]
    rfl
  cases hwrite with
  | quiet ht => cases ht
  | refuse _ _ _ _ hentry => cases hentry
  | openSession _ _ _ _ _ ht => cases ht
  | finish _ _ _ _ _ _ _ _ _ _ ht => cases ht
  | publish _ _ _ published now _ hr' _ ha =>
    cases hr.symm.trans hr'
    rw [hprogress.tenant, hid, hpending] at ha
    cases ha
    refine ⟨_, r.moved .published now, { Tx.pendingArtifact r₀ transfer address with
      publishedAt := some published }, hall, ⟨hprogress.tenant, hprogress.session, ?_,
      hprogress.idem, hprogress.ledgers, hprogress.profiles, hprogress.tombstones, hprogress.grants,
      hprogress.revocations, hprogress.sessions⟩, rfl, rfl, ?_⟩
    · change Function.update mid.invocations r.id (some (r.moved .published now)) = _
      rw [hid, hprogress.invocations, Function.update_idem]
    · change Function.update mid.artifacts (r.tenant, artifactRef r₀.id) _ = _
      rw [hprogress.tenant, hid₀, hartifacts]

end Captures
end Custody
end Dioptron
