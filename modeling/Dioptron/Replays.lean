import Dioptron.Conclusions
import Dioptron.Listings

/-! # Retried captures

A capture that has returned has one outcome from then on.  A request of the same tenant
under the same key finds the first one's invocation and answers what the first one
answered, unless it is refused, names another request or its tenant was shredded
meanwhile; it never captures again and never reports another outcome.
-/
namespace Dioptron

open Relation (ReflTransGen)
open Program Server

variable {C : Crypto} {w w' : World C} {d d' : Daemon C}

/-! ## What stays of a capture -/

theorem World.Step.stepBy (h : World.Step w w') : World.StepBy (fun _ => True) w w' := by
  cases h with
  | operate op hrun hfresh => exact .operate op trivial hrun hfresh
  | environment nonce clock => exact .environment nonce clock

/-- A history that has ended stays as it is. -/
theorem World.Tells.ended {id : InvocationId} {ms : List (Transaction C)} (h : w.Tells id ms)
    {t : Transaction C} {terminal : Terminal} (hlast : ms.getLast? = some t)
    (hend : t.ending = some terminal) (hrun : ReflTransGen World.Step w w') : w'.Tells id ms := by
  obtain ⟨more, htells⟩ := h.run (hrun.lift (fun w => w) fun _ _ hstep => hstep.stepBy)
  obtain ⟨K, L, r, hholds, hr, htold⟩ := htells
  obtain ⟨rfl, -⟩ := htold.ended hlast hend
  rw [List.append_nil] at htold
  exact ⟨K, L, r, hholds, hr, htold⟩

/-- A record stays that of the same call. -/
theorem World.Reachable.invocationAt_kept (h : w.Reachable) (hrun : ReflTransGen World.Step w w')
    {id : InvocationId} {r : InvocationRecord} (hr : w.store.invocationAt id = some r) :
    ∃ r', w'.store.invocationAt id = some r' ∧ r.SameCall r' := by
  obtain ⟨K, L, hL⟩ := h.holds
  obtain ⟨K', L', hL', hext⟩ := hL.extends hrun
  rw [hL.represents.invocationAt_eq] at hr
  rw [hL'.represents.invocationAt_eq]
  exact hext.invocations id r hr

theorem Daemon.Meanwhile.reachable (h : d.Meanwhile d') (hd : d.world.Reachable) :
    d'.world.Reachable := hd.trans h

/-- A shredded tenant stays shredded. -/
theorem Daemon.Meanwhile.shredded (h : d.Meanwhile d') (hd : d.world.Reachable) {t : TenantId}
    (hstone : (d.store.tombstoneAt t).isSome) : (d'.store.tombstoneAt t).isSome := by
  rw [Option.isSome_iff_ne_none] at hstone ⊢
  exact fun hnone => hstone (hd.unshredded h hnone)

/-- The store has the invocation that was persisted for `intent`, under its key. -/
def World.Stores (w : World C) (intent : Intent C) (status : InvocationStatus) : Prop :=
  ∃ K L, w.Holds K L ∧ L.Stores intent status

theorem World.Stores.run {intent : Intent C} {status : InvocationStatus}
    (h : w.Stores intent status) (hrun : ReflTransGen World.Step w w') :
    w'.Stores intent status := by
  obtain ⟨K, L, hL, hstores⟩ := h
  obtain ⟨K', L', hL', hext⟩ := hL.extends hrun
  exact ⟨K', L', hL', hstores.extends hext⟩

/-- What is read of a capture that was published and settled. -/
theorem World.Tells.artifact {id : InvocationId} {transfer : Transfer}
    (h : w.Tells id [.dispatch id, .completeTransfer id transfer, .publish id,
      .settle id .success]) :
    ∃ r, w.store.invocationAt id = some r ∧ r.artifact = some (artifactRef id) ∧
      ((w.store.tombstoneAt r.tenant).isSome ∧ w.store.artifact (artifactRef id) = .ok none ∨
        ∃ info : ArtifactInfo, w.store.artifact (artifactRef id) = .ok (some info) ∧
          (⟨info.artifact, info.source, info.textView, info.truncated, info.outputBytes,
            info.revokedAfterEffect⟩ : CaptureOutcome) = transfer.outcome id) := by
  obtain ⟨K, L, r, hholds, hr, htold⟩ := h
  obtain rfl := hholds.reachable.named.invocations id r hr
  have hstored : w.store.invocationAt r.id = some r :=
    (congrFun hholds.represents.invocationAt_eq _).trans hr
  cases htold with
  | settled _ _ hterminal _ _ hartifact ha hdelivers =>
    obtain ⟨a', published, hshows⟩ :=
      (hholds.reachable.filed.records _ r hr).visible (.inr hterminal)
    obtain rfl := Option.some.inj (ha.symm.trans hshows.side)
    refine ⟨r, hstored, hartifact, ?_⟩
    cases hstone : w.store.tombstoneAt r.tenant with
    | some =>
      exact .inl ⟨rfl, hholds.artifact_of_shredded hshows (by rw [hstone]; rfl)⟩
    | none =>
      obtain ⟨envelope, henvelope⟩ := Option.isSome_iff_exists.mp hshows.blob
      refine .inr ⟨_, (hholds.reads_visible hshows henvelope hstone).1, ?_⟩
      rw [ArtifactRecord.info, Transfer.outcome, hdelivers.artifact, hdelivers.source,
        hdelivers.textView, hdelivers.truncated, hdelivers.outputBytes,
        hdelivers.revokedAfterEffect]

/-! ## A request made again -/

/-- What the key of a capture is bound to. -/
def Asked.bound (asked : Asked C) : Option (C.Block × GrantId × SessionId × Bytes) :=
  match asked.body with
  | .capture request => some (asked.call.digest, asked.call.grant, request.session, request.target)
  | _ => none

/-- What a request `asked` is answered that is made after `d` under the key of `first`, which
was answered with `reply` for the invocation `id`. -/
inductive Retried (first : Asked C) (id : InvocationId) (reply : Reply) (asked : Asked C)
    (d d' : Daemon C) : Reply → Prop
  | same : Retried first id reply asked d d' reply
  | conflict (h : asked.bound ≠ first.bound) :
      Retried first id reply asked d d' (.failed .idempotencyConflict)
  | refused (d₁ : Daemon C) (now : Timestamp) (refusal : Decision) (hbefore : d.Meanwhile d₁)
      (hafter : d₁.Meanwhile d')
      (h : designatedChain d₁.store.view asked.call.tenant asked.call.grant .capture now =
        .ok (.error refusal)) :
      Retried first id reply asked d d' (.failed (refusal.refusal.getD .notFoundOrDenied))
  | internal : Retried first id reply asked d d' .internal
  | shredded (h : (d'.store.tombstoneAt asked.call.tenant).isSome) :
      Retried first id reply asked d d' (.of id (.failed .unknownEffect))

theorem Retried.after {first asked : Asked C} {id : InvocationId} {reply reply' : Reply}
    {d₀ d₁ : Daemon C} (h : Retried first id reply asked d d₁ reply') (hd₁ : d₁.world.Reachable)
    (hbefore : d₀.Meanwhile d) (hafter : d₁.Meanwhile d') :
    Retried first id reply asked d₀ d' reply' := by
  cases h with
  | same => exact .same
  | conflict h => exact .conflict h
  | refused d₂ now refusal hbefore' hafter' h =>
    exact .refused d₂ now refusal (hbefore.trans hbefore') (hafter'.trans hafter) h
  | internal => exact .internal
  | shredded h => exact .shredded (hafter.shredded hd₁ h)

namespace Orchestrator.Finishes

variable {d d' : Daemon C} {call : Call C} {id : InvocationId} {known : List (Event C)}
  {ms : List (Transaction C)} {reply : Reply} {r : InvocationRecord}

/-- A caught handler ends as it would have. -/
theorem attempt {α : Type} {x : Orchestrator C α} {c : Except CallError (Except CallError α)}
    (h : Finishes x.attempt d c d') : ∃ r, c = .ok r ∧ Finishes x d r d' := Ends.attempt h

/-- The outcome that is read of a capture that was published and settled. -/
theorem captured_settled {transfer : Transfer} (hd : d.world.Reachable)
    (htells : d.world.Tells id [.dispatch id, .completeTransfer id transfer, .publish id,
      .settle id .success]) (hr : d.store.invocationAt id = some r)
    {outcome : Option CaptureOutcome}
    (h : Finishes (Orchestrator.captured r.status) d (.ok outcome) d') :
    outcome = some (transfer.outcome id) ∨
      outcome = none ∧ (d'.store.tombstoneAt r.tenant).isSome := by
  obtain ⟨r', hr', hartifact, -⟩ := htells.artifact
  obtain rfl : r' = r := Option.some.inj (hr'.symm.trans hr)
  have hartifact : r'.status.artifact = some (artifactRef id) := hartifact
  unfold Orchestrator.captured at h
  rw [hartifact] at h
  obtain ⟨info, d₁, hread, h⟩ := h.bind_ok
  obtain ⟨d₂, hbefore, hinfo, hafter⟩ := hread.store_read rfl
  obtain ⟨rfl, hend⟩ := h.pure_ok
  -- The history has ended, so it is the same when the artifact is read.
  have htells₂ : d₂.world.Tells id _ := htells.ended rfl rfl hbefore
  obtain ⟨r₂, hr₂, -, hshown⟩ := htells₂.artifact
  obtain ⟨r₃, hr₃, hsame⟩ := hd.invocationAt_kept hbefore hr
  have htenant : r₂.tenant = r'.tenant := by
    rw [Option.some.inj (hr₂.symm.trans hr₃), hsame.tenant]
  rcases hshown with ⟨hstone, hnone⟩ | ⟨info', hinfo', houtcome⟩
  · rw [htenant] at hstone
    have hlast : d₂.Meanwhile d' := hafter.trans hend
    refine .inr ⟨?_, hlast.shredded (hbefore.reachable hd) hstone⟩
    obtain rfl : info = none := Except.ok.inj (hinfo.symm.trans hnone)
    rfl
  · obtain rfl : info = some info' := Except.ok.inj (hinfo.symm.trans hinfo')
    exact .inl (congrArg some houtcome)

/-- The replay of a capture that has ended answers as the capture did. -/
theorem replay_concluded (hd : d.world.Reachable) (hconcludes : Concludes call id known ms reply)
    (htells : d.world.Tells id ms) (hr : d.store.invocationAt id = some r)
    {answer : Except CallError Reply} (h : Finishes (Orchestrator.replay r.status) d answer d') :
    (∃ e, answer = .error e) ∨ answer = .ok reply ∨ (d'.store.tombstoneAt r.tenant).isSome ∧
      answer = .ok (.of id (.failed .unknownEffect)) := by
  obtain ⟨t, terminal, hlast, hend, hmatches⟩ := hconcludes.matches
  have htells₀ := htells
  obtain ⟨K, L, r', hholds, hr', htold⟩ := htells
  obtain rfl : r' = r := Option.some.inj
    (((congrFun hholds.represents.invocationAt_eq id).trans hr').symm.trans hr)
  have hid : r'.status.id = id := hholds.reachable.named.invocations id r' hr'
  have hterminal : r'.status.terminal = some terminal := htold.terminal hlast hend
  unfold Orchestrator.replay at h
  rw [hterminal, hid] at h
  rcases hmatches with ⟨failure, hfailure, rfl⟩ | ⟨rfl, outcome, -, rfl⟩
  · -- A failure is answered from the record.
    refine .inr (.inl ?_)
    have hreply : Finishes
      (Pure.pure (.of id (.failed (terminal.replyFailure.getD .unknownEffect))) :
        Orchestrator C Reply) d answer d' := by
      cases terminal with
      | settled failure' =>
        cases failure' with
        | none => cases hfailure
        | some => exact h
      | released => exact h
      | unknownEffect => exact h
    rw [hreply.1, hfailure]
    rfl
  · cases hconcludes with
    | captured =>
      rcases h.bind with ⟨info, d₁, hread, h⟩ | ⟨e, rfl, -⟩
      · rcases captured_settled hd htells₀ hr hread with rfl | ⟨rfl, hstone⟩
        · exact .inr (.inl h.1)
        · exact .inr (.inr ⟨(Daemon.meanwhile_of_run h.2).shredded (hread.meanwhile.reachable hd)
            hstone, h.1⟩)
      · exact .inl ⟨e, rfl⟩

/-- A replay is refused by the chain of some moment. -/
theorem replayRefusal_some {capability : Capability} {failure : Failure}
    (h : Finishes (replayRefusal call capability) d (.ok (some failure)) d') :
    ∃ d₁ now refusal, d.Meanwhile d₁ ∧ d₁.Meanwhile d' ∧
      designatedChain d₁.store.view call.tenant call.grant capability now = .ok (.error refusal) ∧
      failure = refusal.refusal.getD .notFoundOrDenied := by
  obtain ⟨view, d₁, hview, h⟩ := h.bind_ok
  obtain ⟨d₂, hbefore, rfl, hafter⟩ := hview.perform_read rfl
  obtain ⟨now, d₃, hnow, h⟩ := h.bind_ok
  obtain ⟨decision, d₄, hdecision, h⟩ := h.bind_ok
  obtain ⟨hchain, hlast⟩ := hdecision.authz_ok
  have hmid : d₂.Meanwhile d₄ := (hafter.trans hnow.meanwhile).trans hlast
  cases decision with
  | ok => cases h.pure_ok.1
  | error refusal =>
    obtain ⟨heq, hdone⟩ := h.pure_ok
    exact ⟨d₂, now, refusal, hbefore, hmid.trans hdone, hchain, Option.some.inj heq⟩

/-- The replay of a capture is authorized again before it is answered. -/
theorem replayCapture_concluded {first : Asked C} {request : CaptureRequest}
    (hd : d.world.Reachable) (hconcludes : Concludes first.call id known ms reply)
    (htells : d.world.Tells id ms) (hr : d.store.invocationAt id = some r)
    (htenant : r.tenant = call.tenant) {reply' : Reply}
    (h : Finishes (replayCapture call r.status) d (.ok reply') d') :
    Retried first id reply ⟨call, .execute, .capture request⟩ d d' reply' := by
  obtain ⟨refusal, d₁, hrefusal, h⟩ := h.bind_ok
  cases refusal with
  | some =>
    obtain ⟨d₂, now, decision, hbefore, hafter, hchain, rfl⟩ := replayRefusal_some hrefusal
    have hlast : d₂.Meanwhile d' := hafter.trans h.meanwhile
    rw [deny_ok h]
    exact .refused d₂ now decision hbefore hlast hchain
  | none =>
    have h : Finishes (Orchestrator.replay r.status) d (.ok reply') d' :=
      Ends.other (.single hrefusal.meanwhile) h
    rcases replay_concluded hd hconcludes htells hr h with ⟨e, he⟩ | hsame | ⟨hstone, hgone⟩
    · cases he
    · cases hsame
      exact .same
    · cases hgone
      rw [htenant] at hstone
      exact .shredded hstone

/-- Under a bound key nothing is begun. -/
theorem beginCapture_bound {first : Asked C} {request : CaptureRequest} {intent : Intent C}
    {status : InvocationStatus} (hd : d.world.Reachable)
    (hconcludes : Concludes first.call status.id known ms reply)
    (htells : d.world.Tells status.id ms) (hof : intent.Of first)
    (hstores : d.world.Stores intent status) (htenant : call.tenant = first.call.tenant)
    (hkey : call.key = first.call.key) {answer : Started}
    (h : Finishes (beginCapture call request) d (.ok answer) d') :
    ∃ reply', answer = .answered reply' ∧
      Retried first status.id reply ⟨call, .execute, .capture request⟩ d d' reply' := by
  obtain ⟨t, terminal, hlast, hend, -⟩ := hconcludes.matches
  obtain ⟨original, limits₀, hbody, hauthz⟩ := hof.authz
  unfold beginCapture at h
  rw [hkey, hof.key] at h
  obtain ⟨limits, d₁, hlimits, h⟩ := h.bind_ok
  obtain ⟨invocation, d₂, hfresh, h⟩ := h.bind_ok
  obtain ⟨begun, d₃, hbegin, h⟩ := h.bind_ok
  obtain ⟨d₄, d₅, hbefore, hanswer, hafter⟩ := hbegin.store_ok
  have hrun : d.Meanwhile d₄ := (hlimits.meanwhile.trans hfresh.meanwhile).trans hbefore
  obtain ⟨s, hcommit, hd₅⟩ := hanswer.committed (t := .begin _) (a := begun)
    (List.mem_singleton_self _)
  obtain ⟨K, L, hL, ⟨⟨r, hr, hbegunBy⟩, hidem⟩⟩ := World.Stores.run hstores hrun
  obtain ⟨L', hL', -⟩ := hL.represents.commit_ok hcommit
  have hslot : L.idem (call.tenant, .capture, intent.idempotencyKey) =
      some ⟨status.id, requestBinding intent⟩ := by
    rw [← hidem, Intent.slot, hauthz, htenant]
    rfl
  cases Custody.begin_begun hL' with
  | persisted _ _ _ _ _ hadmits =>
    cases hslot.symm.trans hadmits.key
  | refused _ _ _ _ hfree =>
    cases hslot.symm.trans hfree
  | conflict _ hbound hbinding =>
    obtain ⟨rfl, -⟩ := h.pure_ok
    refine ⟨_, rfl, .conflict fun hsame => hbinding ?_⟩
    cases hslot.symm.trans hbound
    rw [Asked.bound, Asked.bound, hbody] at hsame
    obtain ⟨hdigest, hgrant, hsession, htarget⟩ : call.digest = first.call.digest ∧
        call.grant = first.call.grant ∧ request.session = original.session ∧
        request.target = original.target := by simpa using hsame
    simp only [requestBinding, hauthz, hof.digest, Call.captureAuthz, Call.authz, hdigest, hgrant,
      hsession, htarget]
  | replayed _ r' hbound _ hr' =>
    cases hslot.symm.trans hbound
    obtain rfl : r = r' := Option.some.inj (hr.symm.trans hr')
    obtain ⟨reply', d₆, hreplay, h⟩ := h.bind_ok
    obtain ⟨rfl, hdone⟩ := h.pure_ok
    have hcommitted : d₄.Meanwhile d₅ :=
      (Act.Answered.world hanswer).to_reflTransGen.lift (fun w => w) fun _ _ h => h.step
    have hreplay : Finishes (replayCapture call r.status) d₄ (.ok reply') d₆ :=
      Ends.other (.single (hcommitted.trans hafter)) hreplay
    have hd₄ := hrun.reachable hd
    refine ⟨reply', rfl, ?_⟩
    refine (replayCapture_concluded hd₄ hconcludes (htells.ended hlast hend hrun) ?_ ?_
      hreplay).after (hreplay.meanwhile.reachable hd₄) hrun hdone
    · exact (congrFun hL.represents.invocationAt_eq _).trans hr
    · rw [hbegunBy.tenant, hauthz, htenant]
      rfl

end Orchestrator.Finishes

namespace Daemon

variable {p : Requests C} {i : Nat} {th : Thread (Act C) CallError Reply (Asked C) (Event C)}

/-- **A retried capture answers what the first one answered.**  Once a capture has returned
without a failed transaction, every later request of its tenant under its key, run beside
anything, is answered with the same reply; or it is refused, asks for something else or fails
inside the daemon, and says so without naming an invocation; or the tenant was shredded. -/
theorem capture_replayed (hp : server.Reaches p) (hth : p.threads i = some th) {reply : Reply}
    (hrest : th.rest = .done reply) {id : InvocationId} (hid : id ∈ begun th.log)
    (hfaultless : ¬ Faulty th.log) {call : Call C} {request : CaptureRequest}
    (htenant : call.tenant = th.asked.call.tenant) (hkey : call.key = th.asked.call.key)
    {reply' : Reply} {d' : Daemon C}
    (h : Orchestrator.Finishes (Orchestrator.handle call .execute (.capture request)) p.state
      (.ok reply') d') :
    Retried th.asked id reply ⟨call, .execute, .capture request⟩ p.state d' reply' := by
  obtain ⟨ms, known, hat, hconcludes⟩ := concluded hp hth hrest hid hfaultless
  obtain ⟨t, terminal, hlast, hend, -⟩ := hconcludes.matches
  have htells := told_concluded hp hth hid hat hlast hend
  obtain ⟨intent, status, hmem, rfl⟩ := hid
  have hof := (Daemon.tidy hp hth).1.intents _ hmem intent rfl
  obtain ⟨K, L, hL, hrec⟩ := recorded hp
  have hstores : p.state.world.Stores intent status := ⟨K, L, hL, hrec.stored hth hmem⟩
  have hd := reachable_world hp
  obtain ⟨started, d₁, hstarted, h⟩ := Orchestrator.Finishes.bind_ok h
  obtain ⟨_, heq, hbegin⟩ := hstarted.attempt
  cases heq
  cases started with
  | error =>
    obtain ⟨rfl, -⟩ := h.pure_ok
    exact .internal
  | ok =>
    obtain ⟨answered, rfl, hretried⟩ :=
      hbegin.beginCapture_bound hd hconcludes htells hof hstores htenant hkey
    obtain ⟨rfl, hdone⟩ := h.pure_ok
    exact hretried.after (hbegin.meanwhile.reachable hd) .refl hdone

/-- The capture of the day, asked for once more. -/
theorem capture_replayed_of_capture :
    ∃ (p : Requests Crypto.ideal) (reply reply' : Reply) (d' : Daemon Crypto.ideal),
      server.Reaches p ∧ Orchestrator.Finishes (server.start Sample.captures) p.state
        (.ok reply') d' ∧
      Retried Sample.captures ⟨41⟩ reply Sample.captures p.state d' reply' := by
  have hrun : ((Sample.rehearsal 40).bind fun x => (Orchestrator.reply x.1).bind fun _ =>
      (Orchestrator.rehearse Sample.captureScript 40 (server.start Sample.captures) [] x.2.2).bind
        fun y => (Orchestrator.reply y.1).map fun _ =>
          decide (⟨41⟩ ∈ begun x.2.1 ∧ ¬ Faulty x.2.1)) = some true := by decide +kernel
  obtain ⟨⟨x, l, L⟩, hx, hrun⟩ := Option.bind_eq_some_iff.mp hrun
  obtain ⟨reply, hdone, hrun⟩ := Option.bind_eq_some_iff.mp hrun
  obtain ⟨⟨x', l', L'⟩, hx', hrun⟩ := Option.bind_eq_some_iff.mp hrun
  obtain ⟨reply', hdone', hlog⟩ := Option.map_eq_some_iff.mp hrun
  obtain ⟨hid, hfaultless⟩ := of_decide_eq_true hlog
  obtain rfl : x = .done reply := Orchestrator.eq_done hdone
  obtain rfl : x' = .done reply' := Orchestrator.eq_done hdone'
  obtain ⟨p, K, hp, hth, hL, -⟩ := Sample.exists_capture hx
  obtain ⟨d', hends, -⟩ := Daemon.finishes hL hx'
  exact ⟨p, reply, reply', d', hp, hends,
    capture_replayed hp hth rfl hid hfaultless rfl rfl hends⟩

end Daemon
end Dioptron
