import Dioptron.Histories
import Dioptron.Rehearsals

/-! # How captures end

A handler that began an invocation ends it: unless one of its transactions failed, its
reply is the one its last transition stands for, and the invocation has left the running
set.  With the histories this says what the store holds of every capture that has
returned, whatever ran beside it and whatever crashed since.
-/
namespace Dioptron

open Relation (ReflGen ReflTransGen)
open Program Server

variable {C : Crypto} {l : List (Event C)}

/-- A transaction of the handler failed. -/
def Faulty (l : List (Event C)) : Prop := ∃ t e, .transacted t (.error e) ∈ l

/-- A transaction of the handler that began `id` failed. -/
def Faulted (id : InvocationId) (l : List (Event C)) : Prop := id ∈ begun l ∧ Faulty l

theorem Faulty.append (h : Faulty l) (m : List (Event C)) : Faulty (l ++ m) := by
  obtain ⟨t, e, hmem⟩ := h
  exact ⟨t, e, List.mem_append_left _ hmem⟩

theorem Faulted.append {id : InvocationId} (h : Faulted id l) (m : List (Event C)) :
    Faulted id (l ++ m) := ⟨begun_append.mpr (.inl h.1), h.2.append m⟩

/-- The entry of a transaction that failed. -/
def Event.failed : Event C → Bool
  | .transacted _ (.error _) => true
  | _ => false

instance (l : List (Event C)) : Decidable (Faulty l) :=
  decidable_of_iff (∃ e ∈ l, e.failed = true) <| by
    constructor
    · rintro ⟨e, he, hfailed⟩
      cases e with
      | transacted t answer =>
        cases answer with
        | ok reply => cases hfailed
        | error error => exact ⟨t, error, he⟩
      | _ => cases hfailed
    · rintro ⟨t, error, he⟩
      exact ⟨_, he, rfl⟩

/-- If the last thing a handler did was to call the producer, then for an invocation that was
dispatched and no more, and that was in the running set. -/
def LastCall (l : List (Event C)) : Prop :=
  ∀ before request answer, l = before ++ [.produced request answer] →
    moved request.invocation before = [.dispatch request.invocation] ∧
      ∃ chain, registration request.invocation before = some (some chain)

theorem LastCall.append (h : LastCall l) {β : Type} {p : Act C β} (hp : p.request = none) (b : β) :
    LastCall (l ++ p.event β b) := by
  intro before request answer heq
  rcases List.eq_nil_or_concat (p.event β b) with hnil | ⟨events, e, hsnoc⟩
  · rw [hnil, List.append_nil] at heq
    exact h before request answer heq
  · rw [List.concat_eq_append] at hsnoc
    rw [hsnoc, ← List.append_assoc] at heq
    have hlast : e = .produced request answer := by simpa using (List.append_inj' heq rfl).2
    have hquiet : e.request = none := by
      rw [← hp]
      exact Event.request_of_mem (by rw [hsnoc]; simp)
    rw [hlast] at hquiet
    cases hquiet

/-- What holds of a handler at every moment, beside steps that spare it. -/
structure Sound (y : Daemon C × List (Event C)) : Prop where
  owning : Owning y.2
  agrees : Agrees y.1 y.2
  lastCall : LastCall y.2

namespace Sound

variable {d d' : Daemon C} {l : List (Event C)} {β : Type} {p : Act C β} {b : β}

theorem stable : Stable (beside Daemon.Spares) (Sound (C := C)) := by
  rintro ⟨d, l⟩ ⟨d', l'⟩ h ⟨hspares, hlog⟩
  cases hlog
  exact ⟨h.owning, h.agrees.spared hspares, h.lastCall⟩

/-- An access that touches only what was begun keeps a handler sound. -/
theorem answered (h : Sound (d, l)) (htouched : ∀ i ∈ p.touched, i ∈ begun l)
    (hquiet : p.request = none) (hanswer : p.Answered β d b d') :
    Sound (d', l ++ p.event β b) where
  owning := h.owning.append htouched b
  agrees := h.agrees.answered h.owning hanswer
  lastCall := h.lastCall.append hquiet b

end Sound

/-- The handler began `id` and nothing else, committed the transitions `ms` of it, left it in
the running set as `reg` says, and its log has the entries `known`. -/
structure At (id : InvocationId) (ms : List (Transaction C))
    (reg : Option (Option (List GrantId))) (known l : List (Event C)) : Prop where
  begun : begun l = {id}
  moved : moved id l = ms
  registration : registration id l = reg
  known : ∀ e ∈ known, e ∈ l

namespace At

variable {id : InvocationId} {ms : List (Transaction C)} {reg : Option (Option (List GrantId))}
  {known l : List (Event C)}

variable (h : At id ms reg known l)

include h

theorem mem_begun : id ∈ Dioptron.begun l := by
  rw [h.begun]
  exact Set.mem_singleton id

theorem append (events : List (Event C))
    (hbegins : ∀ e ∈ events, e.begins = none) (hregisters : ∀ e ∈ events, e.registers id = none) :
    At id (ms ++ Dioptron.moved id events) reg known (l ++ events) where
  begun := by
    ext i
    rw [begun_append, h.begun]
    refine ⟨fun hi => hi.elim (fun h => h) fun hnew => ?_, .inl⟩
    obtain ⟨intent, status, hmem, -⟩ := hnew
    cases hbegins _ hmem
  moved := by rw [moved_append, h.moved]
  registration := by
    rw [Dioptron.registration, List.filterMap_append, List.filterMap_eq_nil_iff.mpr hregisters,
      List.append_nil]
    exact h.registration
  known := fun e he => List.mem_append_left _ (h.known e he)

/-- An entry of the running set. -/
theorem register {e : Event C} {chain : Option (List GrantId)}
    (hbegins : e.begins = none) (hmoved : e.moved id = none) (he : e.registers id = some chain) :
    At id ms (some chain) known (l ++ [e]) where
  begun := by
    ext i
    rw [begun_append, h.begun]
    refine ⟨fun hi => hi.elim (fun h => h) fun hnew => ?_, .inl⟩
    obtain ⟨intent, status, hmem, -⟩ := hnew
    cases List.mem_singleton.mp hmem
    cases hbegins
  moved := by
    rw [moved_append, h.moved, Dioptron.moved, List.filterMap_cons_none hmoved, List.filterMap_nil,
      List.append_nil]
  registration := by
    rw [Dioptron.registration, List.filterMap_append, List.filterMap_cons_some he,
      List.filterMap_nil, List.getLast?_append]
    rfl
  known := fun e he => List.mem_append_left _ (h.known e he)

/-- What is seen is known from then on. -/
theorem learn {e : Event C} (he : e ∈ l) :
    At id ms reg (e :: known) l where
  begun := h.begun
  moved := h.moved
  registration := h.registration
  known := by
    intro e' he'
    rcases List.mem_cons.mp he' with rfl | he'
    · exact he
    · exact h.known e' he'

end At

/-! ## Conclusions -/

/-- The failure that a producer's answer settles a call with. -/
inductive Produced.FailsWith (request : AcquireRequest) : Produced → Failure → Prop
  | tooLarge (output : ProducerOutput)
      (h : request.limits.maxTransferBytes.getD 0 < lenU64 output.envelope) :
      FailsWith request (.output output) (.transferFailed .tooLarge)
  | transfer (cls : TransferClass) :
      FailsWith request (.error (.transfer cls)) (.transferFailed cls)
  | extraction (cls : ExtractionClass) :
      FailsWith request (.error (.extraction cls)) (.extractionFailed cls)
  | late : FailsWith request (.error (.cancelled true)) .deadlineExceeded
  | cancelled : FailsWith request (.error (.cancelled true)) .cancelled

/-- The reply that a history of the capture stands for.  The entries are those of the
producer's answer and of the time it took. -/
inductive Concludes (call : Call C) (id : InvocationId) (known : List (Event C)) :
    List (Transaction C) → Reply → Prop
  | released {ms : List (Transaction C)} (reason : ReleaseReason) (failure : Failure)
      (hms : ms.getLast? = some (.release id reason))
      (hfailure : (Terminal.released reason).replyFailure = some failure) :
      Concludes call id known ms (.of id (.failed failure))
  | unknown : Concludes call id known [.dispatch id, .markUnknownEffect id]
      (.of id (.failed .unknownEffect))
  | failed (request : AcquireRequest) (produced : Produced) (elapsed : UInt64) (failure : Failure)
      (hproduced : .produced request produced ∈ known) (helapsed : .elapsed elapsed ∈ known)
      (hfails : produced.FailsWith request failure) :
      Concludes call id known [.dispatch id, .settle id (.failed failure (spent elapsed 0))]
        (.of id (.failed failure))
  | captured (request : AcquireRequest) (output : ProducerOutput) (elapsed : UInt64)
      (revoked : Bool) (hproduced : .produced request (.output output) ∈ known)
      (helapsed : .elapsed elapsed ∈ known)
      (hfits : lenU64 output.envelope ≤ request.limits.maxTransferBytes.getD 0) :
      Concludes call id known
        [.dispatch id,
          .completeTransfer id (outputTransfer call request.limits output elapsed revoked),
          .publish id, .settle id .success]
        (.of id (.captured
          ((outputTransfer call request.limits output elapsed revoked).outcome id)))

/-- A terminal state and a reply say the same. -/
def Terminal.Matches (terminal : Terminal) (id : InvocationId) (reply : Reply) : Prop :=
  (∃ failure, terminal.replyFailure = some failure ∧ reply = .of id (.failed failure)) ∨
    terminal = .settled none ∧
      ∃ outcome : CaptureOutcome, outcome.artifactRef = artifactRef id ∧
        reply = .of id (.captured outcome)

/-- A concluded capture has ended, and its reply says how. -/
theorem Concludes.matches {call : Call C} {id : InvocationId} {known : List (Event C)}
    {ms : List (Transaction C)} {reply : Reply} (h : Concludes call id known ms reply) :
    ∃ t terminal, ms.getLast? = some t ∧ t.ending = some terminal ∧ terminal.Matches id reply := by
  cases h with
  | released _ failure hms hfailure => exact ⟨_, _, hms, rfl, .inl ⟨failure, hfailure, rfl⟩⟩
  | unknown => exact ⟨_, _, rfl, rfl, .inl ⟨_, rfl, rfl⟩⟩
  | failed _ _ _ failure =>
    exact ⟨_, _, rfl, rfl, .inl ⟨failure, rfl, rfl⟩⟩
  | captured =>
    exact ⟨_, _, rfl, rfl, .inr ⟨rfl, _, rfl, rfl⟩⟩

/-- How a part of a capture stops: after a fault, concluded, or with an error before anything
was settled. -/
inductive Stops (call : Call C) (id : InvocationId) (reg : Option (Option (List GrantId)))
    (l : List (Event C)) :
    Except CallError Reply → Prop
  | faulty {r : Except CallError Reply} (h : Faulted id l) : Stops call id reg l r
  | concluded {reply : Reply} {ms : List (Transaction C)} {known : List (Event C)}
      (hat : At id ms reg known l) (h : Concludes call id known ms reply) :
      Stops call id reg l (.ok reply)
  | failed {e : CallError} {ms : List (Transaction C)} {known : List (Event C)}
      (hms : ms = [] ∨ ms = [.dispatch id]) (hat : At id ms reg known l) :
      Stops call id reg l (.error e)

namespace Stops

variable {call : Call C} {id : InvocationId} {reg : Option (Option (List GrantId))}
  {l : List (Event C)} {r : Except CallError Reply}

theorem mem_begun (h : Stops call id reg l r) : id ∈ begun l := by
  cases h with
  | faulty h => exact h.1
  | concluded hat => exact hat.mem_begun
  | failed _ hat => exact hat.mem_begun

/-- Leaving the running set does not change how the capture stopped. -/
theorem deregister (h : Stops call id reg l r) :
    Stops call id (some none) (l ++ [.deregistered id]) r := by
  cases h with
  | faulty h => exact .faulty (h.append _)
  | concluded hat h => exact .concluded (hat.register rfl rfl (if_pos rfl)) h
  | failed hms hat => exact .failed hms (hat.register rfl rfl (if_pos rfl))

end Stops

/-- The reply is the one the history of the capture stands for. -/
def Concluded (call : Call C) (id : InvocationId) (reg : Option (Option (List GrantId)))
    (l : List (Event C)) (reply : Reply) : Prop :=
  ∃ ms known, At id ms reg known l ∧ Concludes call id known ms reply

/-! ## The parts of a capture -/

namespace Orchestrator

variable {call : Call C} {α : Type} {id : InvocationId} {ms : List (Transaction C)}
  {reg : Option (Option (List GrantId))} {known : List (Event C)} {y : Daemon C × List (Event C)}
  {x : Orchestrator C α} {t : Transaction C} {elapsed : UInt64}

/-- A handler stays sound and ends with `Q` of its log. -/
abbrev KeepsSound (Q : Except CallError α → List (Event C) → Prop)
    (x : Orchestrator C α) (y : Daemon C × List (Event C)) : Prop :=
  Daemon.server.KeepsLog Daemon.Spares Sound Q x y

/-- What touches no invocation leaves the capture where it is. -/
theorem at_of_only {revoked : Option GrantId} (hx : x.Performs (Act.Only revoked)) (hy : Sound y)
    (hat : At id ms reg known y.2) : KeepsSound (fun _ => At id ms reg known) x y := by
  refine .of_performs Sound.stable hx (fun β p d l b d' hp hsound hl hanswer => ?_) hy hat
  refine ⟨hsound.answered (by rw [hp.touched]; simp) hp.quiet hanswer, ?_⟩
  have huntouched : ∀ e ∈ p.event β b, e.touched ≠ some id := fun e he => by
    rw [Event.touched_of_mem he, hp.touched]
    simp
  have hat := hl.append _ (fun e he => (Event.begins_of_mem he).trans hp.begins)
    fun e he => Event.registers_of_touched (huntouched e he)
  rwa [moved_of_touched huntouched, List.append_nil] at hat

/-- What settles the invocation leaves a fault in the log. -/
theorem faulted_of_settles (hx : x.Performs (Act.Settles id)) (hy : Sound y)
    (hfaulted : Faulted id y.2) : KeepsSound (fun _ => Faulted id) x y := by
  refine .of_performs Sound.stable hx (fun β p d l b d' hp hsound hl hanswer => ?_) hy hfaulted
  exact ⟨hsound.answered (hp.touches hl.1) hp.request hanswer, hl.append _⟩

/-- A transition that commits is the next of the capture and answers with `R`, and one that
fails is a fault. -/
theorem at_transact (R : t.Reply → Prop) (ht : t.moves = some id)
    (hR : ∀ (d : Daemon C) a s, d.world.Reachable → d.store.commit t.program = .ok (a, s) →
      World.Tells ⟨s, d.world.drawn⟩ id (ms ++ [t]) → R a) (hy : Sound y)
    (hat : At id ms reg known y.2) :
    KeepsSound (fun r l => (∀ a, r = .ok a → At id (ms ++ [t]) reg known l ∧ R a) ∧
      ∀ e, r = .error e → Faulted id l) (store (.transact t)) y := by
  have hbegins : t.begins = none := by
    cases t with
    | begin => cases ht
    | _ => rfl
  have hsettles : (Act.transact t).Settles id := ⟨hbegins, .inr ht, rfl, rfl⟩
  refine keepsLog_store Sound.stable (J := At id ms reg known)
    (fun d l b d' hsound hl hanswer => ?_) hy hat
  have hsound' := hsound.answered (hsettles.touches hl.mem_begun) rfl hanswer
  refine ⟨hsound', ?_, ?_⟩
  · intro a hok
    cases mapError_eq_ok.mp hok
    have hat := hl.append (Act.event _ (.transact t) (.ok a))
      (fun e he => (Event.begins_of_mem he).trans hbegins) (by simp [Act.event, Event.registers])
    have hone : moved id (Act.event _ (.transact t) (.ok a)) = [t] := by
      simp [moved, Act.event, Event.moved, ht]
    rw [hone] at hat
    have htells := hsound'.agrees.tells id hat.mem_begun
    rw [hat.moved] at htells
    obtain ⟨s, hcommit, rfl⟩ := hanswer.committed (t := t) (a := a) (List.mem_singleton_self _)
    exact ⟨hat, hR d a s hsound.agrees.reachable hcommit htells⟩
  · intro e herror
    cases b with
    | ok => cases herror
    | error e =>
      exact ⟨begun_append.mpr (.inl hl.mem_begun), t, e,
        List.mem_append_right _ (List.mem_singleton_self _)⟩

/-- The same of a transition whose answer does not matter. -/
theorem at_moves (ht : t.moves = some id) (hy : Sound y) (hat : At id ms reg known y.2) :
    KeepsSound (fun r l => (∀ a, r = .ok a → At id (ms ++ [t]) reg known l) ∧
      ∀ e, r = .error e → Faulted id l) (store (.transact t)) y :=
  (at_transact (fun _ => True) ht (fun _ _ _ _ _ _ => trivial) hy hat).mono
    fun _ _ h => ⟨fun a ha => (h.1 a ha).1, h.2⟩

theorem at_release (reason : ReleaseReason) (hy : Sound y) (hat : At id ms reg known y.2) :
    KeepsSound (fun r l => (∀ status : InvocationStatus, r = .ok status →
      At id (ms ++ [.release id reason]) reg known l ∧
        status.id = id ∧ status.terminal = some (.released reason)) ∧
      ∀ e, r = .error e → Faulted id l)
      (store (.transact (.release id reason))) y := by
  refine at_transact (t := .release id reason) (fun status : InvocationStatus =>
    status.id = id ∧ status.terminal = some (.released reason)) rfl
    (fun d a s hw hcommit htells => ?_) hy hat
  exact htells.status hw hcommit (fun _ _ _ => Custody.applySettlement_id) rfl

theorem at_markUnknownEffect (hy : Sound y) (hat : At id ms reg known y.2) :
    KeepsSound (fun r l => (∀ status : InvocationStatus, r = .ok status →
      At id (ms ++ [.markUnknownEffect id]) reg known l ∧
        status.id = id ∧ status.terminal = some .unknownEffect) ∧ ∀ e, r = .error e → Faulted id l)
      (store (.transact (.markUnknownEffect id))) y := by
  refine at_transact (t := .markUnknownEffect id) (fun status : InvocationStatus =>
    status.id = id ∧ status.terminal = some .unknownEffect) rfl
    (fun d a s hw hcommit htells => ?_) hy hat
  exact htells.status hw hcommit (fun _ _ _ => Custody.applySettlement_id) rfl

/-- A transition and then a reply. -/
theorem stops_of_store {R : t.Reply → Prop} {f : t.Reply → Reply}
    (ht : KeepsSound (fun r l => (∀ a, r = .ok a → At id (ms ++ [t]) reg known l ∧ R a) ∧
      ∀ e, r = .error e → Faulted id l) (store (.transact t)) y)
    (hf : ∀ a, R a → Concludes call id known (ms ++ [t]) (f a)) :
    KeepsSound (fun r l => Stops call id reg l r)
      (do let a ← store (.transact t); return f a) y := by
  refine ht.bind ?_ fun e l h => .faulty (h.2 e rfl)
  intro a y h hy
  obtain ⟨hat, ha⟩ := h.1 a rfl
  exact .pure Sound.stable hy (.concluded hat (hf a ha))

theorem release_stops (reason : ReleaseReason) (hy : Sound y) (hat : At id ms reg known y.2) :
    KeepsSound (fun r l => Stops call id reg l r) (release id reason) y := by
  refine stops_of_store (t := .release id reason) (at_release reason hy hat) ?_
  rintro status ⟨-, hterminal⟩
  have hfailure : ∃ failure, (Terminal.released reason).replyFailure = some failure := by
    cases reason <;> exact ⟨_, rfl⟩
  obtain ⟨failure, hfailure⟩ := hfailure
  have hreply : Concludes call id known (ms ++ [.release id reason]) (.of id (.failed failure)) :=
    .released reason failure (by rw [List.getLast?_append]; rfl) hfailure
  simpa [hterminal, hfailure] using hreply

theorem settleFailed_stops {request : AcquireRequest} {produced : Produced} {failure : Failure}
    (hproduced : .produced request produced ∈ known) (helapsed : .elapsed elapsed ∈ known)
    (hfails : produced.FailsWith request failure) (hy : Sound y)
    (hat : At id [.dispatch id] reg known y.2) :
    KeepsSound (fun r l => Stops call id reg l r)
      (settleFailed id failure (spent elapsed 0)) y := by
  refine stops_of_store (t := .settle id (.failed failure (spent elapsed 0)))
    (at_transact (fun _ => True) rfl (fun _ _ _ _ _ _ => trivial) hy hat) fun _ _ => ?_
  exact .failed request produced elapsed failure hproduced helapsed hfails

theorem markUnknownEffect_stops (hy : Sound y) (hat : At id [.dispatch id] reg known y.2) :
    KeepsSound (fun r l => Stops call id reg l r) (markUnknownEffect id) y := by
  refine stops_of_store (t := .markUnknownEffect id)
    (at_transact (fun _ => True) rfl (fun _ _ _ _ _ _ => trivial) hy hat) fun _ _ => ?_
  exact .unknown

/-- Whatever touches no invocation may fail before the capture is settled. -/
theorem stops_bind {f : α → Orchestrator C Reply} (hx : x.Performs (Act.Only none))
    (hms : ms = [] ∨ ms = [.dispatch id]) (hy : Sound y) (hat : At id ms reg known y.2)
    (hf : ∀ a y, Sound y → At id ms reg known y.2 →
      KeepsSound (fun r l => Stops call id reg l r) (f a) y) :
    KeepsSound (fun r l => Stops call id reg l r) (x >>= f) y :=
  (at_of_only hx hy hat).bind (fun a y hat hy => hf a y hy hat) fun _ _ hat => .failed hms hat

theorem publish_stops {request : AcquireRequest} {output : ProducerOutput}
    (hproduced : .produced request (.output output) ∈ known) (helapsed : .elapsed elapsed ∈ known)
    (hfits : lenU64 output.envelope ≤ request.limits.maxTransferBytes.getD 0) (hy : Sound y)
    (hat : At id [.dispatch id] reg known y.2) :
    KeepsSound (fun r l => Stops call id reg l r)
      (publish call request.limits id output elapsed) y := by
  refine stops_bind (chainRefusal_only _) (.inr rfl) hy hat fun refusal y hy hat => ?_
  extract_lets revoked transfer
  refine (at_moves (t := .completeTransfer id transfer) rfl hy hat).bind ?_
    fun e l h => .faulty (h.2 e rfl)
  intro status y h hy
  refine (at_moves (t := .publish id) rfl hy (h.1 status rfl)).bind ?_
    fun e l h => .faulty (h.2 e rfl)
  intro status y h hy
  refine stops_of_store (t := .settle id .success) (at_transact (fun _ => True) rfl
    (fun _ _ _ _ _ _ => trivial) hy (h.1 status rfl)) fun _ _ => ?_
  exact .captured request output elapsed revoked hproduced helapsed hfits

theorem finish_stops (request : AcquireRequest) {output : ProducerOutput}
    (hproduced : .produced request (.output output) ∈ known) (helapsed : .elapsed elapsed ∈ known)
    (hy : Sound y) (hat : At id [.dispatch id] reg known y.2) :
    KeepsSound (fun r l => Stops call id reg l r)
      (finish call request.limits id output elapsed) y := by
  unfold finish
  split
  · rename_i hlarge
    exact settleFailed_stops hproduced helapsed (.tooLarge output hlarge) hy hat
  · rename_i hfits
    exact publish_stops hproduced helapsed (UInt64.not_lt.mp hfits) hy hat

theorem fail_stops (request : AcquireRequest) {error : ProducerError} (grant : GrantId)
    (hproduced : .produced request (.error error) ∈ known) (helapsed : .elapsed elapsed ∈ known)
    (hy : Sound y) (hat : At id [.dispatch id] reg known y.2) :
    KeepsSound (fun r l => Stops call id reg l r) (fail grant id elapsed error) y := by
  unfold fail
  split
  · exact release_stops _ hy hat
  · exact stops_bind (stopReason_only _) (.inr rfl) hy hat fun reason y hy hat =>
      release_stops reason hy hat
  · exact settleFailed_stops hproduced helapsed (.transfer _) hy hat
  · exact settleFailed_stops hproduced helapsed (.extraction _) hy hat
  · exact markUnknownEffect_stops hy hat
  · refine stops_bind (look_only rfl rfl rfl) (.inr rfl) hy hat fun late y hy hat => ?_
    cases late with
    | true => exact settleFailed_stops hproduced helapsed .late hy hat
    | false => exact settleFailed_stops hproduced helapsed .cancelled hy hat

/-- The producer is called for a dispatched invocation of the running set. -/
theorem at_produce {request : AcquireRequest} {chain : List GrantId}
    (hinvocation : request.invocation = id) (hy : Sound y)
    (hat : At id [.dispatch id] (some (some chain)) known y.2) :
    KeepsSound (fun r l => ∃ produced, r = .ok produced ∧
      At id [.dispatch id] (some (some chain)) (.produced request produced :: known) l)
      (perform (.produce request)) y := by
  refine .perform Sound.stable (J := At id [.dispatch id] (some (some chain)) known)
    (fun d l produced d' hsound hl hanswer => ?_) hy hat
  have hat := hl.append [.produced request produced] (by simp [Event.begins])
    (by simp [Event.registers])
  refine ⟨⟨?_, hsound.agrees.answered hsound.owning hanswer, ?_⟩, produced, rfl,
    hat.learn (by simp)⟩
  · refine hsound.owning.append (p := .produce request) ?_ produced
    rintro i ⟨⟩
    rw [hinvocation]
    exact hl.mem_begun
  · intro before request' answer heq
    obtain ⟨rfl, hlast⟩ := List.append_inj' heq rfl
    cases hlast
    rw [hinvocation]
    exact ⟨hl.moved, chain, hl.registration⟩

theorem at_elapsed (hy : Sound y) (hat : At id ms reg known y.2) :
    KeepsSound (fun r l => ∃ elapsed, r = .ok elapsed ∧ At id ms reg (.elapsed elapsed :: known) l)
      (perform (.elapsedMs : Act C _)) y := by
  refine .perform Sound.stable (J := At id ms reg known)
    (fun d l elapsed d' hsound hl hanswer => ?_) hy hat
  have hat := hl.append [.elapsed elapsed] (by simp [Event.begins]) (by simp [Event.registers])
  rw [show moved id [Event.elapsed (C := C) elapsed] = [] from rfl, List.append_nil] at hat
  exact ⟨hsound.answered (by simp [Act.touched]) rfl hanswer, elapsed, rfl, hat.learn (by simp)⟩

/-- **A begun invocation that runs stops concluded**, unless there is a fault or an error before
anything was settled. -/
theorem runInvocation_stops (request : CaptureRequest) (limits : CaptureLimits)
    {chain : List GrantId} (hy : Sound y) (hat : At id [] (some (some chain)) [] y.2) :
    KeepsSound (fun r l => Stops call id (some (some chain)) l r)
      (runInvocation call request limits id) y := by
  refine stops_bind (look_only rfl rfl rfl) (.inl rfl) hy hat fun cancelled y hy hat => ?_
  refine stops_bind (preDispatch_only ..) (.inl rfl) hy hat fun reason y hy hat => ?_
  split
  · exact release_stops _ hy hat
  · refine (at_moves (t := .dispatch id) rfl hy hat).bind ?_ fun e l h => .faulty (h.2 e rfl)
    intro status y h hy
    refine (at_produce rfl hy (h.1 status rfl)).bind ?_ (by simp)
    rintro produced y ⟨_, ⟨⟩, hat⟩ hy
    refine (at_elapsed hy hat).bind ?_ (by simp)
    rintro elapsed y ⟨_, ⟨⟩, hat⟩ hy
    split
    · exact finish_stops ⟨id, request.target, limits, request.egressPolicy⟩ (by simp)
        (by simp) hy hat
    · exact fail_stops ⟨id, request.target, limits, request.egressPolicy⟩ _ (by simp)
        (by simp) hy hat
    · exact markUnknownEffect_stops hy hat

/-- What the status of an invocation says that was not settled. -/
theorem at_invocation (hms : ms = [] ∨ ms = [.dispatch id]) (hy : Sound y)
    (hat : At id ms reg known y.2) :
    KeepsSound (fun r l => ∃ status, r = .ok (some status) ∧ At id ms reg known l ∧
      (status.state = .intentPersisted ∧ ms = [] ∨
        status.state = .dispatched ∧ ms = [.dispatch id]))
      (store (.invocation id : Act C _)) y := by
  refine keepsLog_store Sound.stable (J := At id ms reg known)
    (fun d l b d' hsound hl hanswer => ?_) hy hat
  refine ⟨hsound.answered (by simp [Act.touched]) rfl hanswer, ?_⟩
  obtain ⟨rfl, rfl⟩ := hanswer.of_reads rfl
  obtain ⟨K, L, r, hholds, hr, htold⟩ := hsound.agrees.tells id hl.mem_begun
  have hread : d'.store.invocation id = .ok (some r.status) :=
    (hholds.represents.invocation_eq id).trans (by rw [hr]; rfl)
  have htold : L.Told id r (moved id l) := htold
  rw [hread]
  refine ⟨r.status, rfl, ?_, ?_⟩
  · have hat := hl.append (Act.event _ (.invocation id) (.ok (some r.status))) (by simp [Act.event])
      (by simp [Act.event])
    rwa [show moved id (Act.event _ (.invocation id) (.ok (some r.status)) : List (Event C)) = []
      from rfl, List.append_nil] at hat
  · rw [hl.moved] at htold
    rcases hms with rfl | rfl
    · cases htold with
      | begun hstate => exact .inl ⟨hstate, rfl⟩
    · cases htold with
      | dispatched hstate => exact .inr ⟨hstate, rfl⟩

/-- The reply for a terminal invocation that was not published. -/
theorem replay_of_terminal {status : InvocationStatus} {terminal : Terminal}
    (hterminal : status.terminal = some terminal) (hne : terminal ≠ .settled none) :
    (replay status : Orchestrator C Reply) =
      pure (.of status.id (.failed (terminal.replyFailure.getD .unknownEffect))) := by
  unfold replay
  split
  · simp_all
  · simp_all
  · simp_all

/-- After an error the invocation is released or marked, and the reply says so. -/
theorem afterError_stops (hms : ms = [] ∨ ms = [.dispatch id]) (hy : Sound y)
    (hat : At id ms reg known y.2) :
    KeepsSound (fun r l => Faulted id l ∨ ∃ reply, r = .ok reply ∧ Concluded call id reg l reply)
      (afterError id) y := by
  refine (at_invocation hms hy hat).bind ?_ (by simp)
  rintro _ y ⟨status, ⟨⟩, hat, hstate⟩ hy
  dsimp -zeta only
  extract_lets reply
  have hreply {status : InvocationStatus} {terminal : Terminal} {failure : Failure}
      {ms : List (Transaction C)} {y : Daemon C × List (Event C)} (hy : Sound y)
      (hat : At id ms reg known y.2) (hid : status.id = id)
      (hterminal : status.terminal = some terminal)
      (hne : terminal ≠ .settled none) (hfailure : terminal.replyFailure = some failure)
      (hconcludes : Concludes call id known ms (.of id (.failed failure))) :
      KeepsSound (fun r l => Faulted id l ∨ ∃ reply, r = .ok reply ∧ Concluded call id reg l reply)
        (reply status) y := by
    unfold reply
    simp only [hterminal, replay_of_terminal hterminal hne, hfailure, hid, Option.getD_some]
    exact .pure Sound.stable hy (.inr ⟨_, rfl, ms, known, hat, hconcludes⟩)
  rcases hstate with ⟨hstate, rfl⟩ | ⟨hstate, rfl⟩
  · simp only [hstate]
    refine (at_release .abandoned hy hat).bind ?_ fun e l h => .inl (h.2 e rfl)
    intro status y h hy
    obtain ⟨hat, hid, hterminal⟩ := h.1 status rfl
    exact hreply hy hat hid hterminal (by simp) rfl (.released .abandoned _ rfl rfl)
  · simp only [hstate]
    refine (at_markUnknownEffect hy hat).bind ?_ fun e l h => .inl (h.2 e rfl)
    intro status y h hy
    obtain ⟨hat, hid, hterminal⟩ := h.1 status rfl
    exact hreply hy hat hid hterminal (by simp) rfl .unknown

/-! ## The whole capture -/

/-- What touches no invocation begins none. -/
theorem unbegun_of_only {revoked : Option GrantId} (hx : x.Performs (Act.Only revoked))
    (hy : Sound y) (hbegun : begun y.2 = ∅) : KeepsSound (fun _ l => begun l = ∅) x y := by
  refine .of_performs Sound.stable hx (fun β p d l b d' hp hsound hl hanswer => ?_) hy hbegun
  refine ⟨hsound.answered (by rw [hp.touched]; simp) hp.quiet hanswer, ?_⟩
  ext i
  rw [begun_append, hl]
  refine ⟨fun hi => hi.elim (fun h => h) fun hnew => ?_, fun hi => hi.elim⟩
  obtain ⟨intent, status, hmem, -⟩ := hnew
  have hbegins := (Event.begins_of_mem hmem).trans hp.begins
  cases hbegins

/-- A persisted intent is where a capture starts. -/
theorem at_begin (intent : Intent C) (hy : Sound y) (hbegun : begun y.2 = ∅) :
    KeepsSound (fun r l => (∀ status, r = .ok (.persisted status) → At status.id [] none [] l) ∧
      ((∀ status, r ≠ .ok (.persisted status)) → begun l = ∅))
      (store (.transact (.begin intent))) y := by
  refine keepsLog_store Sound.stable (J := fun l => begun l = ∅)
    (fun d l b d' hsound hl hanswer => ?_) hy hbegun
  have hsound' := hsound.answered (by simp [Act.touched, Transaction.moves]) rfl hanswer
  have hold (i : InvocationId) : i ∉ begun l := by
    rw [hl]
    exact Set.notMem_empty i
  -- The only entry that begins anything is that of a persisted intent.
  have hbegun (i : InvocationId) : i ∈ begun (l ++ Act.event _ (.transact (.begin intent)) b) ↔
      ∃ status, b = .ok (.persisted status) ∧ status.id = i := by
    rw [begun_append]
    constructor
    · rintro (hi | ⟨intent', status, hmem, rfl⟩)
      · exact absurd hi (hold i)
      · cases List.mem_singleton.mp hmem
        exact ⟨status, rfl, rfl⟩
    · rintro ⟨status, rfl, rfl⟩
      exact .inr ⟨intent, status, List.mem_singleton_self _, rfl⟩
  refine ⟨hsound', fun status hok => ?_, fun hno => ?_⟩
  · cases mapError_eq_ok.mp hok
    have huntouched : ∀ e ∈ l ++ Act.event _ (.transact (.begin intent)) (.ok (.persisted status)),
        e.touched ≠ some status.id := by
      intro e he htouched
      rcases List.mem_append.mp he with he | he
      · exact hold _ (hsound.owning e he _ htouched)
      · rw [Event.touched_of_mem he] at htouched
        cases htouched
    refine ⟨?_, moved_of_touched huntouched, ?_, by simp⟩
    · ext i
      rw [hbegun]
      constructor
      · rintro ⟨_, ⟨⟩, rfl⟩
        rfl
      · rintro rfl
        exact ⟨status, rfl, rfl⟩
    · rw [registration, List.filterMap_eq_nil_iff.mpr fun e he =>
        Event.registers_of_touched (huntouched e he)]
      rfl
  · rw [Set.eq_empty_iff_forall_notMem]
    intro i hi
    obtain ⟨status, rfl, -⟩ := (hbegun i).mp hi
    exact hno status rfl

theorem beginCapture_at (request : CaptureRequest) (hy : Sound y) (hbegun : begun y.2 = ∅) :
    KeepsSound (fun r l =>
      (∀ status limits, r = .ok (.persisted status limits) → At status.id [] none [] l) ∧
        ((∀ status limits, r ≠ .ok (.persisted status limits)) → begun l = ∅))
      (beginCapture call request) y := by
  have hanswered (reply : Reply) {y : Daemon C × List (Event C)} (hy : Sound y)
      (hbegun : begun y.2 = ∅) :
      KeepsSound (fun r l =>
        (∀ status limits, r = .ok (.persisted status limits) → At status.id [] none [] l) ∧
          ((∀ status limits, r ≠ .ok (.persisted status limits)) → begun l = ∅))
        (pure (.answered reply) : Orchestrator C Started) y :=
    .pure Sound.stable hy ⟨by simp, fun _ => hbegun⟩
  unfold beginCapture
  split
  · exact hanswered _ hy hbegun
  · refine (unbegun_of_only (captureLimits_only call ..) hy hbegun).bind ?_
      fun e l h => ⟨by simp, fun _ => h⟩
    intro limits y hbegun hy
    refine (unbegun_of_only freshInvocation_only hy hbegun).bind ?_
      fun e l h => ⟨by simp, fun _ => h⟩
    intro invocation y hbegun hy
    refine (at_begin _ hy hbegun).bind ?_ fun e l h => ⟨by simp, fun _ => h.2 (by simp)⟩
    intro begun y h hy
    split
    · refine .pure Sound.stable hy ⟨fun status limits heq => ?_, fun hno => (hno _ _ rfl).elim⟩
      cases heq
      exact h.1 _ rfl
    · have hbegun := h.2 fun status heq => (by cases heq)
      refine (unbegun_of_only (replayCapture_only call _) hy hbegun).bind ?_
        fun e l h => ⟨by simp, fun _ => h⟩
      exact fun reply y hbegun hy => hanswered reply hy hbegun
    · exact hanswered _ hy (h.2 fun status heq => (by cases heq))
    · exact hanswered _ hy (h.2 fun status heq => (by cases heq))

/-- One access of the running set. -/
theorem keeps_registers {p : Act C Unit} {e : Event C} {J Q : List (Event C) → Prop}
    (hevent : p.event Unit () = [e]) (hp : p.touched = some id) (hquiet : p.request = none)
    (hbegun : ∀ l, J l → id ∈ begun l) (hnext : ∀ l, J l → Q (l ++ [e])) (hy : Sound y)
    (hJ : J y.2) : KeepsSound (fun r l => r = .ok () ∧ Q l) (perform p) y := by
  refine .perform Sound.stable (J := J) (fun d l b d' hsound hl hanswer => ?_) hy hJ
  refine ⟨hsound.answered ?_ hquiet hanswer, rfl, ?_⟩
  · rw [hp]
    rintro i ⟨⟩
    exact hbegun l hl
  · have hlog := hnext l hl
    rwa [← hevent] at hlog

/-- The end of a capture whose run has stopped. -/
theorem settled_concludes {result : Except CallError Reply} (hy : Sound y)
    (hstops : Stops call id (some none) y.2 result) {x : Orchestrator C Reply}
    (hok : ∀ reply, result = .ok reply → x = pure reply)
    (herror : ∀ e, result = .error e → x = runBlocking (afterError id)) :
    KeepsSound (fun r l => Faulted id l ∨
      ∃ reply, r = .ok reply ∧ Concluded call id (some none) l reply) x y := by
  -- A failure of the last step would be a fault.
  have hafter (hafter : KeepsSound (fun r l => Faulted id l ∨
      ∃ reply, r = .ok reply ∧ Concluded call id (some none) l reply) (afterError id) y) :
      KeepsSound (fun r l => Faulted id l ∨
        ∃ reply, r = .ok reply ∧ Concluded call id (some none) l reply)
        (runBlocking (afterError id)) y := by
    have hattempt := hafter.attempt (R := fun r l => ∃ r', r = .ok r' ∧ (Faulted id l ∨
      ∃ reply, r' = .ok reply ∧ Concluded call id (some none) l reply)) fun r l h => ⟨r, rfl, h⟩
    refine hattempt.bind ?_ (by simp)
    rintro r y ⟨_, ⟨⟩, h⟩ hy
    split
    · refine .pure Sound.stable hy (h.imp_right ?_)
      rintro ⟨reply, heq, hconcluded⟩
      cases heq
      exact ⟨_, rfl, hconcluded⟩
    · refine .pure Sound.stable hy (h.imp_right ?_)
      rintro ⟨reply, heq, -⟩
      cases heq
  cases hstops with
  | faulty hfaulted =>
    cases result with
    | ok reply =>
      rw [hok reply rfl]
      exact .pure Sound.stable hy (.inl hfaulted)
    | error e =>
      rw [herror e rfl]
      exact hafter ((faulted_of_settles (afterError_settles id) hy hfaulted).mono fun _ _ => .inl)
  | concluded hat h =>
    rw [hok _ rfl]
    exact .pure Sound.stable hy (.inr ⟨_, rfl, _, _, hat, h⟩)
  | failed hms hat =>
    rw [herror _ rfl]
    exact hafter (afterError_stops hms hy hat)

/-- **A capture concludes what it began**, unless there is a fault. -/
theorem capture_concludes (request : CaptureRequest) (hy : Sound y) (hbegun : begun y.2 = ∅) :
    KeepsSound (fun r l => begun l = ∅ ∨ ∃ id, Faulted id l ∨
      ∃ reply, r = .ok reply ∧ Concluded call id (some none) l reply) (capture call request) y := by
  have hbegin : KeepsSound (fun r l => ∃ r', r = .ok r' ∧
      (∀ status limits, r' = .ok (.persisted status limits) → At status.id [] none [] l) ∧
        ((∀ status limits, r' ≠ .ok (.persisted status limits)) → begun l = ∅))
      (beginCapture call request).attempt y :=
    (beginCapture_at request hy hbegun).attempt fun r l h => ⟨r, rfl, h⟩
  refine hbegin.bind ?_ (by simp)
  rintro started y ⟨_, ⟨⟩, hat, hnone⟩ hy
  split
  · exact .pure Sound.stable hy (.inl (hnone (by simp)))
  · exact .pure Sound.stable hy (.inl (hnone (by simp)))
  · rename_i status limits
    have hregister : KeepsSound (fun r l => r = .ok () ∧
        At status.id [] (some (some status.grantChain)) [] l)
        (perform (.register status.id status.grantChain)) y :=
      keeps_registers (J := At status.id [] none []) rfl rfl rfl (fun l h => h.mem_begun)
        (fun l h => h.register rfl rfl (if_pos rfl)) hy (hat status limits rfl)
    refine hregister.bind ?_ (by simp)
    rintro _ y ⟨-, hat⟩ hy
    have hrun : KeepsSound (fun r l => ∃ result, r = .ok result ∧
        Stops call status.id (some (some status.grantChain)) l result)
        (runInvocation call request limits status.id).attempt y :=
      (runInvocation_stops request limits hy hat).attempt fun r l h => ⟨r, rfl, h⟩
    refine hrun.bind ?_ (by simp)
    rintro result y ⟨_, ⟨⟩, hstops⟩ hy
    have hderegister : KeepsSound (fun r l => r = .ok () ∧
        Stops call status.id (some none) l result) (perform (.deregister status.id)) y :=
      keeps_registers (J := fun l => Stops call status.id (some (some status.grantChain)) l result)
        rfl rfl rfl (fun l h => h.mem_begun) (fun l h => h.deregister) hy hstops
    refine hderegister.bind ?_ (by simp)
    rintro _ y ⟨-, hstops⟩ hy
    refine (settled_concludes hy hstops ?_ ?_).mono fun r l h => .inr ⟨status.id, h⟩
    · rintro reply rfl
      rfl
    · rintro e rfl
      rfl

/-- **Every handler that began an invocation concludes it**, unless there is a fault. -/
theorem handle_concludes (mode : Mode) (body : RequestBody) (hy : Sound y)
    (hbegun : begun y.2 = ∅) :
    KeepsSound (fun r l => begun l = ∅ ∨ ∃ id, Faulted id l ∨
      ∃ reply, r = .ok reply ∧ Concluded call id (some none) l reply)
      (handle call mode body) y := by
  have honly {revoked : Option GrantId} {x : Orchestrator C Reply}
      (hx : x.Performs (Act.Only revoked)) :
      KeepsSound (fun r l => begun l = ∅ ∨ ∃ id, Faulted id l ∨
        ∃ reply, r = .ok reply ∧ Concluded call id (some none) l reply) (runBlocking x) y :=
    (unbegun_of_only (runBlocking_only hx) hy hbegun).mono fun _ _ => .inl
  unfold handle
  split
  · exact honly (.bind (planOf_only call _) fun _ => trivial)
  · exact capture_concludes _ hy hbegun
  · exact honly (execute_only call _)

end Orchestrator

/-! ## Every run -/

/-- The capture of the day comes to its reply without a fault. -/
theorem Daemon.exists_captured :
    ∃ (p : Requests Crypto.ideal) (reply : Reply) (l : List (Event Crypto.ideal)),
      Daemon.server.Reaches p ∧ p.threads 1 = some ⟨Sample.captures, .done reply, l, true⟩ ∧
      ⟨41⟩ ∈ begun l ∧ ¬ Faulty l := by
  have hrun : ((Sample.rehearsal 40).bind fun x => (Orchestrator.reply x.1).map fun _ =>
      decide (⟨41⟩ ∈ begun x.2.1 ∧ ¬ Faulty x.2.1)) = some true := by decide +kernel
  obtain ⟨⟨x, l, L⟩, hx, hreply⟩ := Option.bind_eq_some_iff.mp hrun
  obtain ⟨reply, hdone, hlog⟩ := Option.map_eq_some_iff.mp hreply
  obtain ⟨p, K, hp, hth, -⟩ := Sample.exists_capture hx
  have hdone : x = .done reply := Orchestrator.eq_done hdone
  rw [hdone] at hth
  exact ⟨p, reply, l, hp, hth, of_decide_eq_true hlog⟩

namespace Daemon

variable {p : Requests C} {i : Nat} {th : Thread (Act C) CallError Reply (Asked C) (Event C)}
  {r : AcquireRequest}

theorem start_concludes (asked : Asked C) (hp : server.Reaches p) :
    server.KeepsLog Spares Sound (fun r l => begun l = ∅ ∨ ∃ id, Faulted id l ∨
      ∃ reply, r = .ok reply ∧ Concluded asked.call id (some none) l reply) (server.start asked)
      (p.state, []) := by
  have hempty : begun ([] : List (Event C)) = ∅ := by
    ext i
    simp [begun]
  refine Orchestrator.handle_concludes asked.mode asked.body ⟨?_, ⟨?_, ?_, ?_⟩, ?_⟩ hempty
  · simp [Owning]
  · exact reachable_world hp
  · simp [begun]
  · simp [begun]
  · simp [LastCall]

/-- What every handler keeps up, and what it leaves when it crashes: then a recovery may have
added to the histories of its log. -/
theorem guarded (hp : server.Reaches p) (hth : p.threads i = some th) :
    Guarded server Spares (fun _ => Sound) (fun asked r y => begun y.2 = ∅ ∨
      ∃ id, Faulted id y.2 ∨ ∃ reply, r = .ok reply ∧
        Concluded asked.call id (some none) y.2 reply)
      (fun _ y => ∀ id ∈ begun y.2, ∃ more, y.1.world.Tells id (moved id y.2 ++ more))
      p.state th := by
  have hrun {d d' : Daemon C} {l : List (Event C)}
      (hworld : ReflTransGen (World.StepBy Operation.Recovering) d.world d'.world)
      (h : ∀ id ∈ begun l, ∃ more, d.world.Tells id (moved id l ++ more)) :
      ∀ id ∈ begun l, ∃ more, d'.world.Tells id (moved id l ++ more) := by
    intro id hid
    obtain ⟨more, htells⟩ := h id hid
    obtain ⟨more', htells'⟩ := htells.run hworld
    exact ⟨more ++ more', by rwa [← List.append_assoc]⟩
  refine respects.guarded (fun asked p hp => start_concludes asked hp) ?_ ?_
    (fun _ p d l _ hcrash h => hrun (Crashed.world hcrash) h)
    (fun _ p d l _ hrestart h => hrun (Restarted.world hrestart) h) hp hth
  · exact fun _ y h id hid => ⟨[], by rw [List.append_nil]; exact h.agrees.tells id hid⟩
  · rintro asked ⟨d, l⟩ ⟨d', l'⟩ h ⟨hspares, hlog⟩ id hid
    cases hlog
    obtain ⟨more, htells⟩ := h id hid
    exact ⟨more, htells.spared hspares hid⟩

theorem sound (hp : server.Reaches p) (hth : p.threads i = some th) (hlive : th.live = true) :
    Sound (p.state, th.log) := ((guarded hp hth).alive hlive).inv

/-- What holds after the next answer. -/
theorem sound_next (hp : server.Reaches p) (hth : p.threads i = some th) (hlive : th.live = true)
    {β : Type} {q : Act C β} {next : β → Orchestrator C Reply} {b : β} {d : Daemon C}
    (hrest : th.rest = .call q next) (hanswer : q.Answered β p.state b d) :
    Sound (d, th.log ++ q.event β b) := by
  have hkeeps := (guarded hp hth).alive hlive
  rw [hrest] at hkeeps
  exact ((hkeeps _ .refl).2 b (d, _) ⟨hanswer, rfl⟩).inv

theorem told (hp : server.Reaches p) (hth : p.threads i = some th) {id : InvocationId}
    (hid : id ∈ begun th.log) : ∃ more, p.state.world.Tells id (moved id th.log ++ more) := by
  cases hlive : th.live with
  | true => exact ⟨[], by rw [List.append_nil]; exact (sound hp hth hlive).agrees.tells id hid⟩
  | false => exact (guarded hp hth).dead hlive id hid

/-- How a handler that has returned ended what it began. -/
theorem concluded (hp : server.Reaches p) (hth : p.threads i = some th) {reply : Reply}
    (hrest : th.rest = .done reply) {id : InvocationId} (hid : id ∈ begun th.log)
    (hfaultless : ¬ Faulty th.log) : Concluded th.asked.call id (some none) th.log reply := by
  rcases respects.finished (fun asked p hp => start_concludes asked hp) hp hth hrest with
    hnone | ⟨id', hfaulted | ⟨_, heq, ms, known, hat, hconcludes⟩⟩
  · rw [hnone] at hid
    exact hid.elim
  · exact absurd hfaulted.2 hfaultless
  · cases heq
    have hsame : id = id' := by
      rw [hat.begun] at hid
      exact hid
    subst hsame
    exact ⟨ms, known, hat, hconcludes⟩

/-- A handler calls the producer for what it began under the key of its call. -/
theorem begun_of_call (hp : server.Reaches p) (hth : p.threads i = some th)
    (hr : r ∈ producerCalls th.log) : ∃ intent status, .persisted intent status ∈ th.log ∧
      status.id = r.invocation ∧ intent.Of th.asked := by
  have htidy := (Daemon.tidy hp hth).1
  obtain ⟨intent, status, hmem, hid, -⟩ := htidy.reserves r hr
  exact ⟨intent, status, hmem, hid, htidy.intents _ hmem intent rfl⟩

theorem producerCalls_eq (hp : server.Reaches p) (hth : p.threads i = some th)
    (hr : r ∈ producerCalls th.log) : producerCalls th.log = [r] := by
  obtain ⟨only, honly⟩ := List.length_eq_one_iff.mp
    (Nat.le_antisymm (Daemon.tidy hp hth).1.once (List.length_pos_of_mem hr))
  rw [honly] at hr ⊢
  rw [List.mem_singleton.mp hr]

/-- **One effect for each invocation and each key.**  Over all requests that were ever made, on
any connections, with crashes, recoveries and retries between them, two producer calls for one
invocation, or by requests of one tenant under one key, are the same call. -/
theorem producer_called_once (hp : server.Reaches p) {j : Nat}
    {th' : Thread (Act C) CallError Reply (Asked C) (Event C)} (hth : p.threads i = some th)
    (hth' : p.threads j = some th') {r r' : AcquireRequest} (hr : r ∈ producerCalls th.log)
    (hr' : r' ∈ producerCalls th'.log)
    (hsame : r.invocation = r'.invocation ∨ th.asked.call.tenant = th'.asked.call.tenant ∧
      th.asked.call.key = th'.asked.call.key) : i = j ∧ producerCalls th.log = [r] := by
  obtain ⟨K, L, -, hrec⟩ := recorded hp
  obtain ⟨intent, status, hmem, hcalled, hof⟩ := begun_of_call hp hth hr
  obtain ⟨intent', status', hmem', hcalled', hof'⟩ := begun_of_call hp hth' hr'
  refine ⟨?_, producerCalls_eq hp hth hr⟩
  by_contra hne
  obtain ⟨hid, hslot⟩ := hrec.apart hne hth hth' hmem hmem'
  rcases hsame with hsame | ⟨hsameTenant, hsameKey⟩
  · exact hid (hcalled.trans (hsame.trans hcalled'.symm))
  · refine hslot (Option.some.inj ?_)
    rw [← hof.slot, ← hof'.slot, hsameTenant, hsameKey]

theorem producer_called_once_of_capture :
    ∃ (p : Requests Crypto.ideal) (th : Thread (Act Crypto.ideal) CallError Reply
      (Asked Crypto.ideal) (Event Crypto.ideal)) (r : AcquireRequest), server.Reaches p ∧
      p.threads 1 = some th ∧ r ∈ producerCalls th.log ∧ r.invocation = ⟨41⟩ ∧
      producerCalls th.log = [r] := by
  have hrun : ((Sample.rehearsal 40).bind fun x =>
      (producerCalls x.2.1).head?.map AcquireRequest.invocation) = some ⟨41⟩ := by decide +kernel
  obtain ⟨⟨x, l, L⟩, hx, hcall⟩ := Option.bind_eq_some_iff.mp hrun
  obtain ⟨r, hr, hid⟩ := Option.map_eq_some_iff.mp hcall
  obtain ⟨p, K, hp, hth, -⟩ := Sample.exists_capture hx
  have hmem := List.mem_of_head? hr
  exact ⟨p, _, r, hp, hth, hmem, hid, (producer_called_once hp hth hth hmem hmem (.inl rfl)).2⟩

/-- An invocation the producer is about to be called for was begun here, is durably dispatched and
is in the running set. -/
theorem dispatched_of_call (hp : server.Reaches p) (hth : p.threads i = some th)
    (hlive : th.live = true) {request : AcquireRequest} {next : Produced → Orchestrator C Reply}
    (hrest : th.rest = .call (.produce request) next) :
    (∃ r, p.state.store.invocationAt request.invocation = some r ∧ r.state = .dispatched) ∧
      (∃ chain, p.state.running request.invocation = some chain) ∧
      request.invocation ∈ begun th.log := by
  have hsound := sound hp hth hlive
  have hnext := sound_next hp hth hlive hrest (.produce .abandoned)
  have hid : request.invocation ∈ begun th.log := by
    have hid := hnext.owning (.produced request .abandoned) (by simp [Act.event]) _ rfl
    refine (begun_append.mp hid).resolve_right ?_
    rintro ⟨intent, status, hmem, -⟩
    cases List.mem_singleton.mp hmem
  obtain ⟨hmoved, chain, hchain⟩ := hnext.lastCall th.log request .abandoned rfl
  obtain ⟨K, L, r, hholds, hr, htold⟩ := hsound.agrees.tells _ hid
  refine ⟨⟨r, ?_, ?_⟩, ⟨chain, hsound.agrees.running _ hid _ hchain⟩, hid⟩
  · exact (congrFun hholds.represents.invocationAt_eq _).trans hr
  · have htold : L.Told request.invocation r (moved request.invocation th.log) := htold
    rw [hmoved] at htold
    cases htold with
    | dispatched hstate => exact hstate

/-- **The producer is only called for a dispatched invocation.**  Whatever ran, crashed and
recovered before, the handler that is about to call it is the only one that began the
invocation, which is durably dispatched and in the running set. -/
theorem producer_called_dispatched (hp : server.Reaches p) (hth : p.threads i = some th)
    (hlive : th.live = true) {request : AcquireRequest} {next : Produced → Orchestrator C Reply}
    (hrest : th.rest = .call (.produce request) next) :
    (∃ r, p.state.store.invocationAt request.invocation = some r ∧ r.state = .dispatched) ∧
      (∃ chain, p.state.running request.invocation = some chain) ∧
      ∀ j th', p.threads j = some th' → request.invocation ∈ begun th'.log → j = i := by
  obtain ⟨hdispatched, hrunning, hid⟩ := dispatched_of_call hp hth hlive hrest
  exact ⟨hdispatched, hrunning, fun j th' hth' hid' => begun_apart hp hth' hth hid' hid⟩

theorem producer_called_dispatched_of_capture :
    ∃ (p : Requests Crypto.ideal) (r : InvocationRecord), server.Reaches p ∧
      p.state.store.invocationAt ⟨41⟩ = some r ∧ r.state = .dispatched := by
  have hrun : ((Sample.rehearsal 10).bind fun x =>
      (Orchestrator.acquires x.1).map AcquireRequest.invocation) = some ⟨41⟩ := by decide +kernel
  obtain ⟨⟨x, l, L⟩, hx, hcall⟩ := Option.bind_eq_some_iff.mp hrun
  obtain ⟨request, hrequest, hid⟩ := Option.map_eq_some_iff.mp hcall
  obtain ⟨next, rfl⟩ := Orchestrator.eq_produce hrequest
  obtain ⟨p, K, hp, hth, -⟩ := Sample.exists_capture hx
  obtain ⟨⟨r, hr, hstate⟩, -⟩ := producer_called_dispatched hp hth rfl rfl
  exact ⟨p, r, hp, by rw [← hid]; exact hr, hstate⟩

/-- A handler that did not persist what it asked to begin calls no producer. -/
theorem no_call_of_answer (hp : server.Reaches p) (hth : p.threads i = some th) {intent : Intent C}
    {answer : Except Error Begin} (hmem : .transacted (.begin intent) answer ∈ th.log)
    (hanswer : ∀ status, answer ≠ .ok (.persisted status)) : producerCalls th.log = [] := by
  refine List.eq_nil_iff_forall_not_mem.mpr fun r hr => ?_
  obtain ⟨intent', status, hmem', -⟩ := begun_of_call hp hth hr
  cases eq_of_length_filterMap (Daemon.tidy hp hth).1.attemptsOnce hmem hmem' rfl rfl
  exact hanswer status rfl

/-- The handler `i` of a request of the tenant under the key called the producer. -/
def Called (p : Requests C) (tenant : TenantId) (key : IdempotencyKey) (i : Nat)
    (r : AcquireRequest) : Prop :=
  ∃ th, p.threads i = some th ∧ th.asked.call.tenant = tenant ∧ th.asked.call.key = some key ∧
    r ∈ producerCalls th.log

/-- A step calls the producer only as the access of a live handler, whose invocation is durably
dispatched by then; crashes, recoveries and operations of the operator do not. -/
theorem Called.of_step {tenant : TenantId} {key : IdempotencyKey} {p' : Requests C}
    (h : Called p' tenant key i r) (hp : server.Reaches p) (hstep : server.Step p p') :
    Called p tenant key i r ∨ ∃ th next produced record, p.threads i = some th ∧
      th.live = true ∧ th.rest = .call (.produce r) next ∧
      p'.threads i = some (th.next (next produced) [.produced r produced]) ∧
      p.state.store.invocationAt r.invocation = some record ∧ record.state = .dispatched := by
  obtain ⟨th', hth', htenant, hkey, hr⟩ := h
  cases hstep with
  | @act _ th _ q next b _ hth hlive hrest =>
    obtain ⟨rfl, rfl⟩ | ⟨-, hold⟩ := Pool.set_cases hth'
    · rw [Thread.next, producerCalls_append] at hr
      rcases List.mem_append.mp hr with hr | hr
      · exact .inl ⟨th, hth, htenant, hkey, hr⟩
      · obtain ⟨e, he, hasked⟩ := List.mem_filterMap.mp hr
        rw [Event.request_of_mem he] at hasked
        cases q with
        | produce =>
          cases hasked
          obtain ⟨record, hrecord, hstate⟩ := (dispatched_of_call hp hth hlive hrest).1
          exact .inr ⟨th, next, b, record, hth, hlive, hrest, hth', hrecord, hstate⟩
        | _ => cases hasked
    · exact .inl ⟨th', hold, htenant, hkey, hr⟩
  | start =>
    obtain ⟨-, rfl⟩ | ⟨-, hold⟩ := Pool.set_cases hth'
    · cases hr
    · exact .inl ⟨th', hold, htenant, hkey, hr⟩
  | outside | restart => exact .inl ⟨th', hth', htenant, hkey, hr⟩
  | crash =>
    obtain ⟨th, hold, rfl⟩ := Option.map_eq_some_iff.mp hth'
    exact .inl ⟨th, hold, htenant, hkey, hr⟩

/-- A producer call under a key is the only one, for the invocation the key is bound to. -/
theorem Called.only {tenant : TenantId} {key : IdempotencyKey} (h : Called p tenant key i r)
    (hp : server.Reaches p) :
    (∀ j r', Called p tenant key j r' → j = i ∧ r' = r) ∧
      (∃ th, p.threads i = some th ∧ producerCalls th.log = [r]) ∧
      ∃ K L binding, p.state.world.Holds K L ∧
        L.idem (tenant, .capture, key) = some ⟨r.invocation, binding⟩ := by
  obtain ⟨th, hth, rfl, hkey, hr⟩ := h
  obtain ⟨K, L, hL, hrec⟩ := recorded hp
  obtain ⟨intent, status, hmem, hid, hof⟩ := begun_of_call hp hth hr
  have honly := producerCalls_eq hp hth hr
  have hslot := hof.slot
  rw [hkey] at hslot
  refine ⟨?_, ⟨th, hth, honly⟩, K, L, requestBinding intent, hL, ?_⟩
  · rintro j r' ⟨th', hth', htenant', hkey', hr'⟩
    obtain ⟨intent', status', hmem', -, hof'⟩ := begun_of_call hp hth' hr'
    have hslot' := hof'.slot
    rw [hkey', htenant'] at hslot'
    -- The key has one place, and two handlers persist at different ones.
    obtain rfl : j = i := by
      by_contra hne
      exact (hrec.apart hne hth' hth hmem' hmem).2 (Option.some.inj (hslot'.symm.trans hslot))
    cases hth.symm.trans hth'
    rw [honly] at hr'
    exact ⟨rfl, List.mem_singleton.mp hr'⟩
  · rw [← hid, ← (hrec.stored hth hmem).2, ← Option.some.inj hslot]

/-- **One effect for each key.**  Over all requests that were ever made, on any connections, with
crashes at any point, recoveries and retries between them, the requests of one tenant under one
key, whatever they ask for, call the producer once in all, for the invocation the key is bound to.
A request whose intent was answered with a replay, a conflict, a refusal or an error never calls
it.  A step calls it only as the access of a live handler whose invocation is durably dispatched;
recovery does not. -/
theorem effect_once_per_key (hp : server.Reaches p) (tenant : TenantId) (key : IdempotencyKey) :
    (∀ i r, Called p tenant key i r →
      (∀ j r', Called p tenant key j r' → j = i ∧ r' = r) ∧
      (∃ th, p.threads i = some th ∧ producerCalls th.log = [r]) ∧
      ∃ K L binding, p.state.world.Holds K L ∧
        L.idem (tenant, .capture, key) = some ⟨r.invocation, binding⟩) ∧
    (∀ i th intent answer, p.threads i = some th →
      .transacted (.begin intent) answer ∈ th.log →
      (∀ status, answer ≠ .ok (.persisted status)) → producerCalls th.log = []) ∧
    ∀ p' i r, server.Step p p' → Called p' tenant key i r →
      Called p tenant key i r ∨ ∃ th next produced record, p.threads i = some th ∧
        th.live = true ∧ th.rest = .call (.produce r) next ∧
        p'.threads i = some (th.next (next produced) [.produced r produced]) ∧
        p.state.store.invocationAt r.invocation = some record ∧ record.state = .dispatched :=
  ⟨fun _ _ h => h.only hp, fun _ _ _ _ hth hmem hanswer => no_call_of_answer hp hth hmem hanswer,
    fun _ _ _ hstep h => h.of_step hp hstep⟩

/-- The intent an entry shows to conflict with the one its key is bound to. -/
def conflicting : Event C → Option (Intent C)
  | .transacted (.begin intent) (.ok .conflict) => some intent
  | _ => none

theorem eq_of_conflicting {e : Event C} {intent : Intent C} (h : conflicting e = some intent) :
    e = .transacted (.begin intent) (.ok Begin.conflict) := by
  unfold conflicting at h
  split at h
  · cases h
    rfl
  · cases h

/-- The capture of the day is asked for once more, at another address. -/
theorem effect_once_per_key_of_conflict :
    ∃ (p : Requests Crypto.ideal) (key : IdempotencyKey) (r : AcquireRequest)
      (l : List (Event Crypto.ideal)), server.Reaches p ∧
      p.threads 2 = some ⟨Sample.recaptures, .done (.failed .idempotencyConflict), l, true⟩ ∧
      producerCalls l = [] ∧ Called p Sample.operator key 1 r ∧ r.invocation = ⟨41⟩ ∧
      Sample.recaptures.call.key = some key ∧
      ∀ j r', Called p Sample.operator key j r' → j = 1 ∧ r' = r := by
  have hrun : ((Sample.rehearsal 40).bind fun x => (producerCalls x.2.1).head?.bind fun r =>
      (Orchestrator.rehearse Sample.captureScript 40 (server.start Sample.recaptures) [] x.2.2).bind
        fun y => (Orchestrator.reply y.1).bind fun reply => (y.2.1.findSome? conflicting).map
          fun _ => decide (r.invocation = ⟨41⟩ ∧ reply = .failed .idempotencyConflict)) =
      some true := by decide +kernel
  obtain ⟨⟨x, l, L⟩, hx, hrun⟩ := Option.bind_eq_some_iff.mp hrun
  obtain ⟨r, hr, hrun⟩ := Option.bind_eq_some_iff.mp hrun
  obtain ⟨⟨x', l', L'⟩, hx', hrun⟩ := Option.bind_eq_some_iff.mp hrun
  obtain ⟨reply, hdone, hrun⟩ := Option.bind_eq_some_iff.mp hrun
  obtain ⟨intent, hintent, hlog⟩ := Option.map_eq_some_iff.mp hrun
  obtain ⟨hid, rfl⟩ := of_decide_eq_true hlog
  obtain ⟨e, he, hconflict⟩ := List.exists_of_findSome?_eq_some hintent
  obtain rfl := eq_of_conflicting hconflict
  obtain rfl := Orchestrator.eq_done hdone
  obtain ⟨p, K, hp, hth, hL, hfree, hserving⟩ := Sample.exists_capture hx
  obtain ⟨p', hp', hth', hothers, -⟩ := Daemon.follows
    (Daemon.starts hp hserving hfree Sample.recaptures) (Function.update_self _ _ _) hL hx'
  have hcalled : Called p' Sample.operator (Sample.captures.call.key.get rfl) 1 r :=
    ⟨_, (hothers 1 (by decide)).trans hth, rfl, (Option.some_get _).symm, List.mem_of_head? hr⟩
  obtain ⟨honly, hsilent, -⟩ := effect_once_per_key hp' Sample.operator
    (Sample.captures.call.key.get rfl)
  exact ⟨p', _, r, l', hp', hth', hsilent 2 _ intent _ hth' he (fun _ h => by cases h), hcalled,
    hid, (Option.some_get _).symm, (honly 1 r hcalled).1⟩

/-- The history of a capture that has returned. -/
theorem told_concluded (hp : server.Reaches p) (hth : p.threads i = some th) {id : InvocationId}
    (hid : id ∈ begun th.log) {reg : Option (Option (List GrantId))} {known : List (Event C)}
    {ms : List (Transaction C)} (hat : At id ms reg known th.log) {t : Transaction C}
    {terminal : Terminal} (hlast : ms.getLast? = some t) (hend : t.ending = some terminal) :
    p.state.world.Tells id ms := by
  obtain ⟨more, K, L, r, hholds, hr, htold⟩ := told hp hth hid
  rw [hat.moved] at htold
  obtain ⟨rfl, -⟩ := htold.ended hlast hend
  rw [List.append_nil] at htold
  exact ⟨K, L, r, hholds, hr, htold⟩

/-- **A capture that has returned has ended.**  Unless one of its transactions failed, the
invocation it began is terminal from then on, crashes and recoveries included, its reply says
how, and it has left the running set. -/
theorem capture_ends (hp : server.Reaches p) (hth : p.threads i = some th) {reply : Reply}
    (hrest : th.rest = .done reply) {id : InvocationId} (hid : id ∈ begun th.log)
    (hfaultless : ¬ Faulty th.log) :
    (∃ r terminal, p.state.store.invocationAt id = some r ∧ r.terminal = some terminal ∧
      terminal.Matches id reply) ∧ (th.live = true → p.state.running id = none) := by
  obtain ⟨ms, known, hat, hconcludes⟩ := concluded hp hth hrest hid hfaultless
  obtain ⟨t, terminal, hlast, hend, hmatches⟩ := hconcludes.matches
  obtain ⟨K, L, r, hholds, hr, htold⟩ := told_concluded hp hth hid hat hlast hend
  refine ⟨⟨r, terminal, ?_, htold.terminal hlast hend, hmatches⟩, fun hlive => ?_⟩
  · exact (congrFun hholds.represents.invocationAt_eq id).trans hr
  · exact (sound hp hth hlive).agrees.running id hid none hat.registration

theorem capture_ends_of_capture :
    ∃ (p : Requests Crypto.ideal) (r : InvocationRecord) (terminal : Terminal),
      server.Reaches p ∧ p.state.store.invocationAt ⟨41⟩ = some r ∧ r.terminal = some terminal ∧
      p.state.running ⟨41⟩ = none := by
  obtain ⟨p, reply, l, hp, hth, hid, hfaultless⟩ := exists_captured
  obtain ⟨⟨r, terminal, hr, hterminal, -⟩, hrunning⟩ := capture_ends hp hth rfl hid hfaultless
  exact ⟨p, r, terminal, hp, hr, hterminal, hrunning rfl⟩

end Daemon
end Dioptron
