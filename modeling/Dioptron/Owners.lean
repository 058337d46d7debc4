import Dioptron.Ownership

/-! # One handler for each invocation

What a handler logs does not depend on what happens beside it: it asks once to begin
the invocation of its own request, it touches only what it began, and it calls the producer at
most once (`Tidy`).  What the store keeps then makes two handlers begin different
invocations under different keys (`Apart`), whatever crashes and recoveries come between,
so nothing that happens beside a handler moves the invocations it began (`Spares`).
-/
namespace Dioptron

open Relation (ReflGen ReflTransGen)
open Program Server

variable {C : Crypto} {L : Custody C}

/-- All requests the daemon was ever asked, over its state. -/
abbrev Requests (C : Crypto) := Pool (Act C) CallError Reply (Asked C) (Daemon C) (Event C)

/-! ## Logs -/

namespace Event

/-- What the producer was asked for. -/
def request : Event C → Option AcquireRequest
  | .produced request _ => some request
  | _ => none

/-- The intent that was to be persisted. -/
def begins : Event C → Option (Intent C)
  | .transacted t _ => t.begins
  | _ => none

variable {β : Type} {p : Act C β} {b : β} {e : Event C}

theorem request_of_mem (he : e ∈ p.event β b) : e.request = p.request := by
  have hlogged : e.request = e.access.2.request := by cases e <;> rfl
  rw [hlogged, access_of_mem he]

theorem begins_of_mem (he : e ∈ p.event β b) : e.begins = p.begins := by
  have hlogged : e.begins = e.access.2.begins := by cases e <;> rfl
  rw [hlogged, access_of_mem he]

end Event

/-- The producer calls of a handler, in order. -/
def producerCalls (l : List (Event C)) : List AcquireRequest := l.filterMap Event.request

theorem producerCalls_append (l m : List (Event C)) :
    producerCalls (l ++ m) = producerCalls l ++ producerCalls m := List.filterMap_append

/-- The intents a handler asked to persist, in order. -/
def attempts (l : List (Event C)) : List (Intent C) := l.filterMap Event.begins

section

variable {β γ : Type} {p : Act C β} {b : β} {f : Event C → Option γ} {l : List (Event C)}

theorem filterMap_event (hp : ∀ e ∈ p.event β b, f e = none) :
    (l ++ p.event β b).filterMap f = l.filterMap f := by
  rw [List.filterMap_append, List.filterMap_eq_nil_iff.mpr hp, List.append_nil]

/-- An access adds at most one entry. -/
theorem length_filterMap_event (hl : (l.filterMap f).length ≤ 1)
    (hp : (∀ e ∈ p.event β b, f e = none) ∨ l.filterMap f = []) :
    ((l ++ p.event β b).filterMap f).length ≤ 1 := by
  rcases hp with hnone | hempty
  · rw [filterMap_event hnone]
    exact hl
  · rw [List.filterMap_append, hempty, List.nil_append]
    exact (List.length_filterMap_le _ _).trans (p.length_event_le b)

/-- Two events that both make the only entry are the same. -/
theorem eq_of_length_filterMap (hl : (l.filterMap f).length ≤ 1) {e e' : Event C} (he : e ∈ l)
    (he' : e' ∈ l) (hf : (f e).isSome) (hf' : (f e').isSome) : e = e' := by
  rw [List.length_filterMap_eq_countP, List.countP_eq_length_filter] at hl
  have hmem : e ∈ l.filter fun e => (f e).isSome := List.mem_filter.mpr ⟨he, hf⟩
  have hmem' : e' ∈ l.filter fun e => (f e).isSome := List.mem_filter.mpr ⟨he', hf'⟩
  obtain ⟨only, honly⟩ := List.length_eq_one_iff.mp
    (Nat.le_antisymm hl (List.length_pos_of_mem hmem))
  rw [honly] at hmem hmem'
  exact (List.mem_singleton.mp hmem).trans (List.mem_singleton.mp hmem').symm

/-- Any other access adds no producer call. -/
theorem producerCalls_event (hp : p.request = none) (l : List (Event C)) (b : β) :
    producerCalls (l ++ p.event β b) = producerCalls l :=
  filterMap_event fun _ he => (Event.request_of_mem he).trans hp

theorem attempts_event (hp : p.begins = none) (l : List (Event C)) (b : β) :
    attempts (l ++ p.event β b) = attempts l :=
  filterMap_event fun _ he => (Event.begins_of_mem he).trans hp

end

/-- The intent is that of the request. -/
structure Intent.Of (intent : Intent C) (asked : Asked C) : Prop where
  authz : ∃ request limits, asked.body = .capture request ∧
    intent.authz = asked.call.captureAuthz request limits
  key : asked.call.key = some intent.idempotencyKey
  digest : intent.requestDigest = asked.call.digest

/-- The invocation `id` was persisted, with the cost of `limits` reserved. -/
def Reserves (asked : Asked C) (id : InvocationId) (limits : CaptureLimits) (l : List (Event C)) :
    Prop :=
  ∃ intent status, .persisted intent status ∈ l ∧ status.id = id ∧
    intent.authz.declared = captureCost limits asked.call.deadlineMs

theorem Reserves.mem_begun {asked : Asked C} {id : InvocationId} {limits : CaptureLimits}
    {l : List (Event C)} (h : Reserves asked id limits l) : id ∈ begun l := by
  obtain ⟨intent, status, hmem, hid, -⟩ := h
  exact ⟨intent, status, hmem, hid⟩

theorem Reserves.append {asked : Asked C} {id : InvocationId} {limits : CaptureLimits}
    {l : List (Event C)} (h : Reserves asked id limits l) (m : List (Event C)) :
    Reserves asked id limits (l ++ m) := by
  obtain ⟨intent, status, hmem, h⟩ := h
  exact ⟨intent, status, List.mem_append_left _ hmem, h⟩

/-- What the log of the handler of a request shows at every moment. -/
structure Tidy (asked : Asked C) (l : List (Event C)) : Prop where
  owning : Owning l
  intents : ∀ e ∈ l, ∀ intent ∈ e.begins, intent.Of asked
  attemptsOnce : (attempts l).length ≤ 1
  once : (producerCalls l).length ≤ 1
  reserves : ∀ request ∈ producerCalls l, Reserves asked request.invocation request.limits l

namespace Tidy

variable {asked : Asked C} {l : List (Event C)} {β : Type} {p : Act C β}

theorem nil : Tidy asked ([] : List (Event C)) where
  owning := by simp [Owning]
  intents := by simp
  attemptsOnce := by simp [attempts]
  once := by simp [producerCalls]
  reserves := by simp [producerCalls]

/-- An access keeps a log tidy that touches only what was begun, asks to begin only what the
call asks for, if nothing was asked yet, and calls the producer only within what was reserved, if
it was not called yet. -/
theorem append (h : Tidy asked l) (htouched : ∀ id ∈ p.touched, id ∈ begun l)
    (hbegins : ∀ intent ∈ p.begins, attempts l = [] ∧ intent.Of asked)
    (hcalls : ∀ request ∈ p.request, producerCalls l = [] ∧
      Reserves asked request.invocation request.limits l) (b : β) :
    Tidy asked (l ++ p.event β b) where
  owning := h.owning.append htouched b
  intents := by
    intro e he intent hintent
    rcases List.mem_append.mp he with he | he
    · exact h.intents e he intent hintent
    · rw [Event.begins_of_mem he] at hintent
      exact (hbegins intent hintent).2
  attemptsOnce := by
    refine length_filterMap_event h.attemptsOnce ?_
    rcases hintent : p.begins with _ | intent
    · exact .inl fun e he => (Event.begins_of_mem he).trans hintent
    · exact .inr (hbegins intent hintent).1
  once := by
    refine length_filterMap_event h.once ?_
    rcases hrequest : p.request with _ | request
    · exact .inl fun e he => (Event.request_of_mem he).trans hrequest
    · exact .inr (hcalls request hrequest).1
  reserves := by
    intro request hrequest
    rw [producerCalls_append] at hrequest
    rcases List.mem_append.mp hrequest with hrequest | hrequest
    · exact (h.reserves request hrequest).append _
    · obtain ⟨e, he, hasked⟩ := List.mem_filterMap.mp hrequest
      rw [Event.request_of_mem he] at hasked
      exact (hcalls request hasked).2.append _

end Tidy

/-! ## Handlers keep their logs tidy -/

namespace Orchestrator

variable {E : Daemon C → List (Event C) → Daemon C → Prop} {asked : Asked C} {α : Type}
  {y : Daemon C × List (Event C)}

/-- The handler of the request keeps its log tidy and ends with `Q` of it, whatever happens beside
it. -/
abbrev KeepsTidy (E : Daemon C → List (Event C) → Daemon C → Prop) (asked : Asked C)
    (Q : Except CallError α → List (Event C) → Prop) (x : Orchestrator C α)
    (y : Daemon C × List (Event C)) : Prop :=
  Daemon.server.KeepsLog E (fun y => Tidy asked y.2) Q x y

theorem tidy_stable : Stable (beside E) fun y : Daemon C × List (Event C) => Tidy asked y.2 :=
  stable_log (Tidy asked)

/-- What begins nothing, touches only what was begun and calls no producer keeps the log
tidy. -/
theorem tidy_append {l : List (Event C)} {β : Type} {p : Act C β} (h : Tidy asked l)
    (hbegins : p.begins = none) (htouched : ∀ i ∈ p.touched, i ∈ begun l)
    (hquiet : p.request = none) (b : β) : Tidy asked (l ++ p.event β b) := by
  refine h.append htouched ?_ ?_ b
  · rw [hbegins]
    simp
  · rw [hquiet]
    simp

/-- Nothing was begun yet that the handler could call the producer for. -/
def Idle (asked : Asked C) (l : List (Event C)) : Prop := Tidy asked l ∧ producerCalls l = []

/-- What touches no invocation leaves the handler idle, and asks to begin none. -/
theorem idle_of_only {revoked : Option GrantId} {x : Orchestrator C α}
    (hx : x.Performs (Act.Only revoked)) (hy : Idle asked y.2) :
    KeepsTidy E asked (fun _ l => Idle asked l ∧ attempts l = attempts y.2) x y := by
  refine .of_performs tidy_stable hx (fun β p d l b d' hp htidy hl _ => ?_) hy.1 ⟨hy, rfl⟩
  have htidy := tidy_append htidy hp.begins (by rw [hp.touched]; simp) hp.quiet b
  exact ⟨htidy, ⟨htidy, (producerCalls_event hp.quiet l b).trans hl.1.2⟩,
    (attempts_event hp.begins l b).trans hl.2⟩

/-- What settles the invocation that was begun keeps the log tidy. -/
theorem tidy_of_settles {id : InvocationId} {x : Orchestrator C α}
    (hx : x.Performs (Act.Settles id)) (hy : Tidy asked y.2) (hid : id ∈ begun y.2) :
    KeepsTidy E asked (fun _ l => Tidy asked l ∧ id ∈ begun l ∧
      producerCalls l = producerCalls y.2 ∧
      ∀ limits, Reserves asked id limits y.2 → Reserves asked id limits l) x y := by
  refine .of_performs tidy_stable hx (fun β p d l b d' hp htidy hl _ => ?_) hy
    ⟨hy, hid, rfl, fun _ h => h⟩
  have htidy := tidy_append htidy hp.begins (hp.touches hl.2.1) hp.request b
  exact ⟨htidy, htidy, begun_append.mpr (.inl hl.2.1),
    (producerCalls_event hp.request l b).trans hl.2.2.1,
      fun limits h => (hl.2.2.2 limits h).append _⟩

/-- The first boundary leaves the handler idle, with what it persisted in its log. -/
theorem beginCapture_tidy {request : CaptureRequest} (hbody : asked.body = .capture request)
    (hy : Idle asked y.2) (hnone : attempts y.2 = []) :
    KeepsTidy E asked (fun r l => Idle asked l ∧ ∀ status limits,
      r = .ok (.persisted status limits) → Reserves asked status.id limits l)
      (beginCapture asked.call request) y := by
  have hanswered (reply : Reply) {y : Daemon C × List (Event C)} (hy : Idle asked y.2) :
      KeepsTidy E asked (fun r l => Idle asked l ∧ ∀ status limits,
        r = .ok (.persisted status limits) → Reserves asked status.id limits l)
        (pure (.answered reply) : Orchestrator C Started) y :=
    .pure tidy_stable hy.1 ⟨hy, by simp⟩
  unfold beginCapture
  split
  · exact hanswered _ hy
  · rename_i key hkey
    refine (idle_of_only (captureLimits_only asked.call ..) hy).bind ?_
      fun e y hy => ⟨hy.1, by simp⟩
    intro limits y hy _
    have hnone := hy.2.trans hnone
    refine (idle_of_only freshInvocation_only hy.1).bind ?_ fun e y hy => ⟨hy.1, by simp⟩
    intro invocation y hy _
    have hnone := hy.2.trans hnone
    extract_lets intent
    have hbegin : KeepsTidy E asked (fun r l => Idle asked l ∧ ∀ status,
        r = .ok (.persisted status) → Reserves asked status.id limits l)
        (store (.transact (.begin intent))) y := by
      refine keepsLog_store tidy_stable (J := fun l => Idle asked l ∧ attempts l = [])
        (fun d l b d' htidy hl _ => ?_) hy.1.1 ⟨hy.1, hnone⟩
      have htidy : Tidy asked (l ++ Act.event _ (.transact (.begin intent)) b) := by
        refine htidy.append (by simp [Act.touched, Transaction.moves]) ?_ (by simp [Act.request]) b
        rintro i ⟨⟩
        exact ⟨hl.2, ⟨request, limits, hbody, rfl⟩, hkey, rfl⟩
      refine ⟨htidy, ⟨htidy, (producerCalls_event rfl l b).trans hl.1.2⟩, fun status hb => ?_⟩
      refine ⟨intent, status, List.mem_append_right _ ?_, rfl, rfl⟩
      rw [mapError_eq_ok.mp hb]
      exact List.mem_singleton_self _
    refine hbegin.bind ?_ fun e y hy => ⟨hy.1, by simp⟩
    intro begun y hy _
    split
    · refine .pure tidy_stable hy.1.1 ⟨hy.1, fun status limits h => ?_⟩
      cases h
      exact hy.2 _ rfl
    · refine (idle_of_only (replayCapture_only asked.call _) hy.1).bind ?_
        fun e y hy => ⟨hy.1, by simp⟩
      exact fun reply y hy _ => hanswered reply hy.1
    · exact hanswered _ hy.1
    · exact hanswered _ hy.1

/-- An invocation that runs calls its producer once, within what it reserved. -/
theorem runInvocation_tidy (request : CaptureRequest) (limits : CaptureLimits) {id : InvocationId}
    (hy : Idle asked y.2) (hid : Reserves asked id limits y.2) :
    KeepsTidy E asked (fun _ l => Tidy asked l ∧ id ∈ begun l)
      (runInvocation asked.call request limits id) y := by
  have hsettles {α : Type} {x : Orchestrator C α} {y : Daemon C × List (Event C)}
      (hx : x.Performs (Act.Settles id)) (hy : Tidy asked y.2) (hid : id ∈ begun y.2) :
      KeepsTidy E asked (fun _ l => Tidy asked l ∧ id ∈ begun l) x y :=
    (tidy_of_settles hx hy hid).mono fun _ _ h => ⟨h.1, h.2.1⟩
  have hready {α : Type} {x : Orchestrator C α} {y : Daemon C × List (Event C)}
      (hx : x.Performs (Act.Settles id)) (hy : Idle asked y.2)
      (hid : Reserves asked id limits y.2) :
      KeepsTidy E asked (fun _ l => Idle asked l ∧ Reserves asked id limits l) x y :=
    (tidy_of_settles hx hy.1 hid.mem_begun).mono fun _ _ h =>
      ⟨⟨h.1, h.2.2.1.trans hy.2⟩, h.2.2.2 limits hid⟩
  refine (hready (settles_of_only id (look_only rfl rfl rfl)) hy hid).bind ?_
    fun e l h => ⟨h.1.1, h.2.mem_begun⟩
  intro cancelled y hy _
  refine (hready (settles_of_only id (preDispatch_only ..)) hy.1 hy.2).bind ?_
    fun e l h => ⟨h.1.1, h.2.mem_begun⟩
  intro reason y hy _
  split
  · exact hsettles (release_settles id _) hy.1.1 hy.2.mem_begun
  · refine (hready (store_settles id ⟨rfl, .inr rfl, rfl, rfl⟩) hy.1 hy.2).bind ?_
      fun e l h => ⟨h.1.1, h.2.mem_begun⟩
    intro _ y hy _
    -- The only producer call: none is in the log before it.
    have hproduce : KeepsTidy E asked (fun _ l => Tidy asked l ∧ id ∈ begun l)
        (perform (.produce ⟨id, request.target, limits, request.egressPolicy⟩)) y := by
      refine .perform tidy_stable (J := fun l => Idle asked l ∧ Reserves asked id limits l)
        (fun d l b d' htidy hl _ => ?_) hy.1.1 hy
      have htidy : Tidy asked (l ++ Act.event _
          (.produce ⟨id, request.target, limits, request.egressPolicy⟩) b) := by
        refine htidy.append ?_ (by simp [Act.begins]) ?_ b
        · rintro i ⟨⟩
          exact hl.2.mem_begun
        · rintro asked ⟨⟩
          exact ⟨hl.1.2, hl.2⟩
      exact ⟨htidy, htidy, begun_append.mpr (.inl hl.2.mem_begun)⟩
    refine hproduce.bind ?_ fun e l h => h
    intro produced y hy _
    refine (hsettles (settles_of_only id (look_only rfl rfl rfl)) hy.1 hy.2).bind ?_ fun e l h => h
    intro elapsed y hy _
    split
    · exact hsettles (finish_settles asked.call id ..) hy.1 hy.2
    · exact hsettles (fail_settles id ..) hy.1 hy.2
    · exact hsettles (markUnknownEffect_settles id) hy.1 hy.2

theorem capture_tidy {request : CaptureRequest} (hbody : asked.body = .capture request)
    (hy : Idle asked y.2) (hnone : attempts y.2 = []) :
    KeepsTidy E asked (fun _ => Tidy asked) (capture asked.call request) y := by
  have hbegin := (beginCapture_tidy (E := E) hbody hy hnone).attempt
    (R := fun r l => ∃ r', r = .ok r' ∧ Idle asked l ∧ ∀ status limits,
      r' = .ok (.persisted status limits) → Reserves asked status.id limits l)
    fun r l h => ⟨r, rfl, h⟩
  refine hbegin.bind ?_ (by simp)
  rintro started y ⟨_, ⟨⟩, hidle, hbegun⟩ _
  split
  · exact .pure tidy_stable hidle.1 hidle.1
  · exact .pure tidy_stable hidle.1 hidle.1
  · rename_i status limits
    have hreserves := hbegun status limits rfl
    -- Its own registration and what comes after it are of the invocation it began.
    refine (tidy_of_settles (.perform ⟨rfl, .inr rfl, rfl, rfl⟩) hidle.1 hreserves.mem_begun).bind
      ?_ fun e l h => h.1
    intro _ y hy _
    have hrun := (runInvocation_tidy (E := E) request limits ⟨hy.1, hy.2.2.1.trans hidle.2⟩
      (hy.2.2.2 limits hreserves)).attempt
      (R := fun _ l => Tidy asked l ∧ status.id ∈ begun l) fun _ _ h => h
    refine hrun.bind ?_ fun e l h => h.1
    intro result y hy _
    refine (tidy_of_settles (.perform ⟨rfl, .inr rfl, rfl, rfl⟩) hy.1 hy.2).bind ?_ fun e l h => h.1
    intro _ y hy _
    split
    · exact .pure tidy_stable hy.1 hy.1
    · have hafter := tidy_of_settles (E := E) (afterError_settles status.id) hy.1 hy.2.1
      refine (hafter.attempt (R := fun _ => Tidy asked) fun _ _ h => h.1).bind ?_ fun e l h => h
      intro result y hy _
      split <;> exact .pure tidy_stable hy hy

/-- **Every handler keeps its log tidy**, whatever happens beside it. -/
theorem handle_tidy (d : Daemon C) :
    KeepsTidy E asked (fun _ => Tidy asked) (handle asked.call asked.mode asked.body) (d, []) := by
  have hidle : Idle asked ([] : List (Event C)) := ⟨.nil, rfl⟩
  have honly {revoked : Option GrantId} {x : Orchestrator C Reply}
      (hx : x.Performs (Act.Only revoked)) :
      KeepsTidy E asked (fun _ => Tidy asked) (runBlocking x) (d, []) :=
    (idle_of_only (runBlocking_only hx) hidle).mono fun _ _ h => h.1.1
  unfold handle
  split
  · exact honly (.bind (planOf_only asked.call _) fun _ => trivial)
  · exact capture_tidy (by assumption) hidle rfl
  · exact honly (execute_only asked.call _)

end Orchestrator

/-- **What every log of the daemon shows**, and what it will show after the next answer. -/
theorem Daemon.tidy {p : Requests C} (hp : Daemon.server.Reaches p) {i : Nat}
    {th : Thread (Act C) CallError Reply (Asked C) (Event C)} (hth : p.threads i = some th) :
    Tidy th.asked th.log ∧ ∀ {β : Type} {q : Act C β} {next : β → Orchestrator C Reply} {b : β}
      {d : Daemon C}, th.live = true → th.rest = .call q next → q.Answered β p.state b d →
        Tidy th.asked (th.log ++ q.event β b) := by
  refine Reaches.log (J := Tidy) (fun asked d => ?_) hp hth
  exact (Orchestrator.handle_tidy d).mono fun _ _ _ => trivial

/-! ## What the store keeps of the handlers -/

/-- The place of the key is that of the request. -/
theorem Intent.Of.slot {intent : Intent C} {asked : Asked C} (h : intent.Of asked) :
    asked.call.key.map (fun key => (asked.call.tenant, Capability.capture, key)) =
      some intent.slot := by
  obtain ⟨request, limits, -, hauthz⟩ := h.authz
  rw [h.key, Intent.slot, hauthz]
  rfl

/-- The record of an invocation that was persisted for `intent` and answered with `status`. -/
structure InvocationRecord.BegunBy (r : InvocationRecord) (intent : Intent C)
    (status : InvocationStatus) : Prop where
  tenant : r.tenant = intent.authz.tenant
  session : r.session = intent.authz.session
  reserved : r.reserved = intent.authz.declared
  grantChain : r.grantChain = status.grantChain

theorem InvocationRecord.BegunBy.sameCall {r r' : InvocationRecord} {intent : Intent C}
    {status : InvocationStatus} (h : r.BegunBy intent status) (hsame : r.SameCall r') :
    r'.BegunBy intent status where
  tenant := hsame.tenant.trans h.tenant
  session := hsame.session.trans h.session
  reserved := hsame.reserved.trans h.reserved
  grantChain := hsame.grantChain.trans h.grantChain

/-- The book has the invocation that was persisted for `intent`, under its key. -/
def Custody.Stores (L : Custody C) (intent : Intent C) (status : InvocationStatus) : Prop :=
  (∃ r, L.invocations status.id = some r ∧ r.BegunBy intent status) ∧
    L.idem intent.slot = some ⟨status.id, requestBinding intent⟩

theorem Custody.Stores.extends {L' : Custody C} {intent : Intent C} {status : InvocationStatus}
    (h : L.Stores intent status) (hext : L.toBook.Extends L'.toBook) : L'.Stores intent status := by
  obtain ⟨⟨r, hr, hbegun⟩, hidem⟩ := h
  obtain ⟨r', hr', hsame⟩ := hext.invocations _ r hr
  exact ⟨⟨r', hr', hbegun.sameCall hsame⟩, hext.idem _ _ hidem⟩

/-- An intent that a step persisted: new to the book before it, and stored after it. -/
def Intent.NewIn (intent : Intent C) (status : InvocationStatus) (L L' : Custody C) : Prop :=
  (L.invocations status.id = none ∧ L.idem intent.slot = none) ∧ L'.Stores intent status

/-- A step of the store's life extends its book. -/
theorem World.Holds.extends {w w' : World C} {K : KeyState C} (h : w.Holds K L)
    (hrun : ReflTransGen World.Step w w') :
    ∃ K' L', w'.Holds K' L' ∧ L.toBook.Extends L'.toBook := by
  obtain ⟨K', L', h', hsteps⟩ := h.run hrun
  exact ⟨K', L', h', h.reachable.extends hsteps⟩

/-- What an access does to the book, and to the intents it persists. -/
theorem Act.Answered.persists {β : Type} {q : Act C β} {b : β} {d d' : Daemon C} {K : KeyState C}
    (h : q.Answered β d b d') (hL : d.world.Holds K L) :
    ∃ K' L', d'.world.Holds K' L' ∧ L.toBook.Extends L'.toBook ∧
      ∀ intent status, .persisted intent status ∈ q.event β b → intent.NewIn status L L' := by
  by_cases hpersists : ∃ intent status, .persisted intent status ∈ q.event β b
  · obtain ⟨intent, status, hmem⟩ := hpersists
    obtain ⟨s, hcommit, rfl⟩ := h.committed hmem
    obtain ⟨L', hL', hrep⟩ := hL.represents.commit_ok hcommit
    have hstep : Custody.Step L L' := .transact _ hL'
    refine ⟨K, L', ⟨hrep, hL.reachable.next hstep, hL.drawn⟩,
      hL.reachable.extends (.single hstep), ?_⟩
    intro intent' status' hmem'
    rw [q.event_eq_of_mem hmem] at hmem'
    cases List.mem_singleton.mp hmem'
    cases Custody.begin_begun hL' with
    | persisted _ _ _ _ _ hadmits =>
      obtain ⟨links, session, hallowed⟩ := authorize_allowed hadmits.auth
      exact ⟨⟨hadmits.new, hadmits.key⟩, ⟨_, Function.update_self _ _ _,
        ⟨rfl, rfl, hallowed.cost_eq, rfl⟩⟩, Function.update_self _ _ _⟩
  · obtain ⟨K', L', hL', hext⟩ := hL.extends (h.world.to_reflTransGen.lift id fun _ _ h => h.step)
    exact ⟨K', L', hL', hext, fun intent status hmem => absurd ⟨intent, status, hmem⟩ hpersists⟩

/-- The store remembers every invocation a handler began, and no two handlers began the same
one or under the same key. -/
structure Requests.Recorded (p : Requests C) (L : Custody C) : Prop where
  stored : ∀ {i : Nat} {th : Thread (Act C) CallError Reply (Asked C) (Event C)}
    {intent : Intent C} {status : InvocationStatus}, p.threads i = some th →
    .persisted intent status ∈ th.log → L.Stores intent status
  apart : ∀ {i j : Nat} {th th' : Thread (Act C) CallError Reply (Asked C) (Event C)}
    {intent intent' : Intent C} {status status' : InvocationStatus}, i ≠ j →
    p.threads i = some th → p.threads j = some th' → .persisted intent status ∈ th.log →
    .persisted intent' status' ∈ th'.log → status.id ≠ status'.id ∧ intent.slot ≠ intent'.slot

namespace Daemon

variable {p p' : Requests C}

/-- What was recorded stays so if every new entry is of one handler and new to the store. -/
theorem Recorded.next {L L' : Custody C} {i : Nat} (h : p.Recorded L)
    (hext : L.toBook.Extends L'.toBook)
    (hnew : ∀ {j : Nat} {th' : Thread (Act C) CallError Reply (Asked C) (Event C)}
      {intent : Intent C} {status : InvocationStatus}, p'.threads j = some th' →
      .persisted intent status ∈ th'.log →
      (∃ th, p.threads j = some th ∧ .persisted intent status ∈ th.log) ∨
        j = i ∧ intent.NewIn status L L') :
    p'.Recorded L' where
  stored := by
    intro j th' intent status hj he
    rcases hnew hj he with ⟨th, hold, heold⟩ | ⟨-, hfresh⟩
    · exact (h.stored hold heold).extends hext
    · exact hfresh.2
  apart := by
    intro j k th th' intent intent' status status' hne hj hk he he'
    -- What is stored is not new.
    have hold {intent intent' : Intent C} {status status' : InvocationStatus}
        (hfresh : intent.NewIn status L L') (hstored : L.Stores intent' status') :
        status.id ≠ status'.id ∧ intent.slot ≠ intent'.slot := by
      obtain ⟨⟨hnone, hkey⟩, -⟩ := hfresh
      obtain ⟨⟨r, hr, -⟩, hidem⟩ := hstored
      constructor
      · intro hid
        rw [hid, hr] at hnone
        cases hnone
      · intro hslot
        rw [hslot, hidem] at hkey
        cases hkey
    rcases hnew hj he with ⟨th₀, hj₀, he₀⟩ | ⟨rfl, hfresh⟩ <;>
      rcases hnew hk he' with ⟨th₁, hk₁, he₁⟩ | ⟨rfl, hfresh'⟩
    · exact h.apart hne hj₀ hk₁ he₀ he₁
    · exact (hold hfresh' (h.stored hj₀ he₀)).imp Ne.symm Ne.symm
    · exact hold hfresh (h.stored hk₁ he₁)
    · exact absurd rfl hne

/-- One step keeps the store's memory of the handlers. -/
theorem Recorded.step {K : KeyState C} {L : Custody C} (hL : p.state.world.Holds K L)
    (h : p.Recorded L) (hstep : server.Step p p') :
    ∃ K' L', p'.state.world.Holds K' L' ∧ p'.Recorded L' := by
  have hworld := step_world hstep
  cases hstep with
  | @act i th _ _ _ _ _ hth _ _ hanswer =>
    obtain ⟨K', L', hL', hext, hfresh⟩ := Act.Answered.persists hanswer hL
    refine ⟨K', L', hL', Recorded.next (i := i) h hext fun {j th' intent status} hj he => ?_⟩
    obtain ⟨rfl, rfl⟩ | ⟨-, hj⟩ := Pool.set_cases hj
    · rcases List.mem_append.mp he with he | he
      · exact .inl ⟨th, hth, he⟩
      · exact .inr ⟨rfl, hfresh intent status he⟩
    · exact .inl ⟨th', hj, he⟩
  | start i =>
    refine ⟨K, L, hL, Recorded.next (i := i) h (.refl _) fun {j th' intent status} hj he => ?_⟩
    obtain ⟨-, rfl⟩ | ⟨-, hj⟩ := Pool.set_cases hj
    · cases he
    · exact .inl ⟨th', hj, he⟩
  | outside | restart =>
    obtain ⟨K', L', hL', hext⟩ := hL.extends hworld
    exact ⟨K', L', hL', Recorded.next (i := 0) h hext fun hj he => .inl ⟨_, hj, he⟩⟩
  | crash =>
    obtain ⟨K', L', hL', hext⟩ := hL.extends hworld
    refine ⟨K', L', hL', Recorded.next (i := 0) h hext fun hj he => ?_⟩
    obtain ⟨th, hold, rfl⟩ := Option.map_eq_some_iff.mp hj
    exact .inl ⟨th, hold, he⟩

/-- **The store remembers what every handler began.** -/
theorem recorded (hp : server.Reaches p) : ∃ K L, p.state.world.Holds K L ∧ p.Recorded L := by
  refine @Reachable.invariant _ _ _ (fun p : Requests C =>
    ∃ K L, p.state.world.Holds K L ∧ p.Recorded L) _ hp ?_ ?_
  · rintro p hinit
    obtain ⟨K, L, hL⟩ := (reachable_world (p := p) ⟨p, hinit, .refl⟩).holds
    obtain ⟨d, -, rfl⟩ := hinit
    exact ⟨K, L, hL, ⟨fun hth => (by cases hth), fun _ hth => (by cases hth)⟩⟩
  · rintro p p' _ ⟨K, L, hL, hrec⟩ hstep
    exact Recorded.step hL hrec hstep

/-- Two handlers began different invocations. -/
theorem begun_apart (hp : server.Reaches p) {i j : Nat}
    {th th' : Thread (Act C) CallError Reply (Asked C) (Event C)} (hth : p.threads i = some th)
    (hth' : p.threads j = some th') {id : InvocationId} (hid : id ∈ begun th.log)
    (hid' : id ∈ begun th'.log) : i = j := by
  obtain ⟨K, L, -, hrec⟩ := recorded hp
  obtain ⟨intent, status, hmem, hstatus⟩ := hid
  obtain ⟨intent', status', hmem', hstatus'⟩ := hid'
  by_contra hne
  exact (hrec.apart hne hth hth' hmem hmem').1 (hstatus.trans hstatus'.symm)

/-! ## What happens beside a handler -/

/-- A step that moves no invocation of the log `l`. -/
structure Spares (d : Daemon C) (l : List (Event C)) (d' : Daemon C) : Prop where
  world : ReflGen (World.StepBy fun op => ∀ t, op = .transact t → ∀ id ∈ t.moves, id ∉ begun l)
    d.world d'.world
  running : ∀ id ∈ begun l, d'.running id = d.running id
  fired : ∀ id ∈ begun l, id ∈ d.fired → id ∈ d'.fired

/-- An access that touches nothing of `l` spares it. -/
theorem Spares.of_answered {β : Type} {q : Act C β} {b : β} {d d' : Daemon C}
    {l : List (Event C)} (h : q.Answered β d b d') (hq : ∀ id ∈ q.touched, id ∉ begun l) :
    d.Spares l d' where
  world := by
    refine h.world.mono fun w w' hstep => hstep.mono fun op hop t ht => ?_
    cases hop with
    | transact =>
      cases ht
      exact hq
    | claim => cases ht
  running := by
    intro id hid
    have hne {id' : InvocationId} (htouched : q.touched = some id') : id ≠ id' := by
      rintro rfl
      exact hq id htouched hid
    cases h with
    | register | deregister => exact Function.update_of_ne (hne rfl) _ _
    | _ => rfl
  fired := by
    intro id hid hfired
    cases h with
    | register =>
      refine ⟨hfired, ?_⟩
      rintro rfl
      exact hq id rfl hid
    | cancelRevoked => exact .inl hfired
    | _ => exact hfired

theorem Spares.of_outside {d d' : Daemon C} (h : d.Outside d') (l : List (Event C)) :
    d.Spares l d' where
  world := by
    refine .single (h.world.mono fun op hop t ht => ?_)
    subst ht
    cases t with
    | installRootGrant => simp [Transaction.moves]
    | _ => exact hop.elim
  running := by cases h <;> exact fun _ _ => rfl
  fired := by cases h <;> exact fun _ _ h => h

/-- **Beside a handler nothing moves what it began**, in any run of the daemon. -/
theorem respects : (server (C := C)).Respects Spares where
  act := by
    intro p i j th th' β q next b d hp hth hlive hrest hanswer hne hth'
    refine .of_answered hanswer fun id hid hid' => hne ?_
    -- What the next access touches was begun before it.
    obtain ⟨e, he, htouched⟩ := Act.exists_event hid b
    have howned := ((Daemon.tidy hp hth).2 hlive hrest hanswer).owning e
      (List.mem_append_right _ he) id htouched
    refine begun_apart hp hth hth' ?_ hid'
    rcases begun_append.mp howned with howned | ⟨intent, status, hmem, -⟩
    · exact howned
    · have hbegin := Event.touched_of_mem hmem
      rw [hid] at hbegin
      cases hbegin
  outside := fun l _ h => .of_outside h l

end Daemon
end Dioptron
