import Dioptron.Framing

/-! # The request loop of an admitted connection

A connection tracks each dispatched request in three places: the in-flight map (request id
to the handle of its task), the task ids (task to request id) and the join set of tasks
that were not taken out yet.  Inbound frames, the ends of dispatches and the closing of the
connection come in any order; the log says which requests were dispatched, retired and
answered.
-/
namespace Dioptron

/-- Names a task of the runtime. -/
abbrev TaskId := Nat

/-- The bounds of the server that the request loop reads. -/
structure Limits where
  maxInFlight : Nat
  maxFrame : UInt32

/-- Why a connection ended. -/
inductive Close
  | peerClosed
  | io
  | idle
  | shutdown
  | incompatible
  | internal (reason : String)
  | fault (failure : Failure) (reason : String)
  deriving DecidableEq, Repr

/-- A frame an admitted client may send. -/
inductive Inbound
  | request (request : Request)
  | cancel (cancel : Cancel)

/-- How a dispatch ends: it answers, it misses its deadline and the grace, or it panics. -/
inductive DispatchEnd
  | answers (response : Response)
  | late
  | panics

/-- A failure response. -/
def Response.failed (requestId : UInt64) (failure : Failure) : Response :=
  ⟨requestId, none, .failed failure⟩

/-- Forces a dispatcher's response onto the request it answers. -/
def Response.tag (response : Response) (requestId : UInt64) : Response :=
  { response with requestId := requestId }

/-- A dispatch task: its request, whether its cancel signal fired, and what it returned;
a task that panicked returns no response. -/
structure Task where
  request : Request
  cancelled : Bool
  result : Option (Option Response)

/-- What the task of a request returns. -/
def DispatchEnd.result (requestId : UInt64) : DispatchEnd → Option Response
  | answers response => some (response.tag requestId)
  | late => some (.failed requestId .deadlineExceeded)
  | panics => none

theorem DispatchEnd.result_requestId {requestId : UInt64} {how : DispatchEnd}
    {response : Response} (h : how.result requestId = some response) :
    response.requestId = requestId := by
  cases how with
  | answers => cases h; rfl
  | late => cases h; rfl
  | panics => cases h

structure Connection where
  inFlight : AList fun _ : UInt64 => TaskId
  taskIds : AList fun _ : TaskId => UInt64
  tasks : AList fun _ : TaskId => Task

namespace Connection

def new : Connection := ⟨∅, ∅, ∅⟩

/-- Fires the cancel signal of a task. -/
def fire (c : Connection) (task : TaskId) : Connection :=
  match c.tasks.lookup task with
  | some t => { c with tasks := c.tasks.insert task { t with cancelled := true } }
  | none => c

/-- Spawns the dispatch of one request as `task`. -/
def start (c : Connection) (limits : Limits) (request : Request) (task : TaskId) :
    Except Close Connection :=
  if request.requestId ∈ c.inFlight then
    .error (.fault .protocolError "duplicate in-flight request id")
  else if limits.maxInFlight ≤ c.inFlight.keys.length then
    .error (.fault .protocolError "in-flight request bound exceeded")
  else
    .ok {
      tasks := c.tasks.insert task ⟨request, false, none⟩
      taskIds := c.taskIds.insert task request.requestId
      inFlight := c.inFlight.insert request.requestId task }

/-- A cancel of an id that is not in flight does nothing. -/
def cancel (c : Connection) (cancel : Cancel) : Connection :=
  match c.inFlight.lookup cancel.requestId with
  | some task => c.fire task
  | none => c

/-- Admits one inbound frame; a request runs as `task`. -/
def accept (c : Connection) (limits : Limits) (task : TaskId) : Inbound → Except Close Connection
  | .request request => c.start limits request task
  | .cancel cancel => .ok (c.cancel cancel)

/-- A running task ends. -/
def ends (c : Connection) (task : TaskId) (t : Task) (how : DispatchEnd) : Connection :=
  { c with tasks := c.tasks.insert task { t with result := some (how.result t.request.requestId) } }

/-- Takes a task out of the join set. -/
def join (c : Connection) (task : TaskId) : Connection := { c with tasks := c.tasks.erase task }

/-- Removes a finished task from the in-flight set and returns the response to send, if the
task belonged to a tracked request. -/
def retire (c : Connection) (task : TaskId) (result : Option Response) :
    Option Response × Connection :=
  match c.taskIds.lookup task with
  | none => (none, c)
  | some requestId =>
    (some (result.getD (.failed requestId .unknownEffect)),
      { c with taskIds := c.taskIds.erase task, inFlight := c.inFlight.erase requestId })

/-- Cancels all work in flight. -/
def cancelAll (c : Connection) : Connection :=
  c.inFlight.entries.foldl (fun c entry => c.fire entry.2) c

/-- No task waits to be taken out of the join set. -/
def NoneEnded (c : Connection) : Prop :=
  ∀ task t, c.tasks.lookup task = some t → t.result = none

end Connection

/-! ## Runs -/

/-- What happened to the requests of a connection. -/
inductive ConnEvent
  | accepted (task : TaskId) (request : Request)
  | retired (task : TaskId)
  | answered (task : TaskId) (response : Response)

/-- Where a connection is: in its request loop, cleaning up after it ended, or gone. -/
inductive Phase
  | serving
  | finishing (close : Close)
  | closed
  deriving DecidableEq

structure ConnState where
  phase : Phase
  conn : Connection
  log : List ConnEvent

/-- Retires a task taken out of the join set and writes its response.  The write may fail. -/
def Connection.complete (A : Archives) (limits : Limits) (c : Connection) (task : TaskId)
    (result : Option Response) (written : Bool) : Except Close Unit × Connection × List ConnEvent :=
  match c.retire task result with
  | (none, c) => (.ok (), c, [])
  | (some response, c) =>
    match A.encodeFrame ⟨.response, response⟩ limits.maxFrame with
    | .error _ =>
      (.error (.fault .protocolError "response does not fit the negotiated frame bound"), c,
        [.retired task])
    | .ok _ =>
      if written then (.ok (), c, [.retired task, .answered task response])
      else (.error .io, c, [.retired task])

namespace ConnState

/-- An admitted connection. -/
def initial : ConnState := ⟨.serving, .new, []⟩

/-- The loop ends and the connection cancels its work. -/
def finish (st : ConnState) (close : Close) : ConnState :=
  { st with phase := .finishing close, conn := st.conn.cancelAll }

/-- A task was taken out of the join set and completed; `failed` says where a failure to
complete it leads. -/
def completed (A : Archives) (limits : Limits) (st : ConnState) (task : TaskId)
    (result : Option Response) (written : Bool)
    (failed : ConnState → Close → ConnState) : ConnState :=
  match (st.conn.join task).complete A limits task result written with
  | (.ok (), c, events) => { st with conn := c, log := st.log ++ events }
  | (.error close, c, events) => failed { st with conn := c, log := st.log ++ events } close

/-- One turn of the request loop, of the cleaning up after it, or of a task.  The loop looks
at the shutdown signal first, then at ended tasks, and only then at frames and the idle
timer; a task that ends after the loop looked is one that ends after the frame.  The runtime
does not use a task's name twice.  A turn that takes a frame is labelled with it. -/
inductive Turn (A : Archives) (limits : Limits) :
    Option Inbound → ConnState → ConnState → Prop
  | request {st : ConnState} {c : Connection} (task : TaskId) (request : Request)
      (hphase : st.phase = .serving) (hturn : st.conn.NoneEnded)
      (hfresh : ∀ r, .accepted task r ∉ st.log)
      (hstart : st.conn.accept limits task (.request request) = .ok c) :
      Turn A limits (some (.request request)) st
        { st with conn := c, log := st.log ++ [.accepted task request] }
  | refuse {st : ConnState} {close : Close} (task : TaskId) (request : Request)
      (hphase : st.phase = .serving) (hturn : st.conn.NoneEnded)
      (hstart : st.conn.accept limits task (.request request) = .error close) :
      Turn A limits (some (.request request)) st (st.finish close)
  | cancel {st : ConnState} {c : Connection} (task : TaskId) (cancel : Cancel)
      (hphase : st.phase = .serving) (hturn : st.conn.NoneEnded)
      (haccept : st.conn.accept limits task (.cancel cancel) = .ok c) :
      Turn A limits (some (.cancel cancel)) st { st with conn := c }
  | ends {st : ConnState} {t : Task} (task : TaskId) (how : DispatchEnd)
      (ht : st.conn.tasks.lookup task = some t) (hrunning : t.result = none) :
      Turn A limits none st { st with conn := st.conn.ends task t how }
  | complete {st : ConnState} {t : Task} {result : Option Response} (task : TaskId) (written : Bool)
      (hphase : st.phase = .serving) (ht : st.conn.tasks.lookup task = some t)
      (hended : t.result = some result) :
      Turn A limits none st (st.completed A limits task result written finish)
  | shutdown {st : ConnState} (hphase : st.phase = .serving) :
      Turn A limits none st (st.finish .shutdown)
  | close {st : ConnState} (close : Close) (hphase : st.phase = .serving)
      (hturn : st.conn.NoneEnded) (hidle : close = .idle → st.conn.inFlight = ∅) :
      Turn A limits none st (st.finish close)
  | deliver {st : ConnState} {t : Task} {result : Option Response} (task : TaskId) (written : Bool)
      (hphase : st.phase = .finishing .shutdown) (ht : st.conn.tasks.lookup task = some t)
      (hended : t.result = some result) :
      Turn A limits none st (st.completed A limits task result written
        fun st _ => { st with phase := .closed })
  | drain {st : ConnState} {t : Task} {result : Option Response} (task : TaskId) (close : Close)
      (hphase : st.phase = .finishing close) (hclose : close ≠ .shutdown)
      (ht : st.conn.tasks.lookup task = some t) (hended : t.result = some result) :
      Turn A limits none st { st with conn := st.conn.join task }
  | stop {st : ConnState} :
      -- the grace ran out, the join set is empty, or the server dropped the connection
      Turn A limits none st { st with phase := .closed, conn := { st.conn with tasks := ∅ } }

/-- One turn, whatever it takes. -/
def Step (A : Archives) (limits : Limits) (st st' : ConnState) : Prop :=
  ∃ inbound, Turn A limits inbound st st'

/-- A state of an admitted connection. -/
def Reachable (A : Archives) (limits : Limits) (st : ConnState) : Prop :=
  Dioptron.Reachable (fun st₀ => st₀ = initial) (Step A limits) st

end ConnState

/-- Whether responses still reach the peer: the loop runs, or shutdown drains its tasks. -/
def Phase.Open : Phase → Prop
  | serving => True
  | finishing close => close = .shutdown
  | closed => False

/-- The request of `task` was dispatched and its task was not retired. -/
def Outstanding (log : List ConnEvent) (task : TaskId) (request : Request) : Prop :=
  .accepted task request ∈ log ∧ .retired task ∉ log

/-- `task` runs a request of this id, and no answer to the id was written since. -/
def Awaits (log : List ConnEvent) (id : UInt64) (task : TaskId) : Prop :=
  ∃ before request since, log = before ++ .accepted task request :: since ∧
    request.requestId = id ∧ ∀ t response, .answered t response ∈ since → response.requestId ≠ id

def ConnEvent.isAnswer (task : TaskId) : ConnEvent → Bool
  | answered t _ => t = task
  | _ => false

/-- How often the request of a task was answered. -/
def answers (log : List ConnEvent) (task : TaskId) : Nat := log.countP (ConnEvent.isAnswer task)

/-! ## Lookups -/

section Lookups
variable {α β : Type} [DecidableEq α] {m : AList fun _ : α => β} {a k : α} {b v : β}

theorem lookup_insert_iff :
    (m.insert k b).lookup a = some v ↔ (a = k ∧ b = v) ∨ (a ≠ k ∧ m.lookup a = some v) := by
  by_cases h : a = k
  · subst h
    rw [AList.lookup_insert]
    simp
  · rw [AList.lookup_insert_ne h]
    simp [h]

theorem lookup_erase_iff : (m.erase k).lookup a = some v ↔ a ≠ k ∧ m.lookup a = some v := by
  by_cases h : a = k
  · subst h
    rw [AList.lookup_erase]
    simp
  · rw [AList.lookup_erase_ne h]
    simp [h]

end Lookups

/-! ## Signals -/

namespace Connection

/-- The connections differ in cancel signals only. -/
structure SameWork (c c' : Connection) : Prop where
  inFlight : c'.inFlight = c.inFlight
  taskIds : c'.taskIds = c.taskIds
  tasks : ∀ task, (c'.tasks.lookup task).map (fun t => (t.request, t.result)) =
    (c.tasks.lookup task).map fun t => (t.request, t.result)

theorem SameWork.refl (c : Connection) : SameWork c c := ⟨rfl, rfl, fun _ => rfl⟩

variable {c c' : Connection}

theorem SameWork.trans {a b : Connection} (h : SameWork a b) (h' : SameWork b c) : SameWork a c :=
  ⟨h'.inFlight.trans h.inFlight, h'.taskIds.trans h.taskIds,
    fun task => (h'.tasks task).trans (h.tasks task)⟩

/-- A task after a signal is the task before it. -/
theorem SameWork.exists_task (h : SameWork c c') {task : TaskId} {t' : Task}
    (ht : c'.tasks.lookup task = some t') :
    ∃ t, c.tasks.lookup task = some t ∧ t'.request = t.request ∧ t'.result = t.result := by
  have heq := h.tasks task
  rw [ht] at heq
  obtain ⟨t, hlook, hsame⟩ := Option.map_eq_some_iff.mp heq.symm
  exact ⟨t, hlook, (congrArg Prod.fst hsame).symm, (congrArg Prod.snd hsame).symm⟩

theorem SameWork.mem_tasks (h : SameWork c c') (task : TaskId) :
    task ∈ c'.tasks ↔ task ∈ c.tasks := by
  have heq := congrArg Option.isSome (h.tasks task)
  simp only [Option.isSome_map] at heq
  rw [← AList.lookup_isSome, ← AList.lookup_isSome, heq]

theorem fire_sameWork (c : Connection) (task : TaskId) : SameWork c (c.fire task) := by
  unfold fire
  cases ht : c.tasks.lookup task with
  | none => exact .refl c
  | some =>
    refine ⟨rfl, rfl, fun other => ?_⟩
    by_cases h : other = task
    · subst h
      simp [ht]
    · simp [AList.lookup_insert_ne h]

theorem cancel_sameWork (c : Connection) (cancel : Cancel) : SameWork c (c.cancel cancel) := by
  unfold Connection.cancel
  cases c.inFlight.lookup cancel.requestId with
  | none => exact .refl c
  | some task => exact c.fire_sameWork task

theorem cancelAll_sameWork (c : Connection) : SameWork c c.cancelAll := by
  have hfold : ∀ (entries : List (Sigma fun _ : UInt64 => TaskId)) (c' : Connection),
      SameWork c' (entries.foldl (fun c entry => c.fire entry.2) c') := by
    intro entries
    induction entries with
    | nil => exact fun c' => .refl c'
    | cons entry _ ih => exact fun c' => (c'.fire_sameWork entry.2).trans (ih _)
  exact hfold _ c

/-- An accepted request has an id of its own and room. -/
theorem start_ok {limits : Limits} {request : Request} {task : TaskId}
    (h : c.start limits request task = .ok c') :
    request.requestId ∉ c.inFlight ∧ c.inFlight.keys.length < limits.maxInFlight ∧
      c' = ⟨c.inFlight.insert request.requestId task, c.taskIds.insert task request.requestId,
        c.tasks.insert task ⟨request, false, none⟩⟩ := by
  unfold start at h
  by_cases hmem : request.requestId ∈ c.inFlight
  · rw [if_pos hmem] at h
    cases h
  · rw [if_neg hmem] at h
    by_cases hroom : limits.maxInFlight ≤ c.inFlight.keys.length
    · rw [if_pos hroom] at h
      cases h
    · rw [if_neg hroom] at h
      cases h
      exact ⟨hmem, Nat.lt_of_not_le hroom, rfl⟩

end Connection

/-! ## The log -/

section Log
variable {log events : List ConnEvent} {task : TaskId} {id : UInt64}

theorem Awaits.append (h : Awaits log id task)
    (hevents : ∀ t response, .answered t response ∈ events → response.requestId ≠ id) :
    Awaits (log ++ events) id task := by
  obtain ⟨before, request, since, rfl, hid, hsince⟩ := h
  refine ⟨before, request, since ++ events, by simp, hid, fun t response hmem => ?_⟩
  rcases List.mem_append.mp hmem with hmem | hmem
  · exact hsince t response hmem
  · exact hevents t response hmem

theorem Awaits.accepted (log : List ConnEvent) (task : TaskId) (request : Request) :
    Awaits (log ++ [.accepted task request]) request.requestId task :=
  ⟨log, request, [], by simp, rfl, by simp⟩

/-- Every answer in the log went to a request that waited for it. -/
def Answered (log : List ConnEvent) : Prop :=
  ∀ i task response, log[i]? = some (.answered task response) →
    Awaits (log.take i) response.requestId task

theorem Answered.append_one (h : Answered log) {event : ConnEvent}
    (hevent : ∀ task response, event = .answered task response →
      Awaits log response.requestId task) : Answered (log ++ [event]) := by
  intro i task response hi
  rcases Nat.lt_trichotomy i log.length with hlt | heq | hgt
  · rw [List.getElem?_append_left hlt] at hi
    rw [List.take_append_of_le_length hlt.le]
    exact h i task response hi
  · subst heq
    rw [List.getElem?_append_right (Nat.le_refl _)] at hi
    rw [List.take_left]
    exact hevent task response (by simpa using hi)
  · rw [List.getElem?_eq_none (by simpa using hgt)] at hi
    cases hi

theorem answers_append : answers (log ++ events) task = answers log task + answers events task :=
  List.countP_append

end Log

/-! ## The invariant -/

namespace ConnState

/-- The three maps, the phase and the log agree. -/
structure Tracks (limits : Limits) (st : ConnState) : Prop where
  paired : ∀ id task, st.conn.inFlight.lookup id = some task ↔ st.conn.taskIds.lookup task = some id
  outstanding : ∀ task id, st.conn.taskIds.lookup task = some id ↔
    ∃ request, Outstanding st.log task request ∧ request.requestId = id
  tracked : ∀ task t, st.conn.tasks.lookup task = some t →
    st.conn.taskIds.lookup task = some t.request.requestId
  joined : st.phase.Open → ∀ task ∈ st.conn.taskIds, task ∈ st.conn.tasks
  tagged : ∀ task t response, st.conn.tasks.lookup task = some t →
    t.result = some (some response) → response.requestId = t.request.requestId
  bound : st.conn.inFlight.keys.length ≤ limits.maxInFlight
  named : ∀ task, .retired task ∈ st.log → ∃ request, .accepted task request ∈ st.log
  awaited : ∀ id task, st.conn.inFlight.lookup id = some task → Awaits st.log id task
  answered : Answered st.log
  unanswered : ∀ task, .retired task ∉ st.log → answers st.log task = 0
  once : ∀ task, answers st.log task ≤ 1
  settled : st.phase.Open → ∀ task, .retired task ∈ st.log → answers st.log task = 1

variable {A : Archives} {limits : Limits} {st : ConnState} {phase phase' : Phase} {task : TaskId}
  {events : List ConnEvent}

theorem Tracks.initial : Tracks limits initial where
  paired := by simp [ConnState.initial, Connection.new]
  outstanding := by simp [ConnState.initial, Connection.new, Outstanding]
  tracked := by simp [ConnState.initial, Connection.new]
  joined := by simp [ConnState.initial, Connection.new]
  tagged := by simp [ConnState.initial, Connection.new]
  bound := by simp [ConnState.initial, Connection.new]
  named := by simp [ConnState.initial]
  awaited := by simp [ConnState.initial, Connection.new]
  answered := by simp [ConnState.initial, Answered]
  unanswered := by simp [ConnState.initial, answers]
  once := by simp [ConnState.initial, answers]
  settled := by simp [ConnState.initial]

/-- Signals and a change of phase that reopens nothing keep the invariant. -/
theorem Tracks.sameWork (h : Tracks limits st) {c : Connection}
    (hphase : phase.Open → st.phase.Open) (hsame : st.conn.SameWork c) :
    Tracks limits { st with phase := phase, conn := c } where
  paired := by
    rw [hsame.inFlight, hsame.taskIds]
    exact h.paired
  outstanding := by
    rw [hsame.taskIds]
    exact h.outstanding
  tracked := by
    intro task t' ht
    obtain ⟨t, hlook, hrequest, -⟩ := hsame.exists_task ht
    rw [hsame.taskIds, hrequest]
    exact h.tracked task t hlook
  joined := by
    intro hopen task hmem
    rw [hsame.taskIds] at hmem
    exact (hsame.mem_tasks task).mpr (h.joined (hphase hopen) task hmem)
  tagged := by
    intro task t' response ht hresult
    obtain ⟨t, hlook, hrequest, hres⟩ := hsame.exists_task ht
    rw [hrequest]
    exact h.tagged task t response hlook (hres.symm.trans hresult)
  bound := by
    rw [hsame.inFlight]
    exact h.bound
  named := h.named
  awaited := by
    rw [hsame.inFlight]
    exact h.awaited
  answered := h.answered
  unanswered := h.unanswered
  once := h.once
  settled := fun hopen => h.settled (hphase hopen)

/-- A connection that no longer delivers may lose tasks. -/
theorem Tracks.drop (h : Tracks limits st) {tasks : AList fun _ : TaskId => Task}
    (hphase : ¬ phase.Open)
    (htasks : ∀ task t, tasks.lookup task = some t → st.conn.tasks.lookup task = some t) :
    Tracks limits { st with phase := phase, conn := { st.conn with tasks := tasks } } where
  paired := h.paired
  outstanding := h.outstanding
  tracked := fun task t ht => h.tracked task t (htasks task t ht)
  joined := fun hopen => absurd hopen hphase
  tagged := fun task t response ht => h.tagged task t response (htasks task t ht)
  bound := h.bound
  named := h.named
  awaited := h.awaited
  answered := h.answered
  unanswered := h.unanswered
  once := h.once
  settled := fun hopen => absurd hopen hphase

theorem Tracks.ends (h : Tracks limits st) {t : Task} (how : DispatchEnd)
    (ht : st.conn.tasks.lookup task = some t) :
    Tracks limits { st with conn := st.conn.ends task t how } where
  paired := h.paired
  outstanding := h.outstanding
  tracked := by
    intro other t' hlook
    rcases lookup_insert_iff.mp hlook with ⟨rfl, rfl⟩ | ⟨-, hlook⟩
    · exact h.tracked other t ht
    · exact h.tracked other t' hlook
  joined := by
    intro hopen other hmem
    exact (AList.mem_insert _).mpr (.inr (h.joined hopen other hmem))
  tagged := by
    intro other t' response hlook hresult
    rcases lookup_insert_iff.mp hlook with ⟨rfl, rfl⟩ | ⟨-, hlook⟩
    · exact DispatchEnd.result_requestId (Option.some.inj hresult)
    · exact h.tagged other t' response hlook hresult
  bound := h.bound
  named := h.named
  awaited := h.awaited
  answered := h.answered
  unanswered := h.unanswered
  once := h.once
  settled := h.settled

/-- Nothing was answered or retired for a task that has no request yet. -/
theorem Tracks.request (h : Tracks limits st) {request : Request} {c : Connection}
    (hfresh : ∀ r, .accepted task r ∉ st.log) (hstart : st.conn.start limits request task = .ok c) :
    Tracks limits { st with conn := c, log := st.log ++ [.accepted task request] } := by
  obtain ⟨hid, hroom, rfl⟩ := Connection.start_ok hstart
  have hlook : st.conn.inFlight.lookup request.requestId = none := AList.lookup_eq_none.mpr hid
  have hretired : .retired task ∉ st.log := fun hmem =>
    (h.named task hmem).elim fun r hr => hfresh r hr
  have hnew : st.conn.taskIds.lookup task = none := by
    refine Option.eq_none_iff_forall_ne_some.mpr fun id hsome => ?_
    obtain ⟨r, ⟨hr, -⟩, -⟩ := (h.outstanding task id).mp hsome
    exact hfresh r hr
  constructor
  case paired =>
    intro id other
    simp only [lookup_insert_iff, h.paired]
    constructor
    · rintro (⟨rfl, rfl⟩ | ⟨hne, hother⟩)
      · exact .inl ⟨rfl, rfl⟩
      · refine .inr ⟨fun heq => ?_, hother⟩
        rw [heq, hnew] at hother
        cases hother
    · rintro (⟨rfl, rfl⟩ | ⟨hne, hother⟩)
      · exact .inl ⟨rfl, rfl⟩
      · refine .inr ⟨fun heq => ?_, hother⟩
        rw [heq, ← h.paired, hlook] at hother
        cases hother
  case outstanding =>
    intro other id
    simp only [lookup_insert_iff, h.outstanding, Outstanding, List.mem_append, List.mem_singleton,
      ConnEvent.accepted.injEq, reduceCtorEq, or_false]
    constructor
    · rintro (⟨rfl, rfl⟩ | ⟨hne, r, ⟨hr, hnot⟩, hrid⟩)
      · exact ⟨request, ⟨.inr ⟨rfl, rfl⟩, hretired⟩, rfl⟩
      · exact ⟨r, ⟨.inl hr, hnot⟩, hrid⟩
    · rintro ⟨r, ⟨hr | ⟨rfl, rfl⟩, hnot⟩, hrid⟩
      · exact .inr ⟨fun heq => hfresh r (heq ▸ hr), r, ⟨hr, hnot⟩, hrid⟩
      · exact .inl ⟨rfl, hrid⟩
  case tracked =>
    intro other t ht
    rcases lookup_insert_iff.mp ht with ⟨rfl, rfl⟩ | ⟨hne, ht⟩
    · exact AList.lookup_insert _
    · exact lookup_insert_iff.mpr (.inr ⟨hne, h.tracked other t ht⟩)
  case joined =>
    intro hopen other hmem
    rcases (AList.mem_insert _).mp hmem with rfl | hmem
    · exact (AList.mem_insert _).mpr (.inl rfl)
    · exact (AList.mem_insert _).mpr (.inr (h.joined hopen other hmem))
  case tagged =>
    intro other t response ht hresult
    rcases lookup_insert_iff.mp ht with ⟨rfl, rfl⟩ | ⟨-, ht⟩
    · cases hresult
    · exact h.tagged other t response ht hresult
  case bound =>
    rw [AList.keys_insert, List.erase_of_not_mem hid, List.length_cons]
    exact hroom
  case named =>
    intro other hmem
    simp only [List.mem_append, List.mem_singleton, reduceCtorEq, or_false] at hmem
    obtain ⟨r, hr⟩ := h.named other hmem
    exact ⟨r, List.mem_append_left _ hr⟩
  case awaited =>
    intro id other hother
    rcases lookup_insert_iff.mp hother with ⟨rfl, rfl⟩ | ⟨-, hother⟩
    · exact .accepted st.log _ request
    · exact (h.awaited id other hother).append (by simp)
  case answered => exact h.answered.append_one (by simp)
  case unanswered =>
    intro other hmem
    rw [answers_append, h.unanswered other fun hr => hmem (List.mem_append_left _ hr)]
    simp [answers, ConnEvent.isAnswer]
  case once =>
    intro other
    rw [answers_append]
    simpa [answers, ConnEvent.isAnswer] using h.once other
  case settled =>
    intro hopen other hmem
    simp only [List.mem_append, List.mem_singleton, reduceCtorEq, or_false] at hmem
    rw [answers_append, h.settled hopen other hmem]
    simp [answers, ConnEvent.isAnswer]

/-- What a completed task adds to the log: it is retired, and answered unless that closed the
connection. -/
inductive Completes (phase phase' : Phase) (task : TaskId) (id : UInt64) : List ConnEvent → Prop
  | answered (response : Response) (hid : response.requestId = id)
      (hopen : phase'.Open → phase.Open) :
      Completes phase phase' task id [.retired task, .answered task response]
  | lost (hclosed : ¬ phase'.Open) : Completes phase phase' task id [.retired task]

theorem Completes.mem_retired {other : TaskId} {id : UInt64}
    (h : Completes phase phase' task id events) : .retired other ∈ events ↔ other = task := by
  cases h <;> simp

theorem Completes.not_accepted {other : TaskId} {id : UInt64} {request : Request}
    (h : Completes phase phase' task id events) : .accepted other request ∉ events := by
  cases h <;> simp

theorem Completes.answers_le {id : UInt64} (h : Completes phase phase' task id events) :
    answers events task ≤ 1 := by
  cases h <;> simp [answers, ConnEvent.isAnswer]

theorem Completes.answers_of_ne {other : TaskId} {id : UInt64}
    (h : Completes phase phase' task id events) (hne : other ≠ task) :
    answers events other = 0 := by
  cases h <;> simp [answers, ConnEvent.isAnswer, hne.symm]

theorem Completes.requestId {other : TaskId} {id : UInt64} {response : Response}
    (h : Completes phase phase' task id events) (hmem : .answered other response ∈ events) :
    response.requestId = id := by
  cases h with
  | answered _ hid =>
    simp only [List.mem_cons, reduceCtorEq, ConnEvent.answered.injEq, List.not_mem_nil,
      or_false, false_or] at hmem
    exact hmem.2 ▸ hid
  | lost => simp at hmem

theorem Tracks.complete (h : Tracks limits st) {t : Task}
    (ht : st.conn.tasks.lookup task = some t)
    (hevents : Completes st.phase phase task t.request.requestId events) :
    Tracks limits ⟨phase,
      ⟨st.conn.inFlight.erase t.request.requestId, st.conn.taskIds.erase task,
        st.conn.tasks.erase task⟩,
      st.log ++ events⟩ := by
  have hids := h.tracked task t ht
  have hin := (h.paired _ _).mpr hids
  obtain ⟨request, ⟨haccepted, hnot⟩, -⟩ := (h.outstanding _ _).mp hids
  have hzero := h.unanswered task hnot
  constructor
  case paired =>
    intro id other
    simp only [lookup_erase_iff, h.paired]
    refine ⟨fun ⟨hne, hother⟩ => ⟨fun heq => ?_, hother⟩,
      fun ⟨hne, hother⟩ => ⟨fun heq => ?_, hother⟩⟩
    · rw [heq, hids] at hother
      exact hne (Option.some.inj hother).symm
    · rw [heq, ← h.paired, hin] at hother
      exact hne (Option.some.inj hother).symm
  case outstanding =>
    intro other id
    simp only [lookup_erase_iff, h.outstanding, Outstanding, List.mem_append, not_or,
      hevents.mem_retired, hevents.not_accepted, or_false]
    constructor
    · rintro ⟨hne, r, ⟨hr, hnot⟩, hid⟩
      exact ⟨r, ⟨hr, hnot, hne⟩, hid⟩
    · rintro ⟨r, ⟨hr, hnot, hne⟩, hid⟩
      exact ⟨hne, r, ⟨hr, hnot⟩, hid⟩
  case tracked =>
    intro other t' hlook
    obtain ⟨hne, hlook⟩ := lookup_erase_iff.mp hlook
    exact lookup_erase_iff.mpr ⟨hne, h.tracked other t' hlook⟩
  case joined =>
    intro hopen other hmem
    cases hevents with
    | lost hclosed => exact absurd hopen hclosed
    | answered _ _ hphase =>
      obtain ⟨hne, hmem⟩ := AList.mem_erase.mp hmem
      exact AList.mem_erase.mpr ⟨hne, h.joined (hphase hopen) other hmem⟩
  case tagged =>
    intro other t' response hlook hresult
    exact h.tagged other t' response (lookup_erase_iff.mp hlook).2 hresult
  case bound =>
    rw [AList.keys_erase]
    exact (List.length_erase_le).trans h.bound
  case named =>
    intro other hmem
    rcases List.mem_append.mp hmem with hmem | hmem
    · obtain ⟨r, hr⟩ := h.named other hmem
      exact ⟨r, List.mem_append_left _ hr⟩
    · rw [hevents.mem_retired.mp hmem]
      exact ⟨request, List.mem_append_left _ haccepted⟩
  case awaited =>
    intro id other hother
    obtain ⟨hne, hother⟩ := lookup_erase_iff.mp hother
    refine (h.awaited id other hother).append fun o response hmem hid => ?_
    exact hne (hid.symm.trans (hevents.requestId hmem))
  case answered =>
    have hretired : Answered (st.log ++ [.retired task]) := h.answered.append_one (by simp)
    cases hevents with
    | lost => exact hretired
    | answered _ hid =>
      rw [List.append_cons]
      refine hretired.append_one ?_
      rintro o r ⟨⟩
      rw [hid]
      exact (h.awaited _ _ hin).append (by simp)
  case unanswered =>
    intro other hmem
    simp only [List.mem_append, not_or, hevents.mem_retired] at hmem
    rw [answers_append, h.unanswered other hmem.1, hevents.answers_of_ne hmem.2]
  case once =>
    intro other
    rw [answers_append]
    by_cases hne : other = task
    · rw [hne, hzero, Nat.zero_add]
      exact hevents.answers_le
    · rw [hevents.answers_of_ne hne]
      exact h.once other
  case settled =>
    intro hopen other hmem
    cases hevents with
    | lost hclosed => exact absurd hopen hclosed
    | answered _ _ hphase =>
      rw [answers_append]
      by_cases hne : other = task
      · rw [hne, hzero]
        simp [answers, ConnEvent.isAnswer]
      · have hold : .retired other ∈ st.log := by simpa [hne] using hmem
        rw [h.settled (hphase hopen) other hold]
        simp [answers, ConnEvent.isAnswer, Ne.symm hne]

/-- How a task taken out of the join set is completed. -/
theorem Tracks.complete_cases (h : Tracks limits st) {t : Task} {result : Option Response}
    (written : Bool) (ht : st.conn.tasks.lookup task = some t) (hended : t.result = some result) :
    let c : Connection := ⟨st.conn.inFlight.erase t.request.requestId, st.conn.taskIds.erase task,
      st.conn.tasks.erase task⟩
    (∃ response, response.requestId = t.request.requestId ∧
      (st.conn.join task).complete A limits task result written =
        (.ok (), c, [.retired task, .answered task response])) ∨
    ∃ close, close ≠ .shutdown ∧
      (st.conn.join task).complete A limits task result written =
        (.error close, c, [.retired task]) := by
  have hretire : (st.conn.join task).retire task result =
      (some (result.getD (.failed t.request.requestId .unknownEffect)),
        ⟨st.conn.inFlight.erase t.request.requestId, st.conn.taskIds.erase task,
          st.conn.tasks.erase task⟩) := by
    simp only [Connection.retire, Connection.join, h.tracked task t ht]
  have hid : (result.getD (.failed t.request.requestId .unknownEffect)).requestId =
      t.request.requestId := by
    cases result with
    | none => rfl
    | some response => exact h.tagged task t response ht hended
  unfold Connection.complete
  rw [hretire]
  generalize result.getD (.failed t.request.requestId .unknownEffect) = response at hid
  dsimp only
  cases A.encodeFrame ⟨.response, response⟩ limits.maxFrame with
  | error => exact .inr ⟨_, by decide, rfl⟩
  | ok =>
    cases written with
    | true => exact .inl ⟨response, hid, rfl⟩
    | false => exact .inr ⟨.io, by decide, rfl⟩

theorem Tracks.finish (h : Tracks limits st) {close : Close}
    (hopen : (Phase.finishing close).Open → st.phase.Open) : Tracks limits (st.finish close) :=
  h.sameWork hopen st.conn.cancelAll_sameWork

/-- Every turn keeps the invariant. -/
theorem Turn.tracks {st' : ConnState} {inbound : Option Inbound}
    (hturn : Turn A limits inbound st st') (h : Tracks limits st) : Tracks limits st' := by
  cases hturn with
  | request _ _ _ _ hfresh hstart => exact h.request hfresh hstart
  | refuse _ _ hphase => exact h.finish fun _ => hphase ▸ trivial
  | cancel _ cancel _ _ haccept =>
    cases haccept
    exact h.sameWork id (st.conn.cancel_sameWork cancel)
  | ends _ how ht => exact h.ends how ht
  | complete _ written hphase ht hended =>
    have hopen : st.phase.Open := hphase ▸ trivial
    obtain ⟨response, hid, hcomplete⟩ | ⟨close, hclose, hcomplete⟩ :=
      h.complete_cases (A := A) written ht hended
    · simp only [completed, hcomplete]
      exact h.complete ht (.answered response hid fun _ => hopen)
    · simp only [completed, hcomplete]
      have hlost : Tracks limits ⟨.finishing close, _, _⟩ := h.complete ht (.lost hclose)
      exact hlost.finish id
  | shutdown hphase => exact h.finish fun _ => hphase ▸ trivial
  | close _ hphase => exact h.finish fun _ => hphase ▸ trivial
  | deliver _ written hphase ht hended =>
    have hopen : st.phase.Open := hphase ▸ rfl
    obtain ⟨response, hid, hcomplete⟩ | ⟨close, hclose, hcomplete⟩ :=
      h.complete_cases (A := A) written ht hended
    · simp only [completed, hcomplete]
      exact h.complete ht (.answered response hid fun _ => hopen)
    · simp only [completed, hcomplete]
      exact h.complete ht (.lost id)
  | drain _ _ hphase hclose =>
    exact h.drop (hphase ▸ hclose) fun other t' hlook => (lookup_erase_iff.mp hlook).2
  | stop => exact h.drop id fun other t' hlook => by simp at hlook

theorem Step.tracks {st' : ConnState} (hstep : Step A limits st st') (h : Tracks limits st) :
    Tracks limits st' := hstep.elim fun _ hturn => hturn.tracks h

theorem Reachable.tracks (h : Reachable A limits st) : Tracks limits st :=
  h.invariant (fun _ hinit => hinit ▸ .initial) fun _ _ _ htracks hstep => hstep.tracks htracks

end ConnState

/-! ## Progress -/

/-- How many turns a task still takes: it ends, and it is completed. -/
def Task.turns (t : Task) : Nat := if t.result.isNone then 2 else 1

/-- The turns of all tasks in the join set. -/
def Connection.turns (c : Connection) : Nat := (c.tasks.entries.map fun e => e.2.turns).sum

namespace Connection

variable {c : Connection} {task : TaskId} {t : Task}

end Connection

namespace ConnState

variable {A : Archives} {limits : Limits} {st : ConnState} {st' : ConnState}

/-- How many turns an open connection can take while a task that ended waits. -/
def turns (st : ConnState) : Nat := st.conn.turns + if st.phase = .serving then 1 else 0

/-- Runs of `n` turns through which the connection stays open. -/
inductive Stays (A : Archives) (limits : Limits) : Nat → ConnState → ConnState → Prop
  | refl {st : ConnState} (hopen : st.phase.Open) : Stays A limits 0 st st
  | head {n : Nat} {st st' st'' : ConnState} (hopen : st.phase.Open) (hstep : Step A limits st st')
      (hrun : Stays A limits n st' st'') : Stays A limits (n + 1) st st''

theorem Stays.tracks {n : Nat} (h : Stays A limits n st st') (htracks : Tracks limits st) :
    Tracks limits st' := by
  induction h with
  | refl => exact htracks
  | head _ hstep _ ih => exact ih (hstep.tracks htracks)

/-- Completing a task dispatches nothing. -/
theorem complete_events (c : Connection) (task : TaskId) (result : Option Response) (written : Bool)
    (other : TaskId) (request : Request) :
    .accepted other request ∉ (c.complete A limits task result written).2.2 := by
  unfold Connection.complete
  split
  · simp
  · split
    · simp
    · split <;> simp

theorem completed_log {task : TaskId} {result : Option Response} {written : Bool}
    {failed : ConnState → Close → ConnState}
    (hfailed : ∀ st close, (failed st close).log = st.log) :
    (st.completed A limits task result written failed).log =
      st.log ++ ((st.conn.join task).complete A limits task result written).2.2 := by
  unfold completed
  split
  next c events h => rw [h]
  next close c events h => rw [h, hfailed]

/-- The log only grows. -/
theorem Step.log (h : Step A limits st st') : ∃ events, st'.log = st.log ++ events := by
  obtain ⟨inbound, hturn⟩ := h
  cases hturn with
  | request => exact ⟨_, rfl⟩
  | complete => exact ⟨_, completed_log fun _ _ => rfl⟩
  | deliver => exact ⟨_, completed_log fun _ _ => rfl⟩
  | _ => exact ⟨[], (List.append_nil _).symm⟩

theorem Stays.answers_le {n : Nat} (h : Stays A limits n st st') (task : TaskId) :
    answers st.log task ≤ answers st'.log task := by
  induction h with
  | refl => exact Nat.le_refl _
  | head _ hstep _ ih =>
    obtain ⟨events, hlog⟩ := hstep.log
    rw [hlog, answers_append] at ih
    omega

section Waiting
variable {st' : ConnState} {task : TaskId} {t : Task} {result : Option Response}

end Waiting

/-- A turn that dispatches a request took it from the reader, and found its id free and room
for it. -/
theorem Turn.dispatched {inbound : Option Inbound} {task : TaskId} {request : Request}
    (hturn : Turn A limits inbound st st') (hlog : .accepted task request ∈ st'.log)
    (hnew : .accepted task request ∉ st.log) :
    inbound = some (.request request) ∧ request.requestId ∉ st.conn.inFlight ∧
      st.conn.inFlight.keys.length < limits.maxInFlight := by
  cases hturn with
  | request _ _ _ _ _ hstart =>
    simp only [List.mem_append, hnew, List.mem_singleton, ConnEvent.accepted.injEq,
      false_or] at hlog
    obtain ⟨hid, hroom, -⟩ := Connection.start_ok hstart
    rw [hlog.2]
    exact ⟨rfl, hid, hroom⟩
  | complete =>
    rw [completed_log, List.mem_append] at hlog
    · exact (hlog.elim hnew (complete_events _ _ _ _ task request)).elim
    · exact fun _ _ => rfl
  | deliver =>
    rw [completed_log, List.mem_append] at hlog
    · exact (hlog.elim hnew (complete_events _ _ _ _ task request)).elim
    · exact fun _ _ => rfl
  | _ => exact absurd hlog hnew

end ConnState

namespace Sample

/-- Archives in which each kind of body has at most one value, archived as `bytes` says. -/
def archivesOf (bytes : FrameKind → Bytes) (one : (kind : FrameKind) → Option kind.Body) :
    Archives where
  of kind := {
    toBytes := fun body => if one kind = some body then some (bytes kind) else none
    fromBytes := fun archived => if archived = bytes kind then one kind else none
    fromBytes_toBytes := fun body archived h => by
      split at h
      next heq => cases h; rw [if_pos rfl, heq]
      next => cases h }

/-- A short body for each kind. -/
def bodyOf (kind : FrameKind) : Bytes := List.replicate 8 kind.toU8

def hail : Request :=
  ⟨5, ⟨⟨0, by decide⟩⟩, some (List.replicate 16 9), .execute, 0, .sessionCreate⟩

/-- `hail` was accepted and its task has ended. -/
def ended (how : DispatchEnd) : ConnState where
  phase := .serving
  conn := {
    inFlight := AList.insert 5 0 ∅
    taskIds := AList.insert 0 5 ∅
    tasks := AList.insert 0 ⟨hail, false, some (how.result 5)⟩ ∅ }
  log := [.accepted 0 hail]

/-- What the server answers when the dispatch of `hail` panics. -/
def lost : Response := .failed 5 .unknownEffect

end Sample

end Dioptron
