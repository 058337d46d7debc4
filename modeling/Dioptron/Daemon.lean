import Dioptron.Captures
import Dioptron.Lives
import Dioptron.Pools
import Dioptron.Recoveries

/-! # The daemon

What the accesses of a handler do: the store, the clock and the random source answer as
they may, the running set is shared memory, and the producer may do anything.  The daemon
is a server of requests over them: any number of handlers run beside each other, the
operator changes the store meanwhile, and a crash loses the memory and is followed by a
recovery.
-/
namespace Dioptron

open Relation (ReflGen ReflTransGen)

variable {C : Crypto}

/-- The store with the running set. -/
structure Daemon (C : Crypto) where
  world : World C
  /-- The chains of the running invocations, leaf first. -/
  running : InvocationId → Option (List GrantId)
  /-- The invocations whose producer has been told to stop. -/
  fired : Set InvocationId

namespace Daemon

def store (d : Daemon C) : Store C := d.world.store

def setStore (d : Daemon C) (s : Store C) : Daemon C := { d with world := ⟨s, d.world.drawn⟩ }

/-- An invocation starts to run with a signal of its own. -/
def register (d : Daemon C) (id : InvocationId) (chain : List GrantId) : Daemon C :=
  { d with running := Function.update d.running id (some chain), fired := d.fired \ {id} }

def deregister (d : Daemon C) (id : InvocationId) : Daemon C :=
  { d with running := Function.update d.running id none }

/-- Tells the producers of all running invocations under `revoked` to stop. -/
def cancelRevoked (d : Daemon C) (revoked : GrantId) : Daemon C :=
  { d with fired := d.fired ∪ {id | ∃ chain, d.running id = some chain ∧ revoked ∈ chain} }

end Daemon

/-- The status of an invocation, as a reader of the store gets it. -/
def Store.invocation (s : Store C) (id : InvocationId) :
    Except Error (Option InvocationStatus) := do
  return (← s.record InvocationRecord (.global (.invocation id))).map InvocationRecord.status

/-- What an access answers, and what it leaves. -/
inductive Act.Answered : (β : Type) → Act C β → Daemon C → β → Daemon C → Prop
  | snapshot {d : Daemon C} : Answered _ .snapshot d d.store.view d
  | now {d : Daemon C} : Answered _ .now d d.store.now.1 (d.setStore d.store.now.2)
  | freshInvocation {d : Daemon C} (id : Option InvocationId) : Answered _ .freshInvocation d id d
  | transact {d : Daemon C} {t : Transaction C} {reply : t.Reply} {s : Store C}
      (h : d.store.commit t.program = .ok (reply, s)) :
      Answered _ (.transact t) d (.ok reply) (d.setStore s)
  | transactFailed {d : Daemon C} {t : Transaction C} {e : Error}
      (h : d.store.commit t.program = .error e) : Answered _ (.transact t) d (.error e) d
  | claim {d : Daemon C} {c : IdemClaim C} {answer : Claimed} {s : Store C}
      (h : d.store.claim c = .ok (answer, s)) : Answered _ (.claim c) d (.ok answer) (d.setStore s)
  | claimFailed {d : Daemon C} {c : IdemClaim C} {e : Error} (h : d.store.claim c = .error e) :
      Answered _ (.claim c) d (.error e) d
  | claimed {d : Daemon C} {c : IdemClaim C} : Answered _ (.claimed c) d (d.store.claimed c) d
  | invocation {d : Daemon C} {id : InvocationId} :
      Answered _ (.invocation id) d (d.store.invocation id) d
  | artifact {d : Daemon C} {id : ArtifactRef} :
      Answered _ (.artifact id) d ((d.store.commit (Tx.artifact id)).map Prod.fst) d
  | readArtifact {d : Daemon C} {id : ArtifactRef} {offset : UInt64} {len : UInt32} :
      Answered _ (.readArtifact id offset len) d
        ((d.store.commit (Tx.readArtifact id offset len)).map Prod.fst) d
  | sessionArtifacts {d : Daemon C} {session : SessionId} {after : Option ArtifactRef}
      {limit : UInt32} : Answered _ (.sessionArtifacts session after limit) d
        (d.store.sessionArtifacts session after limit) d
  | auditQuery {d : Daemon C} {query : AuditQuery} :
      Answered _ (.auditQuery query) d (d.store.auditQuery query) d
  | isCancelled {d : Daemon C} (b : Bool) : Answered _ .isCancelled d b d
  | pastDeadline {d : Daemon C} (b : Bool) : Answered _ .pastDeadline d b d
  | elapsedMs {d : Daemon C} (ms : UInt64) : Answered _ .elapsedMs d ms d
  | register {d : Daemon C} {id : InvocationId} {chain : List GrantId} :
      Answered _ (.register id chain) d () (d.register id chain)
  | deregister {d : Daemon C} {id : InvocationId} :
      Answered _ (.deregister id) d () (d.deregister id)
  | cancelRevoked {d : Daemon C} {grant : GrantId} :
      Answered _ (.cancelRevoked grant) d () (d.cancelRevoked grant)
  | produce {d : Daemon C} {request : AcquireRequest} (produced : Produced) :
      Answered _ (.produce request) d produced d

/-- What an access that only reads answers. -/
def Act.reads : (β : Type) → Act C β → Option (Store C → β)
  | _, .snapshot => some Store.view
  | _, .claimed c => some fun s => s.claimed c
  | _, .invocation id => some fun s => s.invocation id
  | _, .artifact id => some fun s => (s.commit (Tx.artifact id)).map Prod.fst
  | _, .readArtifact id offset len =>
    some fun s => (s.commit (Tx.readArtifact id offset len)).map Prod.fst
  | _, .sessionArtifacts session after limit => some fun s => s.sessionArtifacts session after limit
  | _, .auditQuery query => some fun s => s.auditQuery query
  | _, _ => none

variable {d d' : Daemon C}

/-- An access that only reads answers from the store as it is. -/
theorem Act.Answered.of_reads {β : Type} {p : Act C β} {b : β} {f : Store C → β}
    (h : p.Answered β d b d') (hp : p.reads = some f) : b = f d.store ∧ d' = d := by
  cases h <;> cases hp <;> exact ⟨rfl, rfl⟩

/-- The operation of the store that an access is. -/
inductive Act.Runs : {β : Type} → Act C β → Operation C → Prop
  | transact (t : Transaction C) : Runs (.transact t) (.transact t)
  | claim (c : IdemClaim C) : Runs (.claim c) (.claim c)

/-- An access is at most one step of the store's life. -/
theorem Act.Answered.world {β : Type} {p : Act C β} {b : β} (h : p.Answered β d b d') :
    ReflGen (World.StepBy p.Runs) d.world d'.world := by
  cases h with
  | now => exact .single (.environment d.store.nonce d.store.now.2.clock)
  | transact h => exact .single (.of_run _ (.transact _) (map_eq_ok.mpr ⟨_, h, rfl⟩) rfl)
  | claim h => exact .single (.of_run _ (.claim _) (map_eq_ok.mpr ⟨_, h, rfl⟩) rfl)
  | _ => exact .refl

/-! ## The daemon as a server -/

/-- What a handler did, with the answer it got. -/
inductive Event (C : Crypto)
  | transacted (t : Transaction C) (answer : Except Error t.Reply)
  | claimed (claim : IdemClaim C) (answer : Except Error Claimed)
  | produced (request : AcquireRequest) (answer : Produced)
  | elapsed (ms : UInt64)
  | registered (id : InvocationId) (chain : List GrantId)
  | deregistered (id : InvocationId)
  | cancelled (revoked : GrantId)

/-- What an access leaves in the log of its handler. -/
def Act.event : (β : Type) → Act C β → β → List (Event C)
  | _, .transact t, answer => [.transacted t answer]
  | _, .claim c, answer => [.claimed c answer]
  | _, .produce request, answer => [.produced request answer]
  | _, .elapsedMs, ms => [.elapsed ms]
  | _, .register id chain, _ => [.registered id chain]
  | _, .deregister id, _ => [.deregistered id]
  | _, .cancelRevoked grant, _ => [.cancelled grant]
  | _, _, _ => []

/-- The access that leaves the event. -/
def Event.access : Event C → (β : Type) × Act C β
  | .transacted t _ => ⟨_, .transact t⟩
  | .claimed c _ => ⟨_, .claim c⟩
  | .produced request _ => ⟨_, .produce request⟩
  | .elapsed _ => ⟨_, .elapsedMs⟩
  | .registered id chain => ⟨_, .register id chain⟩
  | .deregistered id => ⟨_, .deregister id⟩
  | .cancelled grant => ⟨_, .cancelRevoked grant⟩

theorem Event.access_of_mem {β : Type} {p : Act C β} {b : β} {e : Event C}
    (he : e ∈ p.event β b) : e.access = ⟨β, p⟩ := by
  cases p with
  | snapshot | now | freshInvocation | claimed | invocation | artifact | readArtifact
  | sessionArtifacts | auditQuery | isCancelled | pastDeadline => cases he
  | _ =>
    cases List.mem_singleton.mp he
    rfl

/-- An access leaves at most one event. -/
theorem Act.length_event_le {β : Type} (p : Act C β) (b : β) : (p.event β b).length ≤ 1 := by
  cases p <;> simp [Act.event]

theorem Act.event_eq_of_mem {β : Type} (p : Act C β) {b : β} {e : Event C}
    (he : e ∈ p.event β b) : p.event β b = [e] := by
  obtain ⟨only, honly⟩ := List.length_eq_one_iff.mp
    (Nat.le_antisymm (p.length_event_le b) (List.length_pos_of_mem he))
  rw [honly] at he ⊢
  rw [List.mem_singleton.mp he]

/-- The transaction an access asks for. -/
def Act.transaction : {β : Type} → Act C β → Option (Transaction C)
  | _, .transact t => some t
  | _, _ => none

/-- What a logged transaction did. -/
theorem Act.Answered.committed {β : Type} {q : Act C β} {b : β} (h : q.Answered β d b d')
    {t : Transaction C} {a : t.Reply} (he : .transacted t (.ok a) ∈ q.event β b) :
    ∃ s, d.store.commit t.program = .ok (a, s) ∧ d' = d.setStore s := by
  have hasked : some t = q.transaction :=
    congrArg (fun access => access.2.transaction) (Event.access_of_mem he)
  cases h with
  | transact hcommit =>
    cases List.mem_singleton.mp he
    exact ⟨_, hcommit, rfl⟩
  | transactFailed => cases List.mem_singleton.mp he
  | _ => cases hasked

/-- A request of a connection. -/
structure Asked (C : Crypto) where
  call : Call C
  mode : Mode
  body : RequestBody

/-- The operations of the operator, not of a handler. -/
def Operation.Administrative : Operation C → Prop
  | transact (.installRootGrant _) => True
  | transact _ | claim _ => False
  | _ => True

namespace Daemon

/-- What happens to the store beside the handlers. -/
inductive Outside (d : Daemon C) : Daemon C → Prop
  | operate (op : Operation C) {s : Store C} (hop : op.Administrative)
      (hrun : op.run d.store = .ok s) (hfresh : ∀ x ∈ op.draw, x ∉ d.world.drawn) :
      Outside d { d with world := ⟨s, d.world.drawn ∪ {x | x ∈ op.draw}⟩ }
  | environment (nonce : Keyspace → Str C.Block → C.Nonce) (clock : Nat → Timestamp) :
      Outside d (d.setStore { d.store with nonce := nonce, clock := clock })

/-- The daemon without its memory. -/
def forget (d : Daemon C) (w : World C) : Daemon C :=
  { d with world := w, running := fun _ => none, fired := ∅ }

/-- A crash, and any number of recoveries that were cut off. -/
def Crashed (d d' : Daemon C) : Prop :=
  ∃ w, ReflTransGen World.Interrupted d.world w ∧ d' = d.forget w

/-- A recovery that came to its end. -/
def Restarted (d d' : Daemon C) : Prop :=
  ∃ report s, d.store.recover = .ok (report, s) ∧ d' = d.forget ⟨s, d.world.drawn⟩

/-- A new store, and nothing runs. -/
def Initial (d : Daemon C) : Prop :=
  d.world.Initial ∧ d.running = (fun _ => none) ∧ d.fired = ∅

def server : Server (Act C) CallError Reply (Asked C) (Daemon C) (Event C) where
  start asked := Orchestrator.handle asked.call asked.mode asked.body
  answers := Act.Answered
  event := Act.event
  initial := Initial
  outside := Outside
  crash := Crashed
  restart := Restarted

end Daemon

/-! ## The store's life under the daemon -/

/-- The operations of a recovery. -/
def Operation.Recovering (op : Operation C) : Prop := ∃ t id, op = .transact t ∧ t.Recovery id

namespace World

theorem steps_of_commitAll {ts : List (Transaction C)} {w : World C} {s : Store C}
    (hts : ∀ t ∈ ts, ∃ id, t.Recovery id) (hrun : w.store.commitAll ts = .ok s) :
    ReflTransGen (StepBy Operation.Recovering) w ⟨s, w.drawn⟩ := by
  induction ts generalizing w with
  | nil =>
    cases hrun
    exact .refl
  | cons t _ ih =>
    obtain ⟨⟨reply, s₁⟩, hcommit, hrest⟩ := bind_eq_ok.mp hrun
    obtain ⟨id, ht⟩ := hts t List.mem_cons_self
    have hstep : StepBy Operation.Recovering w ⟨s₁, w.drawn⟩ :=
      .of_run _ ⟨t, id, rfl, ht⟩ (map_eq_ok.mpr ⟨_, hcommit, rfl⟩) rfl
    exact .head hstep (ih (fun t ht => hts t (List.mem_cons_of_mem _ ht)) hrest)

theorem steps_of_recoverEach {todo : List (InvocationId × RecoveryAction)} {w : World C}
    {report : RecoveryReport} {x : RecoveryReport × Store C}
    (hrun : Store.recoverEach todo report w.store = .ok x) :
    ReflTransGen (StepBy Operation.Recovering) w ⟨x.2, w.drawn⟩ := by
  induction todo generalizing w report with
  | nil =>
    cases hrun
    exact .refl
  | cons y _ ih =>
    obtain ⟨s₁, hone, hrest⟩ := bind_eq_ok.mp hrun
    rw [Store.recoverOne_eq] at hone
    have hsteps := steps_of_commitAll (fun t ht => ⟨y.1, RecoveryAction.recovery_of_mem ht⟩) hone
    exact hsteps.trans (@ih ⟨s₁, w.drawn⟩ _ hrest)

theorem Interrupted.steps {w w' : World C} (h : w.Interrupted w') :
    ReflTransGen (StepBy Operation.Recovering) w w' := by
  obtain ⟨todo, k, s, nonce, clock, -, hcommits, rfl⟩ := h
  refine (steps_of_commitAll (fun t ht => ?_) hcommits).tail (.environment nonce clock)
  obtain ⟨x, -, hx⟩ := List.mem_flatMap.mp (List.mem_of_mem_take ht)
  exact ⟨x.1, RecoveryAction.recovery_of_mem hx⟩

end World

namespace Daemon

variable {d d' : Daemon C}

theorem Crashed.world (h : d.Crashed d') :
    ReflTransGen (World.StepBy Operation.Recovering) d.world d'.world := by
  obtain ⟨w, hrun, rfl⟩ := h
  induction hrun with
  | refl => exact .refl
  | tail _ hlast ih => exact ih.trans hlast.steps

theorem Restarted.world (h : d.Restarted d') :
    ReflTransGen (World.StepBy Operation.Recovering) d.world d'.world := by
  obtain ⟨report, s, hrun, rfl⟩ := h
  obtain ⟨todo, -, hrun⟩ := bind_eq_ok.mp hrun
  exact World.steps_of_recoverEach hrun

theorem Outside.world (h : d.Outside d') :
    World.StepBy Operation.Administrative d.world d'.world := by
  cases h with
  | operate op hop hrun hfresh => exact .operate op hop hrun hfresh
  | environment nonce clock => exact .environment nonce clock

/-- Every step of the daemon is part of the store's life. -/
theorem step_world {p p' : Pool (Act C) CallError Reply (Asked C) (Daemon C) (Event C)}
    (h : server.Step p p') : ReflTransGen World.Step p.state.world p'.state.world := by
  have hsteps {ok : Operation C → Prop} {w w' : World C}
      (hrun : ReflTransGen (World.StepBy ok) w w') : ReflTransGen World.Step w w' :=
    hrun.lift id fun _ _ h => h.step
  cases h with
  | start => exact .refl
  | act _ _ _ hanswer => exact hsteps (Act.Answered.world hanswer).to_reflTransGen
  | outside hout => exact .single (Outside.world hout).step
  | crash hcrash => exact hsteps (Crashed.world hcrash)
  | restart _ hrestart => exact hsteps (Restarted.world hrestart)

/-- A daemon that runs has a store that some run ends in. -/
theorem reachable_world {p : Pool (Act C) CallError Reply (Asked C) (Daemon C) (Event C)}
    (h : server.Reaches p) : p.state.world.Reachable := by
  refine @Reachable.invariant _ _ _ (fun p : Pool (Act C) CallError Reply (Asked C) (Daemon C)
    (Event C) => p.state.world.Reachable) _ h ?_ fun p p' _ ih hstep => ih.trans (step_world hstep)
  rintro p ⟨d, ⟨hnew, -⟩, rfl⟩
  exact ⟨d.world, hnew, .refl⟩

/-- Anything may happen to the store between two accesses of a handler. -/
def Meanwhile (d d' : Daemon C) : Prop := ReflTransGen World.Step d.world d'.world

theorem meanwhile_of_run (h : ReflTransGen Meanwhile d d') : d.Meanwhile d' := by
  induction h with
  | refl => exact .refl
  | tail _ hlast ih => exact ih.trans hlast

end Daemon

/-! ## Handlers that end -/

namespace Orchestrator

/-- The handler, run beside anything, ends with the result. -/
def Finishes {α : Type} (x : Orchestrator C α) (d : Daemon C) (r : Except CallError α)
    (d' : Daemon C) : Prop :=
  x.Ends Act.Answered Daemon.Meanwhile d r d'

namespace Finishes

variable {α β : Type} {x : Orchestrator C α} {f : α → Orchestrator C β} {r : Except CallError α}
  {a : α} {p : Act C (Except Error α)}

theorem bind_ok {b : β} (h : Finishes (x >>= f) d (.ok b) d') :
    ∃ a d₁, Finishes x d (.ok a) d₁ ∧ Finishes (f a) d₁ (.ok b) d' := Program.Ends.bind_ok h

/-- A bind ends as its second part does, or its first part fails. -/
theorem bind {r : Except CallError β} (h : Finishes (x >>= f) d r d') :
    (∃ a d₁, Finishes x d (.ok a) d₁ ∧ Finishes (f a) d₁ r d') ∨
      ∃ e, r = .error e ∧ Finishes x d (.error e) d' := Program.Ends.bind h

theorem pure_ok {b : α} (h : Finishes (pure a : Orchestrator C α) d (.ok b) d') :
    b = a ∧ d.Meanwhile d' := ⟨Except.ok.inj h.1, Daemon.meanwhile_of_run h.2⟩

theorem ofExcept_result {x : Except CallError α}
    (h : Finishes (Program.ofExcept x : Orchestrator C α) d r d') : r = x ∧ d.Meanwhile d' := by
  cases x with
  | error e | ok a => exact ⟨h.1, Daemon.meanwhile_of_run h.2⟩

theorem meanwhile (h : Finishes x d r d') : d.Meanwhile d' := by
  refine Daemon.meanwhile_of_run (h.steps (fun β p d₁ b d₂ hanswer => .single ?_)
    fun _ _ => .single)
  exact (Act.Answered.world hanswer).to_reflTransGen.lift id fun _ _ h => h.step

/-- A store access that ended well was answered at some moment. -/
theorem store_ok (h : Finishes (store p) d (.ok a) d') :
    ∃ d₁ d₂, d.Meanwhile d₁ ∧ p.Answered _ d₁ (.ok a) d₂ ∧ d₂.Meanwhile d' := by
  obtain ⟨d₁, answer, d₂, hbefore, hanswer, hafter⟩ := h
  cases answer with
  | error => cases hafter.1
  | ok =>
    cases hafter.1
    exact ⟨d₁, d₂, Daemon.meanwhile_of_run hbefore, hanswer, Daemon.meanwhile_of_run hafter.2⟩

/-- A reading access ends with the answer of the store of some moment. -/
theorem store_result {f : Store C → Except Error α} (h : Finishes (store p) d r d')
    (hp : p.reads = some f) :
    ∃ d₁, d.Meanwhile d₁ ∧ r = (f d₁.store).mapError .store ∧ d₁.Meanwhile d' := by
  obtain ⟨d₁, answer, d₂, hbefore, hanswer, hafter⟩ := h
  obtain ⟨rfl, rfl⟩ := hanswer.of_reads hp
  obtain ⟨hresult, hafter⟩ := ofExcept_result (d := d₂) hafter
  exact ⟨d₂, Daemon.meanwhile_of_run hbefore, hresult, hafter⟩

/-- A reading access that ended well was answered from the store of some moment. -/
theorem store_read {f : Store C → Except Error α} (h : Finishes (store p) d (.ok a) d')
    (hp : p.reads = some f) : ∃ d₁, d.Meanwhile d₁ ∧ f d₁.store = .ok a ∧ d₁.Meanwhile d' := by
  obtain ⟨d₁, hbefore, hanswer, hafter⟩ := h.store_result hp
  exact ⟨d₁, hbefore, mapError_eq_ok.mp hanswer.symm, hafter⟩

/-- The same of an access that cannot fail. -/
theorem perform_read {p : Act C α} {f : Store C → α}
    (h : Finishes (Program.perform p) d (.ok a) d') (hp : p.reads = some f) :
    ∃ d₁, d.Meanwhile d₁ ∧ f d₁.store = a ∧ d₁.Meanwhile d' := by
  obtain ⟨d₁, answer, d₂, hbefore, hanswer, heq, hafter⟩ := h
  cases heq
  obtain ⟨ha, rfl⟩ := hanswer.of_reads hp
  exact ⟨d₂, Daemon.meanwhile_of_run hbefore, ha.symm, Daemon.meanwhile_of_run hafter⟩

theorem authz_ok {x : Except AuthzError α} (h : Finishes (authz x) d (.ok a) d') :
    x = .ok a ∧ d.Meanwhile d' := by
  obtain ⟨hresult, hafter⟩ := ofExcept_result h
  exact ⟨mapError_eq_ok.mp hresult.symm, hafter⟩

/-- A decision is made on the store of some moment. -/
theorem decide_result {request : AuthzRequest} {r : Except CallError Plan}
    (h : Finishes (decide request) d r d') :
    ∃ d₁ now, d.Meanwhile d₁ ∧ d₁.Meanwhile d' ∧
      r = (planCall d₁.store.view request now).mapError fun e => .store (.authz e) := by
  obtain ⟨d₁, view, d₂, hbefore, hview, d₃, now, d₄, hbetween, hnow, h⟩ := h
  obtain ⟨rfl, rfl⟩ := hview.of_reads rfl
  have hlast : d₂.Meanwhile d₄ := (Daemon.meanwhile_of_run hbetween).trans
    ((Act.Answered.world hnow).to_reflTransGen.lift id fun _ _ h => h.step)
  obtain ⟨hresult, hafter⟩ := ofExcept_result (d := d₄) h
  exact ⟨d₂, now, Daemon.meanwhile_of_run hbefore, hlast.trans hafter, hresult⟩

theorem decide_ok {request : AuthzRequest} {plan : Plan}
    (h : Finishes (decide request) d (.ok plan) d') :
    ∃ d₁ now, d.Meanwhile d₁ ∧ planCall d₁.store.view request now = .ok plan ∧ d₁.Meanwhile d' := by
  obtain ⟨d₁, now, hbefore, hafter, hanswer⟩ := h.decide_result
  exact ⟨d₁, now, hbefore, mapError_eq_ok.mp hanswer.symm, hafter⟩

/-- A refused call is answered with its refusal. -/
theorem deny_ok {call : Call C} {capability : Capability} {session : Option SessionId}
    {failure : Failure} {reply : Reply}
    (h : Finishes (deny call capability session failure) d (.ok reply) d') :
    reply = .failed failure := by
  obtain ⟨invocation, d₁, -, h⟩ := h.bind_ok
  obtain ⟨seq, d₂, -, h⟩ := h.bind_ok
  exact h.pure_ok.1

/-! ### Handlers that are not disturbed -/

theorem andThen {d₁ : Daemon C} {r : Except CallError β} (hx : Finishes x d (.ok a) d₁)
    (hf : Finishes (f a) d₁ r d') :
    Finishes (x >>= f) d r d' := Program.Ends.andThen hx hf

theorem pure (a : α) (d : Daemon C) : Finishes (Pure.pure a : Orchestrator C α) d (.ok a) d :=
  ⟨rfl, .refl⟩

theorem perform {p : Act C α} (h : p.Answered α d a d') :
    Finishes (Program.perform p) d (.ok a) d' :=
  ⟨d, a, d', .refl, h, rfl, .refl⟩

theorem store (h : p.Answered _ d (.ok a) d') : Finishes (Orchestrator.store p) d (.ok a) d' :=
  ⟨d, .ok a, d', .refl, h, rfl, .refl⟩

/-- The decision over the store as it is. -/
theorem decide {request : AuthzRequest} {plan : Plan}
    (h : planCall d.store.view request d.store.now.1 = .ok plan) :
    Finishes (Orchestrator.decide request) d (.ok plan) (d.setStore d.store.now.2) := by
  refine andThen (perform .snapshot) (andThen (perform .now) ?_)
  rw [h]
  exact pure plan _

end Finishes
end Orchestrator
end Dioptron
