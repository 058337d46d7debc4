import Dioptron.Ideal
import Dioptron.Owners

/-! # Rehearsals

A handler can be run on the book alone, once it is settled what it draws at random, what
the producer answers and how long that takes.  The daemon can follow every such rehearsal,
so a run of it is built by evaluating the handlers on the book.
-/
namespace Dioptron

open Server

variable {C : Crypto}

/-- What a handler is answered that no store decides.  The caller neither cancels the request
nor is it late. -/
structure Script where
  fresh : InvocationId
  produced : Produced
  elapsed : UInt64

/-- What an access is answered over the book, as far as it is rehearsed. -/
def Act.rehearse (script : Script) (L : Custody C) : {β : Type} → Act C β → Option (β × Custody C)
  | _, .snapshot => some (L.toBook.view, L)
  | _, .now => some (L.clock 0, L.tick)
  | _, .freshInvocation => some (some script.fresh, L)
  | _, .transact t => (L.run t.program).toOption.map fun x => (.ok x.1, x.2)
  | _, .claim c =>
    if (L.profiles c.tenant).isSome ∧ L.idem (c.tenant, c.capability, c.key) = none then
      some (.ok (.fresh c.invocation),
        L.putSealed c.tenant (.idem c.capability c.key ⟨c.invocation, c.binding⟩))
    else none
  | _, .claimed c =>
    if (L.profiles c.tenant).isSome ∧ L.idem (c.tenant, c.capability, c.key) = none then
      some (.ok none, L)
    else none
  | _, .artifact id => (L.run (Tx.artifact id)).toOption.map fun x => (.ok x.1, L)
  | _, .isCancelled => some (false, L)
  | _, .pastDeadline => some (false, L)
  | _, .elapsedMs => some (script.elapsed, L)
  | _, .register _ _ => some ((), L)
  | _, .deregister _ => some ((), L)
  | _, .cancelRevoked _ => some ((), L)
  | _, .produce _ => some (script.produced, L)
  | _, _ => none

namespace Daemon

variable {d : Daemon C} {K : KeyState C} {L : Custody C}

/-- A claim of a free key on the store. -/
theorem claimed_of_free {s : Store C} {c : IdemClaim C} (h : Represents K L s)
    (hlive : (L.profiles c.tenant).isSome)
    (hfree : L.idem (c.tenant, c.capability, c.key) = none) : s.claimed c = .ok none := by
  simp only [Store.claimed, h.tenantKeys_of_live hlive, ok_bind, h.claimEntry_of_free hfree]
  rfl

/-- The daemon can answer as the book does. -/
theorem answered_of_rehearse {script : Script} {β : Type} {q : Act C β} {x : β × Custody C}
    (h : d.world.Holds K L) (hx : q.rehearse script L = some x) :
    ∃ d', q.Answered β d x.1 d' ∧ d'.world.Holds K x.2 := by
  cases q with
  | snapshot =>
    cases hx
    refine ⟨d, ?_, h⟩
    rw [← h.represents.view_eq]
    exact .snapshot
  | now =>
    cases hx
    refine ⟨d.setStore d.store.now.2, ?_, ?_⟩
    · have hclock : d.store.now.1 = L.clock 0 := congrFun h.represents.clock 0
      rw [← hclock]
      exact .now
    · exact ⟨h.represents.tick, h.reachable.next (.clock _), h.drawn⟩
  | transact t =>
    obtain ⟨y, hrun, rfl⟩ := exists_of_toOption_map hx
    obtain ⟨s, hs, hrep⟩ := h.represents.commit_of_run hrun
    exact ⟨d.setStore s, .transact hs, hrep, h.reachable.next (.transact t hrun), h.drawn⟩
  | claim c =>
    obtain ⟨⟨hlive, hfree⟩, heq⟩ := Option.ite_none_right_eq_some.mp hx
    cases heq
    obtain ⟨s, hs, hrep⟩ := h.represents.claim_free hlive hfree
    exact ⟨d.setStore s, .claim hs, hrep, h.reachable.next (.bind c hlive hfree), h.drawn⟩
  | claimed =>
    obtain ⟨⟨hlive, hfree⟩, heq⟩ := Option.ite_none_right_eq_some.mp hx
    cases heq
    refine ⟨d, ?_, h⟩
    rw [← claimed_of_free h.represents hlive hfree]
    exact .claimed
  | freshInvocation =>
    cases hx
    exact ⟨d, .freshInvocation _, h⟩
  | isCancelled =>
    cases hx
    exact ⟨d, .isCancelled _, h⟩
  | pastDeadline =>
    cases hx
    exact ⟨d, .pastDeadline _, h⟩
  | elapsedMs =>
    cases hx
    exact ⟨d, .elapsedMs _, h⟩
  | register id chain =>
    cases hx
    exact ⟨d.register id chain, .register, h⟩
  | deregister id =>
    cases hx
    exact ⟨d.deregister id, .deregister, h⟩
  | cancelRevoked grant =>
    cases hx
    exact ⟨d.cancelRevoked grant, .cancelRevoked, h⟩
  | produce =>
    cases hx
    exact ⟨d, .produce _, h⟩
  | artifact id =>
    obtain ⟨y, hrun, rfl⟩ := exists_of_toOption_map hx
    obtain ⟨s, hs, -⟩ := h.represents.commit_of_run hrun
    have hread : (d.store.commit (Tx.artifact id)).map Prod.fst = .ok y.1 :=
      map_eq_ok.mpr ⟨_, hs, rfl⟩
    refine ⟨d, ?_, h⟩
    rw [← hread]
    exact .artifact
  | invocation | readArtifact | sessionArtifacts | auditQuery => cases hx

end Daemon

/-! ## Handlers -/

/-- At most `n` accesses of a handler over the book, with its log. -/
def Orchestrator.rehearse (script : Script) :
    Nat → Orchestrator C Reply → List (Event C) → Custody C →
      Option (Orchestrator C Reply × List (Event C) × Custody C)
  | n + 1, .call q next, l, L =>
    (q.rehearse script L).bind fun x => rehearse script n (next x.1) (l ++ q.event _ x.1) x.2
  | _, x, l, L => some (x, l, L)

namespace Daemon

variable {p : Requests C} {K : KeyState C} {L L' : Custody C} {script : Script}

/-- **The daemon can follow a rehearsal.** -/
theorem follows {n i : Nat} {asked : Asked C} {x x' : Orchestrator C Reply} {l l' : List (Event C)}
    (hp : server.Reaches p) (hth : p.threads i = some ⟨asked, x, l, true⟩)
    (hL : p.state.world.Holds K L) (hrun : x.rehearse script n l L = some (x', l', L')) :
    ∃ p', server.Reaches p' ∧ p'.threads i = some ⟨asked, x', l', true⟩ ∧
      (∀ j, j ≠ i → p'.threads j = p.threads j) ∧ p'.serving = p.serving ∧
      p'.state.world.Holds K L' := by
  induction n generalizing p x l L with
  | zero =>
    cases hrun
    exact ⟨p, hp, hth, fun _ _ => rfl, rfl, hL⟩
  | succ n ih =>
    cases x with
    | done | fail =>
      cases hrun
      exact ⟨p, hp, hth, fun _ _ => rfl, rfl, hL⟩
    | call q next =>
      obtain ⟨y, hy, hrest⟩ := Option.bind_eq_some_iff.mp hrun
      obtain ⟨d, hanswer, hL'⟩ := answered_of_rehearse hL hy
      have hset : (p.set i ((⟨asked, .call q next, l, true⟩ : Thread ..).next (next y.1)
          (q.event _ y.1)) d).threads i = some ⟨asked, next y.1, l ++ q.event _ y.1, true⟩ :=
        Function.update_self _ _ _
      obtain ⟨p', hp', hth', hothers, hserving, hend⟩ :=
        ih (hp.next (.act hth rfl rfl hanswer)) hset hL' hrest
      refine ⟨p', hp', hth', fun j hj => ?_, hserving, hend⟩
      rw [hothers j hj]
      exact Function.update_of_ne hj _ _

/-- A handler that is rehearsed to its reply can end with it. -/
theorem finishes {n : Nat} {d : Daemon C} {x : Orchestrator C Reply} {reply : Reply}
    {l l' : List (Event C)} (hL : d.world.Holds K L)
    (hrun : x.rehearse script n l L = some (.done reply, l', L')) :
    ∃ d', x.Finishes d (.ok reply) d' ∧ d'.world.Holds K L' := by
  induction n generalizing d x l L with
  | zero =>
    cases hrun
    exact ⟨d, ⟨rfl, .refl⟩, hL⟩
  | succ n ih =>
    cases x with
    | done =>
      cases hrun
      exact ⟨d, ⟨rfl, .refl⟩, hL⟩
    | fail => cases hrun
    | call =>
      obtain ⟨y, hy, hrest⟩ := Option.bind_eq_some_iff.mp hrun
      obtain ⟨d₁, hanswer, hL₁⟩ := answered_of_rehearse hL hy
      obtain ⟨d', hends, hL'⟩ := ih hL₁ hrest
      exact ⟨d', ⟨d, y.1, d₁, .refl, hanswer, hends⟩, hL'⟩

/-- A new request. -/
theorem starts (hp : server.Reaches p) (hserving : p.serving = true) {i : Nat}
    (hfree : p.threads i = none) (asked : Asked C) :
    server.Reaches (p.set i ⟨asked, server.start asked, [], true⟩ p.state) :=
  hp.next (.start i asked hfree hserving)

/-- The operator installs a root grant. -/
theorem outside_installRootGrant {d : Daemon C} (h : d.world.Holds K L) (grant : RootGrant)
    {r : (Transaction.installRootGrant (C := C) grant).Reply × Custody C}
    (hr : L.run (Transaction.installRootGrant (C := C) grant).program = .ok r) :
    ∃ d', d.Outside d' ∧ d'.world.Holds K r.2 := by
  obtain ⟨s, hs, hrep⟩ := h.represents.commit_of_run hr
  have hrun : (Operation.transact (.installRootGrant grant)).run d.store = .ok s :=
    map_eq_ok.mpr ⟨_, hs, rfl⟩
  exact ⟨_, .operate (.transact (.installRootGrant grant)) trivial hrun fun _ hx => (by cases hx),
    hrep, h.reachable.next (.transact _ hr), fun x hx => .inl (h.drawn x hx)⟩

end Daemon

/-! ## Evaluating logs -/

/-- The invocation an entry persisted. -/
def Event.began : Event C → Option InvocationId
  | .transacted (.begin _) (.ok (.persisted status)) => some status.id
  | _ => none

theorem Event.began_eq_some {e : Event C} {id : InvocationId} :
    e.began = some id ↔ ∃ intent status, e = .persisted intent status ∧ status.id = id := by
  constructor
  · intro h
    unfold began at h
    split at h
    · rename_i intent status
      exact ⟨intent, status, rfl, Option.some.inj h⟩
    · cases h
  · rintro ⟨intent, status, rfl, rfl⟩
    rfl

instance (id : InvocationId) (l : List (Event C)) : Decidable (id ∈ begun l) :=
  decidable_of_iff (∃ e ∈ l, e.began = some id) <| by
    simp only [Event.began_eq_some]
    constructor
    · rintro ⟨e, he, intent, status, rfl, hid⟩
      exact ⟨intent, status, he, hid⟩
    · rintro ⟨intent, status, he, hid⟩
      exact ⟨_, he, intent, status, rfl, hid⟩

/-- The reply a handler has come to. -/
def Orchestrator.reply : Orchestrator C Reply → Option Reply
  | .done reply => some reply
  | _ => none

theorem Orchestrator.eq_done {x : Orchestrator C Reply} {reply : Reply} (h : x.reply = some reply) :
    x = .done reply := by
  cases x with
  | done =>
    cases h
    rfl
  | fail | call => cases h

/-- What a handler is about to ask its producer for. -/
def Orchestrator.acquires : Orchestrator C Reply → Option AcquireRequest
  | .call q _ => q.request
  | _ => none

theorem Orchestrator.eq_produce {x : Orchestrator C Reply} {request : AcquireRequest}
    (h : x.acquires = some request) : ∃ next, x = .call (.produce request) next := by
  cases x with
  | done | fail => cases h
  | call q next =>
    cases q with
    | produce =>
      cases h
      exact ⟨next, rfl⟩
    | _ => cases h

/-! ## A day of the daemon

The operator of the small deployment opens a session and captures a page in it. -/

namespace Sample

def asks (key : UInt8) (body : RequestBody) : Asked Crypto.ideal where
  call :=
    { tenant := operator
      grant := ⟨1⟩
      key := IdempotencyKey.ofBytes (List.replicate 16 key)
      digest := ([0] : List ℕ)
      deadlineMs := 1000
      maxFrame := 65536 }
  mode := .execute
  body := body

def page : ProducerOutput where
  envelope := [1, 2, 3]
  schemaId := []
  producerRevision := []
  fingerprint := []
  textView := some ['a', 'b']

def openingScript : Script := ⟨⟨40⟩, .abandoned, 0⟩

def captureScript : Script := ⟨⟨41⟩, .output page, 7⟩

/-- A book with the operator alone. -/
def enrolled : Custody Crypto.ideal :=
  (Custody.empty operatorKey.address fun _ => 0).register
    ((registration operator none).profile 0) operatorKey.address

/-- The book the operator's requests find. -/
def morning : Option (Custody Crypto.ideal) :=
  (enrolled.run (Transaction.installRootGrant (C := Crypto.ideal) rootGrant).program).toOption.map
    Prod.snd

def opens : Option (Orchestrator Crypto.ideal Reply × List (Event Crypto.ideal) ×
    Custody Crypto.ideal) :=
  morning.bind
    (Orchestrator.rehearse openingScript 20 (Daemon.server.start (asks 1 .sessionCreate)) [])

def captures : Asked Crypto.ideal :=
  asks 2 (.capture ⟨⟨40⟩, ascii "https://example.org/a", ⟨none, none⟩, none⟩)

/-- Another page, under the same key. -/
def recaptures : Asked Crypto.ideal :=
  asks 2 (.capture ⟨⟨40⟩, ascii "https://example.org/b", ⟨none, none⟩, none⟩)

/-- The capture, after at most `n` of its accesses. -/
def rehearsal (n : Nat) : Option (Orchestrator Crypto.ideal Reply × List (Event Crypto.ideal) ×
    Custody Crypto.ideal) :=
  opens.bind fun x =>
    Orchestrator.rehearse captureScript n (Daemon.server.start captures) [] x.2.2

/-- The daemon can start the day. -/
theorem exists_morning {L : Custody Crypto.ideal} (h : morning = some L) :
    ∃ (d : Daemon Crypto.ideal) (K : KeyState Crypto.ideal),
      Daemon.server.Reaches (⟨fun _ => none, d, true⟩ : Requests Crypto.ideal) ∧
      d.world.Holds K L := by
  let d : Daemon Crypto.ideal :=
    ⟨⟨Store.create ([0] : List ℕ) ([9] : List ℕ) (fun _ _ => ()) (fun _ => 0), ∅⟩,
      fun _ => none, ∅⟩
  have hinitial : d.world.Holds (KeyState.initial ([0] : List ℕ) ([9] : List ℕ))
      (Custody.empty operatorKey.address fun _ => 0) :=
    ⟨.create _ _ _ _ _, ⟨_, ⟨_, _, rfl⟩, .refl⟩, fun x hx => hx.elim⟩
  have hnew : Daemon.server.Reaches (⟨fun _ => none, d, true⟩ : Requests Crypto.ideal) :=
    ⟨_, ⟨d, ⟨⟨_, _, _, _, rfl⟩, rfl, rfl⟩, rfl⟩, .refl⟩
  obtain ⟨s, hs, hfresh, h₁⟩ := hinitial.register (registration operator none)
    ([1] : List ℕ) rfl rfl (fun _ hq => by cases hq) (Set.notMem_empty _) (Nat.zero_le _)
  obtain ⟨r, hr, rfl⟩ := exists_of_toOption_map h
  obtain ⟨d₁, hout₁, hd₁⟩ : ∃ d₁, d.Outside d₁ ∧ d₁.world.Holds _ enrolled :=
    ⟨_, .operate _ (by trivial) hs hfresh, h₁⟩
  obtain ⟨d₂, hout₂, h₂⟩ := Daemon.outside_installRootGrant hd₁ rootGrant hr
  exact ⟨d₂, _, (hnew.next (.outside hout₁)).next (.outside hout₂), h₂⟩

/-- The daemon can follow the capture. -/
theorem exists_capture {n : Nat} {x : Orchestrator Crypto.ideal Reply}
    {l : List (Event Crypto.ideal)} {L : Custody Crypto.ideal} (h : rehearsal n = some (x, l, L)) :
    ∃ (p : Requests Crypto.ideal) (K : KeyState Crypto.ideal), Daemon.server.Reaches p ∧
      p.threads 1 = some ⟨captures, x, l, true⟩ ∧ p.state.world.Holds K L ∧
      p.threads 2 = none ∧ p.serving = true := by
  obtain ⟨⟨y, m, L₁⟩, hopens, hcapture⟩ := Option.bind_eq_some_iff.mp h
  obtain ⟨L₀, hmorning, hopens⟩ := Option.bind_eq_some_iff.mp hopens
  obtain ⟨d₀, K, hp₀, hL₀⟩ := exists_morning hmorning
  have hopening := Daemon.starts hp₀ rfl (i := 0) rfl (asks 1 .sessionCreate)
  obtain ⟨p₁, hp₁, -, hothers, hserving₁, hL₁⟩ :=
    Daemon.follows hopening (Function.update_self _ _ _) hL₀ hopens
  have hfree : p₁.threads 1 = none := (hothers 1 one_ne_zero).trans rfl
  have hcapturing := Daemon.starts hp₁ hserving₁ hfree captures
  obtain ⟨p, hp, hth, hothers', hserving, hL⟩ :=
    Daemon.follows hcapturing (Function.update_self _ _ _) hL₁ hcapture
  refine ⟨p, K, hp, hth, hL, ?_, hserving.trans hserving₁⟩
  exact (hothers' 2 (by decide)).trans (hothers 2 two_ne_zero)

end Sample
end Dioptron
