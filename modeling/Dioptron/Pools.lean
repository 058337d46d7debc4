import Dioptron.Threads
import Mathlib.Logic.Function.Basic

/-! # Pools of programs

A server runs programs beside each other on one shared state.  Every program has a log of
what it was answered.  The state may also be changed from outside, and a crash stops every
program; the server then starts again and serves new ones.

`Respects E` says that whatever happens beside a thread is a step of `E`, and `Respects.keeps`
that a guarantee given beside steps of `E` then holds of every thread of every run.
-/
namespace Dioptron

open Relation (ReflTransGen)

/-- What is served, and how the shared state moves. -/
structure Server (P : Type → Type) (ε α κ σ Ev : Type) where
  start : κ → Program P ε α
  answers : Answers P σ
  /-- What an answered primitive leaves in the log of its program. -/
  event : (β : Type) → P β → β → List Ev
  initial : σ → Prop
  outside : σ → σ → Prop
  /-- What a crash leaves, after any part of a restart that did not come to its end. -/
  crash : σ → σ → Prop
  restart : σ → σ → Prop

/-- A request that was asked, what is left to do for it and what was done. -/
structure Thread (P : Type → Type) (ε α κ Ev : Type) where
  asked : κ
  rest : Program P ε α
  log : List Ev
  live : Bool

/-- All requests that were ever asked, over the shared state. -/
structure Pool (P : Type → Type) (ε α κ σ Ev : Type) where
  threads : Nat → Option (Thread P ε α κ Ev)
  state : σ
  serving : Bool

variable {P : Type → Type} {ε α κ σ Ev : Type}

/-- A thread after a crash. -/
def Thread.stop (th : Thread P ε α κ Ev) : Thread P ε α κ Ev := { th with live := false }

/-- A thread after an answer. -/
def Thread.next (th : Thread P ε α κ Ev) (rest : Program P ε α) (events : List Ev) :
    Thread P ε α κ Ev :=
  { th with rest := rest, log := th.log ++ events }

def Pool.set (p : Pool P ε α κ σ Ev) (i : Nat) (th : Thread P ε α κ Ev) (s : σ) :
    Pool P ε α κ σ Ev :=
  { p with threads := Function.update p.threads i (some th), state := s }

/-- A thread after one was set: that one, or an old one. -/
theorem Pool.set_cases {p : Pool P ε α κ σ Ev} {i j : Nat} {th th' : Thread P ε α κ Ev} {s : σ}
    (h : (p.set i th s).threads j = some th') :
    j = i ∧ th' = th ∨ j ≠ i ∧ p.threads j = some th' := by
  replace h : Function.update p.threads i (some th) j = some th' := h
  rw [Function.update_apply] at h
  split_ifs at h with hij
  · exact .inl ⟨hij, (Option.some.inj h).symm⟩
  · exact .inr ⟨hij, h⟩

namespace Server

variable (S : Server P ε α κ σ Ev)

/-- One step of the server. -/
inductive Step : Pool P ε α κ σ Ev → Pool P ε α κ σ Ev → Prop
  | start {p : Pool P ε α κ σ Ev} (i : Nat) (k : κ) (hfree : p.threads i = none)
      (hserving : p.serving = true) : Step p (p.set i ⟨k, S.start k, [], true⟩ p.state)
  | act {p : Pool P ε α κ σ Ev} {i : Nat} {th : Thread P ε α κ Ev} {β : Type} {q : P β}
      {next : β → Program P ε α} {b : β} {s : σ} (hth : p.threads i = some th)
      (hlive : th.live = true) (hrest : th.rest = .call q next)
      (hanswer : S.answers β q p.state b s) :
      Step p (p.set i (th.next (next b) (S.event β q b)) s)
  | outside {p : Pool P ε α κ σ Ev} {s : σ} (h : S.outside p.state s) :
      Step p { p with state := s }
  | crash {p : Pool P ε α κ σ Ev} {s : σ} (h : S.crash p.state s) :
      Step p ⟨fun i => (p.threads i).map Thread.stop, s, false⟩
  | restart {p : Pool P ε α κ σ Ev} {s : σ} (hdown : p.serving = false)
      (h : S.restart p.state s) : Step p { p with state := s, serving := true }

def Initial (p : Pool P ε α κ σ Ev) : Prop := ∃ s, S.initial s ∧ p = ⟨fun _ => none, s, true⟩

/-- A pool that some run of the server ends in. -/
def Reaches (p : Pool P ε α κ σ Ev) : Prop := Reachable S.Initial S.Step p

/-- The answers a program gets, with its log beside the state. -/
def logged : Answers P (σ × List Ev) := fun β q x b y =>
  S.answers β q x.1 b y.1 ∧ y.2 = x.2 ++ S.event β q b

/-- No step of others touches a thread's log. -/
def beside (E : σ → List Ev → σ → Prop) (x y : σ × List Ev) : Prop := E x.1 x.2 y.1 ∧ y.2 = x.2

/-- Whatever happens beside a thread is a step of `E`. -/
structure Respects (E : σ → List Ev → σ → Prop) : Prop where
  act : ∀ {p : Pool P ε α κ σ Ev} {i j : Nat} {th th' : Thread P ε α κ Ev} {β : Type} {q : P β}
    {next : β → Program P ε α} {b : β} {s : σ}, S.Reaches p → p.threads i = some th →
    th.live = true → th.rest = .call q next → S.answers β q p.state b s → i ≠ j →
    p.threads j = some th' → E p.state th'.log s
  outside : ∀ {p : Pool P ε α κ σ Ev} {s : σ} (l : List Ev), S.Reaches p →
    S.outside p.state s → E p.state l s

variable {S} {E : σ → List Ev → σ → Prop} {p : Pool P ε α κ σ Ev} {th : Thread P ε α κ Ev}

/-- What is not served is not alive. -/
theorem Reaches.stopped (h : S.Reaches p) (hdown : p.serving = false) {i : Nat}
    (hth : p.threads i = some th) : th.live = false := by
  refine @Reachable.invariant _ _ _ (fun p : Pool P ε α κ σ Ev => p.serving = false →
    ∀ i th, p.threads i = some th → th.live = false) _ h ?_ ?_ hdown i th hth
  · rintro p ⟨s, -, rfl⟩ hdown
    cases hdown
  · intro p p' _ ih hstep
    cases hstep with
    | start _ _ _ hserving => exact fun hdown => by cases hserving.symm.trans hdown
    | act hth hlive => exact fun hdown => by cases hlive.symm.trans (ih hdown _ _ hth)
    | outside => exact ih
    | crash =>
      intro _ i th hth
      obtain ⟨th, -, rfl⟩ := Option.map_eq_some_iff.mp hth
      rfl
    | restart => exact nofun

/-- A thread has given a guarantee: beside steps of `E` it keeps `I` and ends in `Q` while it
is alive, and it leaves `D` behind. -/
structure Guarded (S : Server P ε α κ σ Ev) (E : σ → List Ev → σ → Prop)
    (I : κ → σ × List Ev → Prop) (Q : κ → Except ε α → σ × List Ev → Prop)
    (D : κ → σ × List Ev → Prop) (s : σ) (th : Thread P ε α κ Ev) : Prop where
  alive : th.live = true → th.rest.Keeps S.logged (beside E) (I th.asked) (Q th.asked) (s, th.log)
  dead : th.live = false → D th.asked (s, th.log)

/-- **A guarantee given beside steps of `E` holds of every thread of every run**, if it is
given when a thread starts and what is left of it stands a crash. -/
theorem Respects.guarded (h : S.Respects E) {I : κ → σ × List Ev → Prop}
    {Q : κ → Except ε α → σ × List Ev → Prop} {D : κ → σ × List Ev → Prop}
    (hstart : ∀ k p, S.Reaches p →
      (S.start k).Keeps S.logged (beside E) (I k) (Q k) (p.state, []))
    (hleave : ∀ k x, I k x → D k x) (hstable : ∀ k, Stable (beside E) (D k))
    (hcrash : ∀ k p s l, S.Reaches p → S.crash p.state s → D k (p.state, l) → D k (s, l))
    (hrestart : ∀ k p s l, S.Reaches p → S.restart p.state s → D k (p.state, l) → D k (s, l))
    (hp : S.Reaches p) {i : Nat} (hth : p.threads i = some th) : Guarded S E I Q D p.state th := by
  refine @Reachable.invariant _ _ _ (fun p : Pool P ε α κ σ Ev => ∀ i th,
    p.threads i = some th → Guarded S E I Q D p.state th) _ hp ?_ ?_ i th hth
  · rintro p ⟨s, -, rfl⟩ i th hth
    cases hth
  · intro p p' hp ih hstep
    -- A step of `E` beside a thread keeps what it guarantees.
    have hother {s : σ} {th : Thread P ε α κ Ev} (hth : Guarded S E I Q D p.state th)
        (hE : E p.state th.log s) : Guarded S E I Q D s th :=
      ⟨fun hlive => (hth.alive hlive).other (.single ⟨hE, rfl⟩),
        fun hdead => hstable th.asked _ _ (hth.dead hdead) ⟨hE, rfl⟩⟩
    cases hstep with
    | start _ k =>
      intro j th hj
      obtain ⟨-, rfl⟩ | ⟨-, hj⟩ := Pool.set_cases hj
      · exact ⟨fun _ => hstart k p hp, nofun⟩
      · exact ih j th hj
    | @act i₀ th₀ _ _ _ b s hth₀ hlive hrest hanswer =>
      intro j th hj
      obtain ⟨-, rfl⟩ | ⟨hne, hj⟩ := Pool.set_cases hj
      · have hkeeps := (ih i₀ th₀ hth₀).alive hlive
        rw [hrest] at hkeeps
        refine ⟨fun _ => (hkeeps _ .refl).2 b (s, _) ⟨hanswer, rfl⟩, fun hdead => ?_⟩
        cases hlive.symm.trans hdead
      · exact hother (ih j th hj) (h.act hp hth₀ hlive hrest hanswer (Ne.symm hne) hj)
    | outside hout => exact fun j th hj => hother (ih j th hj) (h.outside th.log hp hout)
    | crash hc =>
      intro j th hj
      obtain ⟨th, hold, rfl⟩ := Option.map_eq_some_iff.mp hj
      refine ⟨nofun, fun _ => hcrash _ p _ _ hp hc ?_⟩
      cases hlive : th.live with
      | true => exact hleave _ _ ((ih j th hold).alive hlive).inv
      | false => exact (ih j th hold).dead hlive
    | restart hdown hr =>
      intro j th hj
      have hdead := Reaches.stopped hp hdown hj
      refine ⟨fun hlive => ?_, fun _ => hrestart _ p _ _ hp hr ((ih j th hj).dead hdead)⟩
      cases hlive.symm.trans hdead

/-! ## Logs -/

/-- What speaks of the log alone is not undone by others. -/
theorem stable_log (J : List Ev → Prop) : Stable (beside E) fun y : σ × List Ev => J y.2 := by
  rintro x y hx ⟨-, hlog⟩
  rw [hlog]
  exact hx

/-- Beside steps of `E` a program keeps `I`, and ends with `Q` of its log. -/
def KeepsLog (S : Server P ε α κ σ Ev) (E : σ → List Ev → σ → Prop) (I : σ × List Ev → Prop)
    {γ : Type} (Q : Except ε γ → List Ev → Prop) (x : Program P ε γ) (y : σ × List Ev) : Prop :=
  x.Keeps S.logged (beside E) I (fun r y => Q r y.2) y

namespace KeepsLog

variable {I : σ × List Ev → Prop} {γ δ : Type} {Q : Except ε γ → List Ev → Prop}
  {x : Program P ε γ} {y : σ × List Ev}

theorem mono {R : Except ε γ → List Ev → Prop} (h : S.KeepsLog E I Q x y)
    (hQ : ∀ r l, Q r l → R r l) : S.KeepsLog E I R x y :=
  Program.Keeps.mono h (fun _ h => h) fun r y => hQ r y.2

theorem bind {f : γ → Program P ε δ} {R : Except ε δ → List Ev → Prop} (hx : S.KeepsLog E I Q x y)
    (hok : ∀ a y, Q (.ok a) y.2 → I y → S.KeepsLog E I R (f a) y)
    (herror : ∀ e l, Q (.error e) l → R (.error e) l) : S.KeepsLog E I R (x >>= f) y :=
  Program.Keeps.bind hx hok fun e y => herror e y.2

theorem attempt {R : Except ε (Except ε γ) → List Ev → Prop} (hx : S.KeepsLog E I Q x y)
    (hR : ∀ r l, Q r l → R (.ok r) l) : S.KeepsLog E I R x.attempt y :=
  Program.Keeps.attempt hx fun r y => hR r y.2

variable (hI : Stable (beside E) I)
include hI

/-- What speaks of the log is not undone either. -/
theorem stable (J : List Ev → Prop) : Stable (beside E) fun y : σ × List Ev => I y ∧ J y.2 :=
  fun _ _ hx hstep => ⟨hI _ _ hx.1 hstep, stable_log J _ _ hx.2 hstep⟩

theorem pure {a : γ} (hy : I y) (hQ : Q (.ok a) y.2) :
    S.KeepsLog E I Q (Pure.pure a : Program P ε γ) y :=
  Program.Keeps.pure (stable hI (Q (.ok a))) ⟨hy, hQ⟩

theorem fail {e : ε} (hy : I y) (hQ : Q (.error e) y.2) :
    S.KeepsLog E I Q (Program.fail e : Program P ε γ) y :=
  Program.Keeps.fail (stable hI (Q (.error e))) ⟨hy, hQ⟩

theorem ofExcept {r : Except ε γ} (hy : I y) (hQ : Q r y.2) :
    S.KeepsLog E I Q (Program.ofExcept r : Program P ε γ) y := by
  cases r with
  | ok => exact pure hI hy hQ
  | error => exact fail hI hy hQ

/-- One primitive, from a log with `J`. -/
theorem perform {p : P γ} {J : List Ev → Prop}
    (hact : ∀ s l b s', I (s, l) → J l → S.answers γ p s b s' →
      I (s', l ++ S.event γ p b) ∧ Q (.ok b) (l ++ S.event γ p b))
    (hy : I y) (hJ : J y.2) : S.KeepsLog E I Q (Program.perform p : Program P ε γ) y := by
  refine Program.Keeps.perform (stable hI J) (fun _ h => h.1) ?_ ⟨hy, hJ⟩
  rintro ⟨s, l⟩ b ⟨s', l'⟩ ⟨ht, hl⟩ ⟨hanswer, hlog⟩
  cases hlog
  have hdone := hact s l b s' ht hl hanswer
  exact pure hI hdone.1 hdone.2

/-- A program that performs only what keeps `I` and `J`. -/
theorem of_performs {ok : (β : Type) → P β → Prop} {J : List Ev → Prop} (hx : x.Performs ok)
    (hact : ∀ β q s l (b : β) s', ok β q → I (s, l) → J l → S.answers β q s b s' →
      I (s', l ++ S.event β q b) ∧ J (l ++ S.event β q b))
    (hy : I y) (hJ : J y.2) : S.KeepsLog E I (fun _ => J) x y := by
  have hkeeps : x.Keeps S.logged (beside E) (fun y => I y ∧ J y.2) (fun _ y => I y ∧ J y.2) y := by
    refine Program.Keeps.of_performs hx (stable hI J) ?_ ⟨hy, hJ⟩
    rintro β q ⟨s, l⟩ b ⟨s', l'⟩ hok ⟨ht, hl⟩ ⟨hanswer, hlog⟩
    cases hlog
    exact hact β q s l b s' hok ht hl hanswer
  exact hkeeps.mono (fun _ h => h.1) fun _ _ h => h.2

end KeepsLog

/-- What every program keeps of its log whatever happens beside it holds of every thread, and
of a thread that is alive also after its next answer. -/
theorem Reaches.log {J : κ → List Ev → Prop}
    (hstart : ∀ k s, S.KeepsLog (fun _ _ _ => True) (fun y => J k y.2) (fun _ _ => True) (S.start k)
      (s, [])) (hp : S.Reaches p) {i : Nat} (hth : p.threads i = some th) :
    J th.asked th.log ∧ ∀ {β : Type} {q : P β} {next : β → Program P ε α} {b : β} {s : σ},
      th.live = true → th.rest = .call q next → S.answers β q p.state b s →
        J th.asked (th.log ++ S.event β q b) := by
  have hany : S.Respects fun _ _ _ => True :=
    ⟨fun _ _ _ _ _ _ _ => trivial, fun _ _ _ => trivial⟩
  have hguarded : Guarded S (fun _ _ _ => True) (fun k y => J k y.2) (fun _ _ _ => True)
      (fun k y => J k y.2) p.state th :=
    hany.guarded (fun k p _ => hstart k p.state) (fun _ _ h => h) (fun k => stable_log (J k))
      (fun _ _ _ _ _ _ h => h) (fun _ _ _ _ _ _ h => h) hp hth
  constructor
  · cases hlive : th.live with
    | true => exact (hguarded.alive hlive).inv
    | false => exact hguarded.dead hlive
  · intro β q next b s hlive hrest hanswer
    have hkeeps := hguarded.alive hlive
    rw [hrest] at hkeeps
    exact ((hkeeps _ .refl).2 b (s, th.log ++ S.event β q b) ⟨hanswer, rfl⟩).inv

/-- A program that has come to its end, of a thread that is alive or not, ends with `Q` of its
log. -/
theorem Respects.finished (h : S.Respects E) {I : κ → σ × List Ev → Prop}
    {Q : κ → Except ε α → List Ev → Prop}
    (hstart : ∀ k p, S.Reaches p → S.KeepsLog E (I k) (Q k) (S.start k) (p.state, []))
    (hp : S.Reaches p) {i : Nat} (hth : p.threads i = some th) {a : α} (hrest : th.rest = .done a) :
    Q th.asked (.ok a) th.log := by
  -- A program that is done has kept its word at the moment it was done.
  have hdone {k : κ} {x : Program P ε α} {s : σ} {l : List Ev} {a : α}
      (hkeeps : S.KeepsLog E (I k) (Q k) x (s, l)) (hx : x = .done a) : Q k (.ok a) l := by
    subst hx
    exact (hkeeps _ .refl).2
  refine @Reachable.invariant _ _ _ (fun p : Pool P ε α κ σ Ev => ∀ i th a,
    p.threads i = some th → th.rest = .done a → Q th.asked (.ok a) th.log) _ hp ?_ ?_
      i th a hth hrest
  · rintro p ⟨s, -, rfl⟩ i th a hth
    cases hth
  · intro p p' hp ih hstep
    cases hstep with
    | start _ k =>
      intro j th a hj hrest
      obtain ⟨-, rfl⟩ | ⟨-, hj⟩ := Pool.set_cases hj
      · exact hdone (hstart k p hp) hrest
      · exact ih j th a hj hrest
    | @act _ th₀ _ _ _ b s hth₀ hlive hcall hanswer =>
      intro j th a hj hrest
      obtain ⟨-, rfl⟩ | ⟨-, hj⟩ := Pool.set_cases hj
      · have hguarded : Guarded S E I (fun k r y => Q k r y.2) (fun _ _ => True) p.state th₀ :=
          h.guarded hstart (fun _ _ _ => trivial) (fun _ _ _ _ _ => trivial)
            (fun _ _ _ _ _ _ _ => trivial) (fun _ _ _ _ _ _ _ => trivial) hp hth₀
        have hkeeps := hguarded.alive hlive
        rw [hcall] at hkeeps
        exact hdone ((hkeeps _ .refl).2 b (s, _) ⟨hanswer, rfl⟩) hrest
      · exact ih j th a hj hrest
    | outside => exact ih
    | crash =>
      intro j th a hj hrest
      obtain ⟨th, hold, rfl⟩ := Option.map_eq_some_iff.mp hj
      exact ih j th a hold hrest
    | restart => exact ih

end Server
end Dioptron
