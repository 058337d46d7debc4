import Dioptron.Programs

/-! # Programs run beside others

A program may be run beside others that change the state between its primitives.  `Keeps`
is what a program guarantees in every such run: an invariant at every moment, and a
postcondition at its end that the others cannot undo.  The rules follow the way programs
are composed.
-/
namespace Dioptron

open Relation (ReflTransGen)

/-- What the primitives may answer in a state, and the state they leave. -/
abbrev Answers (P : Type → Type) (σ : Type) := (β : Type) → P β → σ → β → σ → Prop

/-- No step of the others undoes `J`. -/
def Stable {σ : Type} (E : σ → σ → Prop) (J : σ → Prop) : Prop := ∀ s s', J s → E s s' → J s'

theorem Stable.run {σ : Type} {E : σ → σ → Prop} {J : σ → Prop} (h : Stable E J) {s s' : σ}
    (hs : J s) (hrun : ReflTransGen E s s') : J s' := by
  induction hrun with
  | refl => exact hs
  | tail _ hlast ih => exact h _ _ ih hlast

namespace Program

variable {P : Type → Type} {ε α β σ : Type}

/-- The outcome of a program as a value: a failure no longer stops. -/
def attempt : Program P ε α → Program P ε (Except ε α)
  | done a => done (.ok a)
  | fail e => done (.error e)
  | call p next => call p fun b => (next b).attempt

/-- Every primitive the program may perform meets `ok`. -/
def Performs (ok : (β : Type) → P β → Prop) : Program P ε α → Prop
  | done _ | fail _ => True
  | call p next => ok _ p ∧ ∀ b, (next b).Performs ok

namespace Performs

variable {ok : (β : Type) → P β → Prop} {x : Program P ε α}

theorem bind {f : α → Program P ε β} (hx : x.Performs ok) (hf : ∀ a, (f a).Performs ok) :
    (x >>= f).Performs ok := by
  induction x with
  | done a => exact hf a
  | fail => trivial
  | call _ _ ih => exact ⟨hx.1, fun b => ih b (hx.2 b)⟩

theorem perform {p : P α} (h : ok α p) : (Program.perform p : Program P ε α).Performs ok :=
  ⟨h, fun _ => trivial⟩

theorem ofExcept (x : Except ε α) : (Program.ofExcept x : Program P ε α).Performs ok := by
  cases x with
  | error => trivial
  | ok => trivial

theorem expect (x : Option α) (e : ε) : (Program.expect x e : Program P ε α).Performs ok := by
  cases x with
  | none => trivial
  | some => trivial

theorem attempt (hx : x.Performs ok) : x.attempt.Performs ok := by
  induction x with
  | done a | fail e => trivial
  | call _ _ ih => exact ⟨hx.1, fun b => ih b (hx.2 b)⟩

theorem mono {ok' : (β : Type) → P β → Prop} (hx : x.Performs ok)
    (h : ∀ β (p : P β), ok β p → ok' β p) : x.Performs ok' := by
  induction x with
  | done a | fail e => trivial
  | call p _ ih => exact ⟨h _ p hx.1, fun b => ih b (hx.2 b)⟩

end Performs

section Keeps

variable (A : Answers P σ) (E : σ → σ → Prop) (I : σ → Prop)

/-- Beside steps of `E`, the program keeps `I` at every moment and ends in `Q`. -/
def Keeps (Q : Except ε α → σ → Prop) : Program P ε α → σ → Prop
  | done a, s => ∀ s', ReflTransGen E s s' → I s' ∧ Q (.ok a) s'
  | fail e, s => ∀ s', ReflTransGen E s s' → I s' ∧ Q (.error e) s'
  | call p next, s => ∀ s', ReflTransGen E s s' → I s' ∧
      ∀ b s'', A _ p s' b s'' → Keeps Q (next b) s''

variable {A E I} {Q : Except ε α → σ → Prop} {x : Program P ε α} {s s' : σ}

theorem Keeps.other (h : Keeps A E I Q x s) (hrun : ReflTransGen E s s') : Keeps A E I Q x s' := by
  cases x with
  | done a | fail e | call p next => exact fun t ht => h t (hrun.trans ht)

theorem Keeps.inv (h : Keeps A E I Q x s) : I s := by
  cases x with
  | done a | fail e | call p next => exact (h s .refl).1

/-! ### Rules -/

theorem Keeps.mono {J : σ → Prop} {R : Except ε α → σ → Prop} (h : Keeps A E I Q x s)
    (hI : ∀ t, I t → J t) (hQ : ∀ r t, Q r t → R r t) : Keeps A E J R x s := by
  induction x generalizing s with
  | done a | fail e => exact fun t ht => ⟨hI t (h t ht).1, hQ _ t (h t ht).2⟩
  | call _ _ ih => exact fun t ht => ⟨hI t (h t ht).1, fun b u hb => ih b ((h t ht).2 b u hb)⟩

theorem Keeps.pure {a : α} (hstable : Stable E fun t => I t ∧ Q (.ok a) t)
    (hs : I s ∧ Q (.ok a) s) : Keeps A E I Q (Pure.pure a) s :=
  fun _ ht => hstable.run hs ht

theorem Keeps.fail {e : ε} (hstable : Stable E fun t => I t ∧ Q (.error e) t)
    (hs : I s ∧ Q (.error e) s) : Keeps A E I Q (Program.fail e) s :=
  fun _ ht => hstable.run hs ht

/-- One primitive, from a condition the others cannot undo. -/
theorem Keeps.perform {p : P α} {J : σ → Prop} (hJ : Stable E J) (hI : ∀ t, J t → I t)
    (hp : ∀ t b u, J t → A α p t b u → Keeps A E I Q (Pure.pure b) u) (hs : J s) :
    Keeps A E I Q (Program.perform p) s :=
  fun t ht => ⟨hI t (hJ.run hs ht), fun b u hb => hp t b u (hJ.run hs ht) hb⟩

theorem Keeps.bind {f : α → Program P ε β} {R : Except ε β → σ → Prop}
    (hx : Keeps A E I Q x s) (hok : ∀ a t, Q (.ok a) t → I t → Keeps A E I R (f a) t)
    (herror : ∀ e t, Q (.error e) t → R (.error e) t) : Keeps A E I R (x >>= f) s := by
  induction x generalizing s with
  | done a =>
    obtain ⟨hI, hQ⟩ := hx s .refl
    exact hok a s hQ hI
  | fail e => exact fun t ht => ⟨(hx t ht).1, herror e t (hx t ht).2⟩
  | call _ _ ih => exact fun t ht => ⟨(hx t ht).1, fun b u hb => ih b ((hx t ht).2 b u hb)⟩

/-- A caught failure is a result. -/
theorem Keeps.attempt {R : Except ε (Except ε α) → σ → Prop} (hx : Keeps A E I Q x s)
    (hR : ∀ r t, Q r t → R (.ok r) t) : Keeps A E I R x.attempt s := by
  induction x generalizing s with
  | done a | fail e => exact fun t ht => ⟨(hx t ht).1, hR _ t (hx t ht).2⟩
  | call _ _ ih => exact fun t ht => ⟨(hx t ht).1, fun b u hb => ih b ((hx t ht).2 b u hb)⟩

/-- A program keeps what each of its primitives keeps. -/
theorem Keeps.of_performs {ok : (β : Type) → P β → Prop} (hx : x.Performs ok)
    (hstable : Stable E I) (hact : ∀ β p t b u, ok β p → I t → A β p t b u → I u) (hs : I s) :
    Keeps A E I (fun _ => I) x s := by
  induction x generalizing s with
  | done a | fail e => exact fun t ht => ⟨hstable.run hs ht, hstable.run hs ht⟩
  | call p _ ih =>
    intro t ht
    have hI := hstable.run hs ht
    exact ⟨hI, fun b u hb => ih b (hx.2 b) (hact _ p t b u hx.1 hI hb)⟩

end Keeps

/-! ## Runs that end -/

section Ends

variable (A : Answers P σ) (E : σ → σ → Prop)

/-- The program, run beside steps of `E` from the first state, ends with the result in the
last. -/
def Ends : Program P ε α → σ → Except ε α → σ → Prop
  | done a, s, r, t => r = .ok a ∧ ReflTransGen E s t
  | fail e, s, r, t => r = .error e ∧ ReflTransGen E s t
  | call p next, s, r, t => ∃ s' b s'', ReflTransGen E s s' ∧ A _ p s' b s'' ∧ Ends (next b) s'' r t

variable {A E} {x : Program P ε α} {s t : σ} {r : Except ε α} {f : α → Program P ε β}

theorem Ends.other {s' : σ} (hrun : ReflTransGen E s s') (h : Ends A E x s' r t) :
    Ends A E x s r t := by
  cases x with
  | done a | fail e => exact ⟨h.1, hrun.trans h.2⟩
  | call =>
    obtain ⟨s₁, b, s₂, hs, hb, hrest⟩ := h
    exact ⟨s₁, b, s₂, hrun.trans hs, hb, hrest⟩

theorem Ends.bind {r : Except ε β} (h : Ends A E (x >>= f) s r t) :
    (∃ a s', Ends A E x s (.ok a) s' ∧ Ends A E (f a) s' r t) ∨
      ∃ e, r = .error e ∧ Ends A E x s (.error e) t := by
  induction x generalizing s with
  | done a => exact .inl ⟨a, s, ⟨rfl, .refl⟩, h⟩
  | fail e => exact .inr ⟨e, h.1, rfl, h.2⟩
  | call _ _ ih =>
    obtain ⟨s₁, b, s₂, hs, hb, hrest⟩ := h
    obtain ⟨a, s', ha, hf⟩ | ⟨e, he, hx⟩ := ih b hrest
    · exact .inl ⟨a, s', ⟨s₁, b, s₂, hs, hb, ha⟩, hf⟩
    · exact .inr ⟨e, he, s₁, b, s₂, hs, hb, hx⟩

/-- A bind that ends well has a first part that does. -/
theorem Ends.bind_ok {c : β} (h : Ends A E (x >>= f) s (.ok c) t) :
    ∃ a s', Ends A E x s (.ok a) s' ∧ Ends A E (f a) s' (.ok c) t := by
  obtain hok | ⟨e, he, -⟩ := h.bind
  · exact hok
  · cases he

/-- A caught program ends as it would have. -/
theorem Ends.attempt {c : Except ε (Except ε α)} (h : Ends A E x.attempt s c t) :
    ∃ r, c = .ok r ∧ Ends A E x s r t := by
  induction x generalizing s with
  | done a => exact ⟨.ok a, h.1, rfl, h.2⟩
  | fail e => exact ⟨.error e, h.1, rfl, h.2⟩
  | call _ _ ih =>
    obtain ⟨s₁, b, s₂, hs, hb, hrest⟩ := h
    obtain ⟨r, hr, hends⟩ := ih b hrest
    exact ⟨r, hr, s₁, b, s₂, hs, hb, hends⟩

/-- Two runs, one after the other. -/
theorem Ends.andThen {r : Except ε β} {a : α} {s' : σ} (hx : Ends A E x s (.ok a) s')
    (hf : Ends A E (f a) s' r t) : Ends A E (x >>= f) s r t := by
  induction x generalizing s with
  | done =>
    obtain ⟨heq, hrun⟩ := hx
    cases heq
    exact Ends.other hrun hf
  | fail => cases hx.1
  | call _ _ ih =>
    obtain ⟨s₁, b, s₂, hs, hb, hrest⟩ := hx
    exact ⟨s₁, b, s₂, hs, hb, ih b hrest⟩

/-- What every answer keeps and the others keep, a run that ends has kept. -/
theorem Ends.steps {R : σ → σ → Prop} (h : Ends A E x s r t)
    (hact : ∀ β p s b s', A β p s b s' → ReflTransGen R s s')
    (hother : ∀ s s', E s s' → ReflTransGen R s s') : ReflTransGen R s t := by
  have hothers {s s' : σ} (h : ReflTransGen E s s') : ReflTransGen R s s' := by
    induction h with
    | refl => exact .refl
    | tail _ hlast ih => exact ih.trans (hother _ _ hlast)
  induction x generalizing s with
  | done a | fail e => exact hothers h.2
  | call p _ ih =>
    obtain ⟨s₁, b, s₂, hs, hb, hrest⟩ := h
    exact ((hothers hs).trans (hact _ p s₁ b s₂ hb)).trans (ih b hrest)

end Ends
end Program
end Dioptron
