import Dioptron.Outcomes

/-! # Programs over a set of primitives

A transaction is a program over a few primitives that read and write a store.
`Program` is the free monad over them with failure, so that one text of a
transaction can be run on several models of the store, each given by a handler for
the primitives.  What is proved of the primitives carries over to every program:
`run_related` is the simulation between two handlers and `run_keeps` the frame rule.
-/
namespace Dioptron

/-- A program over the primitives `P` that may fail with an `ε`. -/
inductive Program (P : Type → Type) (ε : Type) (α : Type) : Type 1
  | done (a : α)
  | fail (e : ε)
  | call {β : Type} (p : P β) (next : β → Program P ε α)

/-- A meaning of the primitives over the states `σ`. -/
abbrev Handler (P : Type → Type) (ε σ : Type) := (β : Type) → P β → σ → Except ε (β × σ)

namespace Program

variable {P : Type → Type} {ε α β σ τ : Type}

def bind {β : Type} : Program P ε α → (α → Program P ε β) → Program P ε β
  | done a, f => f a
  | fail e, _ => fail e
  | call p next, f => call p fun b => (next b).bind f

instance : Monad (Program P ε) where
  pure := done
  bind := bind

/-- The program that performs one primitive and returns its answer. -/
def perform (p : P α) : Program P ε α := call p done

/-- A pure computation as a program. -/
def ofExcept : Except ε α → Program P ε α
  | .ok a => done a
  | .error e => fail e

/-- Stops with `e` unless `c` holds. -/
def guard (c : Prop) [Decidable c] (e : ε) : Program P ε Unit := ofExcept (ensure c e)

/-- The value of an option, or a failure. -/
def expect (x : Option α) (e : ε) : Program P ε α :=
  match x with
  | some a => done a
  | none => fail e

def run (h : Handler P ε σ) : Program P ε α → σ → Except ε (α × σ)
  | done a, s => .ok (a, s)
  | fail e, _ => .error e
  | call p next, s => do
    let r ← h _ p s
    run h (next r.1) r.2

section Run

variable (h : Handler P ε σ) (s : σ)

@[simp] theorem run_pure (a : α) : run h (pure a : Program P ε α) s = .ok (a, s) := rfl

@[simp] theorem run_fail (e : ε) : run h (fail e : Program P ε α) s = .error e := rfl

@[simp] theorem run_perform (p : P α) : run h (perform p : Program P ε α) s = h α p s := by
  unfold perform
  rw [run]
  cases h α p s with
  | error => rfl
  | ok => rfl

@[simp] theorem run_ofExcept (x : Except ε α) :
    run h (ofExcept x : Program P ε α) s = x.map fun a => (a, s) := by
  cases x with
  | error => rfl
  | ok => rfl

@[simp] theorem run_expect (x : Option α) (e : ε) :
    run h (expect x e : Program P ε α) s =
      match x with
      | some a => .ok (a, s)
      | none => .error e := by
  cases x with
  | none => rfl
  | some => rfl

theorem run_bind (x : Program P ε α) (f : α → Program P ε β) :
    run h (x >>= f) s = (run h x s >>= fun r => run h (f r.1) r.2) := by
  induction x generalizing s with
  | done => rfl
  | fail => rfl
  | call p next ih =>
    show (h _ p s >>= fun r => run h ((next r.1) >>= f) r.2) = _
    rw [run]
    cases h _ p s with
    | error => rfl
    | ok r => exact ih r.1 r.2

/-- A sequence succeeds exactly when its parts do, one after the other. -/
theorem run_bind_eq_ok {x : Program P ε α} {f : α → Program P ε β} {s : σ} {r : β × σ} :
    run h (x >>= f) s = .ok r ↔
      ∃ a mid, run h x s = .ok (a, mid) ∧ run h (f a) mid = .ok r := by
  rw [run_bind, bind_eq_ok, Prod.exists]

theorem run_ofExcept_eq_ok {x : Except ε α} {s : σ} {r : α × σ} :
    run h (ofExcept x : Program P ε α) s = .ok r ↔ x = .ok r.1 ∧ r.2 = s := by
  rw [run_ofExcept, map_eq_ok]
  constructor
  · rintro ⟨a, ha, rfl⟩
    exact ⟨ha, rfl⟩
  · rintro ⟨ha, hs⟩
    exact ⟨r.1, ha, by rw [← hs]⟩

theorem run_guard_eq_ok {c : Prop} [Decidable c] {e : ε} {s : σ} {r : Unit × σ} :
    run h (guard c e : Program P ε Unit) s = .ok r ↔ c ∧ r.2 = s := by
  rw [guard, run_ofExcept_eq_ok, ensure_eq_ok]

theorem run_expect_eq_ok {x : Option α} {e : ε} {s : σ} {r : α × σ} :
    run h (expect x e : Program P ε α) s = .ok r ↔ x = some r.1 ∧ r.2 = s := by
  rw [run_expect]
  cases x with
  | none => simp
  | some =>
    obtain ⟨b, t⟩ := r
    simp [eq_comm]

end Run

/-- **Simulation.**  If the primitives answer alike from related states and leave
related states, so does every program. -/
theorem run_related {h : Handler P ε σ} {k : Handler P ε τ} {R : σ → τ → Prop}
    (hprim : ∀ β (p : P β) s t, R s t →
      Related (fun x y => x.1 = y.1 ∧ R x.2 y.2) (h β p s) (k β p t)) (x : Program P ε α) {s : σ}
    {t : τ} (hR : R s t) : Related (fun x y => x.1 = y.1 ∧ R x.2 y.2) (run h x s) (run k x t) := by
  induction x generalizing s t with
  | done => exact .ok ⟨rfl, hR⟩
  | fail e => exact .error e
  | call p _ ih =>
    refine (hprim _ p s t hR).bind ?_
    rintro ⟨b, s'⟩ ⟨b', t'⟩ ⟨rfl, hR'⟩
    exact ih b hR'

/-- **Frame rule.**  A reflexive and transitive relation between the states before
and after every primitive relates the states before and after every program. -/
theorem run_keeps {h : Handler P ε σ} {R : σ → σ → Prop} (hrefl : ∀ s, R s s)
    (htrans : ∀ s t u, R s t → R t u → R s u)
    (hprim : ∀ β (p : P β) s r, h β p s = .ok r → R s r.2)
    {x : Program P ε α} {s : σ} {r : α × σ} (hr : run h x s = .ok r) : R s r.2 := by
  induction x generalizing s with
  | done =>
    cases hr
    exact hrefl s
  | fail => cases hr
  | call p _ ih =>
    rw [run, bind_eq_ok] at hr
    obtain ⟨mid, hmid, hr⟩ := hr
    exact htrans _ _ _ (hprim _ p s mid hmid) (ih mid.1 hr)

/-! ## Programs that only look -/

/-- Started in `s`, the program performs primitives of `Q` only, each of which leaves `s`
as it is, and answers `a`. -/
inductive Observes (h : Handler P ε σ) (Q : (β : Type) → P β → Prop) (s : σ) :
    Program P ε α → α → Prop
  | done (a : α) : Observes h Q s (done a) a
  | call {β : Type} {p : P β} {next : β → Program P ε α} {b : β} {a : α} (hQ : Q β p)
      (hb : h β p s = .ok (b, s)) (hnext : Observes h Q s (next b) a) :
      Observes h Q s (call p next) a

namespace Observes

variable {h : Handler P ε σ} {Q : (β : Type) → P β → Prop} {s : σ}

theorem perform {p : P α} {a : α} (hQ : Q α p) (ha : h α p s = .ok (a, s)) :
    Observes h Q s (Program.perform p : Program P ε α) a :=
  .call hQ ha (.done a)

theorem bind {x : Program P ε α} {f : α → Program P ε β} {a : α} {b : β}
    (hx : Observes h Q s x a) (hf : Observes h Q s (f a) b) : Observes h Q s (x >>= f) b := by
  induction hx with
  | done => exact hf
  | call hQ hb _ ih => exact .call hQ hb (ih hf)

theorem ofExcept {x : Except ε α} {a : α} (hx : x = .ok a) :
    Observes h Q s (Program.ofExcept x : Program P ε α) a := by
  subst hx
  exact .done a

theorem guard {c : Prop} [Decidable c] {e : ε} (hc : c) :
    Observes h Q s (Program.guard c e : Program P ε Unit) () :=
  .ofExcept (ensure_eq_ok.mpr hc)

theorem expect {x : Option α} {e : ε} {a : α} (hx : x = some a) :
    Observes h Q s (Program.expect x e : Program P ε α) a := by
  subst hx
  exact .done a

/-- **What only looks on one side only looks on the other**, where primitives of `Q` leave
the state of the other side as it is. -/
theorem run_of_related {k : Handler P ε τ} {R : τ → σ → Prop} {t : τ}
    (hprim : ∀ β (p : P β) t s, R t s →
      Related (fun x y => x.1 = y.1 ∧ R x.2 y.2) (k β p t) (h β p s))
    (hlook : ∀ β (p : P β) t r, Q β p → k β p t = .ok r → r.2 = t) {x : Program P ε α} {a : α}
    (hx : Observes h Q s x a) (hR : R t s) : run k x t = .ok (a, t) := by
  induction hx with
  | done => rfl
  | @call β p _ _ _ hQ hb _ ih =>
    have hp := hprim β p t s hR
    rw [hb] at hp
    obtain ⟨⟨b', t'⟩, hk, rfl, -⟩ := hp.exists_of_ok_right
    have ht : t' = t := hlook β p t _ hQ hk
    rw [run, hk, ht]
    exact ih

end Observes

/-- A program that never raises `e` by itself. -/
def Avoids (e : ε) : Program P ε α → Prop
  | done _ => True
  | fail e' => e' ≠ e
  | call _ next => ∀ b, (next b).Avoids e

namespace Avoids

variable {e : ε}

theorem bind {x : Program P ε α} {f : α → Program P ε β} (hx : x.Avoids e)
    (hf : ∀ a, (f a).Avoids e) : (x >>= f).Avoids e := by
  induction x with
  | done a => exact hf a
  | fail => exact hx
  | call _ _ ih => exact fun b => ih b (hx b)

theorem perform (p : P α) : (Program.perform p : Program P ε α).Avoids e := fun _ => trivial

theorem ofExcept {x : Except ε α} (hx : x ≠ .error e) :
    (Program.ofExcept x : Program P ε α).Avoids e := by
  cases x with
  | error => exact fun heq => hx (heq ▸ rfl)
  | ok => trivial

theorem expect {x : Option α} {e' : ε} (h : e' ≠ e) :
    (Program.expect x e' : Program P ε α).Avoids e := by
  cases x with
  | none => exact h
  | some => trivial

/-- A program fails with `e` only where a primitive does. -/
theorem run_ne_error {h : Handler P ε σ} (hprim : ∀ β (p : P β) s, h β p s ≠ .error e)
    {x : Program P ε α} (hx : x.Avoids e) (s : σ) : run h x s ≠ .error e := by
  induction x generalizing s with
  | done => exact nofun
  | fail => exact fun heq => hx (Except.error.inj heq)
  | call p _ ih =>
    rw [run, Ne, bind_eq_error, not_or]
    refine ⟨hprim _ p s, ?_⟩
    rintro ⟨r, -, hr⟩
    exact ih r.1 (hx r.1) r.2 hr

end Avoids
end Program
end Dioptron
