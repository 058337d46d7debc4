import Mathlib

/-! # Fallible computations and runs

Two small pieces of vocabulary.  `Related` lifts a relation on results to
computations that may fail: both fail alike, or both succeed with related
results; it composes along `bind`, which is how a program over one state type is
shown to simulate the same program over another.  `Reachable` is reachability of
a transition system, with the induction that carries an invariant to every state
of every run.
-/
namespace Dioptron

section Except

variable {ε α β γ δ : Type} {x : Except ε α} {f : α → Except ε β} {xs : List α} {ys : List β}
  {P : α → β → Prop}

/-- A sequence succeeds exactly when its first part does and the rest does on the
first part's result. -/
theorem bind_eq_ok {b : β} : (x >>= f) = .ok b ↔ ∃ a, x = .ok a ∧ f a = .ok b := by
  cases x with
  | error => simp [bind, Except.bind]
  | ok => simp [bind, Except.bind]

/-- Where a sequence fails. -/
theorem bind_eq_error {e : ε} :
    (x >>= f) = .error e ↔ x = .error e ∨ ∃ a, x = .ok a ∧ f a = .error e := by
  cases x with
  | error => simp [bind, Except.bind]
  | ok => simp [bind, Except.bind]

theorem map_eq_ok {f : α → β} {b : β} : x.map f = .ok b ↔ ∃ a, x = .ok a ∧ f a = b := by
  cases x with
  | error => simp [Except.map]
  | ok => simp [Except.map]

theorem mapError_eq_ok {ε' : Type} {f : ε → ε'} {a : α} : x.mapError f = .ok a ↔ x = .ok a := by
  cases x with
  | error => simp [Except.mapError]
  | ok => simp [Except.mapError]

/-- Stops with `e` unless `c` holds. -/
def ensure (c : Prop) [Decidable c] (e : ε) : Except ε Unit := if c then .ok () else .error e

theorem ensure_eq_ok {c : Prop} [Decidable c] {e : ε} {u : Unit} : ensure c e = .ok u ↔ c := by
  unfold ensure
  by_cases h : c <;> simp [h]

@[simp] theorem ensure_of_true {c : Prop} [Decidable c] {e : ε} (h : c) : ensure c e = .ok () :=
  ensure_eq_ok.mpr h

theorem exists_of_toOption_map {f : α → β} {b : β} (h : x.toOption.map f = some b) :
    ∃ a, x = .ok a ∧ f a = b := by
  cases x with
  | error => cases h
  | ok a => exact ⟨a, rfl, Option.some.inj h⟩

@[simp] theorem ok_bind (a : α) (f : α → Except ε β) : (Except.ok a >>= f) = f a := rfl

@[simp] theorem error_bind (e : ε) (f : α → Except ε β) :
    (Except.error e >>= f) = .error e := rfl

/-- A pass over a list succeeds exactly when it does at every element, with their results
in order. -/
theorem mapM_eq_ok : xs.mapM f = .ok ys ↔ List.Forall₂ (fun x y => f x = .ok y) xs ys := by
  induction xs generalizing ys with
  | nil =>
    rw [List.mapM_nil, List.forall₂_nil_left_iff]
    exact ⟨fun h => (Except.ok.inj h).symm, fun h => h ▸ rfl⟩
  | cons _ _ ih =>
    rw [List.mapM_cons, bind_eq_ok, List.forall₂_cons_left_iff]
    constructor
    · rintro ⟨y, hy, h⟩
      obtain ⟨ys', hys', h⟩ := bind_eq_ok.mp h
      exact ⟨y, ys', hy, ih.mp hys', (Except.ok.inj h).symm⟩
    · rintro ⟨y, ys', hy, hys', rfl⟩
      exact ⟨y, hy, bind_eq_ok.mpr ⟨ys', ih.mpr hys', rfl⟩⟩

/-- A pass that can be answered at every element succeeds. -/
theorem exists_mapM_ok (h : ∀ x ∈ xs, ∃ y, f x = .ok y ∧ P x y) :
    ∃ ys, xs.mapM f = .ok ys ∧ List.Forall₂ P xs ys := by
  induction xs with
  | nil => exact ⟨[], rfl, .nil⟩
  | cons x _ ih =>
    obtain ⟨y, hy, hP⟩ := h x (by simp)
    obtain ⟨ys, hys, hPs⟩ := ih fun x' hx' => h x' (List.mem_cons_of_mem _ hx')
    exact ⟨y :: ys, mapM_eq_ok.mpr (.cons hy (mapM_eq_ok.mp hys)), .cons hP hPs⟩

/-- Two lists related in order: every element has its counterpart. -/
theorem exists_of_mem_left (h : List.Forall₂ P xs ys) {x : α} (hx : x ∈ xs) : ∃ y ∈ ys, P x y := by
  induction h with
  | nil => cases hx
  | cons hP _ ih =>
    rcases List.mem_cons.mp hx with rfl | hx
    · exact ⟨_, List.mem_cons_self, hP⟩
    · obtain ⟨y, hy, hP⟩ := ih hx
      exact ⟨y, List.mem_cons_of_mem _ hy, hP⟩

theorem exists_of_mem_right (h : List.Forall₂ P xs ys) {y : β} (hy : y ∈ ys) : ∃ x ∈ xs, P x y :=
  exists_of_mem_left h.flip hy

theorem exists_forall₂ (h : ∀ x ∈ xs, ∃ y, P x y) : ∃ ys, List.Forall₂ P xs ys := by
  induction xs with
  | nil => exact ⟨[], .nil⟩
  | cons x _ ih =>
    obtain ⟨y, hy⟩ := h x List.mem_cons_self
    obtain ⟨ys, hys⟩ := ih fun x' hx' => h x' (List.mem_cons_of_mem _ hx')
    exact ⟨y :: ys, .cons hy hys⟩

/-- A relation between any two elements passes to their counterparts. -/
theorem pairwise_of_forall₂ {R : α → α → Prop} {S : β → β → Prop} (h : List.Forall₂ P xs ys)
    (hxs : xs.Pairwise R) (hRS : ∀ x y x' y', P x y → P x' y' → R x x' → S y y') :
    ys.Pairwise S := by
  induction h with
  | nil => exact .nil
  | cons hP htail ih =>
    obtain ⟨hhead, hxs⟩ := List.pairwise_cons.mp hxs
    refine List.pairwise_cons.mpr ⟨fun y' hy' => ?_, ih hxs⟩
    obtain ⟨x', hx', hP'⟩ := exists_of_mem_right htail hy'
    exact hRS _ _ _ _ hP hP' (hhead x' hx')

/-- A fold whose turns each end clean only when they start clean and pass a test
ends clean exactly when it starts clean and every element passes. -/
theorem foldlM_clean {f : β → α → Except ε β} {clean : β} {ok : α → Prop}
    (hf : ∀ acc a, f acc a = .ok clean ↔ acc = clean ∧ ok a) (xs : List α) (acc : β) :
    xs.foldlM f acc = .ok clean ↔ acc = clean ∧ ∀ a ∈ xs, ok a := by
  induction xs generalizing acc with
  | nil => simp [pure, Except.pure]
  | cons x _ ih =>
    rw [List.foldlM_cons, bind_eq_ok]
    constructor
    · rintro ⟨mid, hmid, hrest⟩
      obtain ⟨rfl, hall⟩ := (ih mid).mp hrest
      obtain ⟨rfl, hx⟩ := (hf acc x).mp hmid
      exact ⟨rfl, List.forall_mem_cons.mpr ⟨hx, hall⟩⟩
    · rintro ⟨rfl, hall⟩
      rw [List.forall_mem_cons] at hall
      exact ⟨acc, (hf acc x).mpr ⟨rfl, hall.1⟩, (ih acc).mpr ⟨rfl, hall.2⟩⟩

/-- Both computations fail with one error, or both succeed with results in `R`. -/
inductive Related (R : α → β → Prop) : Except ε α → Except ε β → Prop
  | error (e : ε) : Related R (.error e) (.error e)
  | ok {a : α} {b : β} (h : R a b) : Related R (.ok a) (.ok b)

namespace Related

variable {R : α → β → Prop} {S : γ → δ → Prop} {x : Except ε α} {y : Except ε β}

/-- Sequencing keeps computations related when the continuations map related
results to related computations. -/
theorem bind {f : α → Except ε γ} {g : β → Except ε δ} (h : Related R x y)
    (hfg : ∀ a b, R a b → Related S (f a) (g b)) : Related S (x >>= f) (y >>= g) := by
  cases h with
  | error e => exact .error e
  | ok h => exact hfg _ _ h

/-- Sequencing after one and the same computation. -/
theorem bind_same {f : α → Except ε γ} {g : α → Except ε δ}
    (hfg : ∀ a, x = .ok a → Related S (f a) (g a)) : Related S (x >>= f) (x >>= g) := by
  cases x with
  | error e => exact .error e
  | ok a => exact hfg a rfl

theorem of_eq {y : Except ε α} (h : x = y) : Related Eq x y := by
  subst h
  cases x with
  | error e => exact .error e
  | ok => exact .ok rfl

theorem eq {y : Except ε α} (h : Related Eq x y) : x = y := by
  cases h with
  | error => rfl
  | ok h => rw [h]

theorem map {f : α → γ} {g : β → δ} (h : Related R x y) (hfg : ∀ a b, R a b → S (f a) (g b)) :
    Related S (x.map f) (y.map g) := by
  cases h with
  | error e => exact .error e
  | ok h => exact .ok (hfg _ _ h)

theorem exists_of_ok {a : α} (h : Related R (.ok a) y) : ∃ b, y = .ok b ∧ R a b := by
  cases h with
  | ok h => exact ⟨_, rfl, h⟩

theorem exists_of_ok_right {b : β} (h : Related R x (.ok b)) : ∃ a, x = .ok a ∧ R a b := by
  cases h with
  | ok h => exact ⟨_, rfl, h⟩

theorem error_of_error {e : ε} (h : Related R x (.error e)) : x = .error e := by
  cases h with
  | error => rfl

theorem ne_error {e : ε} (h : Related R x y) (hy : y ≠ .error e) : x ≠ .error e := by
  rintro rfl
  cases h with
  | error => exact hy rfl

end Related
end Except

/-! ## Runs of a transition system -/

section Runs

variable {σ : Type*} {init : σ → Prop} {step : σ → σ → Prop}

/-- `s` is reached by some run. -/
def Reachable (init : σ → Prop) (step : σ → σ → Prop) (s : σ) : Prop :=
  ∃ s₀, init s₀ ∧ Relation.ReflTransGen step s₀ s

/-- What holds initially and is kept by every step holds of every reached state. -/
theorem Reachable.invariant {Inv : σ → Prop} {s : σ} (hs : Reachable init step s)
    (hinit : ∀ s, init s → Inv s)
    (hstep : ∀ s s', Reachable init step s → Inv s → step s s' → Inv s') : Inv s := by
  obtain ⟨s₀, h₀, hrun⟩ := hs
  induction hrun with
  | refl => exact hinit _ h₀
  | tail hrun h ih => exact hstep _ _ ⟨s₀, h₀, hrun⟩ ih h

theorem Reachable.next {s s' : σ} (hs : Reachable init step s) (h : step s s') :
    Reachable init step s' := by
  obtain ⟨s₀, h₀, hrun⟩ := hs
  exact ⟨s₀, h₀, hrun.tail h⟩

theorem Reachable.trans {s s' : σ} (hs : Reachable init step s)
    (h : Relation.ReflTransGen step s s') : Reachable init step s' := by
  obtain ⟨s₀, h₀, hrun⟩ := hs
  exact ⟨s₀, h₀, hrun.trans h⟩

end Runs
end Dioptron
