import Dioptron.Ideal
import Dioptron.Lives

/-! # The store and its book

The store keeps sealed records under hashed keys, sealed again whenever a key is rotated; the
book keeps the records themselves.  Every run of the store is a run of its book, and at its
end a transaction answers on the store what it answers on the book, its error included.  What
is proved of the book so holds of the store, as here that an invocation only moves forward.
-/
namespace Dioptron

open Relation (ReflTransGen)

variable {C : Crypto}

/-- **The store refines its book**, whatever keys its records are under. -/
theorem store_refines_book {w w' : World C} (hw : w.Reachable)
    (hrun : ReflTransGen World.Step w w') :
    ∃ K L K' L', Represents K L w.store ∧ Represents K' L' w'.store ∧ L.Reachable ∧
      ReflTransGen Custody.Step L L' ∧ w'.store.view = L'.toBook.view ∧
      ∀ t : Transaction C, Related (fun x y => x.1 = y.1 ∧ Represents K' y.2 x.2)
        (w'.store.commit t.program) (L'.run t.program) := by
  obtain ⟨K, L, h⟩ := hw.holds
  obtain ⟨K', L', h', hsteps⟩ := h.run hrun
  exact ⟨K, L, K', L', h.represents, h'.represents, h.reachable, hsteps, h'.represents.view_eq,
    fun t => h'.represents.commit_related t.program⟩

/-! ## The way of an invocation -/

/-- A transition moves an invocation forward. -/
theorem InvocationRecord.MovedBy.rank_lt {t : Transaction C} {id : InvocationId}
    {r r' : InvocationRecord} (h : r.MovedBy t id r') : r.state.rank < r'.state.rank := by
  cases h with
  | dispatch now ht hstate | completeTransfer transfer now ht hstate | publish now ht hstate =>
    rw [hstate]
    exact Nat.lt_succ_self _
  | finish _ _ _ _ _ _ _ hnext =>
    exact stepTarget_rank_lt (nextState_eq_ok.mp hnext)

namespace Custody

variable {L L' : Custody C} {id : InvocationId} {r : InvocationRecord}

theorem Step.forward (h : Custody.Step L L') (hnamed : L.InvocationsNamed)
    (hr : L.invocations id = some r) :
    ∃ r', L'.invocations id = some r' ∧ (r' = r ∨ r.state.rank < r'.state.rank) := by
  cases h with
  | transact t hrun =>
    rcases (transact_write t hrun).invocation_cases hnamed hr with ⟨-, hsame⟩ | ⟨r', hr', hmoved⟩
    · exact ⟨r, hsame, .inl rfl⟩
    · exact ⟨r', hr', .inr hmoved.rank_lt⟩
  | register | bind | shred | clock => exact ⟨r, hr, .inl rfl⟩

theorem Reachable.forward (h : L.Reachable) (hrun : ReflTransGen Custody.Step L L')
    (hr : L.invocations id = some r) :
    ∃ r', L'.invocations id = some r' ∧ (r' = r ∨ r.state.rank < r'.state.rank) := by
  induction hrun with
  | refl => exact ⟨r, hr, .inl rfl⟩
  | tail hsteps hlast ih =>
    obtain ⟨q, hq, hforward⟩ := ih
    have hnamed := Custody.Reachable.named (h.trans hsteps)
    obtain ⟨r', hr', hstep⟩ := hlast.forward hnamed.invocations hq
    refine ⟨r', hr', ?_⟩
    rcases hstep with rfl | hstep
    · exact hforward
    · rcases hforward with rfl | hforward
      · exact .inr hstep
      · exact .inr (hforward.trans hstep)

end Custody

/-- **An invocation only moves forward.**  Once it is stored it stays stored, as the same call of
the same tenant with the same chain and reservation; its record stays or its state moves on in
the order of the lifecycle, and a terminal record never changes. -/
theorem invocation_moves_forward {w w' : World C} (hw : w.Reachable)
    (hrun : ReflTransGen World.Step w w') {id : InvocationId} {r : InvocationRecord}
    (hr : w.store.invocationAt id = some r) :
    ∃ r', w'.store.invocationAt id = some r' ∧ r.SameCall r' ∧
      (r' = r ∨ r.state.rank < r'.state.rank) ∧ (r.state.isTerminal = true → r' = r) := by
  obtain ⟨K, L, h⟩ := hw.holds
  obtain ⟨K', L', h', hsteps⟩ := h.run hrun
  rw [h.represents.invocationAt_eq] at hr
  rw [h'.represents.invocationAt_eq]
  obtain ⟨r', hr', hforward⟩ := h.reachable.forward hsteps hr
  obtain ⟨r'', hr'', hsame⟩ := (h.reachable.extends hsteps).invocations id r hr
  cases hr'.symm.trans hr''
  refine ⟨r', hr', hsame, hforward, fun hterminal => hforward.resolve_right ?_⟩
  -- No state comes after a terminal one.
  rw [(isTerminal_iff_rank _).mp hterminal]
  have hle : r'.state.rank ≤ 5 := by cases r'.state <;> decide
  omega

namespace Sample

/-- The agent's capture, dispatched. -/
theorem exists_dispatched : ∃ (w w' : World Crypto.ideal) (r r' : InvocationRecord), w.Reachable ∧
    ReflTransGen World.Step w w' ∧ w.store.invocationAt call = some r ∧
      r.state = .intentPersisted ∧ w'.store.invocationAt call = some r' ∧
      r'.state = .dispatched := by
  obtain ⟨w, K, hreach, h⟩ := exists_world (setUp ++ [.begin intent]) (by decide +kernel)
  have hrun : ((Custody.runAll [.dispatch call] (book (setUp ++ [.begin intent]))).toOption.map
      fun L => (L.invocations call).map InvocationRecord.state) = some (some .dispatched) := by
    decide +kernel
  have hbegun : ((book (setUp ++ [.begin intent])).invocations call).map InvocationRecord.state =
      some .intentPersisted := by decide +kernel
  obtain ⟨L', hL', hstate'⟩ := exists_of_toOption_map hrun
  obtain ⟨w', hsteps, h'⟩ := h.transactAll hL'
  obtain ⟨r, hr, hstate⟩ := Option.map_eq_some_iff.mp hbegun
  obtain ⟨r', hr', hstate'⟩ := Option.map_eq_some_iff.mp hstate'
  rw [← h.represents.invocationAt_eq] at hr
  rw [← h'.represents.invocationAt_eq] at hr'
  exact ⟨w, w', r, r', hreach, hsteps, hr, hstate, hr', hstate'⟩

end Sample

theorem store_refines_book_of_dispatch : ∃ (w w' : World Crypto.ideal) (r : InvocationRecord)
    (K : KeyState Crypto.ideal) (L : Custody Crypto.ideal), w.Reachable ∧
      ReflTransGen World.Step w w' ∧ w'.store.invocationAt Sample.call = some r ∧
      r.state = .dispatched ∧ Represents K L w'.store ∧ w'.store.view = L.toBook.view := by
  obtain ⟨w, w', -, r', hreach, hrun, -, -, hr', hstate'⟩ := Sample.exists_dispatched
  obtain ⟨-, -, K', L', -, hrep', -, -, hview, -⟩ := store_refines_book hreach hrun
  exact ⟨w, w', r', K', L', hreach, hrun, hr', hstate', hrep', hview⟩

theorem invocation_moves_forward_of_dispatch : ∃ (w w' : World Crypto.ideal)
    (r r' : InvocationRecord), w.Reachable ∧ ReflTransGen World.Step w w' ∧
      w.store.invocationAt Sample.call = some r ∧ w'.store.invocationAt Sample.call = some r' ∧
      r.SameCall r' ∧ r.state.rank < r'.state.rank := by
  obtain ⟨w, w', r, r', hreach, hrun, hr, hstate, hr', hstate'⟩ := Sample.exists_dispatched
  obtain ⟨r'', hr'', hsame, hforward, -⟩ := invocation_moves_forward hreach hrun hr
  cases hr'.symm.trans hr''
  refine ⟨w, w', r, r', hreach, hrun, hr, hr', hsame, hforward.resolve_left ?_⟩
  rintro rfl
  cases hstate.symm.trans hstate'

end Dioptron
