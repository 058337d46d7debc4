import Dioptron.System

/-! # The life of one invocation

What a write does to an invocation that is stored: nothing, or it moves it one boundary
on.  What a settlement takes follows from the record it moves.
-/
namespace Dioptron

open Relation (ReflGen ReflTransGen)

variable {C : Crypto} {t : Transaction C}

/-- The invocation a transition moves. -/
def Transaction.moves : Transaction C → Option InvocationId
  | dispatch id | completeTransfer id _ | publish id | settle id _ | release id _
  | markUnknownEffect id => some id
  | _ => none

theorem Transaction.moves_of_finishes {id : InvocationId} {step : Step}
    (h : t.finishes = some (id, step)) : t.moves = some id := by
  cases t with
  | settle | release | markUnknownEffect =>
    cases h
    rfl
  | _ => cases h

theorem Transaction.moves_of_repeatable (h : t.repeatable = true) : t.moves = none := by
  cases t <;> first | rfl | cases h

theorem Transaction.moves_of_denial {failure : Failure} {entry : AuditEntry}
    (h : t.denial failure = some entry) : t.moves = none := by
  cases t <;> first | rfl | cases h

/-- `t` moved the invocation `id` from `r` to `r'`. -/
inductive InvocationRecord.MovedBy (t : Transaction C) (id : InvocationId) (r : InvocationRecord) :
    InvocationRecord → Prop
  | dispatch (now : Timestamp) (ht : t = .dispatch id) (hstate : r.state = .intentPersisted) :
      MovedBy t id r (r.moved .dispatched now)
  | completeTransfer (transfer : Transfer) (now : Timestamp)
      (ht : t = .completeTransfer id transfer) (hstate : r.state = .dispatched) :
      MovedBy t id r (r.delivered transfer now)
  | publish (now : Timestamp) (ht : t = .publish id) (hstate : r.state = .transferComplete) :
      MovedBy t id r (r.moved .published now)
  | finish (step : Step) (next : InvocationState) (terminal : Terminal) (settlement : Settlement)
      (actual : Option Cost) (now : Timestamp) (ht : t.finishes = some (id, step))
      (hnext : nextState r.state step = .ok next) (hterminal : terminal.state = next)
      (hends : t.Ends r actual terminal settlement) :
      MovedBy t id r (InvocationRecord.moved { r with
        actual := actual
        terminal := some terminal
        debited := some settlement.debit } next now)

namespace Custody

variable {L L' : Custody C} {id : InvocationId} {r : InvocationRecord}

/-- An invocation after another one, or the same, was written. -/
theorem setInvocation_cases {b : Book C} (r' : InvocationRecord) (hr : b.invocations id = some r) :
    r'.id ≠ id ∧ (b.setInvocation r').invocations id = some r ∨
      r'.id = id ∧ (b.setInvocation r').invocations id = some r' := by
  by_cases heq : id = r'.id
  · exact .inr ⟨heq.symm, by rw [heq]; exact Function.update_self _ _ _⟩
  · exact .inl ⟨Ne.symm heq, (Function.update_of_ne heq _ _).trans hr⟩

/-- **What a write does to a stored invocation**: nothing, or it is a transition of this
invocation and moves it. -/
theorem Write.invocation_cases {t : Transaction C} (h : L.Write t L') (hnamed : L.InvocationsNamed)
    (hr : L.invocations id = some r) :
    t.moves ≠ some id ∧ L'.invocations id = some r ∨
      ∃ r', L'.invocations id = some r' ∧ r.MovedBy t id r' := by
  have hquiet (hmoves : t.moves = none) (hsame : L'.invocations id = some r) :
      t.moves ≠ some id ∧ L'.invocations id = some r ∨
        ∃ r', L'.invocations id = some r' ∧ r.MovedBy t id r' :=
    .inl ⟨by rw [hmoves]; exact nofun, hsame⟩
  -- A transition of `q` writes a record with the id of `q`, so it moves `r` only if `q = r`.
  have hmove {b : Book C} {id' : InvocationId} {q q' : InvocationRecord}
      (hb : b.invocations = L.invocations) (hq : L.invocations id' = some q) (hid : q'.id = q.id)
      (hmoves : t.moves = some id') (hby : id' = id → q = r → r.MovedBy t id q') :
      t.moves ≠ some id ∧ (b.setInvocation q').invocations id = some r ∨
        ∃ r', (b.setInvocation q').invocations id = some r' ∧ r.MovedBy t id r' := by
    have hq'id : q'.id = id' := hid.trans (hnamed id' q hq)
    rcases setInvocation_cases q' ((congrFun hb id).trans hr) with
      ⟨hne, hsame⟩ | ⟨hq', hset⟩
    · refine .inl ⟨?_, hsame⟩
      rw [hmoves, ← hq'id]
      exact fun heq => hne (Option.some.inj heq)
    · have hids : id' = id := hq'id.symm.trans hq'
      rw [hids, hr] at hq
      exact .inr ⟨q', hset, hby hids (Option.some.inj hq).symm⟩
  cases h with
  | quiet ht => exact hquiet (Transaction.moves_of_repeatable ht) hr
  | refuse _ _ _ _ hentry =>
    exact hquiet (Transaction.moves_of_denial hentry) hr
  | recordAudit | installRootGrant | issueGrant | revokeGrant => exact hquiet rfl hr
  | openSession _ _ _ _ _ ht =>
    exact hquiet (Transaction.moves_of_repeatable (Transaction.repeatable_of_opens ht)) hr
  | begin _ _ _ _ _ _ hadmits =>
    obtain ⟨f, rfl, -⟩ := Book.moveLedgers_frame hadmits.debit
    exact hquiet rfl (update_of_none hadmits.new _ id r hr)
  | dispatch _ _ now _ hq hstate =>
    exact hmove rfl hq rfl rfl fun hid hqr => by subst hid hqr; exact .dispatch now rfl hstate
  | completeTransfer _ _ transfer now _ hq hstate =>
    exact hmove rfl hq rfl rfl fun hid hqr => by
      subst hid hqr
      exact .completeTransfer transfer now rfl hstate
  | publish _ _ _ _ now _ hq hstate =>
    exact hmove rfl hq rfl rfl fun hid hqr => by subst hid hqr; exact .publish now rfl hstate
  | finish _ _ step next terminal settlement actual now _ _ ht hq hnext hterminal hends hpaid =>
    obtain ⟨f, rfl, -⟩ := Book.moveLedgers_frame hpaid
    exact hmove rfl hq rfl (Transaction.moves_of_finishes ht) fun hid hqr => by
      subst hid hqr
      exact .finish step next terminal settlement actual now ht hnext hterminal hends

end Custody

namespace InvocationRecord

variable {t : Transaction C} {id : InvocationId} {r r' : InvocationRecord}

theorem MovedBy.moves (h : r.MovedBy t id r') : t.moves = some id := by
  cases h with
  | dispatch _ ht _ | completeTransfer _ _ ht _ | publish _ ht _ =>
    rw [ht]
    rfl
  | finish _ _ _ _ _ _ ht => exact Transaction.moves_of_finishes ht

end InvocationRecord

/-- A settlement never fails: an overrun is clamped. -/
theorem Tx.settlementOf_eq (reserved actual : Cost) :
    Tx.settlementOf reserved actual = .ok (clampedSettlement reserved actual) := by
  unfold Tx.settlementOf Dioptron.settle
  cases Dimension.all.find? _ with
  | none => rfl
  | some => rfl

/-- A published capture is settled as a success at its recorded consumption. -/
theorem Tx.settledAmount_published {r : InvocationRecord} {outcome : SettleOutcome}
    {amount : Cost × Option Failure} (hstate : r.state = .published)
    (h : Tx.settledAmount r outcome = .ok amount) : r.actual = some amount.1 ∧ amount.2 = none := by
  unfold Tx.settledAmount at h
  rw [hstate] at h
  cases outcome with
  | failed => cases h
  | success =>
    obtain ⟨actual, hactual, h⟩ := bind_eq_ok.mp h
    cases h
    cases hr : r.actual with
    | none =>
      rw [hr] at hactual
      cases hactual
    | some =>
      rw [hr] at hactual
      cases hactual
      exact ⟨rfl, rfl⟩

/-- Only a dispatched call is settled as a failure, at what it is said to have consumed. -/
theorem Tx.settledAmount_failed {r : InvocationRecord} {failure : Failure} {actual : Cost}
    {amount : Cost × Option Failure}
    (h : Tx.settledAmount r (.failed failure actual) = .ok amount) :
    r.state = .dispatched ∧ amount = (actual, some failure) := by
  unfold Tx.settledAmount at h
  cases hstate : r.state <;> rw [hstate] at h
  case dispatched =>
    obtain ⟨_, -, h⟩ := bind_eq_ok.mp h
    cases h
    exact ⟨rfl, rfl⟩
  all_goals cases h

/-! ## Invocations of a store -/

/-- One step of the store's life by an operation of `ok`, or by its surroundings. -/
inductive World.StepBy (ok : Operation C → Prop) : World C → World C → Prop
  | operate {w : World C} (op : Operation C) {s : Store C} (hop : ok op)
      (hrun : op.run w.store = .ok s) (hfresh : ∀ d ∈ op.draw, d ∉ w.drawn) :
      StepBy ok w ⟨s, w.drawn ∪ {d | d ∈ op.draw}⟩
  | environment {w : World C} (nonce : Keyspace → Str C.Block → C.Nonce)
      (clock : Nat → Timestamp) :
      StepBy ok w ⟨{ w.store with nonce := nonce, clock := clock }, w.drawn⟩

namespace World.StepBy

variable {ok ok' : Operation C → Prop} {w w' : World C}

theorem step (h : StepBy ok w w') : World.Step w w' := by
  cases h with
  | operate op _ hrun hfresh => exact .operate op hrun hfresh
  | environment nonce clock => exact .environment nonce clock

theorem mono (h : StepBy ok w w') (hok : ∀ op, ok op → ok' op) : StepBy ok' w w' := by
  cases h with
  | operate op hop hrun hfresh => exact .operate op (hok op hop) hrun hfresh
  | environment nonce clock => exact .environment nonce clock

/-- An operation that draws no key. -/
theorem of_run (op : Operation C) {s : Store C} (hop : ok op) (hrun : op.run w.store = .ok s)
    (hdraw : op.draw = none) : StepBy ok w ⟨s, w.drawn⟩ := by
  have hstep : StepBy ok w _ := .operate op hop hrun (by rw [hdraw]; exact nofun)
  have hdrawn : w.drawn ∪ {d | d ∈ op.draw} = w.drawn := by
    rw [hdraw]
    simp
  rw [hdrawn] at hstep
  exact hstep

end World.StepBy
end Dioptron
