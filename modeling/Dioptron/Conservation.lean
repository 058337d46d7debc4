import Dioptron.Accounts
import Dioptron.Ideal

/-! # Ledger conservation

What a ledger was charged is the sum of what the invocations that list it hold: the
whole reservation while an invocation is open, and what its settlement kept once it is
finished.
-/
namespace Dioptron

variable {C : Crypto}

instance {kind : IdKind} : Finite (Ulid kind) :=
  Finite.of_injective (fun id : Ulid kind => id.bits.toFin) fun _ _ h =>
    Ulid.ext (BitVec.eq_of_toFin_eq h)

noncomputable instance {kind : IdKind} : Fintype (Ulid kind) := Fintype.ofFinite _

/-- What an invocation holds of each ledger it lists. -/
def InvocationRecord.charge (r : InvocationRecord) : Cost :=
  if r.state.isTerminal then r.debited.getD Cost.zero else r.reserved

theorem InvocationRecord.charge_of_open {r : InvocationRecord} (h : r.state.isTerminal = false) :
    r.charge = r.reserved := by
  simp [charge, h]

theorem InvocationRecord.charge_of_debited {r : InvocationRecord} {debited : Cost}
    (h : r.state.isTerminal = true) (hdebited : r.debited = some debited) : r.charge = debited := by
  simp [charge, h, hdebited]

/-- The charge of a ledger on one dimension. -/
def InvocationRecord.chargeOn (r : InvocationRecord) (k : LedgerRef × Dimension) : ℕ :=
  if k.1 ∈ r.ledgers then (r.charge.get k.2).toNat else 0

/-- What one step does to ledgers and invocations. -/
inductive Book.Accounts (b b' : Book C) : Prop
  | quiet (hinvocations : b'.invocations = b.invocations) (hused : b'.used = b.used)
  | reserved (r : InvocationRecord) (hnew : b.invocations r.id = none)
      (hset : b'.invocations = Function.update b.invocations r.id (some r))
      (hopen : r.state = .intentPersisted) (hnodup : r.ledgers.Nodup)
      (hout : ∀ id ∉ r.ledgers, b'.used id = b.used id)
      (hin : ∀ id ∈ r.ledgers, reserve (b.used id) r.reserved = .ok (b'.used id))
  | advanced (r r' : InvocationRecord) (hr : b.invocations r.id = some r) (hsame : r.SameCall r')
      (hset : b'.invocations = Function.update b.invocations r.id (some r'))
      (hsource : r.state.isTerminal = false) (hopen : r'.state.isTerminal = false)
      (hused : b'.used = b.used)
  | settled (r r' : InvocationRecord) (settlement : Settlement)
      (hr : b.invocations r.id = some r) (hsame : r.SameCall r')
      (hset : b'.invocations = Function.update b.invocations r.id (some r'))
      (hsource : r.state.isTerminal = false) (hclosed : r'.state.isTerminal = true)
      (hdebited : r'.debited = some settlement.debit) (hsplit : settlement.Splits r.reserved)
      (hout : ∀ id ∉ r.ledgers, b'.used id = b.used id)
      (hin : ∀ id ∈ r.ledgers, Dioptron.release (b.used id) settlement.release = .ok (b'.used id))

/-- No invocation lists a ledger twice. -/
def Book.LedgersListedOnce (b : Book C) : Prop :=
  ∀ id r, b.invocations id = some r → r.ledgers.Nodup

theorem not_isTerminal_of_nextState {source next : InvocationState} {step : Step}
    (h : nextState source step = .ok next) : source.isTerminal = false := by
  by_contra hterminal
  rw [nextState_eq_ok, stepTarget_terminal (by simpa using hterminal)] at h
  cases h

theorem Terminal.isTerminal_state (t : Terminal) : t.state.isTerminal = true := by
  cases t <;> rfl

/-- **What a step does to ledgers and invocations.** -/
theorem Book.Step.accounts {b b' : Book C} (h : Book.Step b b') (hnamed : b.InvocationsNamed)
    (honce : b.LedgersListedOnce) : b.Accounts b' := by
  cases h with
  | register | shred | install | issue | revoke | openSession | bind => exact .quiet rfl rfl
  | persist intent chain plan _ now hadmits =>
    obtain ⟨links, session, hallowed⟩ := authorize_allowed hadmits.auth
    have hnodup := hallowed.ledgers_nodup
    obtain ⟨f, hf, -⟩ := Book.moveLedgers_frame hadmits.debit
    obtain ⟨hout, hin⟩ := Book.moveLedgers_moves hadmits.debit hnodup
    refine .reserved (intent.fresh chain plan now) hadmits.new ?_ rfl hnodup hout hin
    rw [hf]
    rfl
  | dispatch id r _ hr hstate =>
    obtain rfl := hnamed id r hr
    refine .advanced r _ hr ?_ rfl (by rw [hstate]; rfl) rfl rfl
    exact ⟨rfl, rfl, rfl, rfl, rfl, rfl, rfl, rfl⟩
  | transfer id r _ _ _ hr hstate =>
    obtain rfl := hnamed id r hr
    refine .advanced r _ hr ?_ rfl (by rw [hstate]; rfl) rfl rfl
    exact ⟨rfl, rfl, rfl, rfl, rfl, rfl, rfl, rfl⟩
  | publish id r _ _ _ hr hstate =>
    obtain rfl := hnamed id r hr
    refine .advanced r _ hr ?_ rfl (by rw [hstate]; rfl) rfl rfl
    exact ⟨rfl, rfl, rfl, rfl, rfl, rfl, rfl, rfl⟩
  | finish id r _ next terminal settlement actual now hr hnext hterminal hsplit _ hpaid =>
    obtain rfl := hnamed id r hr
    obtain ⟨f, hf, -⟩ := Book.moveLedgers_frame hpaid
    obtain ⟨hout, hin⟩ := Book.moveLedgers_moves hpaid (honce r.id r hr)
    refine .settled r (InvocationRecord.moved { r with
      actual := actual
      terminal := some terminal
      debited := some settlement.debit } next now) settlement hr ?_ ?_
      (not_isTerminal_of_nextState hnext) ?_ rfl hsplit hout hin
    · exact ⟨rfl, rfl, rfl, rfl, rfl, rfl, rfl, rfl⟩
    · rw [hf]
      rfl
    · show next.isTerminal = true
      rw [← hterminal]
      exact terminal.isTerminal_state

/-- What every reachable book satisfies of its ledgers. -/
structure Book.Conserved (b : Book C) : Prop where
  balanced : Balanced (fun k : LedgerRef × Dimension => ((b.used k.1).get k.2).toNat)
    fun id k => ((b.invocations id).map fun r => r.chargeOn k).getD 0
  settled : ∀ id r, b.invocations id = some r → r.state.isTerminal = true →
    ∃ debited, r.debited = some debited ∧
      ∀ d, (debited.get d).toNat ≤ (r.reserved.get d).toNat
  once : b.LedgersListedOnce

namespace Book.Conserved

variable {b b' : Book C}

theorem empty : (Book.empty : Book C).Conserved where
  balanced := by
    intro k
    simp [Book.empty, Book.used]
  settled := fun _ _ h => by cases h
  once := fun _ _ h => by cases h

/-- One invocation's charge changes, and every ledger moves by the difference. -/
theorem of_charge (h : b.Conserved) {r' : InvocationRecord} {id : InvocationId}
    (hset : b'.invocations = Function.update b.invocations id (some r'))
    (hused : ∀ k : LedgerRef × Dimension,
      ((b'.used k.1).get k.2).toNat + ((b.invocations id).map fun r => r.chargeOn k).getD 0 =
        ((b.used k.1).get k.2).toNat + r'.chargeOn k)
    (hsettled : r'.state.isTerminal = true → ∃ debited, r'.debited = some debited ∧
      ∀ d, (debited.get d).toNat ≤ (r'.reserved.get d).toNat)
    (honce : r'.ledgers.Nodup) : b'.Conserved where
  balanced := by
    refine h.balanced.move id ?_ ?_
    · intro j hj
      rw [hset, Function.update_of_ne hj]
    · intro k
      rw [hset, Function.update_self]
      exact hused k
  settled := by
    intro j r hr hterminal
    rw [hset, Function.update_apply] at hr
    split_ifs at hr
    · cases hr
      exact hsettled hterminal
    · exact h.settled j r hr hterminal
  once := by
    intro j r hr
    rw [hset, Function.update_apply] at hr
    split_ifs at hr
    · cases hr
      exact honce
    · exact h.once j r hr

/-- **One step keeps ledgers balanced.** -/
theorem step (h : b.Conserved) (hnamed : b.InvocationsNamed) (hstep : Book.Step b b') :
    b'.Conserved := by
  cases hstep.accounts hnamed h.once with
  | quiet hinvocations hused =>
    constructor
    · rw [hused, hinvocations]
      exact h.balanced
    · rw [hinvocations]
      exact h.settled
    · intro id r hr
      rw [hinvocations] at hr
      exact h.once id r hr
  | reserved r hnew hset hopen hnodup hout hin =>
    refine h.of_charge hset ?_ (by rw [hopen]; exact nofun) hnodup
    rintro ⟨ledger, d⟩
    rw [hnew, InvocationRecord.chargeOn]
    split_ifs with hlisted
    · rw [InvocationRecord.charge_of_open (by rw [hopen]; rfl),
        reserve_eq_ok.mp (hin ledger hlisted) d]
      rfl
    · rw [hout ledger hlisted]
      rfl
  | advanced r r' hr hsame hset hsource hopen hused =>
    refine h.of_charge hset ?_ (by rw [hopen]; exact nofun) (hsame.ledgers ▸ h.once r.id r hr)
    intro k
    have hcharge : r'.chargeOn k = r.chargeOn k := by
      rw [InvocationRecord.chargeOn, InvocationRecord.charge_of_open hopen, hsame.ledgers,
        hsame.reserved, InvocationRecord.chargeOn, InvocationRecord.charge_of_open hsource]
    rw [hr, hused, hcharge]
    rfl
  | settled r _ settlement hr hsame hset hsource hclosed hdebited hsplit hout hin =>
    refine h.of_charge hset ?_ ?_ (hsame.ledgers ▸ h.once r.id r hr)
    · rintro ⟨ledger, d⟩
      rw [hr, Option.map_some, Option.getD_some, InvocationRecord.chargeOn,
        InvocationRecord.chargeOn, hsame.ledgers, InvocationRecord.charge_of_open hsource,
        InvocationRecord.charge_of_debited hclosed hdebited]
      split_ifs with hlisted
      · have hmoved := release_eq_ok.mp (hin ledger hlisted) d
        have hwhole := hsplit d
        dsimp only
        omega
      · rw [hout ledger hlisted]
    · intro _
      refine ⟨settlement.debit, hdebited, fun d => ?_⟩
      have hwhole := hsplit d
      rw [hsame.reserved]
      omega

/-- An open invocation can always pay back a part of its reservation. -/
theorem exists_paid (h : b.Conserved) {id : InvocationId} {r : InvocationRecord}
    (hr : b.invocations id = some r) (hopen : r.state.isTerminal = false) {settlement : Settlement}
    (hsplit : settlement.Splits r.reserved) :
    ∃ paid, b.moveLedgers (fun used => Dioptron.release used settlement.release) r.ledgers =
      .ok paid := by
  refine Book.exists_moveLedgers (h.once id r hr) fun ledger hledger => exists_release fun d => ?_
  have hcharge := h.balanced.charge_le id (ledger, d)
  simp only [hr, Option.map_some, Option.getD_some, InvocationRecord.chargeOn, hledger, if_true,
    InvocationRecord.charge_of_open hopen] at hcharge
  have hwhole := hsplit d
  omega

end Book.Conserved

theorem Custody.Reachable.conserved {L : Custody C} (h : L.Reachable) : L.toBook.Conserved :=
  h.book_induction Book.Conserved.empty fun _ _ hreach hconserved hstep =>
    hconserved.step hreach.named.invocations hstep

/-! ## No settlement underflows -/

namespace Custody

variable {L : Custody C} {α β : Type}

theorem run_bind_eq_error {e : Error} {x : Tx C α} {f : α → Tx C β} :
    L.run (x >>= f) = .error e ↔
      L.run x = .error e ∨ ∃ a mid, L.run x = .ok (a, mid) ∧ mid.run (f a) = .error e := by
  rw [run, Program.run_bind, bind_eq_error, Prod.exists]
  rfl

/-- No primitive decides anything. -/
theorem handler_ne_authz (p : Prim C β) (e : AuthzError) : handler β p L ≠ .error (.authz e) := by
  have hlen (q : Plain C.Block) : checkLen q ≠ .error (.authz e) := by
    unfold checkLen ensure
    split_ifs <;> exact nofun
  have hlive (t : TenantId) : L.checkLive t ≠ .error (.authz e) := by
    unfold checkLive
    split <;> exact nofun
  have hseq : succAuditSeq L.lastSeq ≠ .error (.authz e) := by
    unfold succAuditSeq ensure
    split_ifs <;> exact nofun
  intro h
  cases p with
  | now | view | profile | tombstone | get | contains => cases h
  | put =>
    rcases bind_eq_error.mp h with h | ⟨_, -, h⟩
    · exact hlen _ h
    · cases h
  | nextAuditSeq =>
    rcases bind_eq_error.mp h with h | ⟨_, -, h⟩
    · exact hseq h
    · cases h
  | tenantKeys | blobAddress | getSealed | containsSealed | removeSealed =>
    rcases bind_eq_error.mp h with h | ⟨_, -, h⟩
    · exact hlive _ h
    · cases h
  | liveTenantKeys t =>
    simp only [handler] at h
    split at h
    · cases h
    · cases h
    · next heq =>
      cases h
      exact hlive t heq
  | putSealed =>
    rcases bind_eq_error.mp h with h | ⟨_, -, h⟩
    · exact hlive _ h
    rcases bind_eq_error.mp h with h | ⟨_, -, h⟩
    · exact hlen _ h
    · cases h

theorem run_ne_authz {x : Tx C α} {e : AuthzError} (hx : x.Avoids (.authz e)) :
    L.run x ≠ .error (.authz e) :=
  hx.run_ne_error (fun _ p _ => handler_ne_authz p e) L

theorem appendAudit_avoids (entry : AuditEntry) (e : AuthzError) :
    (Tx.appendAudit entry : Tx C AuditSeq).Avoids (.authz e) :=
  .bind (.perform _) fun _ => .bind (.perform _) fun _ => .bind (.perform _) fun _ =>
    .bind (.perform _) fun _ => .bind (.perform _) fun _ => trivial

/-- The audit of a transition and its write decide nothing. -/
theorem run_auditTerminal_ne_authz (r : InvocationRecord) (e : AuthzError) :
    L.run (Tx.auditTerminal r) ≠ .error (.authz e) := by
  refine run_ne_authz ?_
  unfold Tx.auditTerminal
  split
  · exact .bind (.expect nofun) fun terminal => .bind (appendAudit_avoids _ e) fun _ => trivial
  · trivial

/-- A transition decides its step, and what goes with it. -/
theorem transition_ne_authz {id : InvocationId} {step : Dioptron.Step} {e : AuthzError}
    {apply : InvocationRecord → Tx C InvocationRecord}
    (hstep : ∀ source, nextState source step ≠ .error e)
    (happly : ∀ r, L.invocations id = some r → r.state.isTerminal = false →
      L.run (apply r) ≠ .error (.authz e)) :
    L.run (Tx.transition id step apply) ≠ .error (.authz e) := by
  intro h
  rcases run_bind_eq_error.mp h with h | ⟨r, mid, hread, h⟩
  · rw [Tx.existingInvocation, run_bind_eq_error] at h
    rcases h with h | ⟨_, _, _, h⟩
    · rw [run_invocationRecord] at h
      cases h
    · exact run_ne_authz (x := Program.expect _ (.invocationMissing id)) (.expect (by simp)) h
  rw [Tx.existingInvocation, run_bind_invocationRecord, run_expect_ok] at hread
  obtain ⟨r, hr, hread⟩ := hread
  cases hread
  rcases run_bind_eq_error.mp h with h | ⟨next, mid, hdecide, h⟩
  · rw [Tx.decide, run, Program.run_ofExcept] at h
    cases hnext : nextState r.state step with
    | ok =>
      rw [hnext] at h
      cases h
    | error =>
      rw [hnext] at h
      cases h
      exact hstep _ hnext
  obtain ⟨next, hnext, hmid⟩ := (run_decide_ok _).mp hdecide
  cases hmid
  rcases run_bind_eq_error.mp h with h | ⟨applied, mid, -, h⟩
  · exact happly r hr (not_isTerminal_of_nextState hnext) h
  rw [run_bind_now] at h
  rcases run_bind_eq_error.mp h with h | ⟨_, _, -, h⟩
  · exact run_auditTerminal_ne_authz _ e h
  · rcases run_bind_eq_error.mp h with h | ⟨_, _, -, h⟩
    · exact run_ne_authz (.perform _) h
    · cases h

theorem nextState_ne_underflow (source : InvocationState) (step : Dioptron.Step) (d : Dimension) :
    nextState source step ≠ .error (.ledgerUnderflow d) := by
  unfold nextState
  split <;> exact nofun

/-- Paying back a part of an open reservation goes through. -/
theorem exists_applySettlement (h : L.toBook.Conserved) {id : InvocationId} {r : InvocationRecord}
    (hr : L.invocations id = some r) (hopen : r.state.isTerminal = false) {settlement : Settlement}
    (hsplit : settlement.Splits r.reserved) (actual : Option Cost) (terminal : Option Terminal) :
    ∃ paid, L.toBook.moveLedgers (fun used => Dioptron.release used settlement.release) r.ledgers =
        .ok paid ∧
      L.run (Tx.applySettlement { r with actual := actual, terminal := terminal } settlement) =
        .ok ({ r with actual := actual, terminal := terminal, debited := some settlement.debit },
          { L with toBook := paid }) := by
  obtain ⟨paid, hpaid⟩ := h.exists_paid hr hopen hsplit
  refine ⟨paid, hpaid, ?_⟩
  unfold Tx.applySettlement
  rw [run_bind_of_ok (run_moveLedgers_ok.mpr ⟨paid, hpaid, rfl⟩)]
  rfl

theorem settledAmount_ne_authz (r : InvocationRecord) (outcome : SettleOutcome) (e : AuthzError) :
    Tx.settledAmount r outcome ≠ .error (.authz e) := by
  unfold Tx.settledAmount
  split
  · cases r.actual <;> exact nofun
  · unfold ensure
    split_ifs <;> exact nofun
  · exact nofun

/-- An overrun is clamped, so a settlement always exists. -/
theorem exists_settlementOf (reserved actual : Cost) :
    ∃ settlement, Tx.settlementOf reserved actual = .ok settlement := by
  unfold Tx.settlementOf Dioptron.settle
  cases Dimension.all.find? fun d => decide (reserved.get d < actual.get d) with
  | none => exact ⟨_, rfl⟩
  | some => exact ⟨_, rfl⟩

/-- **No settlement or release underflows a ledger.** -/
theorem settle_ne_underflow (h : L.toBook.Conserved) (id : InvocationId) (outcome : SettleOutcome)
    (d : Dimension) : L.run (Tx.settle id outcome) ≠ .error (.authz (.ledgerUnderflow d)) := by
  refine transition_ne_authz (fun source => nextState_ne_underflow source _ d) ?_
  intro r hr hopen hrun
  rcases run_bind_eq_error.mp hrun with hrun | ⟨amount, mid, hamount, hrun⟩
  · exact run_ne_authz (.ofExcept (settledAmount_ne_authz r outcome _)) hrun
  obtain ⟨amount, -, hmid⟩ := (run_ofExcept_ok _).mp hamount
  cases hmid
  obtain ⟨settlement, hsettlement⟩ := exists_settlementOf r.reserved amount.1
  obtain ⟨paid, -, hok⟩ := exists_applySettlement h hr hopen (settlementOf_splits hsettlement)
    (some amount.1) (some (.settled amount.2))
  rw [run_bind_of_ok ((run_ofExcept_ok _).mpr ⟨settlement, hsettlement, rfl⟩), hok] at hrun
  cases hrun

theorem release_ne_underflow (h : L.toBook.Conserved) (id : InvocationId) (reason : ReleaseReason)
    (d : Dimension) : L.run (Tx.release id reason) ≠ .error (.authz (.ledgerUnderflow d)) := by
  refine transition_ne_authz (fun source => nextState_ne_underflow source _ d) ?_
  intro r hr hopen hrun
  have hsplit : Settlement.Splits ⟨Cost.zero, r.reserved⟩ r.reserved := fun d => by simp
  obtain ⟨paid, -, hok⟩ :=
    exists_applySettlement h hr hopen hsplit r.actual (some (.released reason))
  rw [Tx.stageRelease, hok] at hrun
  cases hrun

theorem markUnknownEffect_ne_underflow (h : L.toBook.Conserved) (id : InvocationId)
    (d : Dimension) : L.run (Tx.markUnknownEffect id) ≠ .error (.authz (.ledgerUnderflow d)) := by
  refine transition_ne_authz (fun source => nextState_ne_underflow source _ d) ?_
  intro r hr hopen hrun
  obtain ⟨paid, -, hok⟩ := exists_applySettlement h hr hopen
    (unknownEffectSettlement_splits r.reserved) r.actual (some .unknownEffect)
  rw [Tx.stageUnknownEffect, hok] at hrun
  cases hrun

end Custody

/-! ## The stored ledgers -/

/-- The invocation records a store holds. -/
theorem World.Holds.openAll_invocations {w : World C} {K : KeyState C} {L : Custody C}
    (h : w.Holds K L) : ∃ rs, w.store.openAll InvocationRecord .invocation = .ok rs ∧
      (rs.map InvocationRecord.id).Nodup ∧ ∀ r, r ∈ rs ↔ L.invocations r.id = some r :=
  (Shelf.invocations K L).openAll_records h.represents h.reachable.named.invocations

/-- **Ledger conservation.**  In every reachable store, what a ledger was charged on a
dimension is the sum, over the invocation records that list it, of the reservation while
the invocation is open and of the debit once it is finished; a debit never exceeds its
reservation, and no settlement or release underflows. -/
theorem ledger_conservation {w : World C} (h : w.Reachable) :
    ∃ rs, w.store.openAll InvocationRecord .invocation = .ok rs ∧
      (∀ ledger, ∃ used, w.store.ledger ledger = .ok used ∧ ∀ d, (used.get d).toNat =
        ((rs.filter fun r => ledger ∈ r.ledgers).map fun r => (r.charge.get d).toNat).sum) ∧
      (∀ r ∈ rs, r.state.isTerminal = true → ∃ debited, r.debited = some debited ∧
        ∀ d, debited.get d ≤ r.reserved.get d) ∧
      ∀ id d, (∀ outcome, w.store.commit (Tx.settle id outcome) ≠
          .error (.authz (.ledgerUnderflow d))) ∧
        (∀ reason, w.store.commit (Tx.release id reason) ≠
          .error (.authz (.ledgerUnderflow d))) ∧
        w.store.commit (Tx.markUnknownEffect id) ≠ .error (.authz (.ledgerUnderflow d)) := by
  obtain ⟨K, L, h⟩ := h.holds
  have hconserved := h.reachable.conserved
  obtain ⟨rs, hrs, hnodup, hmem⟩ := h.openAll_invocations
  refine ⟨rs, hrs, ?_, ?_, ?_⟩
  · intro ledger
    refine ⟨_, h.represents.ledger_eq ledger, fun d => ?_⟩
    have hbalanced : ((L.used ledger).get d).toNat = _ := hconserved.balanced (ledger, d)
    rw [hbalanced, sum_eq_sum_map (f := fun id => ((L.invocations id).map fun r =>
      r.chargeOn (ledger, d)).getD 0) hnodup (fun r hr => by rw [(hmem r).mp hr]) ?_]
    · exact sum_map_ite
    · intro id hid
      cases hr : L.invocations id with
      | none => rfl
      | some r =>
        obtain rfl := h.reachable.named.invocations id r hr
        exact absurd (List.mem_map_of_mem ((hmem r).mpr hr)) hid
  · intro r hr hterminal
    obtain ⟨debited, hdebited, hle⟩ := hconserved.settled r.id r ((hmem r).mp hr) hterminal
    exact ⟨debited, hdebited, fun d => UInt64.le_iff_toNat_le.mpr (hle d)⟩
  · intro id d
    refine ⟨fun outcome => ?_, fun reason => ?_, ?_⟩
    · exact (h.represents.commit_related _).ne_error
        (Custody.settle_ne_underflow hconserved id outcome d)
    · exact (h.represents.commit_related _).ne_error
        (Custody.release_ne_underflow hconserved id reason d)
    · exact (h.represents.commit_related _).ne_error
        (Custody.markUnknownEffect_ne_underflow hconserved id d)

/-- A settled capture and the ledgers it was charged to. -/
theorem ledger_conservation_of_capture : ∃ w : World Crypto.ideal, w.Reachable ∧
    (w.store.invocationAt Sample.call).map InvocationRecord.state = some .settled ∧
    (w.store.ledger (.session Sample.session)).toOption = some Sample.oneFetch ∧
    ∃ rs, w.store.openAll InvocationRecord .invocation = .ok rs ∧
      ∀ ledger, ∃ used, w.store.ledger ledger = .ok used ∧ ∀ d, (used.get d).toNat =
        ((rs.filter fun r => ledger ∈ r.ledgers).map fun r => (r.charge.get d).toNat).sum := by
  obtain ⟨w, K, hreach, h⟩ :=
    Sample.exists_world (Sample.setUp ++ Sample.capture) (by decide +kernel)
  obtain ⟨rs, hrs, hsum, -⟩ := ledger_conservation hreach
  refine ⟨w, hreach, ?_, ?_, rs, hrs, hsum⟩
  · rw [h.represents.invocationAt_eq]
    decide +kernel
  · rw [h.represents.ledger_eq]
    decide +kernel

end Dioptron
