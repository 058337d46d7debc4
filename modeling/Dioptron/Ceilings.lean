import Dioptron.Conservation

/-! # No overspending

No ledger is charged past a ceiling its owner's record sets.  A plan that fits was
checked against every ledger it debits on the very book it is written to, so the single
writer keeps every ceiling, in whatever order it takes the calls.
-/
namespace Dioptron

variable {C : Crypto} {b : Book C}

/-- The ceilings the owner of a ledger sets. -/
def Book.ceilingsOf (b : Book C) : LedgerRef → Ceilings
  | .grant id => ((b.grants id).map GrantRecord.ceilings).getD Ceilings.default
  | .session id => ((b.sessions id).map SessionRecord.ceilings).getD Ceilings.default
  | .tenant id => ((b.profiles id).map TenantProfile.ceilings).getD Ceilings.default

def Book.WithinCeilings (b : Book C) : Prop :=
  ∀ ledger d ceiling, (b.ceilingsOf ledger).get d = some ceiling →
    ((b.used ledger).get d).toNat ≤ ceiling.toNat

/-- A ledger without an owner was never written. -/
theorem Book.Owned.ledger_eq_none (h : b.Owned) {ledger : LedgerRef} (hnone : ¬ b.HasOwner ledger) :
    b.ledgers ledger = none := by
  rw [← Option.not_isSome_iff_eq_none]
  exact fun hsome => hnone (h.ledgers ledger hsome)

theorem Book.used_of_none {ledger : LedgerRef} (h : b.ledgers ledger = none) :
    b.used ledger = Cost.zero := by
  rw [used, h]
  rfl

/-- The state an allowed call was checked against is the ledger's, with its owner's
ceilings. -/
theorem LedgerOf.state_eq {tenant : TenantId} {chain : List Grant}
    {session : Option (SessionId × TenantId)} {ledger : LedgerState}
    (h : LedgerOf b.view tenant chain session ledger)
    (hchain : ∀ link ∈ chain, ∃ r, b.grants link.id = some r ∧ r.toGrant = .ok link) :
    ledger.ceilings = b.ceilingsOf (.fromLedgerId ledger.id) ∧
      ledger.used = b.used (.fromLedgerId ledger.id) := by
  cases h with
  | grant hlink hused =>
    obtain ⟨r, hr, hgrant⟩ := hchain _ hlink
    obtain ⟨scope, -, rfl⟩ := GrantRecord.toGrant_eq_ok hgrant
    refine ⟨?_, (Except.ok.inj hused).symm⟩
    simp only [LedgerRef.fromLedgerId, Book.ceilingsOf]
    rw [hr]
    rfl
  | session _ hceilings hused =>
    exact ⟨(Except.ok.inj hceilings).symm, (Except.ok.inj hused).symm⟩
  | tenant hceilings hused =>
    exact ⟨(Except.ok.inj hceilings).symm, (Except.ok.inj hused).symm⟩

/-- **A plan that fits** leaves room on every ledger it debits. -/
theorem Allowed.covers_ledger {request : AuthzRequest} {now : Timestamp} {chain : List Grant}
    {session : Option (SessionId × TenantId)} {ids : List GrantId} {plan : ReservationPlan}
    (h : Allowed b.view request now chain session ids plan) {ledger : LedgerRef}
    (hledger : ledger ∈ plan.ledgers.map LedgerRef.fromLedgerId) (d : Dimension) :
    ((b.used ledger).get d).toNat + (plan.cost.get d).toNat < 2 ^ 64 ∧
      ∀ ceiling, (b.ceilingsOf ledger).get d = some ceiling →
        ((b.used ledger).get d).toNat + (plan.cost.get d).toNat ≤ ceiling.toNat := by
  obtain ⟨id, hid, rfl⟩ := List.mem_map.mp hledger
  obtain ⟨states, hstates, hall⟩ := h.covers
  rw [← hstates] at hid
  obtain ⟨state, hstate, rfl⟩ := List.mem_map.mp hid
  obtain ⟨hof, hcovers⟩ := hall state hstate
  obtain ⟨hceilings, hused⟩ := hof.state_eq fun _ => h.mem_grants
  rw [h.cost_eq, ← hceilings, ← hused]
  exact hcovers d

namespace Book.WithinCeilings

variable {b b' : Book C}

variable (h : b.WithinCeilings)

include h

/-- A step leaves every ledger with its ceilings and no more charge, or uncharged, or
without ceilings. -/
theorem of_ledgers
    (hledgers : ∀ ledger, (b'.ceilingsOf ledger = b.ceilingsOf ledger ∧
        ∀ d, ((b'.used ledger).get d).toNat ≤ ((b.used ledger).get d).toNat) ∨
      b'.used ledger = Cost.zero ∨ b'.ceilingsOf ledger = Ceilings.default) :
    b'.WithinCeilings := by
  intro ledger d ceiling hceiling
  rcases hledgers ledger with ⟨hsame, hle⟩ | hzero | hnone
  · rw [hsame] at hceiling
    exact (hle d).trans (h ledger d ceiling hceiling)
  · rw [hzero, Cost.get_zero]
    exact Nat.zero_le _
  · rw [hnone, Ceilings.get_default] at hceiling
    cases hceiling

/-- A new owner comes with an uncharged ledger. -/
theorem of_newOwner (new : LedgerRef) (hnew : b.ledgers new = none)
    (hused : b'.used = b.used)
    (hsame : ∀ ledger, ledger ≠ new → b'.ceilingsOf ledger = b.ceilingsOf ledger) :
    b'.WithinCeilings := by
  refine h.of_ledgers fun ledger => ?_
  rcases eq_or_ne ledger new with rfl | hne
  · right
    left
    rw [hused, Book.used_of_none hnew]
  · exact .inl ⟨hsame ledger hne, fun d => by rw [hused]⟩

theorem of_newGrant (howned : b.Owned) {r : GrantRecord}
    (hnew : b.grants r.id = none) : (b.setGrant r).WithinCeilings := by
  refine h.of_newOwner (.grant r.id) (howned.ledger_eq_none ?_) rfl ?_
  · simp [Book.HasOwner, hnew]
  · rintro (id | id | id) hne
    · simp only [Book.ceilingsOf, Book.setGrant]
      rw [Function.update_of_ne (fun heq => hne (by rw [heq]))]
    · rfl
    · rfl

/-- **One step keeps every ceiling.** -/
theorem step (howned : b.Owned) (honce : b.LedgersListedOnce)
    (hstep : Book.Step b b') : b'.WithinCeilings := by
  have hquiet (hceilings : b'.ceilingsOf = b.ceilingsOf) (hused : b'.used = b.used) :
      b'.WithinCeilings :=
    h.of_ledgers fun ledger => .inl ⟨by rw [hceilings], fun d => by rw [hused]⟩
  cases hstep with
  | register p hnew hstone =>
    refine h.of_newOwner (.tenant p.id) (howned.ledger_eq_none ?_) rfl ?_
    · simp [Book.HasOwner, hnew, hstone]
    · rintro (id | id | id) hne
      · rfl
      · rfl
      · simp only [Book.ceilingsOf]
        rw [Function.update_of_ne (fun heq => hne (by rw [heq]))]
  | shred tenant =>
    refine h.of_ledgers fun ledger => ?_
    rcases eq_or_ne ledger (.tenant tenant) with rfl | hne
    · right
      right
      simp [Book.ceilingsOf]
    · refine .inl ⟨?_, fun d => le_rfl⟩
      cases ledger with
      | grant id | session id => rfl
      | tenant =>
        simp only [Book.ceilingsOf]
        rw [Function.update_of_ne (fun heq => hne (by rw [heq]))]
  | install _ _ hgrant _ hnew =>
    exact h.of_newGrant howned (by rw [← hnew, ← RootGrant.id_of_toGrant hgrant]; rfl)
  | issue _ _ _ _ _ hnew => exact h.of_newGrant howned hnew
  | revoke => exact hquiet rfl rfl
  | openSession r _ _ hnew =>
    refine h.of_newOwner (.session r.id) (howned.ledger_eq_none ?_) rfl ?_
    · simp [Book.HasOwner, hnew]
    · rintro (id | id | id) hne
      · rfl
      · simp only [Book.ceilingsOf, Book.setSession]
        rw [Function.update_of_ne (fun heq => hne (by rw [heq]))]
      · rfl
  | bind => exact hquiet rfl rfl
  | @persist charged _ _ plan _ _ hadmits =>
    obtain ⟨links, session, hallowed⟩ := authorize_allowed hadmits.auth
    obtain ⟨f, hf, -⟩ := Book.moveLedgers_frame hadmits.debit
    obtain ⟨hout, hin⟩ := Book.moveLedgers_moves hadmits.debit hallowed.ledgers_nodup
    intro ledger d ceiling hceiling
    have hceiling : (b.ceilingsOf ledger).get d = some ceiling := by
      rw [hf] at hceiling
      exact hceiling
    show ((charged.used ledger).get d).toNat ≤ _
    by_cases hlisted : ledger ∈ plan.ledgers.map LedgerRef.fromLedgerId
    · rw [reserve_eq_ok.mp (hin ledger hlisted) d]
      exact (hallowed.covers_ledger hlisted d).2 ceiling hceiling
    · rw [hout ledger hlisted]
      exact h ledger d ceiling hceiling
  | dispatch => exact hquiet rfl rfl
  | transfer => exact hquiet rfl rfl
  | publish => exact hquiet rfl rfl
  | finish id r _ _ _ _ _ _ hr _ _ _ _ hpaid =>
    obtain ⟨f, hf, -⟩ := Book.moveLedgers_frame hpaid
    obtain ⟨hout, hin⟩ := Book.moveLedgers_moves hpaid (honce id r hr)
    refine h.of_ledgers fun ledger => .inl ⟨by rw [hf]; rfl, fun d => ?_⟩
    by_cases hlisted : ledger ∈ r.ledgers
    · have hmoved := release_eq_ok.mp (hin ledger hlisted) d
      exact (Nat.le_add_right _ _).trans_eq hmoved
    · exact le_of_eq (by rw [← hout ledger hlisted]; rfl)

end Book.WithinCeilings

theorem Custody.Reachable.withinCeilings {L : Custody C} (h : L.Reachable) :
    L.toBook.WithinCeilings := by
  refine h.book_induction ?_ fun L _ hreach hwithin hstep =>
    hwithin.step hreach.owned hreach.conserved.once hstep
  intro ledger d ceiling _
  rw [Book.used_of_none rfl, Cost.get_zero]
  exact Nat.zero_le _

/-! ## Debits -/

namespace Custody

variable {L : Custody C}

theorem record_avoids {T : Type} [Stored C.Block T] (n : GlobalName) (e : AuthzError) :
    (Tx.record T n : Tx C (Option T)).Avoids (.authz e) := by
  refine .bind (.perform _) fun found => ?_
  cases found with
  | none => trivial
  | some =>
    refine .bind (.ofExcept ?_) fun _ => trivial
    unfold decodeAs
    split <;> simp

/-- Debiting what a plan that fits reserves goes through. -/
theorem exists_debited {intent : Intent C} {chain : List GrantId} {plan : ReservationPlan}
    {decided : Timestamp}
    (hauth : authorize L.toBook.view intent.authz decided = .ok (.allowed chain plan)) :
    ∃ charged, L.toBook.moveLedgers (fun used => reserve used plan.cost)
      (plan.ledgers.map LedgerRef.fromLedgerId) = .ok charged := by
  obtain ⟨links, session, hallowed⟩ := authorize_allowed hauth
  exact Book.exists_moveLedgers hallowed.ledgers_nodup fun ledger hledger =>
    exists_reserve fun d => (hallowed.covers_ledger hledger d).1

theorem persist_ne_authz {intent : Intent C} {keys : KeyHandle} {chain : List GrantId}
    {plan : ReservationPlan} {decided : Timestamp}
    (hauth : authorize L.toBook.view intent.authz decided = .ok (.allowed chain plan))
    (e : AuthzError) : L.run (Tx.persist intent keys chain plan) ≠ .error (.authz e) := by
  obtain ⟨charged, hcharged⟩ := exists_debited hauth
  have hintent : L.run (Tx.intentRecord intent chain plan) = .ok
      (intent.fresh chain plan (L.clock 0), Custody.tick { L with toBook := charged }) := by
    unfold Tx.intentRecord Tx.debitReservation
    rw [run_bind_of_ok (run_bind_of_ok (run_moveLedgers_ok.mpr ⟨charged, hcharged, rfl⟩))]
    rfl
  unfold Tx.persist
  rw [run_bind_of_ok hintent]
  exact run_ne_authz (.bind (.perform _) fun _ => .bind (.perform _) fun _ => trivial)

theorem sessionOwnerShredded_avoids (session : Option SessionId) (e : AuthzError) :
    (Tx.sessionOwnerShredded session : Tx C Bool).Avoids (.authz e) := by
  cases session with
  | none => trivial
  | some =>
    refine .bind (record_avoids _ e) fun found => ?_
    cases found with
    | none => trivial
    | some => exact .bind (.perform _) fun _ => trivial

theorem decideIntent_authz {intent : Intent C} {keys : KeyHandle} {e : AuthzError}
    (h : L.run (Tx.decideIntent intent keys) = .error (.authz e)) :
    authorize L.toBook.view intent.authz (L.clock 0) = .error e := by
  have hrefuse (failure : Failure) : L.tick.run (Tx.refuse intent failure) ≠ .error (.authz e) :=
    run_ne_authz (.bind (appendAudit_avoids _ e) fun _ => trivial)
  rw [Tx.decideIntent, run_bind_invocationRecord] at h
  rcases run_bind_eq_error.mp h with h | ⟨_, mid, hguard, h⟩
  · refine absurd h (run_ne_authz (.ofExcept ?_))
    unfold ensure
    split_ifs <;> simp
  obtain ⟨-, hmid⟩ := (run_guard_ok L).mp hguard
  cases hmid
  rw [run_bind_view, run_bind_now] at h
  cases hdecision : authorize L.toBook.view intent.authz (L.clock 0) with
  | error =>
    rcases run_bind_eq_error.mp h with h | ⟨decision, _, hok, -⟩
    · rw [Tx.decide, run, Program.run_ofExcept, hdecision] at h
      cases h
      rfl
    · obtain ⟨_, hok, -⟩ := (run_decide_ok _).mp hok
      rw [hdecision] at hok
      cases hok
  | ok decision =>
    rw [run_bind_of_ok ((run_decide_ok _).mpr ⟨decision, hdecision, rfl⟩)] at h
    cases decision with
    | allowed =>
      rcases run_bind_eq_error.mp h with h | ⟨shredded, mid, hshredded, h⟩
      · exact absurd h (run_ne_authz (sessionOwnerShredded_avoids _ e))
      obtain ⟨hmid, -⟩ := run_sessionOwnerShredded hshredded
      have hmid : mid = L.tick := hmid
      subst hmid
      cases shredded with
      | true => exact absurd h (hrefuse _)
      | false => exact absurd h (persist_ne_authz (L := L.tick) hdecision e)
    | denied code | budgetExceeded d | notFoundOrDenied => exact absurd h (hrefuse _)

/-- **`begin` raises a fault only where its decision does.** -/
theorem begin_authz {intent : Intent C} {e : AuthzError}
    (h : L.run (Tx.begin intent) = .error (.authz e)) :
    authorize L.toBook.view intent.authz (L.clock 0) = .error e := by
  rcases run_bind_eq_error.mp h with h | ⟨keys, mid, hkeys, h⟩
  · exact absurd h (run_ne_authz (.perform _))
  obtain ⟨hlive, hkeys⟩ := (run_tenantKeys_ok L).mp hkeys
  cases hkeys
  rw [run_bind_of_ok ((run_sealedRecord_ok L (x := L.idem intent.slot) rfl).mpr ⟨hlive, rfl⟩)] at h
  cases hidem : L.idem intent.slot with
  | some idem =>
    rw [hidem] at h
    refine absurd h (run_ne_authz ?_)
    show (Tx.replay intent idem).Avoids _
    unfold Tx.replay
    split
    · exact .bind (record_avoids _ e) fun _ => .bind (.expect nofun) fun _ => trivial
    · trivial
  | none =>
    rw [hidem] at h
    exact decideIntent_authz h

end Custody

/-! ## The stored ledgers -/

/-- What a persisted `begin` did to the ledgers: each one of the plan was debited once,
by the whole cost, and no other. -/
theorem Begun.debits {L L' : Custody C} {intent : Intent C} {status : InvocationStatus}
    (h : Begun L intent (.persisted status) L') :
    ∃ chain plan decided, authorize L.toBook.view intent.authz decided = .ok (.allowed chain plan) ∧
      (plan.ledgers.map LedgerRef.fromLedgerId).Nodup ∧ ∀ ledger d,
        ((L'.used ledger).get d).toNat = ((L.used ledger).get d).toNat +
          if ledger ∈ plan.ledgers.map LedgerRef.fromLedgerId then (plan.cost.get d).toNat
          else 0 := by
  obtain ⟨chain, plan, decided, now, clock, hadmits⟩ := h
  obtain ⟨links, session, hallowed⟩ := authorize_allowed hadmits.auth
  obtain ⟨hout, hin⟩ := Book.moveLedgers_moves hadmits.debit hallowed.ledgers_nodup
  refine ⟨chain, plan, decided, hadmits.auth, hallowed.ledgers_nodup, fun ledger d => ?_⟩
  split_ifs with hlisted
  · exact reserve_eq_ok.mp (hin ledger hlisted) d
  · rw [← hout ledger hlisted]
    rfl

/-- **No overspending.**  In every reachable store, no ledger is charged past a ceiling
its owner's record sets; a `begin` whose plan fits raises no fault, and one that persists
debits every ledger of its plan exactly once. -/
theorem no_overspending {w : World C} (h : w.Reachable) :
    (∀ id r, w.store.record GrantRecord (.global (.grant id)) = .ok (some r) →
      ∃ used, w.store.ledger (.grant id) = .ok used ∧
        ∀ d ceiling, r.ceilings.get d = some ceiling → used.get d ≤ ceiling) ∧
    (∀ id r, w.store.record SessionRecord (.global (.session id)) = .ok (some r) →
      ∃ used, w.store.ledger (.session id) = .ok used ∧
        ∀ d ceiling, r.ceilings.get d = some ceiling → used.get d ≤ ceiling) ∧
    (∀ id r, w.store.tenantRecord id = .ok (some r) →
      ∃ used, w.store.ledger (.tenant id) = .ok used ∧
        ∀ d ceiling, r.ceilings.get d = some ceiling → used.get d ≤ ceiling) ∧
    ∀ intent, (∀ chain plan e, authorize w.store.view intent.authz (w.store.clock 0) =
          .ok (.allowed chain plan) → w.store.commit (Tx.begin intent) ≠ .error (.authz e)) ∧
      ∀ status s', w.store.commit (Tx.begin intent) = .ok (.persisted status, s') →
        ∃ chain plan decided,
          authorize w.store.view intent.authz decided = .ok (.allowed chain plan) ∧
          (plan.ledgers.map LedgerRef.fromLedgerId).Nodup ∧
          ∀ ledger, ∃ used used', w.store.ledger ledger = .ok used ∧
            s'.ledger ledger = .ok used' ∧ ∀ d, (used'.get d).toNat = (used.get d).toNat +
              if ledger ∈ plan.ledgers.map LedgerRef.fromLedgerId then (plan.cost.get d).toNat
              else 0 := by
  obtain ⟨K, L, h⟩ := h.holds
  have hrep := h.represents
  have hwithin := h.reachable.withinCeilings
  have hbound {ledger : LedgerRef} {ceilings : Ceilings}
    (hceilings : L.ceilingsOf ledger = ceilings) :
      ∃ used, w.store.ledger ledger = .ok used ∧
        ∀ d ceiling, ceilings.get d = some ceiling → used.get d ≤ ceiling := by
    subst hceilings
    exact ⟨_, hrep.ledger_eq ledger, fun d ceiling hceiling =>
      UInt64.le_iff_toNat_le.mpr (hwithin ledger d ceiling hceiling)⟩
  refine ⟨?_, ?_, ?_, ?_⟩
  · intro id r hr
    rw [hrep.record_eq (x := L.grants id) (Name.storeScoped_global _) rfl] at hr
    exact hbound (by rw [Book.ceilingsOf, Except.ok.inj hr]; rfl)
  · intro id r hr
    rw [hrep.record_eq (x := L.sessions id) (Name.storeScoped_global _) rfl] at hr
    exact hbound (by rw [Book.ceilingsOf, Except.ok.inj hr]; rfl)
  · intro id r hr
    rw [hrep.tenantRecord_eq] at hr
    obtain ⟨p, hp, rfl⟩ := Option.map_eq_some_iff.mp (Except.ok.inj hr)
    exact hbound (by rw [Book.ceilingsOf, hp]; rfl)
  · intro intent
    rw [hrep.view_eq, hrep.clock]
    refine ⟨?_, ?_⟩
    · intro chain plan e hauth
      refine (hrep.commit_related _).ne_error fun herror => ?_
      rw [Custody.begin_authz herror] at hauth
      cases hauth
    · intro status s' hs'
      obtain ⟨L', hL', hrep'⟩ := hrep.commit_ok hs'
      obtain ⟨chain, plan, decided, hauth, hnodup, hdebits⟩ := (Custody.begin_begun hL').debits
      exact ⟨chain, plan, decided, hauth, hnodup, fun ledger =>
        ⟨_, _, hrep.ledger_eq ledger, hrep'.ledger_eq ledger, hdebits ledger⟩⟩

/-- A capture under grants that allow two fetches. -/
theorem no_overspending_of_begin : ∃ (w : World Crypto.ideal) (s' : Store Crypto.ideal),
    w.Reachable ∧ w.store.commit (Tx.begin Sample.intent) = .ok (.persisted Sample.begun, s') ∧
    ∃ chain plan decided,
      authorize w.store.view Sample.intent.authz decided = .ok (.allowed chain plan) ∧
      ∀ ledger, ∃ used used', w.store.ledger ledger = .ok used ∧ s'.ledger ledger = .ok used' ∧
        ∀ d, (used'.get d).toNat = (used.get d).toNat +
          if ledger ∈ plan.ledgers.map LedgerRef.fromLedgerId then (plan.cost.get d).toNat
          else 0 := by
  obtain ⟨w, K, hreach, h⟩ := Sample.exists_setUp
  have hreply : ((Sample.book Sample.setUp).run (Tx.begin Sample.intent)).toOption.map Prod.fst =
      some (.persisted Sample.begun) := by decide +kernel
  obtain ⟨L', hbegin⟩ := Custody.exists_of_reply hreply
  obtain ⟨s', hcommit, -⟩ := h.represents.commit_of_run hbegin
  obtain ⟨-, -, -, hbegins⟩ := no_overspending hreach
  obtain ⟨chain, plan, decided, hauth, -, hdebits⟩ := (hbegins Sample.intent).2 _ _ hcommit
  exact ⟨w, s', hreach, hcommit, chain, plan, decided, hauth, hdebits⟩

end Dioptron
