import Dioptron.Rerooting

/-! # The book as the authorization layer sees it

A read of the book fails only where a stored grant does not parse.  The lemmas here read
a view back into records, and say what moving ledgers does to the book.
-/
namespace Dioptron

variable {C : Crypto}

namespace Book

variable (b : Book C)

theorem view_grant_eq_some {id : GrantId} {g : Grant} :
    b.view.grant id = .ok (some g) ↔ ∃ r, b.grants id = some r ∧ r.toGrant = .ok g := by
  show Store.grantOf (b.grants id) = _ ↔ _
  cases b.grants id with
  | none => simp [Store.grantOf]
  | some r =>
    simp only [Store.grantOf, Option.some.injEq, exists_eq_left']
    cases r.toGrant with
    | error => simp [Except.map, Except.mapError]
    | ok => simp [Except.map, Except.mapError]

theorem view_grant_eq_none {id : GrantId} : b.view.grant id = .ok none ↔ b.grants id = none := by
  show Store.grantOf (b.grants id) = _ ↔ _
  cases b.grants id with
  | none => simp [Store.grantOf]
  | some r =>
    simp only [Store.grantOf, reduceCtorEq, iff_false]
    cases r.toGrant <;> simp [Except.map, Except.mapError]

@[simp] theorem view_revocation (id : GrantId) :
    b.view.revocation id = .ok ((b.revocations id).map RevocationRecord.toRevocation) := rfl

@[simp] theorem view_sessionOwner (id : SessionId) :
    b.view.sessionOwner id = .ok ((b.sessions id).map SessionRecord.owner) := rfl

@[simp] theorem view_tenantParent (id : TenantId) :
    b.view.tenantParent id = .ok ((b.profiles id).bind TenantProfile.parent) := rfl

/-! ## Ledgers -/

variable {b} {b' : Book C} {move : Cost → Except AuthzError Cost} {ids : List LedgerRef}

@[simp] theorem used_setLedger_self (id : LedgerRef) (used : Cost) :
    (b.setLedger id used).used id = used := by
  simp [Book.used, setLedger]

theorem used_setLedger_of_ne {id id' : LedgerRef} (hne : id' ≠ id) (used : Cost) :
    (b.setLedger id used).used id' = b.used id' := by
  simp only [Book.used, setLedger, Function.update_of_ne hne]

/-- With no ledger listed twice, each moves once from what it held. -/
theorem moveLedgers_moves (h : b.moveLedgers move ids = .ok b') (hnodup : ids.Nodup) :
    (∀ id ∉ ids, b'.used id = b.used id) ∧ ∀ id ∈ ids, move (b.used id) = .ok (b'.used id) := by
  induction ids generalizing b with
  | nil =>
    cases h
    exact ⟨fun _ _ => rfl, nofun⟩
  | cons id _ ih =>
    obtain ⟨hnot, hnodup⟩ := List.nodup_cons.mp hnodup
    rw [moveLedgers, bind_eq_ok] at h
    obtain ⟨used, hused, h⟩ := h
    obtain ⟨hout, hin⟩ := ih h hnodup
    refine ⟨?_, ?_⟩
    · intro id' hid'
      rw [List.mem_cons, not_or] at hid'
      rw [hout id' hid'.2, used_setLedger_of_ne hid'.1]
    · intro id' hid'
      rcases List.mem_cons.mp hid' with rfl | hid'
      · rw [hout id' hnot, used_setLedger_self, hused]
      · have hne : id' ≠ id := fun heq => hnot (heq ▸ hid')
        rw [← hin id' hid', used_setLedger_of_ne hne]

/-- Ledgers move when each of them can. -/
theorem exists_moveLedgers (hnodup : ids.Nodup)
    (h : ∀ id ∈ ids, ∃ used, move (b.used id) = .ok used) :
    ∃ b', b.moveLedgers move ids = .ok b' := by
  induction ids generalizing b with
  | nil => exact ⟨b, rfl⟩
  | cons id _ ih =>
    obtain ⟨hnot, hnodup⟩ := List.nodup_cons.mp hnodup
    obtain ⟨used, hused⟩ := h id List.mem_cons_self
    obtain ⟨b', hb'⟩ := ih (b := b.setLedger id used) hnodup (by
      intro id' hid'
      have hne : id' ≠ id := fun heq => hnot (heq ▸ hid')
      obtain ⟨used', hused'⟩ := h id' (List.mem_cons_of_mem _ hid')
      refine ⟨used', ?_⟩
      rw [← hused', used_setLedger_of_ne hne])
    exact ⟨b', by rw [moveLedgers, hused, ok_bind, hb']⟩

end Book

/-! ## What the ledgers of an allowed call are -/

namespace Allowed

variable {b : Book C} {request : AuthzRequest} {now : Timestamp} {chain : List Grant}
  {session : Option (SessionId × TenantId)} {ids : List GrantId} {reservation : ReservationPlan}

/-- **A call debits no ledger twice.** -/
theorem ledgers_nodup {view : Snapshot}
    (h : Allowed view request now chain session ids reservation) :
    (reservation.ledgers.map LedgerRef.fromLedgerId).Nodup := by
  refine List.Nodup.map LedgerRef.fromLedgerId_injective ?_
  rw [h.ledgers_eq]
  exact debited_nodup h.designated.ids_nodup session request.tenant

/-- The grants of the chain are stored. -/
theorem mem_grants (h : Allowed b.view request now chain session ids reservation) {link : Grant}
    (hlink : link ∈ chain) : ∃ r, b.grants link.id = some r ∧ r.toGrant = .ok link := by
  obtain ⟨leaf, hfound, hid, -, hlinked⟩ := h.designated.exists_leaf
  refine (Book.view_grant_eq_some b).mp (hlinked.view_grant ?_ hlink)
  rw [hid]
  exact hfound

/-- Every ledger of the call has an owner. -/
theorem hasOwner (h : Allowed b.view request now chain session ids reservation)
    (hlive : (b.profiles request.tenant).isSome) {id : LedgerRef}
    (hid : id ∈ reservation.ledgers.map LedgerRef.fromLedgerId) : b.HasOwner id := by
  obtain ⟨ledger, hledger, rfl⟩ := List.mem_map.mp hid
  rw [h.ledgers_eq, List.mem_append, List.mem_append, List.mem_singleton] at hledger
  rcases hledger with (hledger | hledger) | rfl
  · obtain ⟨link, hlink, rfl⟩ := List.mem_map.mp hledger
    obtain ⟨r, hr, -⟩ := h.mem_grants hlink
    show (b.grants link.id).isSome
    rw [hr]
    rfl
  · rcases session with _ | ⟨x, owner⟩
    · cases hledger
    · rw [List.mem_singleton.mp hledger]
      have howner := h.owner x owner rfl
      rw [Book.view_sessionOwner, Except.ok.injEq, Option.map_eq_some_iff] at howner
      obtain ⟨r, hr, -⟩ := howner
      show (b.sessions x).isSome
      rw [hr]
      rfl
  · exact .inl hlive

end Allowed
end Dioptron
