import Dioptron.Scans

/-! # Records lie under their own names

Shredding and root rotation scan keyspaces and trust the id inside each record: they
never see which name it was stored at.  Both are the same, since every write names a
record after itself; here this is an invariant of every transaction.
-/
namespace Dioptron

variable {C : Crypto}

/-- Every record names the place it lies at. -/
structure Custody.Named (L : Custody C) : Prop where
  profiles : ∀ t p, L.profiles t = some p → p.id = t
  tombstones : ∀ t r, L.tombstones t = some r → r.tenant = t
  grants : ∀ id r, L.grants id = some r → r.id = id
  revocations : ∀ id r, L.revocations id = some r → r.grant = id
  sessions : ∀ id r, L.sessions id = some r → r.id = id
  invocations : ∀ id r, L.invocations id = some r → r.id = id
  locators : ∀ id r, L.locators id = some r → r.artifact = id
  stubs : ∀ seq r, L.stubs seq = some r → r.seq = seq

/-- Storing a record under its own name keeps a table named. -/
theorem named_update {ι T : Type} [DecidableEq ι] {f : ι → Option T} {name : T → ι}
    (h : ∀ i r, f i = some r → name r = i) (r : T) :
    ∀ i r', Function.update f (name r) (some r) i = some r' → name r' = i := by
  intro i r' hr'
  rw [Function.update_apply] at hr'
  split_ifs at hr' with hi
  · cases hr'
    exact hi.symm
  · exact h i r' hr'

namespace Custody.Named

variable {L : Custody C}

variable (h : L.Named)

include h

theorem put (e : GlobalEntry) : (L.put e).Named := by
  cases e with
  | grant r => exact { h with grants := named_update h.grants r }
  | revocation r => exact { h with revocations := named_update h.revocations r }
  | session r => exact { h with sessions := named_update h.sessions r }
  | invocation r => exact { h with invocations := named_update h.invocations r }
  | ledger => exact { h with }
  | locator r => exact { h with locators := named_update h.locators r }
  | auditStub r => exact { h with stubs := named_update h.stubs r }

theorem putSealed (t : TenantId) (e : TenantEntry C.Block) :
    (L.putSealed t e).Named := by
  cases e <;> exact { h with }

theorem removeSealed (t : TenantId) (n : TenantName C.Block) :
    (L.removeSealed t n).Named := by
  cases n <;> exact { h with }

theorem setClock (clock : Nat → Timestamp) :
    Custody.Named { L with clock := clock } := { h with }

theorem tick : L.tick.Named := h.setClock _

theorem register (p : TenantProfile) (address : AddressKeys C) :
    (L.register p address).Named :=
  { h with profiles := named_update h.profiles p }

end Custody.Named

/-- What a primitive does to the book. -/
theorem Custody.handler_effect {L : Custody C} {β : Type} {p : Prim C β} {r : β × Custody C}
    (h : Custody.handler β p L = .ok r) :
    r.2 = L ∨ r.2 = L.tick ∨ (∃ e, r.2 = L.put e) ∨
      (∃ t e, (L.profiles t).isSome ∧ r.2 = L.putSealed t e) ∨
        ∃ t n, (L.profiles t).isSome ∧ r.2 = L.removeSealed t n := by
  cases p with
  | now =>
    cases h
    exact .inr (.inl rfl)
  | view | profile | tombstone | get | contains =>
    cases h
    exact .inl rfl
  | put entry =>
    obtain ⟨_, _, hr⟩ := bind_eq_ok.mp h
    cases hr
    exact .inr (.inr (.inl ⟨entry, rfl⟩))
  | nextAuditSeq | tenantKeys | blobAddress | getSealed | containsSealed =>
    obtain ⟨_, _, hr⟩ := bind_eq_ok.mp h
    cases hr
    exact .inl rfl
  | liveTenantKeys =>
    simp only [Custody.handler] at h
    split at h <;> cases h <;> exact .inl rfl
  | putSealed _ entry =>
    obtain ⟨_, hlive, h⟩ := bind_eq_ok.mp h
    obtain ⟨_, _, hr⟩ := bind_eq_ok.mp h
    cases hr
    exact .inr (.inr (.inr (.inl ⟨_, entry, (checkLive_eq_ok L).mp hlive, rfl⟩)))
  | removeSealed _ n =>
    obtain ⟨_, hlive, hr⟩ := bind_eq_ok.mp h
    cases hr
    exact .inr (.inr (.inr (.inr ⟨_, n, (checkLive_eq_ok L).mp hlive, rfl⟩)))

/-- Every transaction keeps records under their own names. -/
theorem Custody.Named.run {α : Type} {L : Custody C} (h : L.Named) {tx : Tx C α}
    {r : α × Custody C} (hr : L.run tx = .ok r) : r.2.Named := by
  refine Program.run_keeps (R := fun L L' : Custody C => L.Named → L'.Named) (fun _ h => h)
    (fun _ _ _ h₁ h₂ h => h₂ (h₁ h)) ?_ hr h
  intro β p L r hprim h
  rcases Custody.handler_effect hprim with
    hr | hr | ⟨e, hr⟩ | ⟨t, e, -, hr⟩ | ⟨t, n, -, hr⟩ <;> rw [hr]
  · exact h
  · exact h.tick
  · exact h.put e
  · exact h.putSealed t e
  · exact h.removeSealed t n

end Dioptron
