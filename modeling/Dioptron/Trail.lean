import Dioptron.System

/-! # The audit trail

The stubs of the trail are numbered from one without a gap, and each number is in exactly
one tenant's partition, under an entry that says what its stub says.  A transaction leaves
the trail as it is or adds the next number to it.
-/
namespace Dioptron

variable {C : Crypto}

/-- What a stub keeps of an entry. -/
def AuditEntryRecord.stub (e : AuditEntryRecord) : AuditStubRecord :=
  ⟨e.seq, e.invocation, e.capability, e.outcome, e.time⟩

namespace Custody

variable {L L' : Custody C}

/-- Both have the same trail. -/
structure SameTrail (L L' : Custody C) : Prop where
  stubs : L'.stubs = L.stubs
  audits : L'.audits = L.audits
  lastSeq : L'.lastSeq = L.lastSeq

/-- **A transaction** leaves the trail or adds one entry to it. -/
theorem Write.trail {t : Transaction C} (h : L.Write t L') :
    L.SameTrail L' ∨
      ∃ entry time, L.CanAudit entry.tenant ∧ (L.recorded entry time).SameTrail L' := by
  cases h with
  | quiet | installRootGrant | begin | dispatch | completeTransfer | publish =>
    exact .inl ⟨rfl, rfl, rfl⟩
  | refuse _ entry time _ _ haudit => exact .inr ⟨entry, time, haudit, rfl, rfl, rfl⟩
  | recordAudit note time _ haudit =>
    refine .inr ⟨note.entry, time, ?_, rfl, rfl, rfl⟩
    rw [note.entry_tenant]
    exact haudit
  | issueGrant _ _ _ time _ _ _ haudit =>
    exact .inr ⟨_, time, haudit, rfl, rfl, rfl⟩
  | revokeGrant revoke time _ _ _ _ haudit =>
    exact .inr ⟨revoke.entry, time, haudit, rfl, rfl, rfl⟩
  | openSession new parent _ time _ _ _ _ haudit =>
    exact .inr ⟨new.entry parent, time, haudit, rfl, rfl, rfl⟩
  | finish _ r _ _ terminal _ _ _ time _ _ _ _ _ _ _ haudit =>
    exact .inr ⟨terminalEntry r terminal, time, haudit, rfl, rfl, rfl⟩

/-- Only transactions write the trail. -/
theorem Step.trail (h : Custody.Step L L') :
    L.SameTrail L' ∨
      ∃ entry time, L.CanAudit entry.tenant ∧ (L.recorded entry time).SameTrail L' := by
  cases h with
  | transact t h => exact (transact_write t h).trail
  | register | bind | shred | clock => exact .inl ⟨rfl, rfl, rfl⟩

/-- A trail without gaps, each number in one partition. -/
structure Trail (L : Custody C) : Prop where
  bound : L.lastSeq < 2 ^ 64
  numbered : ∀ seq, (L.stubs seq).isSome ↔ 1 ≤ seq.toNat ∧ seq.toNat ≤ L.lastSeq
  entry : ∀ seq stub, L.stubs seq = some stub → ∃ t e, L.audits (t, seq) = some e ∧ e.stub = stub
  named : ∀ t seq e, L.audits (t, seq) = some e → e.tenant = t ∧ e.seq = seq ∧ (L.stubs seq).isSome
  single : ∀ t t' seq, (L.audits (t, seq)).isSome → (L.audits (t', seq)).isSome → t = t'

namespace Trail

theorem empty (address : AddressKeys C) (clock : Nat → Timestamp) :
    (Custody.empty address clock).Trail where
  bound := Nat.two_pow_pos 64
  numbered seq := by
    refine iff_of_false Bool.false_ne_true fun h => ?_
    have hzero : seq.toNat ≤ 0 := h.2
    omega
  entry _ _ h := by cases h
  named _ _ _ h := by cases h
  single _ _ _ h := by cases h

theorem of_same (h : L.Trail) (hsame : L.SameTrail L') : L'.Trail := by
  constructor
  · rw [hsame.lastSeq]
    exact h.bound
  · rw [hsame.stubs, hsame.lastSeq]
    exact h.numbered
  · rw [hsame.stubs, hsame.audits]
    exact h.entry
  · rw [hsame.stubs, hsame.audits]
    exact h.named
  · rw [hsame.audits]
    exact h.single

theorem nextSeq_toNat {t : TenantId} (haudit : L.CanAudit t) : L.nextSeq.toNat = L.lastSeq + 1 := by
  have hroom := haudit.room
  rw [nextSeq, UInt64.toNat_ofNat', Nat.mod_eq_of_lt hroom]

/-- The next number has no stub and no entry yet. -/
theorem stub_nextSeq (h : L.Trail) {t : TenantId} (haudit : L.CanAudit t) :
    L.stubs L.nextSeq = none := by
  rw [← Option.not_isSome_iff_eq_none, h.numbered, nextSeq_toNat haudit]
  omega

theorem audit_nextSeq (h : L.Trail) {t : TenantId} (haudit : L.CanAudit t) (t' : TenantId) :
    L.audits (t', L.nextSeq) = none := by
  cases he : L.audits (t', L.nextSeq) with
  | none => rfl
  | some e =>
    have hsome := (h.named _ _ e he).2.2
    rw [h.stub_nextSeq haudit] at hsome
    cases hsome

/-- The entries of a trail with one more. -/
theorem recorded_audits {entry : AuditEntry} {time : Timestamp} {t : TenantId} {seq : AuditSeq}
    {e : AuditEntryRecord} :
    (L.recorded entry time).audits (t, seq) = some e ↔
      (t = entry.tenant ∧ seq = L.nextSeq ∧ e = entry.record L.nextSeq time) ∨
        ((t, seq) ≠ (entry.tenant, L.nextSeq) ∧ L.audits (t, seq) = some e) := by
  show Function.update L.audits _ _ _ = _ ↔ _
  rw [Function.update_apply]
  split_ifs with heq
  · obtain ⟨rfl, rfl⟩ := Prod.mk.inj heq
    simp [eq_comm]
  · have hne : ¬(t = entry.tenant ∧ seq = L.nextSeq ∧ e = entry.record L.nextSeq time) :=
      fun h => heq (Prod.ext h.1 h.2.1)
    simp only [hne, ne_eq, heq, not_false_eq_true, true_and, false_or]

/-- **One more entry** keeps the trail without gaps. -/
theorem recorded (h : L.Trail) {entry : AuditEntry} (haudit : L.CanAudit entry.tenant)
    (time : Timestamp) : (L.recorded entry time).Trail := by
  have hnext := nextSeq_toNat haudit
  have hroom := haudit.room
  have hlast : (L.recorded entry time).lastSeq = L.lastSeq + 1 := by
    show max L.lastSeq L.nextSeq.toNat = _
    omega
  have hstub (seq : AuditSeq) : ((L.recorded entry time).stubs seq).isSome ↔
      seq = L.nextSeq ∨ (L.stubs seq).isSome := by
    show (Function.update L.stubs _ _ seq).isSome ↔ _
    rw [Function.update_apply]
    split_ifs with heq <;> simp [heq]
  constructor
  · omega
  · intro seq
    rw [hstub, h.numbered, hlast]
    constructor
    · rintro (rfl | hseq) <;> omega
    · rintro ⟨hone, hle⟩
      by_cases heq : seq.toNat = L.lastSeq + 1
      · exact .inl (UInt64.toNat_inj.mp (heq.trans hnext.symm))
      · exact .inr ⟨hone, by omega⟩
  · intro seq stub hseq
    have hseq : Function.update L.stubs L.nextSeq _ seq = some stub := hseq
    rw [Function.update_apply] at hseq
    split_ifs at hseq with heq
    · cases hseq
      exact ⟨entry.tenant, _, recorded_audits.mpr (.inl ⟨rfl, heq, rfl⟩), rfl⟩
    · obtain ⟨t, e, he, hstub⟩ := h.entry seq stub hseq
      exact ⟨t, e, recorded_audits.mpr (.inr ⟨fun hpair => heq (Prod.mk.inj hpair).2, he⟩), hstub⟩
  · intro t seq e he
    rw [hstub]
    rcases recorded_audits.mp he with ⟨rfl, rfl, rfl⟩ | ⟨-, he⟩
    · exact ⟨rfl, rfl, .inl rfl⟩
    · obtain ⟨ht, hseq, hsome⟩ := h.named t seq e he
      exact ⟨ht, hseq, .inr hsome⟩
  · -- An old entry has an old number, so it cannot meet the new one.
    have hold {t : TenantId} {seq : AuditSeq} {e : AuditEntryRecord}
        (he : (L.recorded entry time).audits (t, seq) = some e) :
        t = entry.tenant ∧ seq = L.nextSeq ∨ seq ≠ L.nextSeq ∧ (L.audits (t, seq)).isSome := by
      rcases recorded_audits.mp he with ⟨ht, hseq, -⟩ | ⟨-, he⟩
      · exact .inl ⟨ht, hseq⟩
      · refine .inr ⟨?_, by rw [he]; rfl⟩
        rintro rfl
        rw [h.audit_nextSeq haudit] at he
        cases he
    intro t t' seq ht ht'
    obtain ⟨e, he⟩ := Option.isSome_iff_exists.mp ht
    obtain ⟨e', he'⟩ := Option.isSome_iff_exists.mp ht'
    rcases hold he with ⟨rfl, rfl⟩ | ⟨hne, hsome⟩
    · rcases hold he' with ⟨rfl, -⟩ | ⟨hne, -⟩
      · rfl
      · exact absurd rfl hne
    · rcases hold he' with ⟨-, heq⟩ | ⟨-, hsome'⟩
      · exact absurd heq hne
      · exact h.single t t' seq hsome hsome'

theorem step (h : L.Trail) (hstep : Custody.Step L L') : L'.Trail := by
  rcases hstep.trail with hsame | ⟨entry, time, haudit, hsame⟩
  · exact h.of_same hsame
  · exact (h.recorded haudit time).of_same hsame

end Trail

/-- **In every run the trail has no gaps**, and each number is in one partition. -/
theorem Reachable.trail (h : L.Reachable) : L.Trail := by
  refine h.invariant (fun L₀ h₀ => ?_) fun _ _ _ htrail hstep => htrail.step hstep
  obtain ⟨address, clock, rfl⟩ := h₀
  exact .empty address clock

end Custody
end Dioptron
