import Dioptron.Book

/-! # Transactions on the book

A second meaning of the record primitives, without cryptography: the book together with
captured envelopes, index entries and the audit trail.  Every transaction of the store
runs on it, and each one is shown to do nothing to the book or to take one `Book.Step`.
-/
namespace Dioptron

variable {C : Crypto}

structure Custody (C : Crypto) extends Book C where
  blobs : TenantId × C.Block → Option Bytes
  sessionIndex : TenantId × SessionId × ArtifactRef → Option SessionIndexRecord
  stubs : AuditSeq → Option AuditStubRecord
  audits : TenantId × AuditSeq → Option AuditEntryRecord
  address : TenantId → AddressKeys C
  lastSeq : Nat
  clock : Nat → Timestamp

namespace Custody

def global (L : Custody C) : GlobalName → Option (Plain C.Block)
  | .grant id => (L.grants id).map .grant
  | .revocation id => (L.revocations id).map .revocation
  | .session id => (L.sessions id).map .session
  | .invocation id => (L.invocations id).map .invocation
  | .ledger id => (L.ledgers id).map .ledger
  | .locator id => (L.locators id).map .locator
  | .auditStub seq => (L.stubs seq).map .auditStub

def sealed (L : Custody C) (tenant : TenantId) : TenantName C.Block → Option (Plain C.Block)
  | .idem capability key => (L.idem (tenant, capability, key)).map .idem
  | .artifact id => (L.artifacts (tenant, id)).map .artifact
  | .pending id => (L.pending (tenant, id)).map .artifact
  | .blob address => (L.blobs (tenant, address)).map .blob
  | .sessionIndex session id => (L.sessionIndex (tenant, session, id)).map .sessionIndex
  | .audit seq => (L.audits (tenant, seq)).map .audit

def put (L : Custody C) : GlobalEntry → Custody C
  | .grant r => { L with toBook := L.toBook.setGrant r }
  | .revocation r => { L with toBook := L.toBook.setRevocation r }
  | .session r => { L with toBook := L.toBook.setSession r }
  | .invocation r => { L with toBook := L.toBook.setInvocation r }
  | .ledger id r => { L with toBook := L.toBook.setLedger id r.used }
  | .locator r => { L with locators := Function.update L.locators r.artifact (some r) }
  | .auditStub r => { L with
      stubs := Function.update L.stubs r.seq (some r)
      lastSeq := max L.lastSeq r.seq.toNat }

def putSealed (L : Custody C) (tenant : TenantId) : TenantEntry C.Block → Custody C
  | .idem capability key r => { L with toBook := L.toBook.setIdem tenant capability key r }
  | .artifact r => { L with
      artifacts := Function.update L.artifacts (tenant, r.artifact) (some r) }
  | .pending r => { L with pending := Function.update L.pending (tenant, r.invocation) (some r) }
  | .blob address bytes => { L with
      blobs := Function.update L.blobs (tenant, address) (some bytes) }
  | .sessionIndex session r => { L with
      sessionIndex := Function.update L.sessionIndex (tenant, session, r.artifact) (some r) }
  | .audit r => { L with audits := Function.update L.audits (tenant, r.seq) (some r) }

def removeSealed (L : Custody C) (tenant : TenantId) : TenantName C.Block → Custody C
  | .idem capability key => { L with
      idem := Function.update L.idem (tenant, capability, key) none }
  | .artifact id => { L with artifacts := Function.update L.artifacts (tenant, id) none }
  | .pending id => { L with pending := Function.update L.pending (tenant, id) none }
  | .blob address => { L with blobs := Function.update L.blobs (tenant, address) none }
  | .sessionIndex session id => { L with
      sessionIndex := Function.update L.sessionIndex (tenant, session, id) none }
  | .audit seq => { L with audits := Function.update L.audits (tenant, seq) none }

/-- The clock moved on by one reading. -/
def tick (L : Custody C) : Custody C := { L with clock := fun i => L.clock (i + 1) }

/-- Fails for a tenant that is not registered or was shredded. -/
def checkLive (L : Custody C) (tenant : TenantId) : Except Error Unit :=
  match L.profiles tenant, L.tombstones tenant with
  | some _, _ => .ok ()
  | none, some _ => .error (.tenantShredded tenant)
  | none, none => .error (.tenantMissing tenant)

/-- Refuses a plaintext larger than a seal accepts. -/
def checkLen (p : Plain C.Block) : Except Error Unit :=
  ensure (C.encodedLen p ≤ maxPlaintextLen) (.plaintextTooLarge (C.encodedLen p))

def handler : Handler (Prim C) Error (Custody C) := fun _ p L =>
  match p with
  | .now => .ok (L.clock 0, L.tick)
  | .view => .ok (L.toBook.view, L)
  | .profile tenant => .ok (L.profiles tenant, L)
  | .tombstone tenant => .ok (L.tombstones tenant, L)
  | .get n => .ok (L.global n, L)
  | .contains n => .ok ((L.global n).isSome, L)
  | .put entry => do
    checkLen (C := C) entry.plain
    return ((), L.put entry)
  | .nextAuditSeq => do return (← succAuditSeq L.lastSeq, L)
  | .tenantKeys tenant => do
    L.checkLive tenant
    return (⟨tenant⟩, L)
  | .liveTenantKeys tenant =>
    match L.checkLive tenant with
    | .ok _ => .ok (some ⟨tenant⟩, L)
    | .error (.tenantShredded _) => .ok (none, L)
    | .error e => .error e
  | .blobAddress keys bytes => do
    L.checkLive keys.tenant
    return ((L.address keys.tenant).blobAddress bytes, L)
  | .getSealed keys n => do
    L.checkLive keys.tenant
    return (L.sealed keys.tenant n, L)
  | .containsSealed keys n => do
    L.checkLive keys.tenant
    return ((L.sealed keys.tenant n).isSome, L)
  | .putSealed keys entry => do
    L.checkLive keys.tenant
    checkLen (C := C) entry.plain
    return ((), L.putSealed keys.tenant entry)
  | .removeSealed keys n => do
    L.checkLive keys.tenant
    return ((), L.removeSealed keys.tenant n)

/-- Runs a transaction on the book. -/
def run {α : Type} (L : Custody C) (tx : Tx C α) : Except Error (α × Custody C) :=
  Program.run handler tx L

/-! ## Running the building blocks -/

section Run

variable (L : Custody C) {α β : Type} {r : α × Custody C} {t : TenantId}

theorem run_bind_ok {x : Tx C α} {f : α → Tx C β} {L : Custody C} {r : β × Custody C} :
    L.run (x >>= f) = .ok r ↔ ∃ a mid, L.run x = .ok (a, mid) ∧ mid.run (f a) = .ok r :=
  Program.run_bind_eq_ok handler

theorem run_bind_of_ok {x : Tx C α} {f : α → Tx C β} {L mid : Custody C} {a : α}
    (h : L.run x = .ok (a, mid)) : L.run (x >>= f) = mid.run (f a) := by
  rw [run, Program.run_bind]
  rw [run] at h
  rw [h]
  rfl

@[simp] theorem run_pure (a : α) : L.run (pure a : Tx C α) = .ok (a, L) := rfl

@[simp] theorem run_fail (e : Error) : L.run (.fail e : Tx C α) = .error e := rfl

@[simp] theorem run_perform (p : Prim C α) : L.run (.perform p) = handler α p L :=
  Program.run_perform handler L p

@[simp] theorem run_now : L.run Tx.now = .ok (L.clock 0, L.tick) := rfl

@[simp] theorem run_view : L.run Tx.view = .ok (L.toBook.view, L) := rfl

@[simp] theorem run_profile (t : TenantId) : L.run (Tx.profile t) = .ok (L.profiles t, L) := rfl

@[simp] theorem run_tombstone (t : TenantId) :
    L.run (Tx.tombstone t) = .ok (L.tombstones t, L) := rfl

theorem run_decoded {T : Type} [Stored C.Block T] (keyspace : Keyspace) (x : Option T) :
    L.run (Tx.decoded T keyspace (x.map Stored.encode)) = .ok (x, L) := by
  cases x with
  | none => rfl
  | some r =>
    have hdecode : Stored.decode (Stored.encode r : Plain C.Block) = some r :=
      (Stored.decode_eq_some _ r).mpr rfl
    simp only [Option.map_some, Tx.decoded, decodeAs, hdecode]
    rfl

/-- Reading a record on the book. -/
theorem run_record {T : Type} [Stored C.Block T] {n : GlobalName} {x : Option T}
    (h : L.global n = x.map Stored.encode) : L.run (Tx.record T n) = .ok (x, L) := by
  unfold Tx.record
  rw [run_bind_of_ok (run_perform L _)]
  show L.run (Tx.decoded T n.slot.keyspace (L.global n)) = _
  rw [h, run_decoded]

@[simp] theorem run_grantRecord (id : GrantId) :
    L.run (Tx.grantRecord id) = .ok (L.grants id, L) := run_record L rfl

@[simp] theorem run_revocationRecord (id : GrantId) :
    L.run (Tx.revocationRecord id) = .ok (L.revocations id, L) := run_record L rfl

@[simp] theorem run_sessionRecord (id : SessionId) :
    L.run (Tx.sessionRecord id) = .ok (L.sessions id, L) := run_record L rfl

@[simp] theorem run_invocationRecord (id : InvocationId) :
    L.run (Tx.invocationRecord id) = .ok (L.invocations id, L) := run_record L rfl

@[simp] theorem run_locatorRecord (id : ArtifactRef) :
    L.run (Tx.record LocatorRecord (.locator id)) = .ok (L.locators id, L) := run_record L rfl

@[simp] theorem run_ledger (id : LedgerRef) : L.run (Tx.ledger id) = .ok (L.used id, L) := by
  unfold Tx.ledger
  rw [run_bind_of_ok (run_record L (x := L.ledgers id) rfl)]
  rfl

theorem checkLive_eq_ok {u : Unit} : L.checkLive t = .ok u ↔ (L.profiles t).isSome := by
  unfold checkLive
  cases L.profiles t with
  | some => simp
  | none => cases L.tombstones t <;> simp

theorem run_tenantKeys_ok {r : KeyHandle × Custody C} :
    L.run (Tx.tenantKeys t) = .ok r ↔ (L.profiles t).isSome ∧ r = (⟨t⟩, L) := by
  rw [Tx.tenantKeys, run_perform, handler, bind_eq_ok]
  constructor
  · rintro ⟨u, hlive, hr⟩
    exact ⟨(checkLive_eq_ok L).mp hlive, (Except.ok.inj hr).symm⟩
  · rintro ⟨hlive, rfl⟩
    exact ⟨(), (checkLive_eq_ok L).mpr hlive, rfl⟩

theorem run_put_ok {entry : GlobalEntry} {r : Unit × Custody C} :
    L.run (Tx.put entry) = .ok r ↔
      C.encodedLen entry.plain ≤ maxPlaintextLen ∧ r = ((), L.put entry) := by
  rw [Tx.put, run_perform, handler, bind_eq_ok]
  constructor
  · rintro ⟨u, hlen, hr⟩
    exact ⟨ensure_eq_ok.mp hlen, (Except.ok.inj hr).symm⟩
  · rintro ⟨hlen, rfl⟩
    exact ⟨(), ensure_eq_ok.mpr hlen, rfl⟩

theorem run_putSealed_ok {keys : KeyHandle} {entry : TenantEntry C.Block} {r : Unit × Custody C} :
    L.run (Tx.putSealed keys entry) = .ok r ↔
      (L.profiles keys.tenant).isSome ∧ C.encodedLen entry.plain ≤ maxPlaintextLen ∧
        r = ((), L.putSealed keys.tenant entry) := by
  rw [Tx.putSealed, run_perform, handler, bind_eq_ok]
  constructor
  · rintro ⟨u, hlive, h⟩
    obtain ⟨u', hlen, hr⟩ := bind_eq_ok.mp h
    exact ⟨(checkLive_eq_ok L).mp hlive, ensure_eq_ok.mp hlen, (Except.ok.inj hr).symm⟩
  · rintro ⟨hlive, hlen, rfl⟩
    exact ⟨(), (checkLive_eq_ok L).mpr hlive, bind_eq_ok.mpr ⟨(), ensure_eq_ok.mpr hlen, rfl⟩⟩

/-- A primitive that needs a live tenant and then answers. -/
theorem bind_checkLive_ok {x : α × Custody C} :
    (L.checkLive t >>= fun _ => (pure x : Except Error (α × Custody C))) = .ok r ↔
      (L.profiles t).isSome ∧ r = x := by
  rw [bind_eq_ok]
  constructor
  · rintro ⟨u, hlive, hr⟩
    exact ⟨(checkLive_eq_ok L).mp hlive, (Except.ok.inj hr).symm⟩
  · rintro ⟨hlive, rfl⟩
    exact ⟨(), (checkLive_eq_ok L).mpr hlive, rfl⟩

theorem run_sealedRecord_ok {T : Type} [Stored C.Block T] {keys : KeyHandle}
    {n : TenantName C.Block} {x : Option T} {r : Option T × Custody C}
    (hx : L.sealed keys.tenant n = x.map Stored.encode) :
    L.run (Tx.sealedRecord T keys n) = .ok r ↔ (L.profiles keys.tenant).isSome ∧ r = (x, L) := by
  rw [Tx.sealedRecord, run_bind_ok]
  simp only [run_perform, handler, bind_checkLive_ok]
  constructor
  · rintro ⟨a, mid, ⟨hlive, hmid⟩, hr⟩
    cases hmid
    rw [hx, run_decoded] at hr
    exact ⟨hlive, (Except.ok.inj hr).symm⟩
  · rintro ⟨hlive, rfl⟩
    exact ⟨_, _, ⟨hlive, rfl⟩, by rw [hx, run_decoded]⟩

theorem run_guard_ok {c : Prop} [Decidable c] {e : Error} {r : Unit × Custody C} :
    L.run (.guard c e) = .ok r ↔ c ∧ r = ((), L) := by
  rw [run, Program.run_guard_eq_ok, Prod.ext_iff]
  simp

theorem run_expect_ok {x : Option α} {e : Error} :
    L.run (.expect x e) = .ok r ↔ ∃ a, x = some a ∧ r = (a, L) := by
  rw [run, Program.run_expect_eq_ok]
  constructor
  · rintro ⟨hx, hL⟩
    exact ⟨r.1, hx, Prod.ext rfl hL⟩
  · rintro ⟨a, hx, rfl⟩
    exact ⟨hx, rfl⟩

theorem run_ofExcept_ok {x : Except Error α} :
    L.run (.ofExcept x) = .ok r ↔ ∃ a, x = .ok a ∧ r = (a, L) := by
  rw [run, Program.run_ofExcept_eq_ok]
  constructor
  · rintro ⟨hx, hL⟩
    exact ⟨r.1, hx, Prod.ext rfl hL⟩
  · rintro ⟨a, hx, rfl⟩
    exact ⟨hx, rfl⟩

theorem run_decide_ok {x : Except AuthzError α} :
    L.run (Tx.decide x) = .ok r ↔ ∃ a, x = .ok a ∧ r = (a, L) := by
  simp only [Tx.decide, run_ofExcept_ok, mapError_eq_ok]

/-! ## The audit trail -/

theorem succAuditSeq_eq_ok {last : Nat} {seq : AuditSeq} :
    succAuditSeq last = .ok seq ↔ last + 1 < 2 ^ 64 ∧ seq = UInt64.ofNat (last + 1) := by
  rw [succAuditSeq, bind_eq_ok]
  constructor
  · rintro ⟨u, hlt, hseq⟩
    exact ⟨ensure_eq_ok.mp hlt, (Except.ok.inj hseq).symm⟩
  · rintro ⟨hlt, rfl⟩
    exact ⟨(), ensure_eq_ok.mpr hlt, rfl⟩

/-- The book's trail with `entry` appended. -/
def appended (entry : AuditEntry) : Custody C :=
  let seq := UInt64.ofNat (L.lastSeq + 1)
  (L.tick.put (.auditStub (entry.stub seq (L.clock 0)))).putSealed entry.tenant
    (.audit (entry.record seq (L.clock 0)))

/-- Appending needs a free sequence number and a live tenant, and does nothing else. -/
theorem run_appendAudit_ok {entry : AuditEntry} {r : AuditSeq × Custody C} :
    L.run (Tx.appendAudit entry) = .ok r ↔
      L.lastSeq + 1 < 2 ^ 64 ∧ (L.profiles entry.tenant).isSome ∧
        r = (UInt64.ofNat (L.lastSeq + 1), L.appended entry) := by
  simp only [Tx.appendAudit, run_bind_ok, run_perform, handler, run_now, run_put_ok,
    run_tenantKeys_ok, run_putSealed_ok, bind_eq_ok, succAuditSeq_eq_ok]
  constructor
  · rintro ⟨seq, mid, ⟨s, ⟨hlt, rfl⟩, hmid⟩, time, mid', hnow, u, mid'', ⟨-, hput⟩, keys, mid₃,
      ⟨hlive, hkeys⟩, u', mid₄, ⟨-, -, hsealed⟩, hr⟩
    cases hmid
    cases hnow
    cases hput
    cases hkeys
    cases hsealed
    cases hr
    exact ⟨hlt, hlive, rfl⟩
  · rintro ⟨hlt, hlive, rfl⟩
    exact ⟨_, _, ⟨_, ⟨hlt, rfl⟩, rfl⟩, _, _, rfl, _, _, ⟨C.encodedLen_auditStub _, rfl⟩, _, _,
      ⟨hlive, rfl⟩, _, _, ⟨hlive, C.encodedLen_audit _, rfl⟩, rfl⟩

/-! ## Sequencing

How a transaction goes on after each building block: the simp set that takes a
successful run apart. -/

section Sequencing

variable {L} {f : α → Tx C β} {x : β × Custody C} {t : TenantId}

theorem run_bind_of_iff {tx : Tx C α} {p : Prop} {a : α} {mid : Custody C}
    (h : ∀ r, L.run tx = .ok r ↔ p ∧ r = (a, mid)) :
    L.run (tx >>= f) = .ok x ↔ p ∧ mid.run (f a) = .ok x := by
  rw [run_bind_ok]
  constructor
  · rintro ⟨a', mid', htx, hx⟩
    obtain ⟨hp, heq⟩ := (h _).mp htx
    cases heq
    exact ⟨hp, hx⟩
  · rintro ⟨hp, hx⟩
    exact ⟨a, mid, (h _).mpr ⟨hp, rfl⟩, hx⟩

theorem run_bind_of_exists {tx : Tx C α} {p : α → Prop}
    (h : ∀ r, L.run tx = .ok r ↔ ∃ a, p a ∧ r = (a, L)) :
    L.run (tx >>= f) = .ok x ↔ ∃ a, p a ∧ L.run (f a) = .ok x := by
  rw [run_bind_ok]
  constructor
  · rintro ⟨a, mid, htx, hx⟩
    obtain ⟨a', hp, heq⟩ := (h _).mp htx
    cases heq
    exact ⟨a, hp, hx⟩
  · rintro ⟨a, hp, hx⟩
    exact ⟨a, L, (h _).mpr ⟨a, hp, rfl⟩, hx⟩

@[simp] theorem run_bind_decide {y : Except AuthzError α} :
    L.run (Tx.decide y >>= f) = .ok x ↔ ∃ a, y = .ok a ∧ L.run (f a) = .ok x :=
  run_bind_of_exists fun _ => run_decide_ok L

@[simp] theorem run_bind_ofExcept {y : Except Error α} :
    L.run (Program.ofExcept y >>= f) = .ok x ↔ ∃ a, y = .ok a ∧ L.run (f a) = .ok x :=
  run_bind_of_exists fun _ => run_ofExcept_ok L

@[simp] theorem run_bind_expect {y : Option α} {e : Error} :
    L.run (Program.expect y e >>= f) = .ok x ↔ ∃ a, y = some a ∧ L.run (f a) = .ok x :=
  run_bind_of_exists fun _ => run_expect_ok L

@[simp] theorem run_bind_guard {c : Prop} [Decidable c] {e : Error} {f : Unit → Tx C β} :
    L.run (Program.guard c e >>= f) = .ok x ↔ c ∧ L.run (f ()) = .ok x :=
  run_bind_of_iff fun _ => run_guard_ok L

@[simp] theorem run_bind_put {entry : GlobalEntry} {f : Unit → Tx C β} :
    L.run (Tx.put entry >>= f) = .ok x ↔
      C.encodedLen entry.plain ≤ maxPlaintextLen ∧ (L.put entry).run (f ()) = .ok x :=
  run_bind_of_iff fun _ => run_put_ok L

@[simp] theorem run_bind_tenantKeys {f : KeyHandle → Tx C β} :
    L.run (Tx.tenantKeys t >>= f) = .ok x ↔ (L.profiles t).isSome ∧ L.run (f ⟨t⟩) = .ok x :=
  run_bind_of_iff fun _ => run_tenantKeys_ok L

@[simp] theorem run_bind_putSealed {keys : KeyHandle} {entry : TenantEntry C.Block}
    {f : Unit → Tx C β} :
    L.run (Tx.putSealed keys entry >>= f) = .ok x ↔
      ((L.profiles keys.tenant).isSome ∧ C.encodedLen entry.plain ≤ maxPlaintextLen) ∧
        (L.putSealed keys.tenant entry).run (f ()) = .ok x :=
  run_bind_of_iff fun _ => by rw [run_putSealed_ok, and_assoc]

@[simp] theorem run_bind_appendAudit {entry : AuditEntry} {f : AuditSeq → Tx C β} :
    L.run (Tx.appendAudit entry >>= f) = .ok x ↔
      (L.lastSeq + 1 < 2 ^ 64 ∧ (L.profiles entry.tenant).isSome) ∧
        (L.appended entry).run (f (UInt64.ofNat (L.lastSeq + 1))) = .ok x :=
  run_bind_of_iff fun _ => by rw [run_appendAudit_ok, and_assoc]

@[simp] theorem run_bind_now {f : Timestamp → Tx C β} :
    L.run (Tx.now >>= f) = L.tick.run (f (L.clock 0)) := run_bind_of_ok (run_now L)

@[simp] theorem run_bind_view {f : Snapshot → Tx C β} :
    L.run (Tx.view >>= f) = L.run (f L.toBook.view) := run_bind_of_ok (run_view L)

@[simp] theorem run_bind_profile {f : Option TenantProfile → Tx C β} :
    L.run (Tx.profile t >>= f) = L.run (f (L.profiles t)) := run_bind_of_ok (run_profile L t)

@[simp] theorem run_bind_tombstone {f : Option TombstoneRecord → Tx C β} :
    L.run (Tx.tombstone t >>= f) = L.run (f (L.tombstones t)) := run_bind_of_ok (run_tombstone L t)

@[simp] theorem run_bind_grantRecord {id : GrantId} {f : Option GrantRecord → Tx C β} :
    L.run (Tx.grantRecord id >>= f) = L.run (f (L.grants id)) :=
  run_bind_of_ok (run_grantRecord L id)

@[simp] theorem run_bind_revocationRecord {id : GrantId} {f : Option RevocationRecord → Tx C β} :
    L.run (Tx.revocationRecord id >>= f) = L.run (f (L.revocations id)) :=
  run_bind_of_ok (run_revocationRecord L id)

@[simp] theorem run_bind_sessionRecord {id : SessionId} {f : Option SessionRecord → Tx C β} :
    L.run (Tx.sessionRecord id >>= f) = L.run (f (L.sessions id)) :=
  run_bind_of_ok (run_sessionRecord L id)

@[simp] theorem run_bind_invocationRecord {id : InvocationId}
    {f : Option InvocationRecord → Tx C β} :
    L.run (Tx.invocationRecord id >>= f) = L.run (f (L.invocations id)) :=
  run_bind_of_ok (run_invocationRecord L id)

@[simp] theorem run_bind_ledger {id : LedgerRef} {f : Cost → Tx C β} :
    L.run (Tx.ledger id >>= f) = L.run (f (L.used id)) := run_bind_of_ok (run_ledger L id)

end Sequencing

end Run
end Custody
end Dioptron
