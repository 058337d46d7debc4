import Dioptron.Copying
import Dioptron.Permanence

/-! # The store as a system

Everything the store does in its life: transactions, operations on keys, compactions and
restarts after a crash, in any order and with any clock readings.  A crash between two transactions
loses nothing that was committed, so a run with crashes is a run with `reopen` steps in
it.  The same life without cryptography is `Custody.Step`; the main theorem says that
every run of the store is one of the book.
-/
namespace Dioptron

open Relation (ReflGen ReflTransGen)

variable {C : Crypto}

/-- Anything that changes the store.  An operation that draws a data key is given it. -/
inductive Operation (C : Crypto)
  | transact (t : Transaction C)
  | registerTenant (registration : TenantRegistration) (draw : C.Block)
  | claim (claim : IdemClaim C)
  | beginRekey (tenant : TenantId) (draw : C.Block)
  | rekeyBatch (tenant : TenantId) (batch : ℕ+)
  | shredTenant (tenant : TenantId)
  | rotateRoot (current next salt : C.Block)
  | reopen (root : C.Block)
  | compact

namespace Operation

def run (s : Store C) : Operation C → Except Error (Store C)
  | transact t => (s.commit t.program).map Prod.snd
  | registerTenant registration draw => s.registerTenant registration draw
  | claim c => (s.claim c).map Prod.snd
  | beginRekey tenant draw => (s.beginRekey tenant draw).map Prod.snd
  | rekeyBatch tenant batch => (s.rekeyBatch tenant batch).map Prod.snd
  | shredTenant tenant => s.shredTenant tenant
  | rotateRoot current next salt => (s.rotateRoot current next salt).map Prod.snd
  | reopen root => s.reopen root
  | compact => .ok s.compact

/-- The data key an operation draws. -/
def draw : Operation C → Option C.Block
  | registerTenant _ draw | beginRekey _ draw => some draw
  | _ => none

end Operation

/-- The store and the data keys its random source has handed out. -/
structure World (C : Crypto) where
  store : Store C
  drawn : Set C.Block

namespace World

/-- One committed operation, or new answers of the clock and the nonce source. -/
inductive Step : World C → World C → Prop
  | operate {w : World C} (op : Operation C) {s : Store C} (hrun : op.run w.store = .ok s)
      (hfresh : ∀ d ∈ op.draw, d ∉ w.drawn) : Step w ⟨s, w.drawn ∪ {d | d ∈ op.draw}⟩
  | environment {w : World C} (nonce : Keyspace → Str C.Block → C.Nonce)
      (clock : Nat → Timestamp) :
      Step w ⟨{ w.store with nonce := nonce, clock := clock }, w.drawn⟩

/-- A new store. -/
def Initial (w : World C) : Prop :=
  ∃ root salt nonce clock, w = ⟨Store.create root salt nonce clock, ∅⟩

/-- A store some run from a new one ends in. -/
def Reachable (w : World C) : Prop := Dioptron.Reachable Initial Step w

end World

/-! ## The same life on the book -/

/-- One change of the book. -/
inductive Custody.Step : Custody C → Custody C → Prop
  | transact {L : Custody C} (t : Transaction C) {r : t.Reply × Custody C}
      (h : L.run t.program = .ok r) : Step L r.2
  | register {L : Custody C} (p : TenantProfile) (address : AddressKeys C)
      (hnew : L.profiles p.id = none) (hstone : L.tombstones p.id = none)
      (hparent : ∀ q ∈ p.parent, (L.profiles q).isSome) : Step L (L.register p address)
  | bind {L : Custody C} (claim : IdemClaim C) (hlive : (L.profiles claim.tenant).isSome)
      (hnew : L.idem (claim.tenant, claim.capability, claim.key) = none) :
      Step L (L.putSealed claim.tenant
        (.idem claim.capability claim.key ⟨claim.invocation, claim.binding⟩))
  | shred {L : Custody C} (t : TenantId) (hlive : (L.profiles t).isSome)
      (hclosed : ∀ id r, L.invocations id = some r → L.Involves t r → r.state.isTerminal) :
      Step L (L.shred t)
  | clock {L : Custody C} (clock : Nat → Timestamp) : Step L { L with clock := clock }

namespace Custody

/-- **Every change of the book is nothing or one `Book.Step`.** -/
theorem Step.book {L L' : Custody C} (h : Custody.Step L L') :
    ReflGen Book.Step L.toBook L'.toBook := by
  cases h with
  | transact t h => exact (transact_write t h).book
  | register p _ hnew hstone hparent => exact .single (.register p hnew hstone hparent)
  | bind _ hlive hnew => exact .single (.bind _ _ _ _ hlive hnew)
  | shred t hlive hclosed => exact .single (.shred t ⟨t, L.clock 0⟩ hlive rfl hclosed)
  | clock => exact .refl

/-- Every change keeps records under their own names. -/
theorem Step.named {L L' : Custody C} (h : Custody.Step L L') (hnamed : L.Named) : L'.Named := by
  cases h with
  | transact t h => exact hnamed.run h
  | register p address => exact hnamed.register p address
  | bind => exact hnamed.putSealed _ _
  | shred t => exact hnamed.shred t
  | clock clock => exact hnamed.setClock clock

/-- The book of a new store.  Addresses of tenants that never registered do not
matter. -/
def empty (address : AddressKeys C) (clock : Nat → Timestamp) : Custody C where
  toBook := .empty
  blobs _ := none
  sessionIndex _ := none
  stubs _ := none
  audits _ := none
  address _ := address
  lastSeq := 0
  clock := clock

/-- A book some run from an empty one ends in. -/
def Reachable (L : Custody C) : Prop :=
  Dioptron.Reachable (fun L₀ => ∃ address clock, L₀ = Custody.empty address clock) Custody.Step L

/-- What holds of the empty book and is kept by every step of the book holds of every
reachable book. -/
theorem Reachable.book_induction {P : Book C → Prop} (hempty : P .empty)
    (hstep : ∀ (L : Custody C) (b : Book C), L.Reachable → P L.toBook → Book.Step L.toBook b → P b)
    {L : Custody C} (h : L.Reachable) : P L.toBook := by
  refine @Dioptron.Reachable.invariant _ _ _ (fun L : Custody C => P L.toBook) _ h
    (fun L₀ h₀ => ?_) fun L L' hreach hP hchange => ?_
  · obtain ⟨address, clock, rfl⟩ := h₀
    exact hempty
  rcases (Relation.reflGen_iff _ _ _).mp hchange.book with heq | hbook
  · rw [heq]
    exact hP
  · exact hstep L _ hreach hP hbook

theorem Reachable.named {L : Custody C} (h : L.Reachable) : L.Named := by
  refine h.invariant (fun L₀ h₀ => ?_) fun _ _ _ hnamed hstep => hstep.named hnamed
  obtain ⟨address, clock, rfl⟩ := h₀
  constructor <;> exact fun _ _ h => by cases h

theorem Reachable.owned {L : Custody C} (h : L.Reachable) : L.toBook.Owned :=
  h.book_induction Book.Owned.empty fun _ _ hreach howned hstep =>
    howned.step hreach.named.invocations hstep

end Custody

/-! ## The store follows the book -/

/-- The keys of a new store. -/
def KeyState.initial (root salt : C.Block) : KeyState C where
  root := root
  rootId := 1
  salt := salt
  active _ := initialDataKeyId
  rekey _ := none
  dataKey _ _ := root
  issued := ∅

/-- A new store holds the empty book. -/
theorem Represents.create (root salt : C.Block) (nonce : Keyspace → Str C.Block → C.Nonce)
    (address : AddressKeys C) (clock : Nat → Timestamp) :
    Represents (KeyState.initial root salt) (Custody.empty address clock)
      (Store.create root salt nonce clock) := by
  have hget {keyspace : Keyspace} {k : Str C.Block} (hne : keyspace ≠ .metadata) :
      (Store.create root salt nonce clock).db.get keyspace k = none := by
    refine (Store.writeMeta_get hne).trans ?_
    exact Keyspaces.get_empty
  have hbare (n : Name C.Block) :
      (KeyState.initial root salt).content (Custody.empty address clock) n = none := by
    cases n with
    | tenant t | tombstone t | rekey t => rfl
    | global n | sealed t n => cases n <;> rfl
  exact {
    inj := fun _ _ hspace => KeyState.key_inj hspace
    stored := fun n p hp => by rw [hbare] at hp; cases hp
    named := fun keyspace k v hv hspace => by rw [hget hspace.1] at hv; cases hv
    wrapInj := wrapKey_injective
    wrapped := by
      rintro w hw
      cases w with
      | dataKey t id | addressKeys t => exact absurd hw.1 Bool.false_ne_true
    wrapNamed := fun k v hv => by
      have hne : Keyspace.keys ≠ .metadata := nofun
      rw [hget hne] at hv
      cases hv
    metadata := KeyState.unlocks_writeMeta (KeyState.initial root salt) _
    keys := rfl
    clock := rfl
    sized := fun n p hp => by rw [hbare] at hp; cases hp
    tenants := fun t => by
      constructor
      case initial | active_issued => exact fun hlive => by cases hlive
      all_goals exact fun _ hr => by cases hr
    distinct := fun x hx => hx.elim
    stub_le := fun _ h => by cases h
    last_stub := fun h => absurd rfl h
    owned := fun t n hn => by cases n <;> cases hn }

/-- The store of `w` holds the book `L` under the keys of `K`, all of them drawn. -/
structure World.Holds (w : World C) (K : KeyState C) (L : Custody C) : Prop where
  represents : Represents K L w.store
  reachable : L.Reachable
  drawn : ∀ x ∈ K.issued, K.dataKey x.1 x.2 ∈ w.drawn

namespace World.Holds

variable {w w' : World C} {K : KeyState C} {L : Custody C}

variable (h : w.Holds K L)

include h

/-- A key not drawn before is new to the store. -/
theorem fresh {d : C.Block} (hd : d ∉ w.drawn) : ∀ x ∈ K.issued, K.dataKey x.1 x.2 ≠ d := by
  rintro x hx rfl
  exact hd (h.drawn x hx)

/-- Issuing a drawn key. -/
theorem drawn_issue (t : TenantId) (id : KeyId) (d : C.Block) :
    ∀ x ∈ (K.issue t id d).issued,
      (K.issue t id d).dataKey x.1 x.2 ∈ w.drawn ∪ {d' | d' ∈ some d} := by
  rintro ⟨t', id'⟩ hx
  by_cases heq : t' = t ∧ id' = id
  · obtain ⟨rfl, rfl⟩ := heq
    right
    simp
  · rw [KeyState.issue_dataKey_of_ne (by tauto)]
    rcases KeyState.mem_issue_issued.mp hx with hx | hx
    · exact absurd hx (by simpa using heq)
    · exact .inl (h.drawn _ hx)

/-- One operation.  Only transactions write invocations. -/
theorem operate (op : Operation C) {s : Store C} (hrun : op.run w.store = .ok s)
    (hfresh : ∀ d ∈ op.draw, d ∉ w.drawn) :
    ∃ K' L', World.Holds ⟨s, w.drawn ∪ {d | d ∈ op.draw}⟩ K' L' ∧ ReflGen Custody.Step L L' ∧
      (L'.invocations = L.invocations ∨
        ∃ t reply, op = .transact t ∧ L.run t.program = .ok (reply, L')) := by
  have hrep := h.represents
  have hnamed := h.reachable.named
  have hkept (x) (hx : x ∈ K.issued) : K.dataKey x.1 x.2 ∈ w.drawn ∪ {d | d ∈ op.draw} :=
    .inl (h.drawn x hx)
  cases op with
  | transact t =>
    obtain ⟨⟨reply, s⟩, hcommit, rfl⟩ := map_eq_ok.mp hrun
    obtain ⟨L', hL', hrep'⟩ := hrep.commit_ok hcommit
    have hstep : Custody.Step L L' := .transact t hL'
    exact ⟨K, L', ⟨hrep', h.reachable.next hstep, hkept⟩, .single hstep, .inr ⟨t, reply, rfl, hL'⟩⟩
  | registerTenant registration draw =>
    rcases hrep.registerTenant_ok (h.fresh (hfresh draw rfl)) hrun with
      ⟨rfl, -⟩ | ⟨hnew, hstone, hparent, -, hrep'⟩
    · exact ⟨K, L, ⟨hrep, h.reachable, hkept⟩, .refl, .inl rfl⟩
    · have hstep : Custody.Step L _ := .register (registration.profile (L.clock 0))
        (⟨initialDataKeyId, draw⟩ : TenantDataKey C).address hnew hstone hparent
      exact ⟨_, _, ⟨hrep', h.reachable.next hstep, h.drawn_issue _ _ draw⟩, .single hstep, .inl rfl⟩
  | claim c =>
    obtain ⟨⟨reply, s⟩, hclaim, rfl⟩ := map_eq_ok.mp hrun
    obtain ⟨hlive, ⟨r, -, -, rfl⟩ | ⟨hnew, -, hrep'⟩⟩ := hrep.claim_ok hclaim
    · exact ⟨K, L, ⟨hrep, h.reachable, hkept⟩, .refl, .inl rfl⟩
    · have hstep : Custody.Step L _ := .bind c hlive hnew
      exact ⟨K, _, ⟨hrep', h.reachable.next hstep, hkept⟩, .single hstep, .inl rfl⟩
  | beginRekey _ draw =>
    obtain ⟨⟨status, s⟩, hbegin, rfl⟩ := map_eq_ok.mp hrun
    obtain ⟨-, -, total, hrep', -⟩ := hrep.beginRekey_ok (h.fresh (hfresh draw rfl)) hbegin
    have hstep : Custody.Step L L.tick := .clock _
    exact ⟨_, _, ⟨hrep', h.reachable.next hstep, h.drawn_issue _ _ draw⟩, .single hstep, .inl rfl⟩
  | rekeyBatch =>
    obtain ⟨⟨status, s⟩, hbatch, rfl⟩ := map_eq_ok.mp hrun
    obtain ⟨r, -, next, -, ⟨-, hrep'⟩ | ⟨-, -, hrep'⟩⟩ := hrep.rekeyBatch_ok hbatch
    · exact ⟨_, L, ⟨hrep', h.reachable, hkept⟩, .refl, .inl rfl⟩
    · have hstep : Custody.Step L L.tick := .clock _
      exact ⟨_, _, ⟨hrep', h.reachable.next hstep, hkept⟩, .single hstep, .inl rfl⟩
  | shredTenant tenant =>
    rcases hrep.shredTenant_ok hnamed hrun with ⟨rfl, -⟩ | ⟨-, hlive, hclosed, hrep'⟩
    · exact ⟨K, L, ⟨hrep, h.reachable, hkept⟩, .refl, .inl rfl⟩
    · have hstep : Custody.Step L _ := .shred tenant hlive hclosed
      exact ⟨_, _, ⟨hrep', h.reachable.next hstep, hkept⟩, .single hstep, .inl rfl⟩
  | rotateRoot =>
    obtain ⟨⟨id, s⟩, hrotate, rfl⟩ := map_eq_ok.mp hrun
    obtain ⟨-, -, -, hrep'⟩ := hrep.rotateRoot_ok hnamed h.reachable.owned.ledgers hrotate
    exact ⟨_, L, ⟨hrep', h.reachable, hkept⟩, .refl, .inl rfl⟩
  | reopen =>
    obtain ⟨-, rfl⟩ := hrep.reopen_eq_ok.mp hrun
    exact ⟨K, L, ⟨hrep, h.reachable, hkept⟩, .refl, .inl rfl⟩
  | compact =>
    cases hrun
    rw [w.store.compact_eq]
    exact ⟨K, L, ⟨hrep, h.reachable, hkept⟩, .refl, .inl rfl⟩

/-- **One step of the store** keeps it holding a book, which does not change or takes one
step. -/
theorem step (hstep : World.Step w w') : ∃ K' L', w'.Holds K' L' ∧ ReflGen Custody.Step L L' := by
  cases hstep with
  | environment nonce clock =>
    exact ⟨K, { L with clock := clock }, ⟨(h.represents.setNonce nonce).setClock clock,
      h.reachable.next (.clock clock), h.drawn⟩, .single (.clock clock)⟩
  | operate op hrun hfresh =>
    obtain ⟨K', L', h', hchange, -⟩ := h.operate op hrun hfresh
    exact ⟨K', L', h', hchange⟩

/-- One step of the store, in terms of the book. -/
theorem book_step (hstep : World.Step w w') :
    ∃ K' L', w'.Holds K' L' ∧ ReflTransGen Custody.Step L L' ∧
      (L'.toBook = L.toBook ∨ Book.Step L.toBook L'.toBook) := by
  obtain ⟨K', L', h', hchange⟩ := h.step hstep
  refine ⟨K', L', h', hchange.to_reflTransGen, ?_⟩
  rcases (Relation.reflGen_iff _ _ _).mp hchange with rfl | hchange
  · exact .inl rfl
  · exact (Relation.reflGen_iff _ _ _).mp hchange.book

/-- **Every run of the store** is one of the book. -/
theorem run (hrun : ReflTransGen World.Step w w') :
    ∃ K' L', w'.Holds K' L' ∧ ReflTransGen Custody.Step L L' := by
  induction hrun with
  | refl => exact ⟨K, L, h, .refl⟩
  | tail _ hlast ih =>
    obtain ⟨K', L', h', hsteps⟩ := ih
    obtain ⟨K'', L'', h'', hstep⟩ := h'.step hlast
    exact ⟨K'', L'', h'', hsteps.trans hstep.to_reflTransGen⟩

end World.Holds

/-- A reachable store holds a reachable book. -/
theorem World.Reachable.holds {w : World C} (h : w.Reachable) : ∃ K L, w.Holds K L := by
  obtain ⟨w₀, ⟨root, salt, nonce, clock, rfl⟩, hrun⟩ := h
  have hinitial : World.Holds ⟨Store.create root salt nonce clock, ∅⟩
      (KeyState.initial root salt)
      (Custody.empty (⟨initialDataKeyId, root⟩ : TenantDataKey C).address clock) :=
    ⟨.create root salt nonce _ clock, ⟨_, ⟨_, clock, rfl⟩, .refl⟩, fun x hx => hx.elim⟩
  obtain ⟨K, L, h, -⟩ := hinitial.run hrun
  exact ⟨K, L, h⟩

/-- Along a run the book is only added to. -/
theorem Custody.Reachable.extends {L L' : Custody C} (h : L.Reachable)
    (hrun : ReflTransGen Custody.Step L L') : L.toBook.Extends L'.toBook := by
  induction hrun with
  | refl => exact .refl _
  | tail hrun hlast ih =>
    have hmid := h.trans hrun
    rcases (Relation.reflGen_iff _ _ _).mp hlast.book with heq | hbook
    · rw [heq]
      exact ih
    · exact ih.trans (hbook.extends (Custody.Reachable.named hmid).invocations)

/-! ## Reading a store

In a reachable store no read of a record fails, so what it reads is a table. -/

namespace Store

/-- The record under a name, when there is one and it reads. -/
def found (T : Type) [Stored C.Block T] (s : Store C) (n : Name C.Block) : Option T :=
  (s.record T n).toOption.join

def grantAt (s : Store C) (id : GrantId) : Option GrantRecord :=
  s.found GrantRecord (.global (.grant id))

def revocationAt (s : Store C) (id : GrantId) : Option RevocationRecord :=
  s.found RevocationRecord (.global (.revocation id))

def sessionAt (s : Store C) (id : SessionId) : Option SessionRecord :=
  s.found SessionRecord (.global (.session id))

def invocationAt (s : Store C) (id : InvocationId) : Option InvocationRecord :=
  s.found InvocationRecord (.global (.invocation id))

def tenantAt (s : Store C) (id : TenantId) : Option TenantRecord :=
  s.found TenantRecord (.tenant id)

def tombstoneAt (s : Store C) (id : TenantId) : Option TombstoneRecord :=
  s.found TombstoneRecord (.tombstone id)

end Store

namespace Represents

variable {K : KeyState C} {L : Custody C} {s : Store C}

variable (h : Represents K L s)

include h

theorem found_eq {T : Type} [Stored C.Block T] {n : Name C.Block} {x : Option T}
    (hn : n.StoreScoped) (hx : K.content L n = x.map Stored.encode) : s.found T n = x := by
  rw [Store.found, h.record_eq hn hx]
  rfl

theorem grantAt_eq : s.grantAt = L.grants :=
  funext fun _ => h.found_eq (Name.storeScoped_global _) rfl

theorem revocationAt_eq : s.revocationAt = L.revocations :=
  funext fun _ => h.found_eq (Name.storeScoped_global _) rfl

theorem sessionAt_eq : s.sessionAt = L.sessions :=
  funext fun _ => h.found_eq (Name.storeScoped_global _) rfl

theorem invocationAt_eq : s.invocationAt = L.invocations :=
  funext fun _ => h.found_eq (Name.storeScoped_global _) rfl

theorem tombstoneAt_eq : s.tombstoneAt = L.tombstones :=
  funext fun _ => h.found_eq (fun _ _ => nofun) rfl

theorem tenantAt_eq (t : TenantId) :
    s.tenantAt t = (L.profiles t).map fun p => p.withKey (K.active t) := by
  rw [Store.tenantAt, Store.found,
    show s.record TenantRecord (.tenant t) = s.tenantRecord t from rfl,
    h.tenantRecord_eq]
  rfl

end Represents
end Dioptron
