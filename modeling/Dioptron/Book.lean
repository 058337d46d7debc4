import Dioptron.Recovery

/-! # The book of records

What the store is for, without keys, ciphertexts or key order: who is registered, which
grants, revocations and sessions exist, what every ledger was charged and how far every
invocation has come.  `Book.Step` says everything one committed transaction can do to
the book; the invariants of the store are proved along it.
-/
namespace Dioptron

variable {C : Crypto}

/-- The place of an intent's idempotency key. -/
abbrev Intent.slot (intent : Intent C) : TenantId × Capability × IdempotencyKey :=
  (intent.authz.tenant, intent.authz.capability, intent.idempotencyKey)

/-- The record of an allowed intent. -/
abbrev Intent.fresh (intent : Intent C) (chain : List GrantId) (plan : ReservationPlan)
    (now : Timestamp) : InvocationRecord :=
  Tx.freshInvocation intent chain (plan.ledgers.map LedgerRef.fromLedgerId) plan.cost now

/-- The record of an invocation whose transfer is complete. -/
abbrev InvocationRecord.delivered (r : InvocationRecord) (transfer : Transfer) (now : Timestamp) :
    InvocationRecord :=
  InvocationRecord.moved { r with
    artifact := some (artifactRef r.id)
    actual := some transfer.actual
    revokedAfterEffect := transfer.revokedAfterEffect } .transferComplete now

structure Book (C : Crypto) where
  profiles : TenantId → Option TenantProfile
  tombstones : TenantId → Option TombstoneRecord
  grants : GrantId → Option GrantRecord
  revocations : GrantId → Option RevocationRecord
  sessions : SessionId → Option SessionRecord
  invocations : InvocationId → Option InvocationRecord
  ledgers : LedgerRef → Option LedgerRecord
  locators : ArtifactRef → Option LocatorRecord
  idem : TenantId × Capability × IdempotencyKey → Option (IdemRecord C.Block)
  artifacts : TenantId × ArtifactRef → Option (ArtifactRecord C.Block)
  pending : TenantId × InvocationId → Option (ArtifactRecord C.Block)

namespace Book

def empty : Book C where
  profiles _ := none
  tombstones _ := none
  grants _ := none
  revocations _ := none
  sessions _ := none
  invocations _ := none
  ledgers _ := none
  locators _ := none
  idem _ := none
  artifacts _ := none
  pending _ := none

/-- What a ledger was charged: nothing while it has no record. -/
def used (b : Book C) (id : LedgerRef) : Cost :=
  ((b.ledgers id).map LedgerRecord.used).getD Cost.zero

/-- The book as the authorization layer reads it. -/
def view (b : Book C) : Snapshot :=
  viewOf (fun id => .ok (b.grants id)) (fun id => .ok (b.revocations id))
    (fun id => .ok (b.sessions id)) (fun id => .ok (b.profiles id)) (fun id => .ok (b.used id))

def setGrant (b : Book C) (r : GrantRecord) : Book C :=
  { b with grants := Function.update b.grants r.id (some r) }

def setRevocation (b : Book C) (r : RevocationRecord) : Book C :=
  { b with revocations := Function.update b.revocations r.grant (some r) }

def setSession (b : Book C) (r : SessionRecord) : Book C :=
  { b with sessions := Function.update b.sessions r.id (some r) }

def setInvocation (b : Book C) (r : InvocationRecord) : Book C :=
  { b with invocations := Function.update b.invocations r.id (some r) }

def setLedger (b : Book C) (id : LedgerRef) (used : Cost) : Book C :=
  { b with ledgers := Function.update b.ledgers id (some ⟨used⟩) }

def setIdem (b : Book C) (tenant : TenantId) (capability : Capability) (key : IdempotencyKey)
    (r : IdemRecord C.Block) : Book C :=
  { b with idem := Function.update b.idem (tenant, capability, key) (some r) }

/-- Moves the charge of each ledger in turn. -/
def moveLedgers (move : Cost → Except AuthzError Cost) :
    List LedgerRef → Book C → Except AuthzError (Book C)
  | [], b => .ok b
  | id :: rest, b => do
    let used ← move (b.used id)
    moveLedgers move rest (b.setLedger id used)

/-- Moving ledgers writes ledgers and nothing else. -/
theorem moveLedgers_frame {b b' : Book C} {move : Cost → Except AuthzError Cost}
    {ids : List LedgerRef} (h : b.moveLedgers move ids = .ok b') :
    ∃ f, b' = { b with ledgers := f } ∧ (∀ id ∉ ids, f id = b.ledgers id) ∧
      ∀ id ∈ ids, (f id).isSome := by
  induction ids generalizing b with
  | nil =>
    obtain rfl := Except.ok.inj h
    exact ⟨_, rfl, fun _ _ => rfl, nofun⟩
  | cons _ ids ih =>
    rw [moveLedgers, bind_eq_ok] at h
    obtain ⟨used, -, h⟩ := h
    obtain ⟨f, rfl, hout, hin⟩ := ih h
    refine ⟨f, rfl, ?_, ?_⟩
    · intro id' hid'
      rw [List.mem_cons, not_or] at hid'
      rw [hout id' hid'.2]
      exact Function.update_of_ne hid'.1 _ _
    · intro id' hid'
      by_cases hmem : id' ∈ ids
      · exact hin id' hmem
      · obtain rfl := (List.mem_cons.mp hid').resolve_right hmem
        simp [hout id' hmem, setLedger]

/-- `r` is a call of `tenant`, or is in a session `tenant` owns. -/
def Involves (b : Book C) (tenant : TenantId) (r : InvocationRecord) : Prop :=
  r.tenant = tenant ∨ ∃ session ∈ r.session, ∃ sr ∈ b.sessions session, sr.owner = tenant

/-- What `begin` has checked of an intent it persists, and the ledgers it charged. -/
structure Admits (b : Book C) (intent : Intent C) (chain : List GrantId) (plan : ReservationPlan)
    (decided : Timestamp) (charged : Book C) : Prop where
  live : (b.profiles intent.authz.tenant).isSome
  key : b.idem intent.slot = none
  new : b.invocations intent.invocation = none
  auth : authorize b.view intent.authz decided = .ok (.allowed chain plan)
  session : ∀ session ∈ intent.authz.session, ∀ r ∈ b.sessions session,
    b.tombstones r.owner = none
  debit : b.moveLedgers (fun used => reserve used plan.cost)
    (plan.ledgers.map LedgerRef.fromLedgerId) = .ok charged

/-- The book with a new invocation, under its key. -/
abbrev persisted (b : Book C) (intent : Intent C) (r : InvocationRecord) : Book C :=
  (b.setInvocation r).setIdem intent.authz.tenant intent.authz.capability intent.idempotencyKey
    ⟨intent.invocation, requestBinding intent⟩

/-- What one committed transaction does to the book. -/
inductive Step : Book C → Book C → Prop
  | register {b : Book C} (p : TenantProfile) (hnew : b.profiles p.id = none)
      (hstone : b.tombstones p.id = none) (hparent : ∀ q ∈ p.parent, (b.profiles q).isSome) :
      Step b { b with profiles := Function.update b.profiles p.id (some p) }
  | shred {b : Book C} (tenant : TenantId) (stone : TombstoneRecord)
      (hlive : (b.profiles tenant).isSome) (hstone : stone.tenant = tenant)
      (hclosed : ∀ id r, b.invocations id = some r → b.Involves tenant r → r.state.isTerminal) :
      Step b { b with
        profiles := Function.update b.profiles tenant none
        tombstones := Function.update b.tombstones tenant (some stone) }
  | install {b : Book C} (root : RootGrant) (grant : Grant) (hgrant : root.toGrant = .ok grant)
      (hholder : (b.profiles root.holder).isSome) (hnew : b.grants root.id = none) :
      Step b (b.setGrant (.fromGrant grant root.targetScope))
  | issue {b : Book C} (context : IssueContext) (request : GrantIssueRequest) (child : Grant)
      (now : Timestamp) (hissue : checkIssue b.view context request now = .ok (.issued child))
      (hnew : b.grants child.id = none) :
      Step b (b.setGrant (.fromGrant child request.targetScope))
  | revoke {b : Book C} (r : RevocationRecord) (hgrant : (b.grants r.grant).isSome)
      (hnew : b.revocations r.grant = none) : Step b (b.setRevocation r)
  | openSession {b : Book C} (r : SessionRecord) (howner : (b.profiles r.owner).isSome)
      (hparent : ∀ p ∈ r.parent, (b.sessions p).isSome) (hnew : b.sessions r.id = none) :
      Step b (b.setSession r)
  | bind {b : Book C} (tenant : TenantId) (capability : Capability) (key : IdempotencyKey)
      (r : IdemRecord C.Block) (hlive : (b.profiles tenant).isSome)
      (hnew : b.idem (tenant, capability, key) = none) : Step b (b.setIdem tenant capability key r)
  | persist {b charged : Book C} (intent : Intent C) (chain : List GrantId)
      (plan : ReservationPlan) (decided now : Timestamp)
      (hadmits : b.Admits intent chain plan decided charged) :
      Step b (charged.persisted intent (intent.fresh chain plan now))
  | dispatch {b : Book C} (id : InvocationId) (r : InvocationRecord) (now : Timestamp)
      (hr : b.invocations id = some r) (hstate : r.state = .intentPersisted) :
      Step b (b.setInvocation (r.moved .dispatched now))
  | transfer {b : Book C} (id : InvocationId) (r : InvocationRecord) (transfer : Transfer)
      (address : C.Block) (now : Timestamp) (hr : b.invocations id = some r)
      (hstate : r.state = .dispatched) :
      Step b (setInvocation
        { b with
          pending := Function.update b.pending (r.tenant, r.id)
            (some (Tx.pendingArtifact r transfer address)) }
        (r.delivered transfer now))
  | publish {b : Book C} (id : InvocationId) (r : InvocationRecord)
      (a : ArtifactRecord C.Block) (published now : Timestamp) (hr : b.invocations id = some r)
      (hstate : r.state = .transferComplete) (ha : b.pending (r.tenant, r.id) = some a)
      (hnew : b.locators a.artifact = none) :
      Step b (setInvocation
        { b with
          artifacts := Function.update b.artifacts (r.tenant, a.artifact)
            (some { a with publishedAt := some published })
          pending := Function.update b.pending (r.tenant, r.id) none
          locators := Function.update b.locators a.artifact
            (some ⟨a.artifact, r.tenant, r.session⟩) }
        (r.moved .published now))
  | finish {b paid : Book C} (id : InvocationId) (r : InvocationRecord) (step : Dioptron.Step)
      (next : InvocationState) (terminal : Terminal) (settlement : Settlement)
      (actual : Option Cost) (now : Timestamp) (hr : b.invocations id = some r)
      (hnext : nextState r.state step = .ok next) (hterminal : terminal.state = next)
      (hsplit : settlement.Splits r.reserved)
      (hsuccess : terminal = .settled none ↔ r.state = .published)
      (hpaid : b.moveLedgers (fun used => Dioptron.release used settlement.release) r.ledgers =
        .ok paid) :
      Step b (paid.setInvocation (InvocationRecord.moved { r with
        actual := actual
        terminal := some terminal
        debited := some settlement.debit } next now))

end Book
end Dioptron
