import Dioptron.Custody

/-! # What a transaction writes

Everything one committed transaction can do to the book, the envelopes, the session
index and the audit trail together.  `Custody.Write` has one case per kind of write;
every invariant of the custody state is proved along it, and its effect on the book alone
is a `Book.Step`.
-/
namespace Dioptron

open Relation (ReflGen)

/-- A write transaction of the store. -/
inductive Transaction (C : Crypto)
  | installRootGrant (root : RootGrant)
  | issueGrant (issue : GrantIssue)
  | revokeGrant (revoke : RevokeGrant)
  | createSession (new : NewSession)
  | forkSession (new : NewSession) (parent : SessionId)
  | begin (intent : Intent C)
  | dispatch (id : InvocationId)
  | completeTransfer (id : InvocationId) (transfer : Transfer)
  | publish (id : InvocationId)
  | settle (id : InvocationId) (outcome : SettleOutcome)
  | release (id : InvocationId) (reason : ReleaseReason)
  | markUnknownEffect (id : InvocationId)
  | recordAudit (note : AuditNote)

variable {C : Crypto}

namespace Transaction

def Reply : Transaction C → Type
  | installRootGrant _ => Unit
  | issueGrant _ => IssueOutcome
  | revokeGrant _ => Option Revocation
  | createSession _ => SessionOpened
  | forkSession .. => Option SessionOpened
  | begin _ => Begin
  | dispatch _ | completeTransfer .. | publish _ | settle .. | release .. | markUnknownEffect _ =>
    InvocationStatus
  | recordAudit _ => AuditSeq

def program : (t : Transaction C) → Tx C t.Reply
  | installRootGrant root => Tx.installRootGrant root
  | issueGrant issue => Tx.issueGrant issue
  | revokeGrant revoke => Tx.revokeGrant revoke
  | createSession new => Tx.createSession new
  | forkSession new parent => Tx.forkSession new parent
  | begin intent => Tx.begin intent
  | dispatch id => Tx.dispatch id
  | completeTransfer id transfer => Tx.completeTransfer id transfer
  | publish id => Tx.publish id
  | settle id outcome => Tx.settle id outcome
  | release id reason => Tx.release id reason
  | markUnknownEffect id => Tx.markUnknownEffect id
  | recordAudit note => Tx.recordAudit note

/-- The audit entry of a call the store itself refuses. -/
def denial (failure : Failure) : Transaction C → Option AuditEntry
  | begin intent => some
    { tenant := intent.authz.tenant, invocation := intent.invocation,
      capability := intent.authz.capability, state := .denied, outcome := failure.kind,
      session := intent.authz.session, grant := some intent.authz.grant }
  | issueGrant issue => some (Tx.issueEntry issue .denied failure.kind)
  | _ => none

/-- The session a transaction opens, and its parent. -/
def opens : Transaction C → Option (NewSession × Option SessionId)
  | createSession new => some (new, none)
  | forkSession new parent => some (new, some parent)
  | _ => none

/-- The invocation a transaction finishes, and by which step. -/
def finishes : Transaction C → Option (InvocationId × Step)
  | settle id _ => some (id, .settle)
  | release id reason => some (id, .release reason)
  | markUnknownEffect id => some (id, .markUnknownEffect)
  | _ => none

/-- A transaction that leaves the book alone when what it asks for is there already or is
not to be had. -/
def repeatable : Transaction C → Bool
  | installRootGrant _ | issueGrant _ | revokeGrant _ | createSession _ | forkSession ..
  | begin _ =>
    true
  | _ => false

/-- How a transaction ends the invocation `r`: what was consumed, the terminal record and
the settlement. -/
def Ends (r : InvocationRecord) (actual : Option Cost) (terminal : Terminal)
    (settlement : Settlement) : Transaction C → Prop
  | settle _ outcome => ∃ amount, Tx.settledAmount r outcome = .ok amount ∧
      actual = some amount.1 ∧ terminal = .settled amount.2 ∧
      Tx.settlementOf r.reserved amount.1 = .ok settlement
  | release _ reason => actual = r.actual ∧ terminal = .released reason ∧
      settlement = ⟨Cost.zero, r.reserved⟩
  | markUnknownEffect _ => actual = r.actual ∧ terminal = .unknownEffect ∧
      settlement = unknownEffectSettlement r.reserved
  | _ => False

theorem repeatable_of_opens {t : Transaction C} {x : NewSession × Option SessionId}
    (h : t.opens = some x) : t.repeatable = true := by
  cases t with
  | createSession | forkSession => rfl
  | _ => cases h

end Transaction

theorem AuditNote.entry_tenant (note : AuditNote) : note.entry.tenant = note.tenant := by
  unfold AuditNote.entry
  cases note.outcome <;> rfl

/-- The audit entry of a revocation. -/
def RevokeGrant.entry (revoke : RevokeGrant) : AuditEntry :=
  { tenant := revoke.actor, invocation := revoke.invocation, capability := .grantRevoke,
    state := .settled, outcome := .success }

/-- The audit entry of a session that was opened. -/
def NewSession.entry (new : NewSession) (parent : Option SessionId) : AuditEntry :=
  { tenant := new.owner, invocation := new.invocation,
    capability := if parent.isSome then .sessionFork else .sessionCreate,
    state := .settled, outcome := .success, session := some new.session }

/-- The record of a session opened at `now`. -/
def NewSession.record (new : NewSession) (parent : Option SessionId) (now : Timestamp) :
    SessionRecord :=
  ⟨new.session, new.owner, parent, new.ceilings, now⟩

namespace Custody

/-- The audit entry of a finished invocation. -/
def terminalEntry (r : InvocationRecord) (terminal : Terminal) : AuditEntry :=
  { AuditEntry.ofTerminal r.tenant r.id r.capability terminal with
    session := r.session, grant := r.grantChain.head? }

/-- The next free sequence number of the trail. -/
def nextSeq (L : Custody C) : AuditSeq := UInt64.ofNat (L.lastSeq + 1)

/-- The trail with `entry` added at `time`. -/
def recorded (L : Custody C) (entry : AuditEntry) (time : Timestamp) : Custody C :=
  { L with
    stubs := Function.update L.stubs L.nextSeq (some (entry.stub L.nextSeq time))
    audits := Function.update L.audits (entry.tenant, L.nextSeq)
      (some (entry.record L.nextSeq time))
    lastSeq := max L.lastSeq L.nextSeq.toNat }

/-- There is room for one more audit entry, and its tenant has keys to seal it. -/
structure CanAudit (L : Custody C) (tenant : TenantId) : Prop where
  room : L.lastSeq + 1 < 2 ^ 64
  live : (L.profiles tenant).isSome

/-- The envelopes once `envelope` was stored for `tenant`. -/
def withBlob (L : Custody C) (tenant : TenantId) (envelope : Bytes) :
    TenantId × C.Block → Option Bytes :=
  let address := (L.address tenant).blobAddress envelope
  if (L.blobs (tenant, address)).isSome then L.blobs
  else Function.update L.blobs (tenant, address) (some envelope)

/-- The session index once an artifact of `r` was published. -/
def withIndex (L : Custody C) (r : InvocationRecord) (artifact : ArtifactRef) (now : Timestamp) :
    TenantId × SessionId × ArtifactRef → Option SessionIndexRecord :=
  match r.session with
  | none => L.sessionIndex
  | some session =>
    match L.sessions session with
    | none => L.sessionIndex
    | some sr => Function.update L.sessionIndex (sr.owner, session, artifact)
        (some ⟨artifact, r.tenant, now⟩)

/-- What a committed transaction wrote.  The clock moved on by some readings. -/
inductive Write (L : Custody C) : Transaction C → Custody C → Prop
  | quiet {t : Transaction C} (ht : t.repeatable = true) (clock : Nat → Timestamp) :
      Write L t { L with clock := clock }
  | refuse {t : Transaction C} (failure : Failure) (entry : AuditEntry) (time : Timestamp)
      (clock : Nat → Timestamp) (hentry : t.denial failure = some entry)
      (haudit : L.CanAudit entry.tenant) : Write L t { L.recorded entry time with clock := clock }
  | recordAudit (note : AuditNote) (time : Timestamp) (clock : Nat → Timestamp)
      (haudit : L.CanAudit note.tenant) :
      Write L (.recordAudit note) { L.recorded note.entry time with clock := clock }
  | installRootGrant (root : RootGrant) (grant : Grant) (clock : Nat → Timestamp)
      (hgrant : root.toGrant = .ok grant) (hholder : (L.profiles root.holder).isSome)
      (hnew : L.grants root.id = none) :
      Write L (.installRootGrant root)
        { L with toBook := L.setGrant (.fromGrant grant root.targetScope), clock := clock }
  | issueGrant (issue : GrantIssue) (child : Grant) (decided time : Timestamp)
      (clock : Nat → Timestamp)
      (hissue : checkIssue L.toBook.view issue.context issue.request decided = .ok (.issued child))
      (hnew : L.grants child.id = none) (haudit : L.CanAudit issue.context.issuer) :
      Write L (.issueGrant issue) { L.recorded (Tx.issueEntry issue .settled .success) time with
        toBook := L.setGrant (.fromGrant child issue.request.targetScope)
        clock := clock }
  | revokeGrant (revoke : RevokeGrant) (time now : Timestamp) (clock : Nat → Timestamp)
      (hgrant : (L.grants revoke.grant).isSome) (hnew : L.revocations revoke.grant = none)
      (haudit : L.CanAudit revoke.actor) :
      Write L (.revokeGrant revoke) { L.recorded revoke.entry time with
        toBook := L.setRevocation ⟨revoke.grant, L.nextSeq, now, revoke.actor⟩
        clock := clock }
  | openSession {t : Transaction C} (new : NewSession) (parent : Option SessionId)
      (now time : Timestamp) (clock : Nat → Timestamp) (ht : t.opens = some (new, parent))
      (hparent : ∀ p ∈ parent, (L.sessions p).isSome) (hnew : L.sessions new.session = none)
      (haudit : L.CanAudit new.owner) :
      Write L t { L.recorded (new.entry parent) time with
        toBook := L.setSession (new.record parent now)
        clock := clock }
  | begin {charged : Book C} (intent : Intent C) (chain : List GrantId) (plan : ReservationPlan)
      (decided now : Timestamp) (clock : Nat → Timestamp)
      (hadmits : L.Admits intent chain plan decided charged) :
      Write L (.begin intent) { L with
        toBook := charged.persisted intent (intent.fresh chain plan now)
        clock := clock }
  | dispatch (id : InvocationId) (r : InvocationRecord) (now : Timestamp)
      (clock : Nat → Timestamp) (hr : L.invocations id = some r)
      (hstate : r.state = .intentPersisted) :
      Write L (.dispatch id)
        { L with toBook := L.setInvocation (r.moved .dispatched now), clock := clock }
  | completeTransfer (id : InvocationId) (r : InvocationRecord) (transfer : Transfer)
      (now : Timestamp) (clock : Nat → Timestamp) (hr : L.invocations id = some r)
      (hstate : r.state = .dispatched) (hlive : (L.profiles r.tenant).isSome) :
      Write L (.completeTransfer id transfer) { L with
        toBook := Book.setInvocation
          { L.toBook with
            pending := Function.update L.pending (r.tenant, r.id)
              (some (Tx.pendingArtifact r transfer
                ((L.address r.tenant).blobAddress transfer.envelope))) }
          (r.delivered transfer now)
        blobs := L.withBlob r.tenant transfer.envelope
        clock := clock }
  | publish (id : InvocationId) (r : InvocationRecord) (a : ArtifactRecord C.Block)
      (published now : Timestamp) (clock : Nat → Timestamp) (hr : L.invocations id = some r)
      (hstate : r.state = .transferComplete) (ha : L.pending (r.tenant, r.id) = some a)
      (hnew : L.locators a.artifact = none) (hlive : (L.profiles r.tenant).isSome)
      (howner : ∀ session ∈ r.session, ∃ sr, L.sessions session = some sr ∧
        (L.profiles sr.owner).isSome) :
      Write L (.publish id) { L with
        toBook := Book.setInvocation
          { L.toBook with
            artifacts := Function.update L.artifacts (r.tenant, a.artifact)
              (some { a with publishedAt := some published })
            pending := Function.update L.pending (r.tenant, r.id) none
            locators := Function.update L.locators a.artifact
              (some ⟨a.artifact, r.tenant, r.session⟩) }
          (r.moved .published now)
        sessionIndex := L.withIndex r a.artifact published
        clock := clock }
  | finish {t : Transaction C} {paid : Book C} (id : InvocationId) (r : InvocationRecord)
      (step : Step) (next : InvocationState) (terminal : Terminal) (settlement : Settlement)
      (actual : Option Cost) (now time : Timestamp) (clock : Nat → Timestamp)
      (ht : t.finishes = some (id, step)) (hr : L.invocations id = some r)
      (hnext : nextState r.state step = .ok next) (hterminal : terminal.state = next)
      (hends : t.Ends r actual terminal settlement)
      (hpaid : L.toBook.moveLedgers (fun used => Dioptron.release used settlement.release)
        r.ledgers = .ok paid) (haudit : L.CanAudit r.tenant) :
      Write L t { L.recorded (terminalEntry r terminal) time with
        toBook := paid.setInvocation (InvocationRecord.moved { r with
          actual := actual
          terminal := some terminal
          debited := some settlement.debit } next now)
        clock := clock }

end Custody
end Dioptron
