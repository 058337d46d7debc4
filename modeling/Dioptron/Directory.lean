import Dioptron.Transactions

/-! # The directory

Transactions on grants, revocations and sessions: installing a root grant, issuing a
child grant, revoking a grant and opening a session.  Registering a tenant draws a data
key and is with the operations on keys.
-/
namespace Dioptron

/-- A grant with no parent, installed by the operator. -/
structure RootGrant where
  id : GrantId
  holder : TenantId
  capabilities : Finset Capability
  sessionScope : SessionScope
  targetScope : List Bytes
  auditScope : AuditScope
  ceilings : Ceilings
  notBefore : Timestamp
  expiresAt : Timestamp
  maxDepth : UInt8

def RootGrant.toGrant (root : RootGrant) : Except AuthzError Grant := do
  let targetScope ← TargetScope.parse root.targetScope
  return {
    id := root.id
    issuer := root.holder
    holder := root.holder
    capabilities := root.capabilities
    sessionScope := root.sessionScope
    targetScope := targetScope
    auditScope := root.auditScope
    ceilings := root.ceilings
    notBefore := root.notBefore
    expiresAt := root.expiresAt
    parent := none
    depth := 0
    maxDepth := root.maxDepth }

/-- A request to issue a child grant, with the call's invocation id. -/
structure GrantIssue where
  context : IssueContext
  request : GrantIssueRequest
  invocation : InvocationId

inductive IssueOutcome
  | issued (grant parent : GrantId)
  | refused (failure : Failure)
  deriving DecidableEq

structure RevokeGrant where
  actor : TenantId
  grant : GrantId
  invocation : InvocationId

structure NewSession where
  session : SessionId
  owner : TenantId
  ceilings : Ceilings
  invocation : InvocationId

structure SessionOpened where
  session : SessionId
  owner : TenantId
  parentSession : Option SessionId
  deriving DecidableEq

variable {C : Crypto}

namespace Tx

open Program

def grantRecord (id : GrantId) : Tx C (Option GrantRecord) := record GrantRecord (.grant id)

def revocationRecord (id : GrantId) : Tx C (Option RevocationRecord) :=
  record RevocationRecord (.revocation id)

def sessionRecord (id : SessionId) : Tx C (Option SessionRecord) :=
  record SessionRecord (.session id)

/-! ## Grants -/

/-- Stores a grant record unless the same one is stored already; true when it was
written. -/
def putNewGrant (r : GrantRecord) : Tx C Bool := do
  match ← grantRecord r.id with
  | some existing => do
    guard (existing = r) (.conflict "grant")
    return false
  | none => do
    put (.grant r)
    return true

def installRootGrant (root : RootGrant) : Tx C Unit := do
  let grant ← decide root.toGrant
  let _ ← expect (← profile root.holder) (.tenantMissing root.holder)
  let _ ← putNewGrant (GrantRecord.fromGrant grant root.targetScope)

/-- The depth limit a request stands for under the parent of `existing`. -/
def requestedMaxDepth (existing : GrantRecord) (request : GrantIssueRequest) :
    Tx C (Option UInt8) :=
  match request.maxDepth, existing.parent with
  | some maxDepth, _ => pure (some maxDepth)
  | none, some parent => do return (← grantRecord parent).map GrantRecord.maxDepth
  | none, none => pure none

/-- Whether `existing` is what issuing `request` stored. -/
def issuedFrom (existing : GrantRecord) (request : GrantIssueRequest) : Tx C Bool := do
  let maxDepth ← requestedMaxDepth existing request
  return existing.holder = request.holder
    ∧ existing.capabilities.toFinset = request.capabilities.toFinset
    ∧ existing.sessionScope = request.sessionScope
    ∧ existing.targetPatterns = request.targetScope
    ∧ existing.ceilings = request.ceilings
    ∧ existing.notBefore = request.notBefore
    ∧ existing.expiresAt = request.expiresAt
    ∧ some existing.maxDepth = maxDepth

/-- The grant an earlier run of the same request stored. -/
def alreadyIssued (context : IssueContext) : Tx C (Option GrantRecord) := do
  return (← grantRecord context.child).filter fun existing =>
    existing.issuer = context.issuer ∧ existing.parent = some context.designated

def issueEntry (issue : GrantIssue) (state : InvocationState) (outcome : OutcomeKind) :
    AuditEntry where
  tenant := issue.context.issuer
  invocation := issue.invocation
  capability := .grantIssue
  state := state
  outcome := outcome
  grant := some issue.context.designated

/-- Stores an issued grant and audits it; a grant stored already is left alone. -/
def storeIssued (issue : GrantIssue) (child : Grant) : Tx C IssueOutcome := do
  let r := GrantRecord.fromGrant child issue.request.targetScope
  if ← putNewGrant r then
    let _ ← appendAudit (issueEntry issue .settled .success)
    return .issued r.id issue.context.designated
  else
    return .issued r.id issue.context.designated

def refuseIssue (issue : GrantIssue) (failure : Failure) : Tx C IssueOutcome := do
  let _ ← appendAudit (issueEntry issue .denied failure.kind)
  return .refused failure

def issueGrant (issue : GrantIssue) : Tx C IssueOutcome := do
  match ← alreadyIssued issue.context with
  | some existing => do
    guard (← issuedFrom existing issue.request) (.conflict "grant")
    return .issued existing.id issue.context.designated
  | none => do
    let v ← view
    let time ← now
    match ← decide (checkIssue v issue.context issue.request time) with
    | .issued child => storeIssued issue child
    | refused => refuseIssue issue (refused.refusal.getD .notFoundOrDenied)

/-! ## Revocations -/

/-- Revokes a grant.  Nothing for an unknown grant; an earlier revocation stays. -/
def revokeGrant (revoke : RevokeGrant) : Tx C (Option Revocation) := do
  match ← grantRecord revoke.grant with
  | none => return none
  | some _ =>
    match ← revocationRecord revoke.grant with
    | some existing => return some existing.toRevocation
    | none => do
      let atSeq ← appendAudit
        { tenant := revoke.actor, invocation := revoke.invocation, capability := .grantRevoke,
          state := .settled, outcome := .success }
      let atTime ← now
      let r : RevocationRecord := ⟨revoke.grant, atSeq, atTime, revoke.actor⟩
      put (.revocation r)
      return some r.toRevocation

/-! ## Sessions -/

def sessionOpened (new : NewSession) (parent : Option SessionId) : SessionOpened :=
  ⟨new.session, new.owner, parent⟩

/-- Whether a parent session was named that does not exist. -/
def parentMissing : Option SessionId → Tx C Bool
  | none => pure false
  | some parent => do return (← sessionRecord parent).isNone

/-- Opens a session.  Nothing when the named parent session does not exist. -/
def openSession (new : NewSession) (parent : Option SessionId) : Tx C (Option SessionOpened) := do
  let _ ← expect (← profile new.owner) (.tenantMissing new.owner)
  if ← parentMissing parent then
    return none
  else
    match ← sessionRecord new.session with
    | some existing => do
      guard (existing.owner = new.owner ∧ existing.parent = parent ∧
        existing.ceilings = new.ceilings) (.conflict "session")
      return some (sessionOpened new parent)
    | none => do
      let createdAt ← now
      put (.session ⟨new.session, new.owner, parent, new.ceilings, createdAt⟩)
      let _ ← appendAudit
        { tenant := new.owner, invocation := new.invocation,
          capability := if parent.isSome then .sessionFork else .sessionCreate,
          state := .settled, outcome := .success, session := some new.session }
      return some (sessionOpened new parent)

def createSession (new : NewSession) : Tx C SessionOpened := do
  return (← openSession new none).getD (sessionOpened new none)

def forkSession (new : NewSession) (parent : SessionId) : Tx C (Option SessionOpened) :=
  openSession new (some parent)

end Tx
end Dioptron
