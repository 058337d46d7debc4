import Dioptron.ByteStrings

/-! # The contract vocabulary

The value types every other module shares: identifiers, capabilities, budget
dimensions and the amounts on them, and the outcome and invocation-state
vocabulary.  Machine words keep their width (`UInt8` depths, `UInt64` amounts
and audit sequences); timestamps are only ever compared and are integers.
-/
namespace Dioptron

/-! ## Identifiers -/

/-- What an identifier identifies. -/
inductive IdKind
  | tenant
  | grant
  | session
  | invocation
  | artifact

/-- Sixteen opaque bytes, read as one big-endian number.  The kind keeps
identifiers of different things apart. -/
@[ext] structure Ulid (kind : IdKind) where
  bits : BitVec 128
  deriving DecidableEq, Repr

abbrev TenantId := Ulid .tenant
abbrev GrantId := Ulid .grant
abbrev SessionId := Ulid .session
abbrev InvocationId := Ulid .invocation
abbrev ArtifactRef := Ulid .artifact

namespace Ulid

variable {kind kind' : IdKind}

def toBytes (id : Ulid kind) : Bytes := beBytes 16 id.bits.toNat

/-- The identifier of another kind with the same bytes. -/
def cast (id : Ulid kind) : Ulid kind' := ⟨id.bits⟩

@[simp] theorem toBytes_length (id : Ulid kind) : id.toBytes.length = 16 := by
  simp [toBytes]

theorem toBytes_injective : Function.Injective (toBytes : Ulid kind → Bytes) := by
  intro a b h
  have hlt (x : Ulid kind) : x.bits.toNat < 256 ^ 16 :=
    lt_of_lt_of_eq x.bits.isLt (by norm_num)
  exact Ulid.ext (BitVec.eq_of_toNat_eq (beBytes_inj (hlt a) (hlt b) h))

theorem cast_injective : Function.Injective (cast : Ulid kind → Ulid kind') := by
  intro a b h
  exact Ulid.ext (Ulid.mk.inj h)

end Ulid

/-- A global audit sequence number. -/
abbrev AuditSeq := UInt64

/-- Wall time in milliseconds. -/
abbrev Timestamp := Int

/-- A caller-chosen key, between 16 and 64 bytes long. -/
structure IdempotencyKey where
  bytes : Bytes
  min_len : 16 ≤ bytes.length
  max_len : bytes.length ≤ 64
  deriving DecidableEq, Repr

/-! ## Capabilities and scopes -/

/-- The ASCII bytes of a name. -/
def ascii (s : String) : Bytes := s.toList.map fun c => UInt8.ofNat c.toNat

inductive Capability
  | sessionCreate
  | sessionFork
  | capture
  | ingest
  | read
  | query
  | grantIssue
  | grantRevoke
  | auditQuery
  deriving DecidableEq, Repr

namespace Capability

/-- The name the contract gives a capability. -/
def name : Capability → Bytes
  | sessionCreate => ascii "SessionCreate"
  | sessionFork => ascii "SessionFork"
  | capture => ascii "Capture"
  | ingest => ascii "Ingest"
  | read => ascii "Read"
  | query => ascii "Query"
  | grantIssue => ascii "GrantIssue"
  | grantRevoke => ascii "GrantRevoke"
  | auditQuery => ascii "AuditQuery"

theorem name_injective : Function.Injective name := by
  intro a b h
  cases a <;> cases b <;> first | rfl | exact absurd h (by decide)

theorem name_length_lt (c : Capability) : c.name.length < 256 := by
  cases c <;> decide

end Capability

inductive AuditScope
  | all
  | ownAndOwnedSessions
  deriving DecidableEq, Repr

inductive TenantClass
  | operator
  | agent
  | subAgent
  deriving DecidableEq, Repr

/-- The sessions a grant applies to: those its holder owns, or an explicit set. -/
inductive SessionScope
  | own
  | sessions (ids : List SessionId)
  deriving DecidableEq, Repr

/-! ## Budget dimensions -/

inductive Dimension
  | wallTimeMs
  | fetches
  | bytesTransferred
  | outputBytes
  | tokens
  | opsBand
  deriving DecidableEq, Repr

/-- Every dimension, in declaration order. -/
def Dimension.all : List Dimension :=
  [.wallTimeMs, .fetches, .bytesTransferred, .outputBytes, .tokens, .opsBand]

@[simp] theorem Dimension.mem_all (d : Dimension) : d ∈ Dimension.all := by
  cases d <;> decide

/-- One value per budget dimension. -/
structure PerDimension (α : Type) where
  wallTimeMs : α
  fetches : α
  bytesTransferred : α
  outputBytes : α
  tokens : α
  opsBand : α
  deriving DecidableEq, Repr

namespace PerDimension

variable {α β : Type}

def get (x : PerDimension α) : Dimension → α
  | .wallTimeMs => x.wallTimeMs
  | .fetches => x.fetches
  | .bytesTransferred => x.bytesTransferred
  | .outputBytes => x.outputBytes
  | .tokens => x.tokens
  | .opsBand => x.opsBand

/-- One value per dimension from a function of the dimension. -/
def from_ (f : Dimension → α) : PerDimension α :=
  ⟨f .wallTimeMs, f .fetches, f .bytesTransferred, f .outputBytes, f .tokens, f .opsBand⟩

/-- One value per dimension, failing at the first dimension that fails. -/
def tryFrom {ε : Type} (f : Dimension → Except ε α) : Except ε (PerDimension α) := do
  return ⟨← f .wallTimeMs, ← f .fetches, ← f .bytesTransferred, ← f .outputBytes, ← f .tokens,
    ← f .opsBand⟩

@[simp] theorem get_from (f : Dimension → α) (d : Dimension) : (from_ f).get d = f d := by
  cases d <;> rfl

/-- The fallible form succeeds exactly when every dimension does. -/
theorem tryFrom_eq_ok {ε : Type} {f : Dimension → Except ε α} {x : PerDimension α} :
    tryFrom f = .ok x ↔ ∀ d, f d = .ok (x.get d) := by
  constructor
  · intro h d
    unfold tryFrom at h
    cases h₁ : f .wallTimeMs <;> rw [h₁] at h <;> try cases h
    cases h₂ : f .fetches <;> rw [h₂] at h <;> try cases h
    cases h₃ : f .bytesTransferred <;> rw [h₃] at h <;> try cases h
    cases h₄ : f .outputBytes <;> rw [h₄] at h <;> try cases h
    cases h₅ : f .tokens <;> rw [h₅] at h <;> try cases h
    cases h₆ : f .opsBand <;> rw [h₆] at h <;> try cases h
    cases d <;> assumption
  · intro h
    unfold tryFrom
    rw [h, h, h, h, h, h]
    rfl

end PerDimension

/-- Ceilings: a dimension without one is `none`. -/
abbrev Ceilings := PerDimension (Option UInt64)

/-- An amount on every dimension. -/
abbrev Cost := PerDimension UInt64

def Ceilings.default : Ceilings := PerDimension.from_ fun _ => none

def Cost.zero : Cost := PerDimension.from_ fun _ => 0

@[simp] theorem Ceilings.get_default (d : Dimension) : Ceilings.default.get d = none :=
  PerDimension.get_from _ d

@[simp] theorem Cost.get_zero (d : Dimension) : Cost.zero.get d = 0 :=
  PerDimension.get_from _ d

/-! ## Outcomes and invocation states -/

inductive DenyCode
  | capabilityNotGranted
  | scopeViolation
  | grantNotYetValid
  | grantExpired
  | grantRevoked
  | narrowingViolation
  | budgetUnavailable
  | sessionRequired
  | notSupported
  deriving DecidableEq, Repr

inductive NarrowingAxis
  | capabilities
  | auditScope
  | sessionScope
  | targetScope
  | ceilings
  | expiry
  | depth
  | issuerAuthority
  deriving DecidableEq, Repr

inductive TransferClass
  | reset
  | timeout
  | tooLarge
  | status
  | redirect
  | tls
  | policyRefused
  deriving DecidableEq, Repr

inductive ExtractionClass
  | malformed
  | unsupported
  | tooLarge
  deriving DecidableEq, Repr

/-- The kind of a reply without its payload; audit records carry it. -/
inductive OutcomeKind
  | success
  | plan
  | inProgress
  | protocolError
  | authFailed
  | denied
  | notFoundOrDenied
  | budgetExceeded
  | producerUnavailable
  | transferFailed
  | extractionFailed
  | deadlineExceeded
  | cancelled
  | unknownEffect
  | idempotencyConflict
  deriving DecidableEq, Repr

/-- A failure a caller observes. -/
inductive Failure
  | protocolError
  | authFailed
  | denied (code : DenyCode) (axis : Option NarrowingAxis)
  | notFoundOrDenied
  | budgetExceeded (dimension : Dimension)
  | producerUnavailable
  | transferFailed (cls : TransferClass)
  | extractionFailed (cls : ExtractionClass)
  | deadlineExceeded
  | cancelled
  | unknownEffect
  | idempotencyConflict
  deriving DecidableEq, Repr

namespace Failure

/-- A denial with no axis. -/
def deniedFor (code : DenyCode) : Failure := .denied code none

/-- A narrowing violation, which names the failing axis. -/
def narrowing (axis : NarrowingAxis) : Failure := .denied .narrowingViolation (some axis)

def kind : Failure → OutcomeKind
  | protocolError => .protocolError
  | authFailed => .authFailed
  | denied _ _ => .denied
  | notFoundOrDenied => .notFoundOrDenied
  | budgetExceeded _ => .budgetExceeded
  | producerUnavailable => .producerUnavailable
  | transferFailed _ => .transferFailed
  | extractionFailed _ => .extractionFailed
  | deadlineExceeded => .deadlineExceeded
  | cancelled => .cancelled
  | unknownEffect => .unknownEffect
  | idempotencyConflict => .idempotencyConflict

end Failure

inductive InvocationState
  | planned
  | denied
  | intentPersisted
  | dispatched
  | transferComplete
  | published
  | settled
  | released
  | unknownEffect
  deriving DecidableEq, Repr

/-- No further transition leaves this state. -/
def InvocationState.isTerminal : InvocationState → Bool
  | denied | settled | released | unknownEffect => true
  | planned | intentPersisted | dispatched | transferComplete | published => false

inductive ReleaseReason
  | abandoned
  | revoked
  | producerUnavailable
  | cancelled
  | deadlineExceeded
  | expired
  deriving DecidableEq, Repr

/-- What a child grant asks for. -/
structure GrantIssueRequest where
  holder : TenantId
  capabilities : List Capability
  sessionScope : SessionScope
  targetScope : List Bytes
  ceilings : Ceilings
  notBefore : Timestamp
  expiresAt : Timestamp
  maxDepth : Option UInt8
  deriving DecidableEq, Repr

end Dioptron
