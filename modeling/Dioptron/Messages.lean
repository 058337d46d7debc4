import Dioptron.Reads

/-! # The messages of the wire

The frame bodies of the contract with the checks each of them must pass, the wire
constants and the byte strings of the handshake.  A body travels under the kind of its
frame, so the type of a body is a function of the kind.
-/
namespace Dioptron

/-! ## Constants -/

/-- The wire version both sides speak. -/
def wireVersion : UInt16 := 1

/-- The four bytes every frame starts with. -/
def magic : Bytes := ascii "DPT1"

/-- Magic 4, kind 1, flags 1, reserved 2, body length 4. -/
def headerLen : Nat := 12

def preAuthMaxBody : UInt32 := 4 * 1024

/-- No negotiation may exceed it. -/
def hardMaxBody : UInt32 := 4 * 1024 * 1024

def clampCap (cap : UInt32) : UInt32 := if cap > hardMaxBody then hardMaxBody else cap

def authLabel : Bytes := ascii "dioptron-auth-v1"

def maxQueryPredicateLen : Nat := 1024

inductive FrameKind
  | clientHello
  | serverHello
  | auth
  | admitted
  | request
  | cancel
  | response
  | fault
  deriving DecidableEq, Repr

namespace FrameKind

def all : List FrameKind :=
  [clientHello, serverHello, auth, admitted, request, cancel, response, fault]

/-- The kind byte. -/
def toU8 : FrameKind → UInt8
  | clientHello => 1
  | serverHello => 2
  | auth => 3
  | admitted => 4
  | request => 5
  | cancel => 6
  | response => 7
  | fault => 8

def fromU8 (byte : UInt8) : Option FrameKind :=
  match byte with
  | 1 => some clientHello
  | 2 => some serverHello
  | 3 => some auth
  | 4 => some admitted
  | 5 => some request
  | 6 => some cancel
  | 7 => some response
  | 8 => some fault
  | _ => none

theorem fromU8_toU8 (kind : FrameKind) : fromU8 kind.toU8 = some kind := by
  cases kind <;> rfl

end FrameKind

/-- Local failures of the frame codec and of the checks. -/
inductive WireError
  | idempotencyKeyLength (len : Nat)
  | badMagic (found : Bytes)
  | unknownFrameKind (kind : UInt8)
  | unknownFlags (flags : UInt8)
  | nonzeroReserved (reserved : Nat)
  | frameTooLarge (len : Nat) (cap : UInt32)
  | bodyLengthMismatch (declared : UInt32) (actual : Nat)
  | unexpectedFrameKind (expected found : FrameKind)
  | invalidArchive
  | nonCanonical (len canonicalLen : Nat)
  | encode
  | invalidVersionRange (min max : UInt16)
  | maxFrameOutOfRange (maxFrame : UInt32)
  | missingIdempotencyKey (capability : Capability)
  | predicateTooLong (len max : Nat)
  | deniedAxisMismatch
  | faultNotConnectionLevel (kind : OutcomeKind)
  deriving DecidableEq, Repr

/-! ## Handshake bodies -/

/-- A handshake nonce. -/
structure Nonce where
  bytes : Bytes
  len_eq : bytes.length = 16
  deriving DecidableEq, Repr

/-- An Ed25519 signature. -/
structure Signature where
  bytes : Bytes
  len_eq : bytes.length = 64
  deriving DecidableEq, Repr

structure ClientHello where
  versionMin : UInt16
  versionMax : UInt16
  tenant : TenantId
  clientNonce : Nonce
  deriving DecidableEq, Repr

/-- The server's version decision. -/
inductive VersionChoice
  | chosen (version : UInt16)
  | incompatible
  deriving DecidableEq, Repr

/-- Picks the highest version both ranges contain. -/
def negotiateVersion (clientMin clientMax serverMin serverMax : UInt16) : VersionChoice :=
  let low := if clientMin > serverMin then clientMin else serverMin
  let high := if clientMax < serverMax then clientMax else serverMax
  if low ≤ high then .chosen high else .incompatible

structure ServerHello where
  version : VersionChoice
  serverNonce : Nonce
  maxFrame : UInt32
  deriving DecidableEq, Repr

structure Auth where
  signature : Signature
  deriving DecidableEq, Repr

/-- The server accepted the signature and the peer. -/
structure Admitted where
  deriving DecidableEq, Repr

/-- The bytes an authenticating tenant signs. -/
def authTranscript (version : UInt16) (tenant : TenantId)
    (clientNonce serverNonce : Nonce) : Bytes :=
  authLabel ++ leBytes 2 version.toNat ++ tenant.toBytes ++ clientNonce.bytes ++ serverNonce.bytes

/-! ## Requests -/

inductive Mode
  | execute
  | dryRun
  deriving DecidableEq, Repr

/-- Bounds of the caller's on one capture. -/
structure CaptureLimits where
  maxOutputBytes : Option UInt64
  maxTransferBytes : Option UInt64
  deriving DecidableEq, Repr

structure CaptureRequest where
  session : SessionId
  target : Bytes
  limits : CaptureLimits
  /-- Passed to the producer as it is. -/
  egressPolicy : Option Bytes
  deriving DecidableEq, Repr

structure ReadRequest where
  artifactRef : ArtifactRef
  offset : UInt64
  len : UInt32
  deriving DecidableEq, Repr

structure QueryRequest where
  sessionScope : Option SessionId
  predicate : Bytes
  limit : UInt32
  deriving DecidableEq, Repr

structure AuditQueryRequest where
  auditScope : AuditScope
  session : Option SessionId
  after : Option AuditSeq
  limit : UInt32
  deriving DecidableEq, Repr

inductive RequestBody
  | sessionCreate
  | sessionFork (parentSession : SessionId)
  | capture (request : CaptureRequest)
  | ingest (artifactRef : ArtifactRef)
  | read (request : ReadRequest)
  | query (request : QueryRequest)
  | grantIssue (request : GrantIssueRequest)
  | grantRevoke (targetGrant : GrantId)
  | auditQuery (request : AuditQueryRequest)
  deriving DecidableEq

/-- The capability a body invokes. -/
def RequestBody.capability : RequestBody → Capability
  | sessionCreate => .sessionCreate
  | sessionFork _ => .sessionFork
  | capture _ => .capture
  | ingest _ => .ingest
  | read _ => .read
  | query _ => .query
  | grantIssue _ => .grantIssue
  | grantRevoke _ => .grantRevoke
  | auditQuery _ => .auditQuery

/-- Calls that must carry an idempotency key when executed. -/
def Capability.isStateChanging : Capability → Bool
  | sessionCreate | sessionFork | capture | ingest | grantIssue | grantRevoke => true
  | read | query | auditQuery => false

/-- A capability request.  The key is as it came over the wire, of any length. -/
structure Request where
  requestId : UInt64
  grant : GrantId
  idempotencyKey : Option Bytes
  mode : Mode
  deadlineMs : UInt32
  body : RequestBody
  deriving DecidableEq

/-- Cancels a request in flight. -/
structure Cancel where
  requestId : UInt64
  deriving DecidableEq, Repr

/-! ## Replies -/

structure CaptureOutcome where
  artifactRef : ArtifactRef
  source : SourceRef
  textView : Option Bytes
  truncated : Bool
  outputBytes : UInt64
  revokedAfterEffect : Bool
  deriving DecidableEq, Repr

structure GrantRevoked where
  revokedGrant : GrantId
  effectSequence : AuditSeq
  effectTime : Timestamp
  deriving DecidableEq, Repr

/-- An audit record as the wire has it. -/
structure AuditRecord where
  seq : AuditSeq
  time : Timestamp
  tenant : TenantId
  session : Option SessionId
  invocation : InvocationId
  capability : Capability
  state : InvocationState
  outcome : OutcomeKind
  deriving DecidableEq, Repr

structure AuditPage where
  scopeApplied : AuditScope
  records : List AuditRecord
  nextAfter : Option AuditSeq
  deriving DecidableEq, Repr

/-- The reply to a dry run. -/
structure Plan where
  capability : Capability
  cost : Cost
  grantChain : List GrantId
  ruleChain : List Bytes
  refusal : Option Failure
  deriving DecidableEq, Repr

inductive ResponseBody
  | sessionOpened (opened : SessionOpened)
  | captured (outcome : CaptureOutcome)
  | ingested (artifactRef : ArtifactRef)
  | chunk (chunk : ReadChunk)
  | queryPage (page : QueryPage)
  | grantIssued (grant parentGrant : GrantId)
  | grantRevoked (revoked : GrantRevoked)
  | auditPage (page : AuditPage)
  | plan (plan : Plan)
  | inProgress
  | failed (failure : Failure)
  deriving DecidableEq

structure Response where
  requestId : UInt64
  invocation : Option InvocationId
  body : ResponseBody
  deriving DecidableEq

/-- A connection-level failure, sent once before the connection closes. -/
structure Fault where
  failure : Failure
  deriving DecidableEq, Repr

/-! ## Bodies and their checks -/

/-- A denial names an axis exactly when it is a narrowing violation. -/
def Failure.isWellFormed : Failure → Bool
  | denied code axis => (code == .narrowingViolation) == axis.isSome
  | _ => true

/-- Fails with `e` unless `c` holds. -/
def ensureWire (c : Prop) [Decidable c] (e : WireError) : Except WireError Unit :=
  if c then .ok () else .error e

@[simp] theorem ensureWire_eq_ok {c : Prop} [Decidable c] {e : WireError} {u : Unit} :
    ensureWire c e = .ok u ↔ c := by
  unfold ensureWire
  split_ifs with hc <;> simp [hc]

namespace FrameKind

/-- What travels in a frame of each kind. -/
def Body : FrameKind → Type
  | clientHello => ClientHello
  | serverHello => ServerHello
  | auth => Auth
  | admitted => Admitted
  | request => Request
  | cancel => Cancel
  | response => Response
  | fault => Fault

instance : (kind : FrameKind) → DecidableEq kind.Body
  | clientHello => inferInstanceAs (DecidableEq ClientHello)
  | serverHello => inferInstanceAs (DecidableEq ServerHello)
  | auth => inferInstanceAs (DecidableEq Auth)
  | admitted => inferInstanceAs (DecidableEq Admitted)
  | request => inferInstanceAs (DecidableEq Request)
  | cancel => inferInstanceAs (DecidableEq Cancel)
  | response => inferInstanceAs (DecidableEq Response)
  | fault => inferInstanceAs (DecidableEq Fault)

end FrameKind

def ClientHello.check (hello : ClientHello) : Except WireError Unit :=
  ensureWire (hello.versionMin ≤ hello.versionMax)
    (.invalidVersionRange hello.versionMin hello.versionMax)

def ServerHello.check (hello : ServerHello) : Except WireError Unit :=
  ensureWire (preAuthMaxBody ≤ hello.maxFrame ∧ hello.maxFrame ≤ hardMaxBody)
    (.maxFrameOutOfRange hello.maxFrame)

/-- The key's length, a key where one is needed, and the length of a predicate. -/
def Request.check (request : Request) : Except WireError Unit := do
  match request.idempotencyKey with
  | some key => ensureWire (16 ≤ key.length ∧ key.length ≤ 64) (.idempotencyKeyLength key.length)
  | none =>
    ensureWire (request.mode = .dryRun ∨ ¬request.body.capability.isStateChanging)
      (.missingIdempotencyKey request.body.capability)
  match request.body with
  | .query query =>
    ensureWire (query.predicate.length ≤ maxQueryPredicateLen)
      (.predicateTooLong query.predicate.length maxQueryPredicateLen)
  | _ => return ()

def Response.check (response : Response) : Except WireError Unit :=
  let failure :=
    match response.body with
    | .failed failure => some failure
    | .plan plan => plan.refusal
    | _ => none
  match failure with
  | some failure => ensureWire (failure.isWellFormed = true) .deniedAxisMismatch
  | none => .ok ()

def Fault.check (fault : Fault) : Except WireError Unit :=
  ensureWire (fault.failure = .protocolError ∨ fault.failure = .authFailed)
    (.faultNotConnectionLevel fault.failure.kind)

/-- What the archive of a body cannot express. -/
def FrameKind.check : (kind : FrameKind) → kind.Body → Except WireError Unit
  | clientHello, hello => ClientHello.check hello
  | serverHello, hello => ServerHello.check hello
  | auth, _ => .ok ()
  | admitted, _ => .ok ()
  | request, call => Request.check call
  | cancel, _ => .ok ()
  | response, reply => Response.check reply
  | fault, notice => Fault.check notice

/-- A message: a kind and a body of it. -/
structure WireMessage where
  kind : FrameKind
  body : kind.Body

/-! ## Archives

The serializer of bodies is a library.  It is a function of the value, and reading its
output gives the value back; it may read other bytes as well. -/

structure Archive (T : Type) where
  /-- Serializes a value; nothing when the serializer fails. -/
  toBytes : T → Option Bytes
  /-- Validates an archive and deserializes it. -/
  fromBytes : Bytes → Option T
  fromBytes_toBytes : ∀ v bs, toBytes v = some bs → fromBytes bs = some v

/-- The archives of all bodies. -/
structure Archives where
  of : (kind : FrameKind) → Archive kind.Body

end Dioptron
