import Dioptron.Connections

/-! # The handshake

A peer is admitted after a hello and a signature over a transcript that names the version
the server chose, the hello's tenant and both nonces.  The daemon's side and the client's
side are two programs over a connected pair of streams; what an arbitrary peer sends is the
input of the daemon's.  The signature scheme and the tenant directory are parameters.
-/
namespace Dioptron

/-! ## Channels -/

/-- One end of a connection: what it will read, what it wrote, and how its next writes
end. -/
structure Channel where
  input : Stream
  sent : Bytes
  writes : List (Option IoError)

/-- Writes all bytes, or fails. -/
def Channel.write (c : Channel) (bytes : Bytes) : Except IoError Channel :=
  match c.writes with
  | some e :: _ => .error e
  | _ => .ok { c with sent := c.sent ++ bytes, writes := c.writes.tail }

/-! ## The daemon's side -/

/-- What the server needs to authenticate one tenant. -/
structure TenantAuth where
  verifyingKey : Bytes
  boundUids : List UInt32
  deriving DecidableEq, Repr

/-- The outcome of a successful handshake. -/
structure Admission where
  tenant : TenantId
  version : UInt16
  deriving DecidableEq, Repr

/-- The identity of an admitted connection. -/
structure ConnIdentity where
  tenant : TenantId
  uid : UInt32
  version : UInt16
  maxFrame : UInt32
  deriving DecidableEq, Repr

def identity (admission : Admission) (uid maxFrame : UInt32) : ConnIdentity :=
  ⟨admission.tenant, uid, admission.version, maxFrame⟩

/-- The server's checks of a peer: whether a signature over a message verifies under a key,
the key that stands in for an unknown tenant's, and the registry. -/
structure Authenticator where
  verify : Bytes → Bytes → Signature → Bool
  dummyKey : Bytes
  lookup : TenantId → Option TenantAuth

/-- Whether the signature verifies against the tenant's registered key and the peer's uid is
bound to the tenant.  All checks run before any decides. -/
def Authenticator.authenticate (au : Authenticator) (tenant : TenantId) (uid : UInt32)
    (transcript : Bytes) (signature : Signature) : Bool :=
  let record := au.lookup tenant
  let known := record.isSome
  let (key, boundUids) := match record with
    | some record => (record.verifyingKey, record.boundUids)
    | none => (au.dummyKey, [])
  let keyOk := au.verify key transcript signature
  let uidOk := boundUids.contains uid
  known && keyOk && uidOk

namespace Server

/-- The wire versions the server speaks. -/
def versionMin : UInt16 := wireVersion
def versionMax : UInt16 := wireVersion

/-- How the connection ends after a failed read. -/
def ReadFail.intoClose : ReadFail → Close
  | closed => .peerClosed
  | io _ => .io
  | header _ => .fault .protocolError "invalid frame header"

/-- Reads one handshake frame. -/
def read (c : Channel) : Except Close (Frame × Channel) := do
  let (frame, input) ← (readFrame preAuthMaxBody c.input).mapError ReadFail.intoClose
  return (frame, { c with input := input })

/-- Decodes a handshake frame.  A request or a cancel comes before authentication. -/
def expect (A : Archives) (kind : FrameKind) (frame : Frame) : Except Close kind.Body :=
  if frame.header.kind = .request ∨ frame.header.kind = .cancel then
    .error (.fault .authFailed "request before authentication")
  else
    (A.decodeFrame kind frame.header frame.body preAuthMaxBody).mapError fun _ =>
      .fault .protocolError "invalid handshake frame"

/-- Writes an encoded handshake frame. -/
def send (c : Channel) (encoded : Except WireError Bytes) : Except Close Channel := do
  let bytes ← encoded.mapError fun _ => Close.internal "handshake frame did not encode"
  (c.write bytes).mapError fun _ => Close.io

/-- A nonce of the random source, which may fail. -/
def freshNonce (random : Option Nonce) : Except Close Nonce :=
  match random with
  | some nonce => .ok nonce
  | none => .error (.internal "random source failed")

/-- Runs the handshake for a peer with user id `uid`. -/
def handshake (A : Archives) (au : Authenticator) (limits : Limits) (uid : UInt32)
    (random : Option Nonce) (c : Channel) : Except Close (Admission × Channel) := do
  let (frame, c) ← read c
  let hello : ClientHello ← expect A .clientHello frame
  let serverNonce ← freshNonce random
  let choice := negotiateVersion hello.versionMin hello.versionMax versionMin versionMax
  let serverHello : ServerHello := ⟨choice, serverNonce, limits.maxFrame⟩
  let c ← send c (A.encodeFrame ⟨.serverHello, serverHello⟩ preAuthMaxBody)
  match choice with
  | .incompatible => throw .incompatible
  | .chosen version => do
    let (frame, c) ← read c
    let auth : Auth ← expect A .auth frame
    let transcript := authTranscript version hello.tenant hello.clientNonce serverNonce
    if au.authenticate hello.tenant uid transcript auth.signature then
      let c ← send c (A.encodeFrame ⟨.admitted, Admitted.mk⟩ preAuthMaxBody)
      return (⟨hello.tenant, version⟩, c)
    else
      throw (.fault .authFailed "authentication failed")

/-- Reads one frame of an admitted connection. -/
def nextInbound (A : Archives) (cap : UInt32) (s : Stream) : Except Close (Inbound × Stream) := do
  let (frame, s) ← (readFrame cap s).mapError ReadFail.intoClose
  match frame.header.kind with
  | .request =>
    let request : Request ← (A.decodeFrame .request frame.header frame.body cap).mapError fun _ =>
      .fault .protocolError "invalid request"
    return (.request request, s)
  | .cancel =>
    let cancel : Cancel ← (A.decodeFrame .cancel frame.header frame.body cap).mapError fun _ =>
      .fault .protocolError "invalid cancel"
    return (.cancel cancel, s)
  | _ => throw (.fault .protocolError "frame kind not valid after admission")

/-- The reader forwarded these frames and has the rest of the stream before it. -/
inductive Reads (A : Archives) (cap : UInt32) : Stream → List Inbound → Stream → Prop
  | nil (s : Stream) : Reads A cap s [] s
  | snoc {s s' s'' : Stream} {read : List Inbound} {inbound : Inbound}
      (hread : Reads A cap s read s') (hnext : nextInbound A cap s' = .ok (inbound, s'')) :
      Reads A cap s (read ++ [inbound]) s''

end Server

/-- The request loop took these frames, in this order. -/
inductive ConnState.Fed (A : Archives) (limits : Limits) : List Inbound → ConnState → Prop
  | initial : Fed A limits [] .initial
  | frame {taken : List Inbound} {st st' : ConnState} {inbound : Inbound}
    (h : Fed A limits taken st)
      (hturn : Turn A limits (some inbound) st st') : Fed A limits (taken ++ [inbound]) st'
  | turn {taken : List Inbound} {st st' : ConnState} (h : Fed A limits taken st)
      (hturn : Turn A limits none st st') : Fed A limits taken st'

/-- A connection that was admitted, up to some point of its request loop: the handshake ran on
the channel, the reader read on from there, and the loop took what the reader forwarded. -/
structure Server.Serves (A : Archives) (au : Authenticator) (limits : Limits) (uid : UInt32)
    (random : Option Nonce) (c : Channel) (who : ConnIdentity) (st : ConnState) : Prop where
  run : ∃ admission c' read s' taken,
    Server.handshake A au limits uid random c = .ok (admission, c') ∧
    who = identity admission uid limits.maxFrame ∧
    Server.Reads A limits.maxFrame c'.input read s' ∧ taken <+: read ∧ st.Fed A limits taken

/-! ## The client's side -/

namespace Xenos

/-- An admitted client. -/
structure Client where
  version : UInt16
  maxFrame : UInt32
  deriving DecidableEq, Repr

/-- What a failed write means. -/
def writeError : IoError → Error
  | .wouldBlock | .timedOut => .timeout
  | e => .io e

def sendMessage (A : Archives) (c : Channel) (m : WireMessage) (cap : UInt32) :
    Except Error Channel := do
  let bytes ← frameBytes A m cap
  (c.write bytes).mapError writeError

def readMessage (A : Archives) (c : Channel) (kind : FrameKind) (cap : UInt32) :
    Except Error (kind.Body × Channel) := do
  let (frame, input) ← readFrame cap c.input
  let body ← frame.decode A kind cap
  return (body, { c with input := input })

def drawNonce (random : Option Nonce) : Except Error Nonce :=
  match random with
  | some nonce => .ok nonce
  | none => .error .random

/-- The version of the server's decision, which must be one that was offered. -/
def chosenVersion (min max : UInt16) : VersionChoice → Except Error UInt16
  | .chosen version => do
    ensure (min ≤ version ∧ version ≤ max) (.versionOutOfRange version min max)
    return version
  | .incompatible => .error (.incompatible min max)

/-- Runs the handshake as `tenant`, offering the versions from `min` to `max`. -/
def handshakeWith (A : Archives) (sign : Bytes → Signature) (tenant : TenantId) (min max : UInt16)
    (random : Option Nonce) (c : Channel) : Except Error (Client × Channel) := do
  let clientNonce ← drawNonce random
  let hello : ClientHello := ⟨min, max, tenant, clientNonce⟩
  let c ← sendMessage A c ⟨.clientHello, hello⟩ preAuthMaxBody
  let (reply, c) ← readMessage A c .serverHello preAuthMaxBody
  let reply : ServerHello := reply
  let version ← chosenVersion min max reply.version
  let transcript := authTranscript version tenant clientNonce reply.serverNonce
  let c ← sendMessage A c ⟨.auth, (⟨sign transcript⟩ : Auth)⟩ preAuthMaxBody
  let (_, c) ← readMessage A c .admitted preAuthMaxBody
  return (⟨version, reply.maxFrame⟩, c)

end Xenos

/-! ## Frames that were read -/

variable {s s' : Stream} {cap uid : UInt32} {c c' : Channel} {A : Archives} {au : Authenticator}
  {limits : Limits} {random : Option Nonce} {version : UInt16} {hello : ClientHello} {auth : Auth}
  {nonce : Nonce}

/-- What a filled buffer holds came from the front of the stream. -/
theorem readLoop_eq_ok {ε : Type} {eof : Nat → ε} {react : Nat → IoError → Option ε} {n : Nat}
    {acc bs : Bytes} (h : readLoop eof react n acc s = .ok (bs, s')) (hacc : acc.length ≤ n) :
    ∃ xs, bs = acc ++ xs ∧ s.bytes = xs ++ s'.bytes ∧ bs.length = n := by
  induction hsize : s.size using Nat.strong_induction_on generalizing s acc with
  | _ size ih =>
  subst hsize
  rw [readLoop] at h
  by_cases hfull : acc.length < n
  · rw [if_pos hfull] at h
    split at h
    · rename_i ys s₁ hread
      obtain ⟨hsplit, hle, -, -, hevents⟩ := Stream.read_ok hread
      by_cases hne : ys = []
      · rw [if_pos hne] at h
        cases h
      · rw [if_neg hne] at h
        have hsmaller : s₁.size < s.size := by
          have hcount := congrArg List.length hsplit
          have hpos := List.length_pos_of_ne_nil hne
          rw [List.length_append] at hcount
          unfold Stream.size
          omega
        obtain ⟨xs, hbs, hbytes, hlen⟩ := ih s₁.size hsmaller h (by simp; omega) rfl
        exact ⟨ys ++ xs, by rw [hbs, List.append_assoc],
          by rw [hsplit, hbytes, List.append_assoc], hlen⟩
    · rename_i e s₁ hread
      obtain ⟨hsame, hevents⟩ := Stream.read_error hread
      cases hreact : react acc.length e with
      | some =>
        simp only [hreact] at h
        cases h
      | none =>
        simp only [hreact] at h
        have hsmaller : s₁.size < s.size := by
          unfold Stream.size
          rw [hsame, hevents, List.length_cons]
          omega
        obtain ⟨xs, hbs, hbytes, hlen⟩ := ih s₁.size hsmaller h hacc rfl
        exact ⟨xs, hbs, hsame ▸ hbytes, hlen⟩
  · rw [if_neg hfull] at h
    cases h
    exact ⟨[], (List.append_nil _).symm, rfl, by omega⟩

theorem FrameKind.toU8_of_fromU8 {byte : UInt8} {kind : FrameKind} (h : fromU8 byte = some kind) :
    byte = kind.toU8 := by
  unfold fromU8 at h
  split at h <;> cases h <;> rfl

theorem leNat_lt (bs : Bytes) : leNat bs < 256 ^ bs.length := by
  induction bs with
  | nil => exact Nat.one_pos
  | cons b =>
    have hb := b.toNat_lt
    rw [leNat, List.length_cons, pow_succ]
    omega

theorem leBytes_leNat (bs : Bytes) : leBytes bs.length (leNat bs) = bs := by
  induction bs with
  | nil => rfl
  | cons b bs ih =>
    have hb := b.toNat_lt
    have hlow : (b.toNat + 256 * leNat bs) % 256 = b.toNat := by omega
    have hhigh : (b.toNat + 256 * leNat bs) / 256 = leNat bs := by omega
    rw [List.length_cons, leNat, leBytes, hlow, hhigh, ih, UInt8.ofNat_toNat]

/-- The checks of a header leave one way to write it. -/
theorem FrameHeader.eq_encode {bytes : Bytes} {kind : FrameKind} (hlen : bytes.length = headerLen)
    (hmagic : bytes.take 4 = magic) (hkind : bytes.getD 4 0 = kind.toU8)
    (hflags : bytes.getD 5 0 &&& ~~~knownFlags = 0)
    (hreserved : leNat ((bytes.drop 6).take 2) = 0) : bytes.getD 5 0 = 0 ∧
      bytes = (new kind (UInt32.ofNat (leNat ((bytes.drop 8).take 4)))).encode := by
  match bytes, hlen with
  | [b0, b1, b2, b3, k, f, r0, r1, l0, l1, l2, l3], _ =>
    have hzero : f = 0 := by
      have hall : f &&& ~~~knownFlags = f := by
        rw [show ~~~knownFlags = -1 from rfl]
        exact UInt8.and_neg_one
      exact hall.symm.trans hflags
    have hsmall : r0.toNat + 256 * (r1.toNat + 256 * 0) = 0 := hreserved
    have h0 : r0 = 0 := UInt8.toNat_inj.mp (show r0.toNat = 0 by omega)
    have h1 : r1 = 0 := UInt8.toNat_inj.mp (show r1.toNat = 0 by omega)
    have hlen : (UInt32.ofNat (leNat [l0, l1, l2, l3])).toNat = leNat [l0, l1, l2, l3] := by
      have hlt : leNat [l0, l1, l2, l3] < 256 ^ 4 := leNat_lt _
      rw [UInt32.toNat_ofNat']
      omega
    have hfield : leBytes 4 (leNat [l0, l1, l2, l3]) = [l0, l1, l2, l3] :=
      leBytes_leNat [l0, l1, l2, l3]
    refine ⟨hzero, ?_⟩
    have hfront : [b0, b1, b2, b3] = magic := hmagic
    have hbyte : k = kind.toU8 := hkind
    show [b0, b1, b2, b3] ++ [k, f, r0, r1] ++ [l0, l1, l2, l3] = _
    rw [hfront, hbyte, hzero, h0, h1]
    unfold encode new
    show _ = _ ++ leBytes 4 (UInt32.ofNat (leNat [l0, l1, l2, l3])).toNat
    rw [hlen, hfield]

/-- A header the daemon accepts is the header of its kind and length. -/
theorem FrameHeader.of_decode {bytes : Bytes} {header : FrameHeader}
    (hlen : bytes.length = headerLen) (h : decode bytes cap = .ok header) :
    header = new header.kind header.len ∧ bytes = header.encode := by
  unfold decode at h
  dsimp only at h
  obtain ⟨u, hmagic, h⟩ := bind_eq_ok.mp h
  cases hkind : FrameKind.fromU8 (bytes.getD 4 0) with
  | none =>
    rw [hkind] at h
    cases h
  | some =>
    simp only [hkind] at h
    obtain ⟨u₁, hflags, h⟩ := bind_eq_ok.mp h
    obtain ⟨u₂, hreserved, h⟩ := bind_eq_ok.mp h
    obtain ⟨u₃, -, h⟩ := bind_eq_ok.mp h
    obtain ⟨hzero, hbytes⟩ := eq_encode hlen (ensureWire_eq_ok.mp hmagic)
      (FrameKind.toU8_of_fromU8 hkind) (ensureWire_eq_ok.mp hflags) (ensureWire_eq_ok.mp hreserved)
    obtain rfl := Except.ok.inj h
    refine ⟨by rw [hzero]; rfl, ?_⟩
    rw [hzero]
    exact hbytes

/-- So is a header the client accepts. -/
theorem Xenos.of_parseHeader {bytes : Bytes} {kind : FrameKind} {len : UInt32}
    (hlen : bytes.length = headerLen) (h : parseHeader bytes cap = .ok (kind, len)) :
    bytes = (FrameHeader.new kind len).encode := by
  obtain ⟨flags, hdecode⟩ := parseHeader_eq_ok.mp h
  obtain ⟨hnew, hbytes⟩ := FrameHeader.of_decode hlen hdecode
  rw [hbytes, hnew]

namespace Archives

variable {A : Archives} {cap : UInt32}

/-- Reading `m` takes its frame from the front of the stream. -/
structure Takes (A : Archives) (cap : UInt32) (m : WireMessage) (s s' : Stream) : Prop where
  bytes : ∃ body, A.Carries cap m body ∧ s.bytes = frame m body ++ s'.bytes

theorem Takes.of_header {kind : FrameKind} {m : kind.Body} {header : FrameHeader} {body : Bytes}
    {s s' : Stream} (hbytes : s.bytes = header.encode ++ body ++ s'.bytes)
    (hheader : header = .new header.kind header.len) (hlen : header.len.toNat = body.length)
    (hkind : header.kind = kind) (hdecode : A.decode kind body cap = .ok m) :
    A.Takes cap ⟨kind, m⟩ s s' := by
  refine ⟨body, (decode_eq_ok (m := ⟨kind, m⟩)).mp hdecode, ?_⟩
  have hfield : UInt32.ofNat body.length = header.len := by
    rw [← hlen, UInt32.ofNat_toNat]
  rw [hbytes, frame, hfield, hheader, hkind]
  rfl

end Archives

theorem Server.of_readFrame {frame : Frame} (h : readFrame cap s = .ok (frame, s')) :
    frame.header = .new frame.header.kind frame.header.len ∧
      frame.header.len.toNat = frame.body.length ∧
      s.bytes = frame.header.encode ++ frame.body ++ s'.bytes := by
  unfold readFrame at h
  split at h
  · cases h
  · rename_i first s₁ hread
    obtain ⟨hsplit, hle, -⟩ := Stream.read_ok hread
    by_cases hne : first = []
    · rw [if_pos hne] at h
      cases h
    · rw [if_neg hne] at h
      obtain ⟨⟨rest, s₂⟩, hrest, h⟩ := bind_eq_ok.mp h
      obtain ⟨header, hheader, h⟩ := bind_eq_ok.mp h
      obtain ⟨⟨body, s₃⟩, hbody, h⟩ := bind_eq_ok.mp h
      cases h
      obtain ⟨xs, hxs, hbytes₁, hlen₁⟩ := readLoop_eq_ok hrest (Nat.zero_le _)
      obtain ⟨ys, hys, hbytes₂, hlen₂⟩ := readLoop_eq_ok hbody (Nat.zero_le _)
      rw [List.nil_append] at hxs hys
      subst hxs hys
      have hone : first.length = 1 := by
        have hpos := List.length_pos_of_ne_nil hne
        omega
      have hhead : (first ++ rest).length = headerLen := by
        rw [List.length_append, hone, hlen₁]
        rfl
      obtain ⟨hnew, hencode⟩ := FrameHeader.of_decode hhead (mapError_eq_ok.mp hheader)
      refine ⟨hnew, hlen₂.symm, ?_⟩
      rw [hsplit, hbytes₁, hbytes₂, ← hencode]
      simp only [List.append_assoc]

theorem Xenos.of_readFrame {frame : Frame} (h : readFrame cap s = .ok (frame, s')) :
    ∃ len : UInt32, len.toNat = frame.body.length ∧
      s.bytes = (FrameHeader.new frame.kind len).encode ++ frame.body ++ s'.bytes := by
  unfold readFrame at h
  obtain ⟨⟨header, s₁⟩, hheader, h⟩ := bind_eq_ok.mp h
  obtain ⟨⟨kind, len⟩, hparse, h⟩ := bind_eq_ok.mp h
  obtain ⟨⟨body, s₂⟩, hbody, h⟩ := bind_eq_ok.mp h
  cases h
  obtain ⟨xs, hxs, hbytes₁, hlen₁⟩ := readLoop_eq_ok (mapError_eq_ok.mp hheader) (Nat.zero_le _)
  obtain ⟨ys, hys, hbytes₂, hlen₂⟩ := readLoop_eq_ok (mapError_eq_ok.mp hbody) (Nat.zero_le _)
  rw [List.nil_append] at hxs hys
  subst hxs hys
  refine ⟨len, hlen₂.symm, ?_⟩
  rw [hbytes₁, hbytes₂, ← of_parseHeader hlen₁ hparse, List.append_assoc]

/-! ## Messages on a channel -/

theorem FrameHeader.encode_inj {kind kind' : FrameKind} {len len' : UInt32}
    (h : (FrameHeader.new kind len).encode = (FrameHeader.new kind' len').encode) :
    kind = kind' ∧ len = len' := by
  obtain ⟨-, hkind, -, -, hlen⟩ := FrameHeader.encode_new_fields kind len
  obtain ⟨-, hkind', -, -, hlen'⟩ := FrameHeader.encode_new_fields kind' len'
  rw [h] at hkind hlen
  have hbyte : FrameKind.fromU8 kind.toU8 = FrameKind.fromU8 kind'.toU8 := by
    rw [← hkind, ← hkind']
  rw [FrameKind.fromU8_toU8, FrameKind.fromU8_toU8] at hbyte
  exact ⟨Option.some.inj hbyte, hlen.symm.trans hlen'⟩

namespace Archives

variable {A : Archives} {cap : UInt32} {m : WireMessage}

/-- A stream starts with the frame of one message at most. -/
theorem Carries.eq_of_append {m' : WireMessage} {body body' rest rest' : Bytes}
    (h : A.Carries cap m body) (h' : A.Carries cap m' body')
    (heq : frame m body ++ rest = frame m' body' ++ rest') : m = m' ∧ rest = rest' := by
  unfold frame at heq
  rw [List.append_assoc, List.append_assoc] at heq
  obtain ⟨hheader, hrest⟩ := List.append_inj heq (by simp)
  obtain ⟨hkind, hfield⟩ := FrameHeader.encode_inj hheader
  have hlen : body.length = body'.length := by
    rw [← h.len_toNat, ← h'.len_toNat, hfield]
  obtain ⟨rfl, rfl⟩ := List.append_inj hrest hlen
  obtain ⟨kind, m⟩ := m
  obtain ⟨kind', m'⟩ := m'
  obtain rfl : kind = kind' := hkind
  have hbytes := (A.of kind).fromBytes_toBytes _ _ h.bytes
  have hbytes' := (A.of kind).fromBytes_toBytes _ _ h'.bytes
  obtain rfl : m = m' := Option.some.inj (hbytes.symm.trans hbytes')
  exact ⟨rfl, rfl⟩

/-- What an encoded message is. -/
theorem of_encode {body : Bytes} (h : A.encode m = .ok body) :
    m.kind.check m.body = .ok () ∧ (A.of m.kind).toBytes m.body = some body := by
  unfold encode at h
  obtain ⟨u, hcheck, h⟩ := bind_eq_ok.mp h
  cases hbytes : (A.of m.kind).toBytes m.body with
  | none =>
    rw [hbytes] at h
    cases h
  | some =>
    rw [hbytes] at h
    cases h
    exact ⟨hcheck, rfl⟩

/-- A written frame carries its message. -/
theorem of_encodeFrame {bytes : Bytes} (h : A.encodeFrame m cap = .ok bytes) :
    ∃ body, A.Carries cap m body ∧ bytes = frame m body := by
  unfold encodeFrame at h
  obtain ⟨body, hencode, h⟩ := bind_eq_ok.mp h
  obtain ⟨len, hlen, h⟩ := bind_eq_ok.mp h
  obtain ⟨hcheck, hbytes⟩ := of_encode hencode
  unfold frameLen at hlen
  by_cases hfits : body.length < 2 ^ 32 ∧ UInt32.ofNat body.length ≤ clampCap cap
  · rw [if_pos hfits] at hlen
    cases hlen
    cases h
    have hle := UInt32.le_iff_toNat_le.mp hfits.2
    rw [UInt32.toNat_ofNat', Nat.mod_eq_of_lt hfits.1] at hle
    exact ⟨body, ⟨hcheck, hbytes, hle⟩, rfl⟩
  · rw [if_neg hfits] at hlen
    cases hlen

theorem of_frameBytes {bytes : Bytes} (h : Xenos.frameBytes A m cap = .ok bytes) :
    ∃ body, A.Carries cap m body ∧ bytes = frame m body :=
  of_encodeFrame (Xenos.frameBytes_eq_ok.mp h)

end Archives

theorem Channel.write_ok {bytes : Bytes} (h : c.write bytes = .ok c') :
    c'.input = c.input ∧ c'.sent = c.sent ++ bytes := by
  unfold write at h
  split at h
  · cases h
  · cases h
    exact ⟨rfl, rfl⟩

/-- `m` was written to the channel. -/
structure Channel.Puts (A : Archives) (m : WireMessage) (c c' : Channel) : Prop where
  input : c'.input = c.input
  sent : ∃ body, A.Carries preAuthMaxBody m body ∧ c'.sent = c.sent ++ Archives.frame m body

/-- `m` was read from the channel. -/
structure Channel.Gets (A : Archives) (m : WireMessage) (c c' : Channel) : Prop where
  sent : c'.sent = c.sent
  takes : A.Takes preAuthMaxBody m c.input c'.input

theorem Server.send_ok {m : WireMessage} (h : send c (A.encodeFrame m preAuthMaxBody) = .ok c') :
    c.Puts A m c' := by
  obtain ⟨bytes, hencoded, h⟩ := bind_eq_ok.mp h
  obtain ⟨body, hcarries, rfl⟩ := Archives.of_encodeFrame (mapError_eq_ok.mp hencoded)
  obtain ⟨hinput, hsent⟩ := Channel.write_ok (mapError_eq_ok.mp h)
  exact ⟨hinput, body, hcarries, hsent⟩

theorem Server.read_expect_ok {kind : FrameKind} {frame : Frame} {m : kind.Body}
    (hread : read c = .ok (frame, c')) (hexpect : expect A kind frame = .ok m) :
    c.Gets A ⟨kind, m⟩ c' := by
  obtain ⟨⟨found, input⟩, hframe, h⟩ := bind_eq_ok.mp hread
  cases h
  obtain ⟨hheader, hlen, hbytes⟩ := of_readFrame (mapError_eq_ok.mp hframe)
  unfold expect at hexpect
  split at hexpect
  · cases hexpect
  · obtain ⟨u, hkind, hexpect⟩ := bind_eq_ok.mp (mapError_eq_ok.mp hexpect)
    obtain ⟨u', -, hdecode⟩ := bind_eq_ok.mp hexpect
    exact ⟨rfl, .of_header hbytes hheader hlen (ensureWire_eq_ok.mp hkind) hdecode⟩

theorem Xenos.sendMessage_ok {m : WireMessage} (h : sendMessage A c m preAuthMaxBody = .ok c') :
    c.Puts A m c' := by
  obtain ⟨bytes, hencoded, h⟩ := bind_eq_ok.mp h
  obtain ⟨body, hcarries, rfl⟩ := Archives.of_frameBytes hencoded
  obtain ⟨hinput, hsent⟩ := Channel.write_ok (mapError_eq_ok.mp h)
  exact ⟨hinput, body, hcarries, hsent⟩

theorem Xenos.readMessage_ok {kind : FrameKind} {m : kind.Body}
    (h : readMessage A c kind preAuthMaxBody = .ok (m, c')) : c.Gets A ⟨kind, m⟩ c' := by
  obtain ⟨⟨frame, input⟩, hframe, h⟩ := bind_eq_ok.mp h
  obtain ⟨body, hbody, h⟩ := bind_eq_ok.mp h
  cases h
  obtain ⟨len, hlen, hbytes⟩ := of_readFrame hframe
  unfold Frame.decode at hbody
  by_cases hfault : frame.kind = .fault ∧ kind ≠ .fault
  · rw [if_pos hfault] at hbody
    obtain ⟨notice, -, hbody⟩ := bind_eq_ok.mp hbody
    obtain ⟨u, -, hbody⟩ := bind_eq_ok.mp hbody
    cases hbody
  · rw [if_neg hfault] at hbody
    obtain ⟨u, hfound, hbody⟩ := bind_eq_ok.mp hbody
    have hsame : frame.kind = kind := ensure_eq_ok.mp hfound
    exact ⟨rfl, .of_header hbytes rfl hlen hsame (mapError_eq_ok.mp hbody)⟩

/-! ## Both sides of a handshake -/

/-- What the checks of a peer that passed say. -/
theorem Authenticator.authenticate_eq_true {tenant : TenantId} {transcript : Bytes}
    {signature : Signature} :
    au.authenticate tenant uid transcript signature = true ↔
      ∃ record, au.lookup tenant = some record ∧
        au.verify record.verifyingKey transcript signature = true ∧ uid ∈ record.boundUids := by
  unfold authenticate
  cases h : au.lookup tenant with
  | none => simp
  | some => simp

/-- The frames of a handshake that admitted, in the order they crossed the daemon's end of the
channel. -/
structure Server.Admits (A : Archives) (au : Authenticator) (limits : Limits) (uid : UInt32)
    (random : Option Nonce) (c c' : Channel) (hello : ClientHello) (version : UInt16) (auth : Auth)
    (nonce : Nonce) : Prop where
  drawn : random = some nonce
  chosen : negotiateVersion hello.versionMin hello.versionMax versionMin versionMax =
    .chosen version
  frames : ∃ c₁ c₂ c₃, c.Gets A ⟨.clientHello, hello⟩ c₁ ∧
    c₁.Puts A ⟨.serverHello, (⟨.chosen version, nonce, limits.maxFrame⟩ : ServerHello)⟩ c₂ ∧
    c₂.Gets A ⟨.auth, auth⟩ c₃ ∧ c₃.Puts A ⟨.admitted, Admitted.mk⟩ c'
  authenticated : ∃ record, au.lookup hello.tenant = some record ∧
    au.verify record.verifyingKey (authTranscript version hello.tenant hello.clientNonce nonce)
      auth.signature = true ∧ uid ∈ record.boundUids

theorem Server.handshake_ok {admission : Admission}
    (h : handshake A au limits uid random c = .ok (admission, c')) :
    ∃ hello version auth nonce, admission = ⟨hello.tenant, version⟩ ∧
      Admits A au limits uid random c c' hello version auth nonce := by
  unfold handshake at h
  obtain ⟨⟨frame₁, c₁⟩, hread₁, h⟩ := bind_eq_ok.mp h
  obtain ⟨hello, hhello, h⟩ := bind_eq_ok.mp h
  obtain ⟨nonce, hnonce, h⟩ := bind_eq_ok.mp h
  obtain ⟨c₂, hsend₁, h⟩ := bind_eq_ok.mp h
  have hdrawn : random = some nonce := by
    cases random with
    | none => cases hnonce
    | some => rw [Except.ok.inj hnonce]
  change ClientHello at hello
  cases hchoice : negotiateVersion hello.versionMin hello.versionMax versionMin versionMax with
  | incompatible =>
    simp only [hchoice] at h
    cases h
  | chosen version =>
    simp only [hchoice] at h hsend₁
    obtain ⟨⟨frame₂, c₃⟩, hread₂, h⟩ := bind_eq_ok.mp h
    obtain ⟨auth, hauth, h⟩ := bind_eq_ok.mp h
    change Auth at auth
    by_cases hok : au.authenticate hello.tenant uid
        (authTranscript version hello.tenant hello.clientNonce nonce) auth.signature = true
    · rw [if_pos hok] at h
      obtain ⟨c₄, hsend₂, h⟩ := bind_eq_ok.mp h
      cases h
      exact ⟨hello, version, auth, nonce, rfl, hdrawn, hchoice,
        ⟨c₁, c₂, c₃, read_expect_ok hread₁ hhello, send_ok hsend₁, read_expect_ok hread₂ hauth,
          send_ok hsend₂⟩, Authenticator.authenticate_eq_true.mp hok⟩
    · rw [if_neg hok] at h
      cases h

/-- The frames of a handshake the client completed. -/
structure Xenos.Completes (A : Archives) (sign : Bytes → Signature) (tenant : TenantId)
    (min max : UInt16) (c c' : Channel) (client : Client) : Prop where
  inRange : min ≤ client.version ∧ client.version ≤ max
  frames : ∃ clientNonce serverNonce c₁ c₂ c₃,
    c.Puts A ⟨.clientHello, (⟨min, max, tenant, clientNonce⟩ : ClientHello)⟩ c₁ ∧
    c₁.Gets A
      ⟨.serverHello, (⟨.chosen client.version, serverNonce, client.maxFrame⟩ : ServerHello)⟩ c₂ ∧
    c₂.Puts A
      ⟨.auth, (⟨sign (authTranscript client.version tenant clientNonce serverNonce)⟩ : Auth)⟩ c₃ ∧
    c₃.Gets A ⟨.admitted, Admitted.mk⟩ c'

theorem Xenos.handshakeWith_ok {sign : Bytes → Signature} {tenant : TenantId} {min max : UInt16}
    {client : Client} (h : handshakeWith A sign tenant min max random c = .ok (client, c')) :
    Completes A sign tenant min max c c' client := by
  unfold handshakeWith at h
  obtain ⟨clientNonce, -, h⟩ := bind_eq_ok.mp h
  obtain ⟨c₁, hhello, h⟩ := bind_eq_ok.mp h
  obtain ⟨⟨reply, c₂⟩, hreply, h⟩ := bind_eq_ok.mp h
  change ServerHello at reply
  obtain ⟨choice, serverNonce, maxFrame⟩ := reply
  obtain ⟨version, hversion, h⟩ := bind_eq_ok.mp h
  obtain ⟨c₃, hauth, h⟩ := bind_eq_ok.mp h
  obtain ⟨⟨admitted, c₄⟩, hadmitted, h⟩ := bind_eq_ok.mp h
  cases h
  cases choice with
  | incompatible => cases hversion
  | chosen v =>
    obtain ⟨u, hrange, hversion⟩ := bind_eq_ok.mp hversion
    obtain rfl : v = version := Except.ok.inj hversion
    exact ⟨ensure_eq_ok.mp hrange, clientNonce, serverNonce, c₁, c₂, c₃, sendMessage_ok hhello,
      readMessage_ok hreply, sendMessage_ok hauth, readMessage_ok hadmitted⟩

/-! ## Transcripts and versions -/

/-- What an authenticating tenant signs for. -/
structure Binding where
  version : UInt16
  tenant : TenantId
  clientNonce : Nonce
  serverNonce : Nonce

def Binding.transcript (b : Binding) : Bytes :=
  authTranscript b.version b.tenant b.clientNonce b.serverNonce

/-- A transcript names one version, tenant and pair of nonces. -/
theorem Binding.transcript_injective : Function.Injective Binding.transcript := by
  rintro ⟨v, t, cn, sn⟩ ⟨v', t', cn', sn'⟩ h
  unfold transcript authTranscript at h
  obtain ⟨h, hsn⟩ := List.append_inj' h (by rw [sn.len_eq, sn'.len_eq])
  obtain ⟨h, hcn⟩ := List.append_inj' h (by rw [cn.len_eq, cn'.len_eq])
  obtain ⟨h, ht⟩ := List.append_inj' h (by simp)
  have hv := List.append_cancel_left h
  have hversion : v = v' := by
    refine UInt16.toNat_inj.mp (leBytes_inj ?_ ?_ hv)
    · have := v.toNat_lt
      omega
    · have := v'.toNat_lt
      omega
  have htenant : t = t' := Ulid.toBytes_injective ht
  obtain ⟨cn, hcnlen⟩ := cn
  obtain ⟨sn, hsnlen⟩ := sn
  obtain ⟨cn', hcnlen'⟩ := cn'
  obtain ⟨sn', hsnlen'⟩ := sn'
  obtain rfl : cn = cn' := hcn
  obtain rfl : sn = sn' := hsn
  rw [hversion, htenant]

/-- A chosen version is the highest that both ranges contain. -/
theorem negotiateVersion_eq_chosen {clientMin clientMax serverMin serverMax : UInt16}
    (h : negotiateVersion clientMin clientMax serverMin serverMax = .chosen version) :
    (clientMin ≤ version ∧ version ≤ clientMax) ∧ (serverMin ≤ version ∧ version ≤ serverMax) ∧
      ∀ v, v ≤ clientMax → v ≤ serverMax → v ≤ version := by
  unfold negotiateVersion at h
  dsimp only at h
  simp only [UInt16.le_iff_toNat_le, UInt16.lt_iff_toNat_lt, gt_iff_lt] at h ⊢
  split_ifs at h <;> cases h <;> refine ⟨⟨?_, ?_⟩, ⟨?_, ?_⟩, fun v hc hs => ?_⟩ <;> omega

/-! ## What the daemon dispatches -/

theorem ConnState.Fed.accepted {taken : List Inbound} {st : ConnState} (h : st.Fed A limits taken)
    {task : TaskId} {request : Request} (hlog : .accepted task request ∈ st.log) :
    .request request ∈ taken := by
  induction h with
  | initial => cases hlog
  | @frame _ st _ _ _ hturn ih =>
    by_cases hold : .accepted task request ∈ st.log
    · exact List.mem_append_left _ (ih hold)
    · obtain ⟨hin, -⟩ := hturn.dispatched hlog hold
      rw [Option.some.inj hin]
      exact List.mem_append_right _ (List.mem_singleton_self _)
  | @turn _ st _ _ hturn ih =>
    by_cases hold : .accepted task request ∈ st.log
    · exact ih hold
    · obtain ⟨hin, -⟩ := hturn.dispatched hlog hold
      cases hin

/-- The message an inbound frame carries. -/
def Inbound.message : Inbound → WireMessage
  | request r => ⟨.request, r⟩
  | cancel r => ⟨.cancel, r⟩

theorem Server.nextInbound_ok {inbound : Inbound} (h : nextInbound A cap s = .ok (inbound, s')) :
    A.Takes cap inbound.message s s' := by
  unfold nextInbound at h
  obtain ⟨⟨frame, s₁⟩, hframe, h⟩ := bind_eq_ok.mp h
  obtain ⟨hheader, hlen, hbytes⟩ := of_readFrame (mapError_eq_ok.mp hframe)
  dsimp only at h
  split at h
  · rename_i hkind
    obtain ⟨request, hrequest, h⟩ := bind_eq_ok.mp h
    cases h
    obtain ⟨u, -, hrequest⟩ := bind_eq_ok.mp (mapError_eq_ok.mp hrequest)
    obtain ⟨u', -, hdecode⟩ := bind_eq_ok.mp hrequest
    exact .of_header hbytes hheader hlen hkind hdecode
  · rename_i hkind
    obtain ⟨cancel, hcancel, h⟩ := bind_eq_ok.mp h
    cases h
    obtain ⟨u, -, hcancel⟩ := bind_eq_ok.mp (mapError_eq_ok.mp hcancel)
    obtain ⟨u', -, hdecode⟩ := bind_eq_ok.mp hcancel
    exact .of_header hbytes hheader hlen hkind hdecode
  · cases h

/-- The frames that were read stand one after another before what is left. -/
theorem Server.Reads.bytes {read : List Inbound} (h : Reads A cap s read s') :
    ∃ frames, List.Forall₂ (A.Framed cap) (read.map Inbound.message) frames ∧
      s.bytes = frames.flatten ++ s'.bytes := by
  induction h with
  | nil => exact ⟨[], .nil, rfl⟩
  | @snoc _ _ _ inbound _ hnext ih =>
    obtain ⟨frames, hall, hbytes⟩ := ih
    obtain ⟨body, hcarries, hrest⟩ := nextInbound_ok hnext
    refine ⟨frames ++ [Archives.frame inbound.message body], ?_, ?_⟩
    · rw [List.map_append]
      exact List.rel_append hall (.cons ⟨body, hcarries, rfl⟩ .nil)
    · rw [hbytes, hrest]
      simp

/-- A request that was read stands in the stream. -/
theorem Server.Reads.exists_frame {read : List Inbound} (h : Reads A cap s read s')
    {inbound : Inbound} (hmem : inbound ∈ read) :
    ∃ front body back, A.Carries cap inbound.message body ∧
      s.bytes = front ++ (Archives.frame inbound.message body ++ back) := by
  obtain ⟨frames, hall, hbytes⟩ := h.bytes
  obtain ⟨f, hf, body, hcarries, rfl⟩ := exists_of_mem_left hall (List.mem_map_of_mem hmem)
  obtain ⟨before, after, rfl⟩ := List.append_of_mem hf
  refine ⟨before.flatten, body, after.flatten ++ s'.bytes, hcarries, ?_⟩
  rw [hbytes]
  simp

/-! ## Agreement -/

/-- The frame of `m` stands in the stream. -/
def Archives.Sent (A : Archives) (s : Stream) (m : WireMessage) : Prop :=
  ∃ front body back, A.Carries preAuthMaxBody m body ∧ s.bytes = front ++ (frame m body ++ back)

/-- What the daemon read of an admitted peer: a hello, then an auth. -/
theorem Server.Admits.input (h : Admits A au limits uid random c c' hello version auth nonce) :
    ∃ helloBody authBody, A.Carries preAuthMaxBody ⟨.clientHello, hello⟩ helloBody ∧
      A.Carries preAuthMaxBody ⟨.auth, auth⟩ authBody ∧
      c.input.bytes = Archives.frame ⟨.clientHello, hello⟩ helloBody ++
        (Archives.frame ⟨.auth, auth⟩ authBody ++ c'.input.bytes) := by
  obtain ⟨c₁, c₂, c₃, ⟨-, helloBody, hhello, hbytes₁⟩, hputs, ⟨-, authBody, hauth, hbytes₂⟩,
    hlast⟩ := h.frames
  refine ⟨helloBody, authBody, hhello, hauth, ?_⟩
  rw [hbytes₁, ← hputs.input, hbytes₂, hlast.input]

theorem Server.Admits.auth_sent (h : Admits A au limits uid random c c' hello version auth nonce) :
    A.Sent c.input ⟨.auth, auth⟩ := by
  obtain ⟨helloBody, authBody, -, hauth, hinput⟩ := h.input
  exact ⟨_, authBody, _, hauth, hinput⟩

/-- What it wrote. -/
theorem Server.Admits.output (h : Admits A au limits uid random c c' hello version auth nonce) :
    ∃ body rest, A.Carries preAuthMaxBody
        ⟨.serverHello, (⟨.chosen version, nonce, limits.maxFrame⟩ : ServerHello)⟩ body ∧
      c'.sent = c.sent ++ (Archives.frame
        ⟨.serverHello, (⟨.chosen version, nonce, limits.maxFrame⟩ : ServerHello)⟩
          body ++ rest) := by
  obtain ⟨c₁, c₂, c₃, hgets₁, ⟨-, body, hcarries, hsent⟩, hgets₂, -, last, -, hlast⟩ := h.frames
  refine ⟨body, Archives.frame ⟨.admitted, Admitted.mk⟩ last, hcarries, ?_⟩
  rw [hlast, hgets₂.sent, hsent, hgets₁.sent]
  simp only [List.append_assoc]

/-- **Agreement.**  Two sides that complete over a channel that hands each what the other wrote
have the same tenant, version and frame bound. -/
theorem Xenos.Completes.agrees {sign : Bytes → Signature} {tenant : TenantId} {min max : UInt16}
    {cc cc' sc sc' : Channel} {client : Client}
    (hclient : Completes A sign tenant min max cc cc' client)
    (hserver : Server.Admits A au limits uid random sc sc' hello version auth nonce)
    (hnew : cc.sent = []) (hnew' : sc.sent = []) (hup : cc'.sent <+: sc.input.bytes)
    (hdown : sc'.sent <+: cc.input.bytes) :
    hello.versionMin = min ∧ hello.versionMax = max ∧ hello.tenant = tenant ∧
      client = ⟨version, limits.maxFrame⟩ := by
  obtain ⟨helloBody, authBody, hhello, -, hinput⟩ := hserver.input
  obtain ⟨body, rest, hreply, houtput⟩ := hserver.output
  obtain ⟨cn, sn, c₁, c₂, c₃, ⟨hin₁, body₁, hsent₁, hbytes₁⟩, ⟨hout₂, body₂, hgot₂, hbytes₂⟩,
    ⟨-, body₃, -, hbytes₃⟩, hlast⟩ := hclient.frames
  -- the first frame each way is the one the other side wrote
  obtain ⟨x, hx⟩ := hup
  obtain ⟨y, hy⟩ := hdown
  rw [hlast.sent, hbytes₃, hout₂, hbytes₁, hnew, List.nil_append, hinput, List.append_assoc] at hx
  rw [houtput, hnew', List.nil_append, ← hin₁, hbytes₂, List.append_assoc] at hy
  have hmessage := (hsent₁.eq_of_append hhello hx).1
  have hanswer := (hreply.eq_of_append hgot₂ hy).1
  cases hmessage
  injection hanswer with _ hsame
  obtain ⟨hchosen, -, hframe⟩ := ServerHello.mk.inj hsame
  injection hchosen with hversion
  obtain ⟨clientVersion, maxFrame⟩ := client
  obtain rfl : version = clientVersion := hversion
  obtain rfl : limits.maxFrame = maxFrame := hframe
  exact ⟨rfl, rfl, rfl, rfl⟩

/-- Whatever a peer sends, a request is dispatched only after a hello and an auth whose
signature verifies under the key registered for the hello's tenant, over the transcript with
the chosen version, that tenant, the peer's nonce and the server's, from a uid bound to the
tenant.  When a verified signature is one a key holder made for some transcript, and the server
draws no nonce twice, the signature that admits was made for this tenant, version and
connection.  A client and a server that complete over a reliable channel agree on the tenant,
the frame bound and the version, the highest in both ranges. -/
theorem handshake_agreement (A : Archives) (au : Authenticator) (limits : Limits) :
    (∀ uid random c who st task request, Server.Serves A au limits uid random c who st →
      .accepted task request ∈ st.log →
      ∃ hello version auth nonce record helloBody authBody front requestBody back,
        random = some nonce ∧
        negotiateVersion hello.versionMin hello.versionMax Server.versionMin Server.versionMax =
          .chosen version ∧
        A.Carries preAuthMaxBody ⟨.clientHello, hello⟩ helloBody ∧
        A.Carries preAuthMaxBody ⟨.auth, auth⟩ authBody ∧
        A.Carries limits.maxFrame ⟨.request, request⟩ requestBody ∧
        c.input.bytes = Archives.frame ⟨.clientHello, hello⟩ helloBody ++
          (Archives.frame ⟨.auth, auth⟩ authBody ++
            (front ++ (Archives.frame ⟨.request, request⟩ requestBody ++ back))) ∧
        au.lookup hello.tenant = some record ∧
        au.verify record.verifyingKey
          (authTranscript version hello.tenant hello.clientNonce nonce) auth.signature = true ∧
        uid ∈ record.boundUids ∧ who = ⟨hello.tenant, uid, version, limits.maxFrame⟩) ∧
    (∀ (Signed : Bytes → Binding → Signature → Prop),
      (∀ tenant record transcript signature, au.lookup tenant = some record →
        au.verify record.verifyingKey transcript signature = true →
        ∃ b, Signed record.verifyingKey b signature ∧ transcript = b.transcript) →
      ∀ (Connection : Type) (nonce : Connection → Nonce), Function.Injective nonce →
      ∀ i uid c admission c',
        Server.handshake A au limits uid (some (nonce i)) c = .ok (admission, c') →
        ∃ auth record b, A.Sent c.input ⟨.auth, auth⟩ ∧ au.lookup admission.tenant = some record ∧
          Signed record.verifyingKey b auth.signature ∧ b.tenant = admission.tenant ∧
          b.version = admission.version ∧ ∀ j, b.serverNonce = nonce j → j = i) ∧
    ∀ sign tenant min max clientRandom serverRandom uid cc cc' sc sc' client admission,
      Xenos.handshakeWith A sign tenant min max clientRandom cc = .ok (client, cc') →
      Server.handshake A au limits uid serverRandom sc = .ok (admission, sc') →
      cc.sent = [] → sc.sent = [] → cc'.sent <+: sc.input.bytes → sc'.sent <+: cc.input.bytes →
      identity admission uid limits.maxFrame = ⟨tenant, uid, client.version, client.maxFrame⟩ ∧
      (min ≤ client.version ∧ client.version ≤ max) ∧
      (Server.versionMin ≤ client.version ∧ client.version ≤ Server.versionMax) ∧
      ∀ v, v ≤ max → v ≤ Server.versionMax → v ≤ client.version := by
  refine ⟨?_, ?_, ?_⟩
  · intro uid random c who st task request hserves hlog
    obtain ⟨admission, c', read, s', taken, hshake, hwho, hreads, htaken, hfed⟩ := hserves.run
    obtain ⟨hello, version, auth, nonce, rfl, hadmits⟩ := Server.handshake_ok hshake
    obtain ⟨helloBody, authBody, hhello, hauth, hinput⟩ := hadmits.input
    obtain ⟨record, hlookup, hverify, huid⟩ := hadmits.authenticated
    obtain ⟨front, requestBody, back, hrequest, hrest⟩ :=
      hreads.exists_frame (htaken.subset (hfed.accepted hlog))
    rw [hrest] at hinput
    exact ⟨hello, version, auth, nonce, record, helloBody, authBody, front, requestBody, back,
      hadmits.drawn, hadmits.chosen, hhello, hauth, hrequest, hinput, hlookup, hverify, huid, hwho⟩
  · intro Signed hunforgeable Connection nonce hdistinct i uid c admission c' hshake
    obtain ⟨hello, version, auth, n, rfl, hadmits⟩ := Server.handshake_ok hshake
    obtain ⟨record, hlookup, hverify, -⟩ := hadmits.authenticated
    obtain ⟨b, hsigned, htranscript⟩ := hunforgeable _ record _ _ hlookup hverify
    obtain rfl : (⟨version, hello.tenant, hello.clientNonce, n⟩ : Binding) = b :=
      Binding.transcript_injective htranscript
    refine ⟨auth, record, _, hadmits.auth_sent, hlookup, hsigned, rfl, rfl, fun j hj => ?_⟩
    exact hdistinct (hj.symm.trans (Option.some.inj hadmits.drawn).symm)
  · intro sign tenant min max clientRandom serverRandom uid cc cc' sc sc' client admission hclient
      hserver hnew hnew' hup hdown
    obtain ⟨hello, version, auth, nonce, rfl, hadmits⟩ := Server.handshake_ok hserver
    obtain ⟨rfl, rfl, rfl, rfl⟩ :=
      (Xenos.handshakeWith_ok hclient).agrees hadmits hnew hnew' hup hdown
    exact ⟨rfl, negotiateVersion_eq_chosen hadmits.chosen⟩

namespace Sample

def clientNonce : Nonce := ⟨List.replicate 16 1, by decide⟩
def serverNonce : Nonce := ⟨List.replicate 16 2, by decide⟩
def signature : Signature := ⟨List.replicate 64 3, by decide⟩
def caller : TenantId := ⟨0⟩
def clientHello : ClientHello := ⟨wireVersion, wireVersion, caller, clientNonce⟩
def serverHello : ServerHello := ⟨.chosen wireVersion, serverNonce, preAuthMaxBody⟩
def binding : Binding := ⟨wireVersion, caller, clientNonce, serverNonce⟩

/-- Archives of one message of each kind the handshake and `hail` need. -/
def shakeArchives : Archives :=
  archivesOf bodyOf fun
    | .clientHello => some clientHello
    | .serverHello => some serverHello
    | .auth => some (⟨signature⟩ : Auth)
    | .admitted => some Admitted.mk
    | .request => some hail
    | _ => none

/-- One transcript verifies, and uid 7 is bound to every tenant. -/
def authenticator : Authenticator where
  verify _ transcript _ := transcript = binding.transcript
  dummyKey := []
  lookup _ := some ⟨[], [7]⟩

def shakeLimits : Limits := ⟨1, preAuthMaxBody⟩

def shakeFrame (m : WireMessage) : Bytes := Archives.frame m (bodyOf m.kind)

def hailed : Bytes := shakeFrame ⟨.request, hail⟩

def clientSent : Bytes :=
  shakeFrame ⟨.clientHello, clientHello⟩ ++ shakeFrame ⟨.auth, (⟨signature⟩ : Auth)⟩

def serverSent : Bytes :=
  shakeFrame ⟨.serverHello, serverHello⟩ ++ shakeFrame ⟨.admitted, Admitted.mk⟩

/-- The daemon's end: a hello, an auth and a request come in. -/
def serverChannel : Channel := ⟨⟨clientSent ++ hailed, []⟩, [], []⟩

def clientChannel : Channel := ⟨⟨serverSent, []⟩, [], []⟩

/-- The nonces of two connections, of which the first is the one that is served. -/
def nonceOf : Bool → Nonce
  | true => serverNonce
  | false => ⟨List.replicate 16 4, by decide⟩

theorem serverHandshake :
    Server.handshake shakeArchives authenticator shakeLimits 7 (some serverNonce) serverChannel =
      .ok (⟨caller, wireVersion⟩, ⟨⟨hailed, []⟩, serverSent, []⟩) := by
  with_unfolding_all rfl

theorem clientHandshake :
    Xenos.handshakeWith shakeArchives (fun _ => signature) caller wireVersion wireVersion
      (some clientNonce) clientChannel =
      .ok (⟨wireVersion, preAuthMaxBody⟩, ⟨⟨[], []⟩, clientSent, []⟩) := by
  with_unfolding_all rfl

theorem exists_served : ∃ st, Server.Serves shakeArchives authenticator shakeLimits 7
    (some serverNonce) serverChannel ⟨caller, 7, wireVersion, preAuthMaxBody⟩ st ∧
      .accepted 0 hail ∈ st.log := by
  have hnext : Server.nextInbound shakeArchives preAuthMaxBody ⟨hailed, []⟩ =
      .ok (.request hail, ⟨[], []⟩) := by
    with_unfolding_all rfl
  have hturn : ConnState.Turn shakeArchives shakeLimits (some (.request hail)) .initial _ :=
    .request 0 hail rfl (fun _ _ h => by cases h) (fun _ h => by cases h) rfl
  refine ⟨_, ⟨_, _, [.request hail], _, [.request hail], serverHandshake, rfl, .snoc (.nil _) hnext,
    List.prefix_refl _, .frame .initial hturn⟩, by simp⟩

end Sample

/-- A client that is admitted and hails. -/
theorem handshake_agreement_of_hail :
    (∃ (st : ConnState) (hello : ClientHello) (version : UInt16) (auth : Auth) (nonce : Nonce) (key
        helloBody authBody front requestBody back : Bytes),
      .accepted 0 Sample.hail ∈ st.log ∧
      some Sample.serverNonce = some nonce ∧
      Sample.serverChannel.input.bytes = Archives.frame ⟨.clientHello, hello⟩ helloBody ++
        (Archives.frame ⟨.auth, auth⟩ authBody ++
          (front ++ (Archives.frame ⟨.request, Sample.hail⟩ requestBody ++ back))) ∧
      Sample.authenticator.verify key
        (authTranscript version hello.tenant hello.clientNonce nonce) auth.signature = true) ∧
    (∃ b : Binding, b = Sample.binding ∧ b.tenant = Sample.caller ∧
      ∀ connection, b.serverNonce = Sample.nonceOf connection → connection = true) ∧
    identity ⟨Sample.caller, wireVersion⟩ 7 preAuthMaxBody =
      ⟨Sample.caller, 7, wireVersion, preAuthMaxBody⟩ := by
  obtain ⟨hdispatch, hsigned, hagree⟩ :=
    handshake_agreement Sample.shakeArchives Sample.authenticator Sample.shakeLimits
  refine ⟨?_, ?_, ?_⟩
  · obtain ⟨st, hserves, hlog⟩ := Sample.exists_served
    obtain ⟨hello, version, auth, nonce, record, helloBody, authBody, front, requestBody, back,
      hnonce, -, -, -, -, hbytes, -, hverify, -⟩ := hdispatch _ _ _ _ _ _ _ hserves hlog
    exact ⟨st, hello, version, auth, nonce, record.verifyingKey, helloBody, authBody, front,
      requestBody, back, hlog, hnonce, hbytes, hverify⟩
  · have hdistinct : Function.Injective Sample.nonceOf := by decide
    obtain ⟨auth, record, b, -, -, hb, htenant, -, hfresh⟩ :=
      hsigned (fun _ b _ => b = Sample.binding)
        (fun tenant record transcript signature hlookup hverify =>
          ⟨Sample.binding, rfl, of_decide_eq_true hverify⟩)
        Bool Sample.nonceOf hdistinct true 7 _ _ _ Sample.serverHandshake
    exact ⟨b, hb, htenant, hfresh⟩
  · exact (hagree _ _ _ _ _ _ _ _ _ _ _ _ _ Sample.clientHandshake Sample.serverHandshake rfl rfl
      (List.prefix_append _ _) (List.prefix_refl _)).1

end Dioptron
