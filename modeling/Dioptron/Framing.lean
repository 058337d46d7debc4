import Dioptron.Messages

/-! # Frames

A frame is a header and a body.  The daemon and the client each have their own codec of
the header and their own reader of a byte stream; the archives of the bodies are shared.
A stream hands its bytes out in pieces of any size.  What one side writes the other reads
back, however the stream is cut, and a stream that ends inside a frame ends in an error.
-/
namespace Dioptron

/-! ## Headers -/

/-- The number that little-endian bytes stand for. -/
def leNat : Bytes → Nat
  | [] => 0
  | b :: bs => b.toNat + 256 * leNat bs

theorem leNat_leBytes {width n : Nat} (h : n < 256 ^ width) : leNat (leBytes width n) = n := by
  induction width generalizing n with
  | zero =>
    have hzero : n = 0 := by simpa using h
    rw [hzero]
    rfl
  | succ width ih =>
    have hhigh : n / 256 < 256 ^ width := by
      rw [pow_succ] at h
      omega
    rw [leBytes, leNat, ih hhigh]
    have hlow : (UInt8.ofNat (n % 256)).toNat = n % 256 := by
      rw [UInt8.toNat_ofNat']
      omega
    omega

structure FrameHeader where
  kind : FrameKind
  flags : UInt8
  len : UInt32
  deriving DecidableEq, Repr

/-- The flag bits this wire version defines: none. -/
def knownFlags : UInt8 := 0

namespace FrameHeader

/-- A header with no flags set. -/
def new (kind : FrameKind) (len : UInt32) : FrameHeader := ⟨kind, 0, len⟩

def encode (header : FrameHeader) : Bytes :=
  magic ++ [header.kind.toU8, header.flags, 0, 0] ++ leBytes 4 header.len.toNat

/-- Validates the twelve bytes of a header against a body bound. -/
def decode (bytes : Bytes) (cap : UInt32) : Except WireError FrameHeader := do
  let found := bytes.take 4
  ensureWire (found = magic) (.badMagic found)
  let byte := bytes.getD 4 0
  match FrameKind.fromU8 byte with
  | none => throw (.unknownFrameKind byte)
  | some kind => do
    let flags := bytes.getD 5 0
    ensureWire (flags &&& ~~~knownFlags = 0) (.unknownFlags flags)
    let reserved := leNat ((bytes.drop 6).take 2)
    ensureWire (reserved = 0) (.nonzeroReserved reserved)
    let len := UInt32.ofNat (leNat ((bytes.drop 8).take 4))
    let cap := clampCap cap
    ensureWire (len ≤ cap) (.frameTooLarge len.toNat cap)
    return ⟨kind, flags, len⟩

@[simp] theorem encode_length (header : FrameHeader) : header.encode.length = headerLen := by
  simp [encode, magic, ascii, headerLen]

end FrameHeader

/-! ## The codec of bodies -/

/-- The length field of a body, when it is within the bound. -/
def frameLen (len : Nat) (cap : UInt32) : Except WireError UInt32 :=
  if len < 2 ^ 32 ∧ UInt32.ofNat len ≤ cap then .ok (UInt32.ofNat len)
  else .error (.frameTooLarge len cap)

namespace Archives

variable (A : Archives)

/-- Serializes a message body. -/
def encode (m : WireMessage) : Except WireError Bytes := do
  m.kind.check m.body
  match (A.of m.kind).toBytes m.body with
  | some bytes => return bytes
  | none => throw .encode

/-- Serializes a message into a complete frame. -/
def encodeFrame (m : WireMessage) (cap : UInt32) : Except WireError Bytes := do
  let body ← A.encode m
  let len ← frameLen body.length (clampCap cap)
  return (FrameHeader.new m.kind len).encode ++ body

/-- Validates and deserializes a body.  Only the canonical encoding of its value passes. -/
def decode (kind : FrameKind) (body : Bytes) (cap : UInt32) : Except WireError kind.Body := do
  let cap := clampCap cap
  ensureWire (body.length ≤ cap.toNat) (.frameTooLarge body.length cap)
  match (A.of kind).fromBytes body with
  | none => throw .invalidArchive
  | some message =>
    match (A.of kind).toBytes message with
    | none => throw .encode
    | some canonical => do
      ensureWire (canonical = body) (.nonCanonical body.length canonical.length)
      kind.check message
      return message

/-- Decodes the body of a frame whose header was validated. -/
def decodeFrame (kind : FrameKind) (header : FrameHeader) (body : Bytes) (cap : UInt32) :
    Except WireError kind.Body := do
  ensureWire (header.kind = kind) (.unexpectedFrameKind kind header.kind)
  ensureWire (header.len.toNat = body.length) (.bodyLengthMismatch header.len body.length)
  A.decode kind body cap

end Archives

/-! ## Streams

A read of a stream answers as many bytes as its next event lets through, at least one
while there are any, and none at the end of the stream; or it fails.  Once the events
are used up a read answers everything it has room for. -/

inductive IoError
  | interrupted
  | connectionReset
  | wouldBlock
  | timedOut
  | unexpectedEof
  | other
  deriving DecidableEq, Repr

inductive ReadEvent
  | data (extra : Nat)
  | fails (error : IoError)
  deriving DecidableEq, Repr

/-- The bytes still to come and how the next reads are answered. -/
structure Stream where
  bytes : Bytes
  events : List ReadEvent
  deriving DecidableEq, Repr

namespace Stream

/-- Reads into a buffer of `n` bytes. -/
def read (s : Stream) (n : Nat) : Except IoError Bytes × Stream :=
  match s.events with
  | [] => (.ok (s.bytes.take n), { s with bytes := s.bytes.drop n })
  | .data extra :: rest =>
    let count := min n (extra + 1)
    (.ok (s.bytes.take count), ⟨s.bytes.drop count, rest⟩)
  | .fails error :: rest => (.error error, { s with events := rest })

/-- How much a stream may still answer. -/
def size (s : Stream) : Nat := s.bytes.length + s.events.length

/-- No read fails with an error outside `ignored`. -/
def Steady (ignored : Set IoError) (s : Stream) : Prop :=
  ∀ error, .fails error ∈ s.events → error ∈ ignored

theorem read_error {s s' : Stream} {n : Nat} {e : IoError} (h : s.read n = (.error e, s')) :
    s'.bytes = s.bytes ∧ s.events = .fails e :: s'.events := by
  unfold read at h
  split at h
  · cases h
  · cases h
  · rename_i heq
    cases h
    exact ⟨rfl, heq⟩

/-- A read that answers takes its bytes from the front. -/
theorem read_ok {s s' : Stream} {n : Nat} {bs : Bytes} (h : s.read n = (.ok bs, s')) :
    s.bytes = bs ++ s'.bytes ∧ bs.length ≤ n ∧ (0 < n → s.bytes ≠ [] → bs ≠ []) ∧
      s'.events ⊆ s.events ∧ s'.events.length ≤ s.events.length := by
  unfold read at h
  split at h
  · rename_i heq
    cases h
    refine ⟨(List.take_append_drop _ _).symm, List.length_take_le _ _, fun hn hne hnil => ?_,
      List.Subset.refl _, le_rfl⟩
    rcases List.take_eq_nil_iff.mp hnil with hzero | hbytes
    · omega
    · exact hne hbytes
  · rename_i extra rest heq
    cases h
    refine ⟨(List.take_append_drop _ _).symm, ?_, fun hn hne hnil => ?_, ?_, ?_⟩
    · rw [List.length_take]
      omega
    · rcases List.take_eq_nil_iff.mp hnil with hzero | hbytes
      · omega
      · exact hne hbytes
    · rw [heq]
      exact List.subset_cons_self _ _
    · rw [heq]
      exact Nat.le_succ _
  · cases h

end Stream

/-- Fills a buffer of `n` bytes after the bytes `acc` it has.  An error is passed over when
`react` has no answer to it. -/
def readLoop {ε : Type} (eof : Nat → ε) (react : Nat → IoError → Option ε) (n : Nat) (acc : Bytes)
    (s : Stream) : Except ε (Bytes × Stream) :=
  if acc.length < n then
    match _hread : s.read (n - acc.length) with
    | (.ok bs, s') =>
      if bs = [] then .error (eof acc.length)
      else readLoop eof react n (acc ++ bs) s'
    | (.error e, s') =>
      match react acc.length e with
      | some failure => .error failure
      | none => readLoop eof react n acc s'
  else
    .ok (acc, s)
termination_by s.size
decreasing_by
  · rename_i hne
    obtain ⟨hbytes, -, -, -, hevents⟩ := Stream.read_ok _hread
    have hlen := congrArg List.length hbytes
    have hpos := List.length_pos_of_ne_nil hne
    rw [List.length_append] at hlen
    unfold Stream.size
    omega
  · obtain ⟨hbytes, hevents⟩ := Stream.read_error _hread
    have hlen := congrArg List.length hevents
    rw [List.length_cons] at hlen
    unfold Stream.size
    rw [hbytes]
    omega

section readLoop

variable {ε : Type} {eof : Nat → ε} {react : Nat → IoError → Option ε} {ignored : Set IoError}

/-- **Filling a buffer.**  Whatever the pieces, the buffer gets the next bytes of the stream
and the rest stays. -/
theorem readLoop_of_append (hreact : ∀ e ∈ ignored, ∀ received, react received e = none)
    {n : Nat} (acc : Bytes) {xs rest : Bytes} {s : Stream} (hs : s.Steady ignored)
    (hbytes : s.bytes = xs ++ rest) (hlen : acc.length + xs.length = n) :
    ∃ s', readLoop eof react n acc s = .ok (acc ++ xs, s') ∧ s'.bytes = rest ∧
      s'.Steady ignored := by
  induction hsize : s.size using Nat.strong_induction_on generalizing s acc xs with
  | _ size ih =>
  subst hsize
  rw [readLoop]
  by_cases hfull : acc.length < n
  · rw [if_pos hfull]
    have hxs : xs ≠ [] := by
      rintro rfl
      simp at hlen
      omega
    split
    · rename_i bs s' hread
      obtain ⟨hsplit, hle, hmore, hsub, hevents⟩ := Stream.read_ok hread
      have hne : bs ≠ [] := hmore (by omega) (by rw [hbytes]; simp [hxs])
      -- The piece is a front of the bytes the buffer still needs.
      obtain ⟨ys, rfl⟩ : ∃ ys, xs = bs ++ ys := by
        have hpre : bs <+: xs ++ rest := ⟨s'.bytes, by rw [← hsplit, hbytes]⟩
        exact (List.prefix_of_prefix_length_le hpre (List.prefix_append _ _) (by omega)).imp
          fun _ h => h.symm
      have hrest : s'.bytes = ys ++ rest := by
        rw [hbytes, List.append_assoc] at hsplit
        exact (List.append_cancel_left hsplit).symm
      have hsmaller : s'.size < s.size := by
        have hcount := congrArg List.length hsplit
        have hpos := List.length_pos_of_ne_nil hne
        rw [List.length_append] at hcount
        unfold Stream.size
        omega
      rw [if_neg hne]
      obtain ⟨s'', hloop, hdone⟩ := ih s'.size hsmaller (acc ++ bs)
        (fun e he => hs e (hsub he)) hrest (by simp at hlen ⊢; omega) rfl
      exact ⟨s'', by rw [hloop, List.append_assoc], hdone⟩
    · rename_i e s' hread
      obtain ⟨hsame, hevents⟩ := Stream.read_error hread
      rw [hreact e (hs e (by rw [hevents]; exact List.mem_cons_self)) acc.length]
      have hsmaller : s'.size < s.size := by
        unfold Stream.size
        rw [hsame, hevents, List.length_cons]
        omega
      exact ih s'.size hsmaller acc
        (fun e' he' => hs e' (by rw [hevents]; exact List.mem_cons_of_mem _ he'))
          (by rw [hsame, hbytes]) hlen rfl
  · rw [if_neg hfull]
    obtain rfl : xs = [] := List.eq_nil_of_length_eq_zero (by omega)
    exact ⟨s, by rw [List.append_nil], by rw [hbytes, List.nil_append], hs⟩

/-- A stream that ends before the buffer is full. -/
theorem readLoop_of_short (hreact : ∀ e ∈ ignored, ∀ received, react received e = none) {n : Nat}
    (acc : Bytes) {s : Stream} (hs : s.Steady ignored) (hshort : acc.length + s.bytes.length < n) :
    readLoop eof react n acc s = .error (eof (acc.length + s.bytes.length)) := by
  induction hsize : s.size using Nat.strong_induction_on generalizing s acc with
  | _ size ih =>
  subst hsize
  rw [readLoop, if_pos (by omega)]
  split
  · rename_i bs s' hread
    obtain ⟨hsplit, -, hmore, hsub, hevents⟩ := Stream.read_ok hread
    have hcount := congrArg List.length hsplit
    rw [List.length_append] at hcount
    by_cases hne : bs = []
    · have hend : s.bytes = [] := by
        by_contra hbytes
        exact hmore (by omega) hbytes hne
      rw [if_pos hne, hend]
      rfl
    · have hpos := List.length_pos_of_ne_nil hne
      have hsmaller : s'.size < s.size := by
        unfold Stream.size
        omega
      rw [if_neg hne,
        ih s'.size hsmaller (acc ++ bs) (fun e he => hs e (hsub he)) (by simp; omega) rfl,
        hcount, List.length_append, Nat.add_assoc]
  · rename_i e s' hread
    obtain ⟨hsame, hevents⟩ := Stream.read_error hread
    rw [hreact e (hs e (by rw [hevents]; exact List.mem_cons_self)) acc.length]
    have hsmaller : s'.size < s.size := by
      unfold Stream.size
      rw [hsame, hevents, List.length_cons]
      omega
    dsimp only
    rw [ih s'.size hsmaller acc
      (fun e' he' => hs e' (by rw [hevents]; exact List.mem_cons_of_mem _ he'))
      (by rw [hsame]; exact hshort) rfl, hsame]

end readLoop

/-! ## The daemon's reader -/

namespace Server

/-- Why a frame could not be read. -/
inductive ReadFail
  | closed
  | io (error : IoError)
  | header (error : WireError)
  deriving DecidableEq, Repr

/-- A received frame: a validated header and exactly its declared body. -/
structure Frame where
  header : FrameHeader
  body : Bytes
  deriving DecidableEq, Repr

def readExact (n : Nat) (s : Stream) : Except ReadFail (Bytes × Stream) :=
  readLoop (fun _ => .io .unexpectedEof) (fun _ e => some (.io e)) n [] s

/-- Reads one frame.  A stream that ends before its first byte was closed by the peer. -/
def readFrame (cap : UInt32) (s : Stream) : Except ReadFail (Frame × Stream) := do
  match s.read 1 with
  | (.error e, _) => throw (.io e)
  | (.ok first, s) =>
    if first = [] then
      throw .closed
    else do
      let (rest, s) ← readExact (headerLen - 1) s
      let header ← (FrameHeader.decode (first ++ rest) cap).mapError ReadFail.header
      let (body, s) ← readExact header.len.toNat s
      return (⟨header, body⟩, s)

/-- Why a message could not be received. -/
inductive ReceiveFail
  | read (fail : ReadFail)
  | decode (error : WireError)
  deriving DecidableEq, Repr

/-- Reads one frame and decodes it as its kind. -/
def receive (A : Archives) (cap : UInt32) (s : Stream) :
    Except ReceiveFail (WireMessage × Stream) := do
  let (frame, s) ← (readFrame cap s).mapError ReceiveFail.read
  let body ← (A.decodeFrame frame.header.kind frame.header frame.body cap).mapError
    ReceiveFail.decode
  return (⟨frame.header.kind, body⟩, s)

end Server

/-! ## The client's codec and reader -/

namespace Xenos

inductive Error
  | contract (error : WireError)
  | badMagic (found : Bytes)
  | unknownFrameKind (kind : UInt8)
  | unknownFlags (flags : UInt8)
  | nonzeroReserved (reserved : Nat)
  | frameTooLarge (len : Nat) (cap : UInt32)
  | closed
  | truncated (expected received : Nat)
  | timeout
  | io (error : IoError)
  | unexpectedFrame (expected found : FrameKind)
  | authFailed
  | fault (failure : Failure)
  | random
  | incompatible (min max : UInt16)
  | versionOutOfRange (chosen min max : UInt16)
  deriving DecidableEq, Repr

def ensure (c : Prop) [Decidable c] (e : Error) : Except Error Unit :=
  if c then .ok () else .error e

/-- Header bytes with every field chosen by the caller. -/
def headerBytes (kind flags : UInt8) (reserved : UInt16) (len : UInt32) : Bytes :=
  magic ++ [kind, flags] ++ leBytes 2 reserved.toNat ++ leBytes 4 len.toNat

/-- Parses and checks the twelve bytes of a received header. -/
def parseHeader (bytes : Bytes) (cap : UInt32) : Except Error (FrameKind × UInt32) := do
  let found := bytes.take 4
  ensure (found = magic) (.badMagic found)
  let byte := bytes.getD 4 0
  match FrameKind.fromU8 byte with
  | none => throw (.unknownFrameKind byte)
  | some kind => do
    let flags := bytes.getD 5 0
    ensure (flags &&& ~~~knownFlags = 0) (.unknownFlags flags)
    let reserved := leNat ((bytes.drop 6).take 2)
    ensure (reserved = 0) (.nonzeroReserved reserved)
    let len := UInt32.ofNat (leNat ((bytes.drop 8).take 4))
    let cap := min cap hardMaxBody
    ensure (len ≤ cap) (.frameTooLarge len.toNat cap)
    return (kind, len)

/-- Builds a complete frame for a message. -/
def frameBytes (A : Archives) (m : WireMessage) (cap : UInt32) : Except Error Bytes := do
  let body ← (A.encode m).mapError Error.contract
  let cap := min cap hardMaxBody
  if body.length < 2 ^ 32 ∧ UInt32.ofNat body.length ≤ cap then
    return headerBytes m.kind.toU8 0 0 (UInt32.ofNat body.length) ++ body
  else
    throw (.frameTooLarge body.length cap)

/-- Where a read stopped short. -/
inductive Short
  | eof (received : Nat)
  | failed (error : Error)

/-- How a failed read ends a fill: a reset is an end of the stream, an interruption is
tried again. -/
def fillError (received : Nat) : IoError → Option Short
  | .interrupted => none
  | .connectionReset => some (.eof received)
  | .wouldBlock | .timedOut => some (.failed .timeout)
  | e => some (.failed (.io e))

/-- Fills a buffer of `n` bytes. -/
def fill (n : Nat) (s : Stream) : Except Short (Bytes × Stream) :=
  readLoop .eof fillError n [] s

/-- A received frame whose header passed every check. -/
structure Frame where
  kind : FrameKind
  body : Bytes
  deriving DecidableEq, Repr

/-- What a short read of the header means. -/
def headerShort : Short → Error
  | .eof 0 => .closed
  | .eof received => .truncated headerLen received
  | .failed e => e

/-- What a short read of the body means. -/
def bodyShort (expected : Nat) : Short → Error
  | .eof received => .truncated expected received
  | .failed e => e

/-- Reads one frame. -/
def readFrame (cap : UInt32) (s : Stream) : Except Error (Frame × Stream) := do
  let (header, s) ← (fill headerLen s).mapError headerShort
  let (kind, len) ← parseHeader header cap
  let (body, s) ← (fill len.toNat s).mapError (bodyShort len.toNat)
  return (⟨kind, body⟩, s)

/-- Decodes a frame as a message of the kind that is expected.  A fault where another kind
is expected becomes the error it reports. -/
def Frame.decode (A : Archives) (frame : Frame) (kind : FrameKind) (cap : UInt32) :
    Except Error kind.Body := do
  if frame.kind = .fault ∧ kind ≠ .fault then
    let notice : Fault ← (A.decode .fault frame.body cap).mapError Error.contract
    ensure (notice.failure ≠ .authFailed) .authFailed
    throw (.fault notice.failure)
  else do
    ensure (frame.kind = kind) (.unexpectedFrame kind frame.kind)
    (A.decode kind frame.body cap).mapError Error.contract

/-- Reads one frame and decodes it as its kind. -/
def receive (A : Archives) (cap : UInt32) (s : Stream) : Except Error (WireMessage × Stream) := do
  let (frame, s) ← readFrame cap s
  let body ← frame.decode A frame.kind cap
  return (⟨frame.kind, body⟩, s)

end Xenos

/-- Receives messages until one cannot be received, and why.  A frame takes at least its
header from the stream, so its length is enough fuel. -/
def receiveAll {ε : Type} (receive : Stream → Except ε (WireMessage × Stream)) :
    Nat → Stream → List WireMessage × Option ε
  | 0, _ => ([], none)
  | fuel + 1, s =>
    match receive s with
    | .ok (m, s') =>
      let rest := receiveAll receive fuel s'
      (m :: rest.1, rest.2)
    | .error e => ([], some e)

/-- Everything the daemon receives on a stream. -/
def Server.received (A : Archives) (cap : UInt32) (s : Stream) :
    List WireMessage × Option Server.ReceiveFail :=
  receiveAll (Server.receive A cap) (s.bytes.length + 1) s

/-- Everything the client receives on a stream. -/
def Xenos.received (A : Archives) (cap : UInt32) (s : Stream) :
    List WireMessage × Option Xenos.Error :=
  receiveAll (Xenos.receive A cap) (s.bytes.length + 1) s

/-! ## One frame -/

/-- `body` is the archive of a message that passes its check, and fits `cap`. -/
structure Archives.Carries (A : Archives) (cap : UInt32) (m : WireMessage) (body : Bytes) :
    Prop where
  check : m.kind.check m.body = .ok ()
  bytes : (A.of m.kind).toBytes m.body = some body
  fits : body.length ≤ (clampCap cap).toNat

theorem clampCap_toNat (cap : UInt32) : (clampCap cap).toNat = min cap.toNat hardMaxBody.toNat := by
  unfold clampCap
  split_ifs with h
  · have := UInt32.lt_iff_toNat_lt.mp h
    omega
  · have := UInt32.lt_iff_toNat_lt.not.mp h
    omega

theorem clampCap_eq_min (cap : UInt32) : clampCap cap = min cap hardMaxBody := by
  show _ = if cap ≤ hardMaxBody then cap else hardMaxBody
  unfold clampCap
  by_cases h : cap ≤ hardMaxBody
  · rw [if_pos h, if_neg (UInt32.not_lt.mpr h)]
  · rw [if_neg h, if_pos (UInt32.not_le.mp h)]

namespace FrameHeader

variable {kind : FrameKind} {len cap : UInt32}

theorem encode_new_fields (kind : FrameKind) (len : UInt32) :
    (new kind len).encode.take 4 = magic ∧ (new kind len).encode.getD 4 0 = kind.toU8 ∧
      (new kind len).encode.getD 5 0 = 0 ∧ leNat (((new kind len).encode.drop 6).take 2) = 0 ∧
      UInt32.ofNat (leNat (((new kind len).encode.drop 8).take 4)) = len := by
  refine ⟨rfl, rfl, rfl, rfl, ?_⟩
  have hfield : ((new kind len).encode.drop 8).take 4 = leBytes 4 len.toNat := rfl
  rw [hfield, leNat_leBytes (by have := len.toNat_lt; omega), UInt32.ofNat_toNat]

theorem noFlags : (0 : UInt8) &&& ~~~knownFlags = 0 := by decide

theorem decode_encode (h : len ≤ clampCap cap) :
    decode (new kind len).encode cap = .ok (new kind len) := by
  obtain ⟨hmagic, hkind, hflags, hreserved, hlen⟩ := encode_new_fields kind len
  generalize (new kind len).encode = bytes at hmagic hkind hflags hreserved hlen ⊢
  simp only [decode, hmagic, hkind, hflags, hreserved, hlen, ensureWire, if_true, ok_bind,
    FrameKind.fromU8_toU8, noFlags, h]
  rfl

end FrameHeader

namespace Xenos

variable {kind : FrameKind} {len cap : UInt32}

theorem headerBytes_eq (kind : FrameKind) (len : UInt32) :
    headerBytes kind.toU8 0 0 len = (FrameHeader.new kind len).encode := rfl

/-- The client accepts the headers the daemon accepts. -/
theorem parseHeader_eq_ok {bytes : Bytes} : parseHeader bytes cap = .ok (kind, len) ↔
    ∃ flags, FrameHeader.decode bytes cap = .ok ⟨kind, flags, len⟩ := by
  simp only [parseHeader, FrameHeader.decode, clampCap_eq_min, ensure, ensureWire]
  cases FrameKind.fromU8 (bytes.getD 4 0) <;> split_ifs <;>
    simp [bind, Except.bind, pure, Except.pure, throw, throwThe, MonadExceptOf.throw]

/-- The client reads the header the daemon writes. -/
theorem parseHeader_encode (h : len ≤ clampCap cap) :
    parseHeader (FrameHeader.new kind len).encode cap = .ok (kind, len) :=
  parseHeader_eq_ok.mpr ⟨0, FrameHeader.decode_encode h⟩

/-- Both sides write the same frames. -/
theorem frameBytes_eq_ok {A : Archives} {m : WireMessage} {bytes : Bytes} :
    frameBytes A m cap = .ok bytes ↔ A.encodeFrame m cap = .ok bytes := by
  simp only [frameBytes, Archives.encodeFrame, frameLen, clampCap_eq_min, headerBytes_eq]
  cases A.encode m with
  | error => simp [bind, Except.bind, Except.mapError]
  | ok =>
    simp only [Except.mapError, ok_bind]
    split_ifs <;> simp [bind, Except.bind, pure, Except.pure]

end Xenos

namespace Archives

variable {A : Archives} {cap : UInt32} {m : WireMessage} {body : Bytes}

/-- The frame of a message with this body. -/
def frame (m : WireMessage) (body : Bytes) : Bytes :=
  (FrameHeader.new m.kind (UInt32.ofNat body.length)).encode ++ body

theorem frame_length_pos (m : WireMessage) (body : Bytes) : 0 < (frame m body).length := by
  rw [frame, List.length_append, FrameHeader.encode_length]
  exact Nat.add_pos_left (by decide) _

theorem hardMaxBody_toNat : hardMaxBody.toNat = 4 * 1024 * 1024 := rfl

/-- A body that fits has a length field. -/
theorem Carries.len_toNat (h : A.Carries cap m body) :
    (UInt32.ofNat body.length).toNat = body.length := by
  have hfits := h.fits
  rw [clampCap_toNat, hardMaxBody_toNat] at hfits
  rw [UInt32.toNat_ofNat']
  omega

theorem Carries.len_le (h : A.Carries cap m body) : UInt32.ofNat body.length ≤ clampCap cap := by
  rw [UInt32.le_iff_toNat_le, h.len_toNat]
  exact h.fits

theorem Carries.len_lt (h : A.Carries cap m body) : body.length < 2 ^ 32 := by
  have hlen := h.len_toNat
  have hlt := (UInt32.ofNat body.length).toNat_lt
  omega

theorem Carries.encode_eq (h : A.Carries cap m body) : A.encode m = .ok body := by
  rw [encode, h.check, ok_bind, h.bytes]
  rfl

theorem Carries.encodeFrame_eq (h : A.Carries cap m body) :
    A.encodeFrame m cap = .ok (frame m body) := by
  rw [encodeFrame, h.encode_eq, ok_bind, frameLen, if_pos ⟨h.len_lt, h.len_le⟩, ok_bind]
  rfl

theorem Carries.frameBytes_eq (h : A.Carries cap m body) :
    Xenos.frameBytes A m cap = .ok (frame m body) := Xenos.frameBytes_eq_ok.mpr h.encodeFrame_eq

/-- **Canonical bodies.**  A body decodes to a value exactly when it is the archive of the
value, the value passes its check and the body fits. -/
theorem decode_eq_ok : A.decode m.kind body cap = .ok m.body ↔ A.Carries cap m body := by
  unfold decode
  dsimp only
  constructor
  · intro h
    obtain ⟨u, hfits, h⟩ := bind_eq_ok.mp h
    replace hfits := ensureWire_eq_ok.mp hfits
    cases hfrom : (A.of m.kind).fromBytes body with
    | none =>
      rw [hfrom] at h
      cases h
    | some v =>
      rw [hfrom] at h
      cases hto : (A.of m.kind).toBytes v with
      | none =>
        simp only [hto] at h
        cases h
      | some =>
        simp only [hto] at h
        obtain ⟨u', hcanonical, hrest⟩ := bind_eq_ok.mp h
        obtain ⟨u'', hcheck, hvalue⟩ := bind_eq_ok.mp hrest
        obtain rfl := ensureWire_eq_ok.mp hcanonical
        obtain rfl : v = m.body := Except.ok.inj hvalue
        exact ⟨hcheck, hto, hfits⟩
  · intro h
    rw [(ensureWire_eq_ok (u := ())).mpr h.fits, ok_bind,
      (A.of m.kind).fromBytes_toBytes _ _ h.bytes]
    simp only [h.bytes, h.check, ensureWire, if_true, ok_bind]
    rfl

end Archives

/-! ## Reading one frame -/

/-- A front of a frame that is no shorter than its header starts with it. -/
theorem exists_part {header body front tail : Bytes} (h : front ++ tail = header ++ body)
    (hlen : header.length ≤ front.length) : ∃ part, front = header ++ part :=
  (List.prefix_of_prefix_length_le ⟨body, h.symm⟩ (List.prefix_append _ _) hlen).imp
    fun _ h => h.symm

namespace Server

variable {cap : UInt32} {s : Stream} {kind : FrameKind} {body rest : Bytes}

theorem readExact_of_append {n : Nat} (hs : s.Steady ∅) (hbytes : s.bytes = body ++ rest)
    (hlen : body.length = n) :
    ∃ s', readExact n s = .ok (body, s') ∧ s'.bytes = rest ∧ s'.Steady ∅ :=
  readLoop_of_append (fun _ he => he.elim) [] hs hbytes (by simpa using hlen)

theorem readExact_of_short {n : Nat} (hs : s.Steady ∅) (hshort : s.bytes.length < n) :
    readExact n s = .error (.io .unexpectedEof) :=
  readLoop_of_short (fun _ he => he.elim) [] hs (by simpa using hshort)

/-- The first byte of a stream that has one. -/
theorem read_one (hs : s.Steady ∅) {b : UInt8} (hbytes : s.bytes = b :: rest) :
    ∃ s', s.read 1 = (.ok [b], s') ∧ s'.bytes = rest ∧ s'.Steady ∅ := by
  rcases hread : s.read 1 with ⟨_ | bs, s'⟩
  · obtain ⟨-, hevents⟩ := Stream.read_error hread
    exact (hs _ (by rw [hevents]; exact List.mem_cons_self)).elim
  · obtain ⟨hsplit, hle, hmore, hsub, -⟩ := Stream.read_ok hread
    have hne := hmore Nat.one_pos (by rw [hbytes]; nofun)
    obtain ⟨c, cs, rfl⟩ := List.exists_cons_of_ne_nil hne
    obtain rfl : cs = [] := by simpa using hle
    rw [hbytes] at hsplit
    obtain ⟨rfl, hrest⟩ := List.cons.inj hsplit
    exact ⟨s', rfl, hrest.symm, fun e he => hs e (hsub he)⟩

theorem read_one_nil (hs : s.Steady ∅) (hbytes : s.bytes = []) : ∃ s', s.read 1 = (.ok [], s') := by
  rcases hread : s.read 1 with ⟨_ | bs, s'⟩
  · obtain ⟨-, hevents⟩ := Stream.read_error hread
    exact (hs _ (by rw [hevents]; exact List.mem_cons_self)).elim
  · obtain ⟨hsplit, -⟩ := Stream.read_ok hread
    rw [hbytes] at hsplit
    obtain ⟨rfl, -⟩ := List.append_eq_nil_iff.mp hsplit.symm
    exact ⟨s', rfl⟩

theorem readFrame_nil (hs : s.Steady ∅) (hbytes : s.bytes = []) :
    readFrame cap s = .error .closed := by
  obtain ⟨s', hread⟩ := read_one_nil hs hbytes
  simp only [readFrame, hread, if_true]
  rfl

/-- **The daemon reads a frame** off the front of a stream. -/
theorem readFrame_of_append {len : UInt32} (hs : s.Steady ∅)
    (hbytes : s.bytes = (FrameHeader.new kind len).encode ++ (body ++ rest))
    (hlen : body.length = len.toNat) (hcap : len ≤ clampCap cap) :
    ∃ s', readFrame cap s = .ok (⟨.new kind len, body⟩, s') ∧ s'.bytes = rest ∧ s'.Steady ∅ := by
  obtain ⟨b, hd, hheader⟩ : ∃ b hd, (FrameHeader.new kind len).encode = b :: hd := ⟨_, _, rfl⟩
  have hhd : hd.length = headerLen - 1 := by
    have hfull := (FrameHeader.new kind len).encode_length
    rw [hheader, List.length_cons] at hfull
    omega
  rw [hheader, List.cons_append] at hbytes
  obtain ⟨s₁, hfirst, hbytes₁, hs₁⟩ := read_one hs hbytes
  obtain ⟨s₂, hrest, hbytes₂, hs₂⟩ := readExact_of_append hs₁ hbytes₁ hhd
  obtain ⟨s₃, hbody, hbytes₃, hs₃⟩ := readExact_of_append hs₂ hbytes₂ hlen
  refine ⟨s₃, ?_, hbytes₃, hs₃⟩
  have hdecode : FrameHeader.decode ([b] ++ hd) cap = .ok (.new kind len) := by
    rw [List.singleton_append, ← hheader]
    exact FrameHeader.decode_encode hcap
  have hne : [b] ≠ [] := List.cons_ne_nil _ _
  have hnew : (FrameHeader.new kind len).len = len := rfl
  simp only [readFrame, hfirst, hne, if_false, hrest, ok_bind, hdecode,
    Except.mapError, hnew, hbody]
  rfl

/-- **A stream that ends inside a frame** ends in an error. -/
theorem readFrame_of_short {len : UInt32} {tail : Bytes} (hs : s.Steady ∅)
    (hbytes : s.bytes ++ tail = (FrameHeader.new kind len).encode ++ body)
    (hlen : body.length = len.toNat) (hcap : len ≤ clampCap cap) (hsome : s.bytes ≠ [])
    (htail : tail ≠ []) : readFrame cap s = .error (.io .unexpectedEof) := by
  obtain ⟨b, hd, hheader⟩ : ∃ b hd, (FrameHeader.new kind len).encode = b :: hd := ⟨_, _, rfl⟩
  have hfull := (FrameHeader.new kind len).encode_length
  have hcount := congrArg List.length hbytes
  have htailpos := List.length_pos_of_ne_nil htail
  rw [List.length_append, List.length_append, hfull] at hcount
  obtain ⟨c, cs, hcs⟩ := List.exists_cons_of_ne_nil hsome
  have hcslen := congrArg List.length hcs
  rw [List.length_cons] at hcslen
  obtain ⟨s₁, hfirst, hbytes₁, hs₁⟩ := read_one hs hcs
  have hne : [c] ≠ [] := List.cons_ne_nil _ _
  by_cases hpart : s.bytes.length < headerLen
  · have hshort : readExact (headerLen - 1) s₁ = .error (.io .unexpectedEof) :=
      readExact_of_short hs₁ (by rw [hbytes₁]; omega)
    simp only [readFrame, hfirst, hne, if_false, hshort]
    rfl
  · -- The header is complete, so the body is cut.
    obtain ⟨part, hsplit⟩ := exists_part hbytes (hfull.le.trans (Nat.le_of_not_lt hpart))
    have hpartlen := congrArg List.length hsplit
    rw [List.length_append, hfull] at hpartlen
    rw [hcs, hheader, List.cons_append] at hsplit
    obtain ⟨rfl, hcs'⟩ := List.cons.inj hsplit
    have hhd : hd.length = headerLen - 1 := by
      rw [hheader, List.length_cons] at hfull
      omega
    obtain ⟨s₂, hrest, hbytes₂, hs₂⟩ := readExact_of_append hs₁ (hbytes₁.trans hcs') hhd
    have hdecode : FrameHeader.decode ([c] ++ hd) cap = .ok (.new kind len) := by
      rw [List.singleton_append, ← hheader]
      exact FrameHeader.decode_encode hcap
    have hshort : readExact len.toNat s₂ = .error (.io .unexpectedEof) :=
      readExact_of_short hs₂ (by rw [hbytes₂]; omega)
    have hnew : (FrameHeader.new kind len).len = len := rfl
    simp only [readFrame, hfirst, hne, if_false, hrest, ok_bind, hdecode,
      Except.mapError, hnew, hshort]
    rfl

end Server

namespace Xenos

variable {cap : UInt32} {s : Stream} {kind : FrameKind} {body rest : Bytes}

theorem fillError_interrupted (e : IoError) (he : e ∈ ({.interrupted} : Set IoError))
    (received : Nat) : fillError received e = none := by
  rw [Set.mem_singleton_iff.mp he]
  rfl

theorem fill_of_append {n : Nat} (hs : s.Steady {.interrupted}) (hbytes : s.bytes = body ++ rest)
    (hlen : body.length = n) :
    ∃ s', fill n s = .ok (body, s') ∧ s'.bytes = rest ∧ s'.Steady {.interrupted} :=
  readLoop_of_append fillError_interrupted [] hs hbytes (by simpa using hlen)

theorem fill_of_short {n : Nat} (hs : s.Steady {.interrupted}) (hshort : s.bytes.length < n) :
    fill n s = .error (.eof s.bytes.length) := by
  have h : fill n s = .error (.eof ([].length + s.bytes.length)) :=
    readLoop_of_short fillError_interrupted [] hs (by simpa using hshort)
  rwa [List.length_nil, Nat.zero_add] at h

theorem readFrame_nil (hs : s.Steady {.interrupted}) (hbytes : s.bytes = []) :
    readFrame cap s = .error .closed := by
  have hfill := fill_of_short (n := headerLen) hs (by rw [hbytes]; decide)
  rw [hbytes] at hfill
  simp only [readFrame, hfill]
  rfl

/-- **The client reads a frame** off the front of a stream. -/
theorem readFrame_of_append {len : UInt32} (hs : s.Steady {.interrupted})
    (hbytes : s.bytes = (FrameHeader.new kind len).encode ++ (body ++ rest))
    (hlen : body.length = len.toNat) (hcap : len ≤ clampCap cap) :
    ∃ s', readFrame cap s = .ok (⟨kind, body⟩, s') ∧ s'.bytes = rest ∧
      s'.Steady {.interrupted} := by
  obtain ⟨s₁, hheader, hbytes₁, hs₁⟩ :=
    fill_of_append hs hbytes (FrameHeader.encode_length _)
  obtain ⟨s₂, hbody, hbytes₂, hs₂⟩ := fill_of_append hs₁ hbytes₁ hlen
  refine ⟨s₂, ?_, hbytes₂, hs₂⟩
  simp only [readFrame, hheader, Except.mapError, ok_bind, parseHeader_encode hcap, hbody]
  rfl

/-- **A stream that ends inside a frame** ends in an error. -/
theorem readFrame_of_short {len : UInt32} {tail : Bytes} (hs : s.Steady {.interrupted})
    (hbytes : s.bytes ++ tail = (FrameHeader.new kind len).encode ++ body)
    (hlen : body.length = len.toNat) (hcap : len ≤ clampCap cap) (hsome : s.bytes ≠ [])
    (htail : tail ≠ []) :
    ∃ expected received, readFrame cap s = .error (.truncated expected received) := by
  have hfull := (FrameHeader.new kind len).encode_length
  have hcount := congrArg List.length hbytes
  have htailpos := List.length_pos_of_ne_nil htail
  rw [List.length_append, List.length_append, hfull] at hcount
  by_cases hpart : s.bytes.length < headerLen
  · obtain ⟨received, hreceived⟩ :=
      Nat.exists_eq_succ_of_ne_zero (List.length_pos_of_ne_nil hsome).ne'
    have hfill := fill_of_short hs hpart
    rw [hreceived] at hfill
    refine ⟨headerLen, received + 1, ?_⟩
    simp only [readFrame, hfill]
    rfl
  · obtain ⟨part, hsplit⟩ := exists_part hbytes (hfull.le.trans (Nat.le_of_not_lt hpart))
    have hpartlen := congrArg List.length hsplit
    rw [List.length_append, hfull] at hpartlen
    obtain ⟨s₁, hheader, hbytes₁, hs₁⟩ := fill_of_append hs hsplit hfull
    have hshort := fill_of_short (n := len.toNat) hs₁ (by rw [hbytes₁]; omega)
    refine ⟨len.toNat, s₁.bytes.length, ?_⟩
    simp only [readFrame, hheader, Except.mapError, ok_bind, parseHeader_encode hcap, hshort]
    rfl

end Xenos

/-! ## Whole streams -/

/-- A reader that takes each message off the front of a stream takes all of them, and ends
as it ends on what is left. -/
theorem receiveAll_of_append {ε : Type} {receive : Stream → Except ε (WireMessage × Stream)}
    (ignored : Set IoError) {tail : Bytes} {Q : ε → Prop} {ms : List WireMessage}
    {frames : List Bytes}
    (hframes : List.Forall₂ (fun m f => ∀ (s : Stream) rest, s.Steady ignored →
      s.bytes = f ++ rest →
      ∃ s', receive s = .ok (m, s') ∧ s'.bytes = rest ∧ s'.Steady ignored) ms frames)
    (hend : ∀ s : Stream, s.Steady ignored → s.bytes = tail → ∃ e, receive s = .error e ∧ Q e)
    {s : Stream} (hs : s.Steady ignored) (hbytes : s.bytes = frames.flatten ++ tail) {fuel : Nat}
    (hfuel : ms.length < fuel) : ∃ e, receiveAll receive fuel s = (ms, some e) ∧ Q e := by
  induction hframes generalizing s fuel with
  | nil =>
    obtain ⟨fuel, rfl⟩ := Nat.exists_eq_succ_of_ne_zero (Nat.ne_of_gt hfuel)
    obtain ⟨e, he, hQ⟩ := hend s hs hbytes
    exact ⟨e, by simp only [receiveAll, he], hQ⟩
  | @cons _ _ _ _ hread _ ih =>
    obtain ⟨fuel, rfl⟩ := Nat.exists_eq_succ_of_ne_zero (Nat.ne_of_gt (Nat.zero_lt_of_lt hfuel))
    rw [List.flatten_cons, List.append_assoc] at hbytes
    obtain ⟨s', hreceive, hbytes', hs'⟩ := hread s _ hs hbytes
    obtain ⟨e, he, hQ⟩ := ih hs' hbytes' (Nat.lt_of_succ_lt_succ hfuel)
    exact ⟨e, by simp only [receiveAll, hreceive, he], hQ⟩

namespace Archives.Carries

variable {A : Archives} {cap : UInt32} {m : WireMessage} {body : Bytes}

variable (h : A.Carries cap m body)

include h

theorem server_receive (s : Stream) (rest : Bytes) (hs : s.Steady ∅)
    (hbytes : s.bytes = frame m body ++ rest) :
    ∃ s', Server.receive A cap s = .ok (m, s') ∧ s'.bytes = rest ∧ s'.Steady ∅ := by
  rw [frame, List.append_assoc] at hbytes
  obtain ⟨s', hread, hdone⟩ := Server.readFrame_of_append hs hbytes h.len_toNat.symm h.len_le
  refine ⟨s', ?_, hdone⟩
  simp only [FrameHeader.new] at hread
  simp only [Server.receive, hread, Except.mapError, ok_bind, Archives.decodeFrame, h.len_toNat,
    ensureWire, if_true, Archives.decode_eq_ok.mpr h]
  rfl

theorem server_receive_short {part tail : Bytes} (hpart : part ≠ [])
    (htail : tail ≠ []) (hcut : part ++ tail = frame m body) (s : Stream) (hs : s.Steady ∅)
    (hbytes : s.bytes = part) : Server.receive A cap s = .error (.read (.io .unexpectedEof)) := by
  have hread : Server.readFrame cap s = .error (.io .unexpectedEof) :=
    Server.readFrame_of_short hs (by rw [hbytes, hcut]; rfl) h.len_toNat.symm h.len_le
      (by rw [hbytes]; exact hpart) htail
  simp only [Server.receive, hread]
  rfl

theorem xenos_receive (s : Stream) (rest : Bytes)
    (hs : s.Steady {.interrupted}) (hbytes : s.bytes = frame m body ++ rest) :
    ∃ s', Xenos.receive A cap s = .ok (m, s') ∧ s'.bytes = rest ∧ s'.Steady {.interrupted} := by
  rw [frame, List.append_assoc] at hbytes
  obtain ⟨s', hread, hdone⟩ := Xenos.readFrame_of_append hs hbytes h.len_toNat.symm h.len_le
  refine ⟨s', ?_, hdone⟩
  have hown : ¬(m.kind = .fault ∧ m.kind ≠ .fault) := fun hboth => hboth.2 hboth.1
  simp only [Xenos.receive, hread, ok_bind, Xenos.Frame.decode, if_neg hown, Xenos.ensure, if_true,
    Archives.decode_eq_ok.mpr h, Except.mapError]
  rfl

theorem xenos_receive_short {part tail : Bytes} (hpart : part ≠ [])
    (htail : tail ≠ []) (hcut : part ++ tail = frame m body) (s : Stream)
    (hs : s.Steady {.interrupted}) (hbytes : s.bytes = part) :
    ∃ e, Xenos.receive A cap s = .error e ∧ e ≠ .closed := by
  obtain ⟨expected, received, hread⟩ := Xenos.readFrame_of_short hs
    (by rw [hbytes, hcut]; rfl) h.len_toNat.symm h.len_le (by rw [hbytes]; exact hpart) htail
  refine ⟨.truncated expected received, ?_, nofun⟩
  simp only [Xenos.receive, hread]
  rfl

end Archives.Carries

/-- Streams that fail on no read. -/
def ReadEvent.Split (events : List ReadEvent) : Prop := ∀ error, .fails error ∉ events

/-- Streams on which reads are at most interrupted. -/
def ReadEvent.Interrupts (events : List ReadEvent) : Prop :=
  ∀ error, .fails error ∈ events → error = .interrupted

theorem length_le_flatten {frames : List Bytes} (h : ∀ f ∈ frames, 0 < f.length) :
    frames.length ≤ frames.flatten.length := by
  induction frames with
  | nil => exact Nat.zero_le _
  | cons f _ ih =>
    have hf := h f List.mem_cons_self
    have htail := ih fun f' hf' => h f' (List.mem_cons_of_mem _ hf')
    rw [List.flatten_cons, List.length_append, List.length_cons]
    omega

/-- The frames of messages, and the bodies they carry. -/
structure Archives.Framed (A : Archives) (cap : UInt32) (m : WireMessage) (f : Bytes) : Prop where
  exists_body : ∃ body, A.Carries cap m body ∧ f = Archives.frame m body

namespace Archives.Framed

variable {A : Archives} {cap : UInt32} {ms : List WireMessage} {frames : List Bytes}

theorem length_le (h : List.Forall₂ (A.Framed cap) ms frames) (tail : Bytes) :
    ms.length ≤ (frames.flatten ++ tail).length := by
  rw [h.length_eq, List.length_append]
  refine le_trans (length_le_flatten fun f hf => ?_) (Nat.le_add_right _ _)
  obtain ⟨m, -, ⟨body, -, rfl⟩⟩ := exists_of_mem_right h hf
  exact frame_length_pos m body

/-- What the daemon receives on a stream that starts with whole frames. -/
theorem server_received (h : List.Forall₂ (A.Framed cap) ms frames) (tail : Bytes)
    {events : List ReadEvent} (hsplit : ReadEvent.Split events) {Q : Server.ReceiveFail → Prop}
    (hend : ∀ s : Stream, s.Steady ∅ → s.bytes = tail →
      ∃ e, Server.receive A cap s = .error e ∧ Q e) :
    ∃ e, Server.received A cap ⟨frames.flatten ++ tail, events⟩ = (ms, some e) ∧ Q e := by
  refine receiveAll_of_append ∅ (h.imp ?_) hend (fun e he => hsplit e he) rfl
    (Nat.lt_succ_of_le (length_le h tail))
  rintro m f ⟨body, hbody, rfl⟩ s rest hs hbytes
  exact hbody.server_receive s rest hs hbytes

/-- What the client receives on a stream that starts with whole frames. -/
theorem xenos_received (h : List.Forall₂ (A.Framed cap) ms frames) (tail : Bytes)
    {events : List ReadEvent} (hsplit : ReadEvent.Interrupts events) {Q : Xenos.Error → Prop}
    (hend : ∀ s : Stream, s.Steady {.interrupted} → s.bytes = tail →
      ∃ e, Xenos.receive A cap s = .error e ∧ Q e) :
    ∃ e, Xenos.received A cap ⟨frames.flatten ++ tail, events⟩ = (ms, some e) ∧ Q e := by
  refine receiveAll_of_append {.interrupted} (h.imp ?_) hend (fun e he => hsplit e he)
    rfl (Nat.lt_succ_of_le (length_le h tail))
  rintro m f ⟨body, hbody, rfl⟩ s rest hs hbytes
  exact hbody.xenos_receive s rest hs hbytes

end Archives.Framed

/-- A front of some frames that does not end with one of them ends inside one. -/
theorem exists_cut {frames : List Bytes} {front : Bytes} (hfront : front <+: frames.flatten)
    (hcut : ∀ i, front ≠ (frames.take i).flatten) :
    ∃ i f part tail, frames[i]? = some f ∧ part ≠ [] ∧ tail ≠ [] ∧ part ++ tail = f ∧
      front = (frames.take i).flatten ++ part := by
  induction frames generalizing front with
  | nil => exact absurd (List.prefix_nil.mp hfront) (hcut 0)
  | cons f _ ih =>
    by_cases hlen : front.length < f.length
    · obtain ⟨tail, rfl⟩ : front <+: f :=
        List.prefix_of_prefix_length_le hfront (List.prefix_append _ _) hlen.le
      refine ⟨0, _, front, tail, rfl, hcut 0, ?_, rfl, rfl⟩
      rintro rfl
      simp at hlen
    · obtain ⟨front', rfl⟩ : f <+: front :=
        List.prefix_of_prefix_length_le (List.prefix_append _ _) hfront (Nat.le_of_not_lt hlen)
      rw [List.flatten_cons] at hfront
      obtain ⟨i, f', part, tail, hf', hpart, htail, hsplit, rfl⟩ :=
        ih ((List.prefix_append_right_inj f).mp hfront) fun i heq => hcut (i + 1) (by
          rw [heq, List.take_succ_cons, List.flatten_cons])
      refine ⟨i + 1, f', part, tail, hf', hpart, htail, hsplit, ?_⟩
      rw [List.take_succ_cons, List.flatten_cons, List.append_assoc]

/-- **Framing.**  Both sides write the same frames for messages that pass their checks and
fit the bound.  Each side reads the concatenation of the other's frames back as exactly
those messages and then a clean close, however the stream is cut into reads; a front of it
that ends inside a frame gives the messages before that frame and an error that is not a
close.  And a value has exactly one body that decodes to it. -/
theorem framing_round_trip (A : Archives) (cap : UInt32) :
    (∀ ms : List WireMessage, (∀ m ∈ ms, ∃ body, A.Carries cap m body) →
      ∃ frames, ms.mapM (A.encodeFrame · cap) = .ok frames ∧
        ms.mapM (Xenos.frameBytes A · cap) = .ok frames ∧
        (∀ events, ReadEvent.Interrupts events →
          Xenos.received A cap ⟨frames.flatten, events⟩ = (ms, some .closed)) ∧
        (∀ events, ReadEvent.Split events →
          Server.received A cap ⟨frames.flatten, events⟩ = (ms, some (.read .closed))) ∧
        ∀ front, front <+: frames.flatten → (∀ i, front ≠ (frames.take i).flatten) →
          ∃ i, (frames.take i).flatten <+: front ∧ front <+: (frames.take (i + 1)).flatten ∧
            (∀ events, ReadEvent.Interrupts events →
              ∃ e, Xenos.received A cap ⟨front, events⟩ = (ms.take i, some e) ∧ e ≠ .closed) ∧
            ∀ events, ReadEvent.Split events →
              ∃ e, Server.received A cap ⟨front, events⟩ = (ms.take i, some e) ∧
                e ≠ .read .closed) ∧
    (∀ m, (∃ body, A.Carries cap m body) → ∃! body, A.decode m.kind body cap = .ok m.body) ∧
    ∀ m body, A.decode m.kind body cap = .ok m.body → A.Carries cap m body := by
  refine ⟨fun ms hms => ?_, fun m ⟨body, hbody⟩ => ?_, fun m body => Archives.decode_eq_ok.mp⟩
  · obtain ⟨frames, hframes⟩ : ∃ frames, List.Forall₂ (A.Framed cap) ms frames :=
      exists_forall₂ fun m hm => by
        obtain ⟨body, hbody⟩ := hms m hm
        exact ⟨_, body, hbody, rfl⟩
    refine ⟨frames, ?_, ?_, fun events hevents => ?_, fun events hevents => ?_,
      fun front hfront hcut => ?_⟩
    · refine mapM_eq_ok.mpr (hframes.imp ?_)
      rintro m f ⟨body, hbody, rfl⟩
      exact hbody.encodeFrame_eq
    · refine mapM_eq_ok.mpr (hframes.imp ?_)
      rintro m f ⟨body, hbody, rfl⟩
      exact hbody.frameBytes_eq
    · obtain ⟨e, he, rfl⟩ := Archives.Framed.xenos_received hframes [] hevents
        (Q := (· = .closed)) fun s hs hbytes => ⟨.closed, by
          simp only [Xenos.receive, Xenos.readFrame_nil hs hbytes]; rfl, rfl⟩
      rwa [List.append_nil] at he
    · obtain ⟨e, he, rfl⟩ := Archives.Framed.server_received hframes [] hevents
        (Q := (· = .read .closed)) fun s hs hbytes => ⟨.read .closed, by
          simp only [Server.receive, Server.readFrame_nil hs hbytes]; rfl, rfl⟩
      rwa [List.append_nil] at he
    · obtain ⟨i, f, part, tail, hf, hpart, htail, hsplit, rfl⟩ := exists_cut hfront hcut
      obtain ⟨m, -, body, hbody, rfl⟩ := exists_of_mem_right hframes (List.mem_of_getElem? hf)
      have htake : List.Forall₂ (A.Framed cap) (ms.take i) (frames.take i) :=
        List.forall₂_take i hframes
      refine ⟨i, List.prefix_append _ _, ?_, fun events hevents => ?_, fun events hevents => ?_⟩
      · rw [List.take_add_one, hf, ← hsplit]
        exact ⟨tail, by simp⟩
      · exact Archives.Framed.xenos_received htake _ hevents
          (hbody.xenos_receive_short hpart htail hsplit)
      · exact Archives.Framed.server_received htake _ hevents fun s hs hbytes =>
          ⟨_, hbody.server_receive_short hpart htail hsplit s hs hbytes, nofun⟩
  · refine ⟨body, Archives.decode_eq_ok.mpr hbody, fun body' hbody' => ?_⟩
    exact Option.some.inj ((Archives.decode_eq_ok.mp hbody').bytes.symm.trans hbody.bytes)

namespace Sample

/-- An archive of nothing. -/
def noArchive (T : Type) : Archive T where
  toBytes _ := none
  fromBytes _ := none
  fromBytes_toBytes _ _ h := by cases h

/-- Archives of the two smallest bodies. -/
def archives : Archives where
  of
  | .admitted => {
      toBytes := fun _ => some []
      fromBytes := fun bytes => if bytes = [] then some Admitted.mk else none
      fromBytes_toBytes := fun _ _ h => by cases h; rfl }
  | .cancel => {
      toBytes := fun c : Cancel => some (leBytes 8 c.requestId.toNat)
      fromBytes := fun bytes => some (Cancel.mk (UInt64.ofNat (leNat bytes)))
      fromBytes_toBytes := fun c _ h => by
        cases h
        have hlt := UInt64.toNat_lt (Cancel.requestId c)
        rw [leNat_leBytes (by omega), UInt64.ofNat_toNat]
        rfl }
  | _ => noArchive _

def cancelOf (requestId : UInt64) : WireMessage := ⟨.cancel, Cancel.mk requestId⟩

/-- The frame of a small cancel. -/
def cancelFrame (requestId : UInt8) : Bytes :=
  magic ++ [6, 0, 0, 0, 8, 0, 0, 0] ++ [requestId, 0, 0, 0, 0, 0, 0, 0]

end Sample

/-- Two cancels, read in pieces and cut inside the second. -/
theorem framing_round_trip_of_cancels :
    [Sample.cancelOf 7, Sample.cancelOf 9].mapM
        (Xenos.frameBytes Sample.archives · preAuthMaxBody) =
      .ok [Sample.cancelFrame 7, Sample.cancelFrame 9] ∧
    Server.received Sample.archives preAuthMaxBody
        ⟨Sample.cancelFrame 7 ++ Sample.cancelFrame 9, [.data 0, .data 4, .data 30]⟩ =
      ([Sample.cancelOf 7, Sample.cancelOf 9], some (.read .closed)) ∧
    ∃ e, Server.received Sample.archives preAuthMaxBody
        ⟨Sample.cancelFrame 7 ++ (Sample.cancelFrame 9).take 5, [.data 20]⟩ =
      ([Sample.cancelOf 7], some e) ∧ e ≠ .read .closed := by
  have hcarries (id : UInt64) : Sample.archives.Carries preAuthMaxBody (Sample.cancelOf id)
      (leBytes 8 id.toNat) := ⟨rfl, rfl, by rw [leBytes_length]; decide⟩
  have hsplit (ns : List Nat) : ReadEvent.Split (ns.map .data) := by
    intro error hmem
    obtain ⟨n, -, hn⟩ := List.mem_map.mp hmem
    cases hn
  obtain ⟨frames, -, hwritten, -, hread, hcut⟩ := (framing_round_trip Sample.archives
    preAuthMaxBody).1 [Sample.cancelOf 7, Sample.cancelOf 9] (by
      intro m hm
      simp only [List.mem_cons, List.not_mem_nil, or_false] at hm
      rcases hm with rfl | rfl
      · exact ⟨_, hcarries 7⟩
      · exact ⟨_, hcarries 9⟩)
  obtain rfl : frames = [Sample.cancelFrame 7, Sample.cancelFrame 9] :=
    (Except.ok.inj hwritten).symm
  refine ⟨hwritten, hread _ (hsplit [0, 4, 30]), ?_⟩
  obtain ⟨i, hfirst, hlast, -, hend⟩ := hcut (Sample.cancelFrame 7 ++ (Sample.cancelFrame 9).take 5)
    ⟨(Sample.cancelFrame 9).drop 5, rfl⟩ fun i heq => by
      have hlen := congrArg List.length heq
      rcases i with _ | _ | i
      · cases hlen
      · cases hlen
      · have htake : [Sample.cancelFrame 7, Sample.cancelFrame 9].take (i + 1 + 1) =
            [Sample.cancelFrame 7, Sample.cancelFrame 9] :=
          List.take_of_length_le (Nat.le_add_left 2 i)
        rw [htake] at hlen
        cases hlen
  obtain rfl : i = 1 := by
    rcases i with _ | _ | i
    · exact absurd hlast.length_le (by decide)
    · rfl
    · rw [List.take_of_length_le (Nat.le_add_left 2 i)] at hfirst
      exact absurd hfirst.length_le (by decide)
  exact hend _ (hsplit [20])

end Dioptron
