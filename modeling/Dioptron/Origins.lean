import Dioptron.Lifecycle

/-! # Origins and target scopes

The parser of targets and origin patterns, over bytes, and the two questions asked
about a pattern: does it match an origin, and does it cover another pattern.  The
main result is that coverage is sound: whatever the inner scope admits, the outer
one admits.
-/
namespace Dioptron

/-! ## Byte classes and splitting -/

def byte (c : Char) : UInt8 := UInt8.ofNat c.toNat

def isDigit (b : UInt8) : Bool := byte '0' ≤ b && b ≤ byte '9'

def isUpper (b : UInt8) : Bool := byte 'A' ≤ b && b ≤ byte 'Z'

def isLower (b : UInt8) : Bool := byte 'a' ≤ b && b ≤ byte 'z'

def isHexDigit (b : UInt8) : Bool :=
  isDigit b || (byte 'a' ≤ b && b ≤ byte 'f') || (byte 'A' ≤ b && b ≤ byte 'F')

def isAlphanumeric (b : UInt8) : Bool := isDigit b || isUpper b || isLower b

/-- A printable ASCII byte other than the blank. -/
def isGraphic (b : UInt8) : Bool := 33 ≤ b && b ≤ 126

def toLower (b : UInt8) : UInt8 := if isUpper b then b + 32 else b

def eqIgnoreCase (a b : Bytes) : Bool := a.map toLower == b.map toLower

/-- `s` around the first occurrence of `sep`. -/
def splitOnce (sep : Bytes) : Bytes → Option (Bytes × Bytes)
  | [] => none
  | b :: rest =>
    if sep.isPrefixOf (b :: rest) then some ([], (b :: rest).drop sep.length)
    else (splitOnce sep rest).map fun (front, back) => (b :: front, back)

/-- `s` without `suffix` at its end, when it ends so. -/
def stripSuffix (suffix s : Bytes) : Option Bytes :=
  if suffix.isSuffixOf s then some (s.take (s.length - suffix.length)) else none

/-- `s` without `start` in front, when it starts so. -/
def stripStart (start s : Bytes) : Option Bytes :=
  if start.isPrefixOf s then some (s.drop start.length) else none

theorem stripSuffix_eq_some {suffix s front : Bytes} :
    stripSuffix suffix s = some front ↔ s = front ++ suffix := by
  unfold stripSuffix
  constructor
  · intro h
    split at h
    · rename_i hsuffix
      obtain ⟨rest, rfl⟩ := List.isSuffixOf_iff_suffix.mp hsuffix
      cases h
      simp
    · cases h
  · rintro rfl
    rw [if_pos (List.isSuffixOf_iff_suffix.mpr (List.suffix_append front suffix))]
    simp

/-! ## Hosts -/

inductive Scheme
  | http
  | https
  deriving DecidableEq, Repr

namespace Scheme

def all : List Scheme := [http, https]

@[simp] theorem mem_all (s : Scheme) : s ∈ all := by
  cases s <;> decide

def defaultPort : Scheme → UInt16
  | http => 80
  | https => 443

def parse (text : Bytes) : Except AuthzError Scheme :=
  if eqIgnoreCase text (ascii "http") then .ok http
  else if eqIgnoreCase text (ascii "https") then .ok https
  else .error (.originSyntax "scheme is not http or https")

end Scheme

/-- A concrete host: a lowercase domain or an IPv4 address. -/
inductive Host
  | domain (name : Bytes)
  | ipv4 (a b c d : UInt8)
  deriving DecidableEq, Repr

def maxHostLen : Nat := 253

def maxLabelLen : Nat := 63

/-- Decimal digits as a number, or nothing above `limit`. -/
def parseDecimal (limit : Nat) (digits : Bytes) : Option Nat :=
  digits.foldlM (fun acc b =>
    let next := acc * 10 + (b.toNat - 48)
    if next ≤ limit then some next else none) 0

def splitPort (authority : Bytes) : Except AuthzError (Bytes × Option UInt16) :=
  match splitOnce [byte ':'] authority with
  | none => .ok (authority, none)
  | some (host, port) =>
    if port.isEmpty || !port.all isDigit then
      .error (.originSyntax "port is empty or not decimal")
    else
      match parseDecimal 65535 port with
      | none => .error (.originSyntax "port is above 65535")
      | some 0 => .error (.originSyntax "port is 0")
      | some port => .ok (host, some (UInt16.ofNat port))

/-- Whether a last label makes a lenient parser read the host as a number. -/
def endsInNumber (label : Bytes) : Bool :=
  let decimal := !label.isEmpty && label.all isDigit
  let hex := ((stripStart (ascii "0x") label).or (stripStart (ascii "0X") label)).any
    fun digits => digits.all isHexDigit
  decimal || hex

def octet (label : Bytes) : Except AuthzError UInt8 :=
  let canonical := !label.isEmpty && label.length ≤ 3 && label.all isDigit &&
    (label == [byte '0'] || label.head? != some (byte '0'))
  if !canonical then .error (.originSyntax "numeric host octet is not canonical decimal")
  else
    match parseDecimal 255 label with
    | none => .error (.originSyntax "numeric host octet is above 255")
    | some n => .ok (UInt8.ofNat n)

/-- Accepts exactly four canonical decimal octets. -/
def parseIpv4 : List Bytes → Except AuthzError Host
  | [a, b, c, d] => do return .ipv4 (← octet a) (← octet b) (← octet c) (← octet d)
  | _ => .error (.originSyntax "numeric host is not four dotted octets")

def isLdhLabel (label : Bytes) : Bool :=
  !label.isEmpty && label.length ≤ maxLabelLen &&
    label.all (fun b => isAlphanumeric b || b == byte '-') &&
    label.head? != some (byte '-') && label.getLast? != some (byte '-')

/-- Parses a host: canonical dotted-decimal IPv4, or letters, digits and hyphens. -/
def parseHost (text : Bytes) : Except AuthzError Host :=
  if text.isEmpty || maxHostLen < text.length then
    .error (.originSyntax "host is empty or too long")
  else
    let labels := text.splitOn (byte '.')
    if endsInNumber (labels.getLast?.getD []) then parseIpv4 labels
    else if labels.all isLdhLabel then .ok (.domain (text.map toLower))
    else .error (.originSyntax
      "host label is empty, too long, or not letters, digits, and hyphens")

/-- Whether `name` is `domain` with at least one more label in front. -/
def isProperSubdomain (name domain : Bytes) : Bool :=
  ((stripSuffix domain name).bind fun front => stripSuffix [byte '.'] front).any
    fun front => !front.isEmpty

theorem isProperSubdomain_iff {name domain : Bytes} :
    isProperSubdomain name domain = true ↔
      ∃ front, front ≠ [] ∧ name = front ++ [byte '.'] ++ domain := by
  unfold isProperSubdomain
  simp only [Option.any_eq_true, Option.bind_eq_some_iff, stripSuffix_eq_some, Bool.not_eq_true',
    List.isEmpty_eq_false_iff]
  constructor
  · rintro ⟨front, ⟨_, rfl, rfl⟩, hfront⟩
    exact ⟨front, hfront, rfl⟩
  · rintro ⟨front, hfront, rfl⟩
    exact ⟨front, ⟨_, rfl, rfl⟩, hfront⟩

theorem isProperSubdomain_trans {a b c : Bytes} (hab : isProperSubdomain a b = true)
    (hbc : isProperSubdomain b c = true) : isProperSubdomain a c = true := by
  rw [isProperSubdomain_iff] at hab hbc ⊢
  obtain ⟨front, hfront, rfl⟩ := hab
  obtain ⟨mid, -, rfl⟩ := hbc
  exact ⟨front ++ [byte '.'] ++ mid, by simp, by simp⟩

/-! ## Origins and patterns -/

/-- The scheme, host and effective port of a target. -/
structure Origin where
  scheme : Scheme
  host : Host
  port : UInt16
  deriving DecidableEq, Repr

/-- The bytes that end an authority: `/`, `?`, `#` and the backslash. -/
def endsAuthority (b : UInt8) : Bool :=
  b == byte '/' || b == byte '?' || b == byte '#' || b == 92

/-- Parses the origin of an absolute target. -/
def Origin.parse (target : Bytes) : Except AuthzError Origin := do
  ensure (target.all isGraphic)
    (.originSyntax "target holds whitespace, control, or non-ASCII bytes")
  match splitOnce (ascii "://") target with
  | none => throw (.originSyntax "target has no scheme separator")
  | some (scheme, rest) =>
    let scheme ← Scheme.parse scheme
    -- Every byte is ASCII here, so the authority always ends at a boundary.
    let (host, port) ← splitPort (rest.takeWhile fun b => !endsAuthority b)
    let host ← parseHost host
    return ⟨scheme, host, port.getD scheme.defaultPort⟩

inductive HostPattern
  | any
  | exact (host : Host)
  | subdomains (domain : Bytes)
  deriving DecidableEq, Repr

/-- One origin pattern of a grant's target scope. -/
structure OriginPattern where
  scheme : Option Scheme
  host : HostPattern
  port : Option UInt16
  deriving DecidableEq, Repr

namespace OriginPattern

/-- The optional scheme of a pattern and the text behind it. -/
def splitScheme (text : Bytes) : Except AuthzError (Option Scheme × Bytes) :=
  match splitOnce (ascii "://") text with
  | some (scheme, authority) => do return (some (← Scheme.parse scheme), authority)
  | none => .ok (none, text)

/-- The host part of a pattern. -/
def parseHostPattern (host : Bytes) : Except AuthzError HostPattern :=
  if host == [byte '*'] then .ok .any
  else
    match stripStart (ascii "*.") host with
    | some domain => do
      match ← parseHost domain with
      | .domain domain => return .subdomains domain
      | .ipv4 .. => throw (.originSyntax "a wildcard cannot precede an address")
    | none => do return .exact (← parseHost host)

def parse (text : Bytes) : Except AuthzError OriginPattern := do
  ensure (text.all isGraphic)
    (.originSyntax "pattern holds whitespace, control, or non-ASCII bytes")
  let (scheme, authority) ← splitScheme text
  let (host, port) ← splitPort authority
  return ⟨scheme, ← parseHostPattern host, port⟩

def admitsScheme (p : OriginPattern) (scheme : Scheme) : Bool :=
  p.scheme.all fun own => own == scheme

/-- The one port this pattern admits under `scheme`. -/
def portFor (p : OriginPattern) (scheme : Scheme) : UInt16 :=
  p.port.getD scheme.defaultPort

/-- The host half of `matches`. -/
def matchesHost : HostPattern → Host → Bool
  | .any, _ => true
  | .exact host, other => host == other
  | .subdomains domain, .domain name => isProperSubdomain name domain
  | .subdomains _, .ipv4 .. => false

/-- Whether `origin` falls inside this pattern. -/
def matches_ (p : OriginPattern) (origin : Origin) : Bool :=
  p.admitsScheme origin.scheme && p.portFor origin.scheme == origin.port &&
    matchesHost p.host origin.host

/-- The host half of `covers`. -/
def coversHost : HostPattern → HostPattern → Bool
  | .any, _ => true
  | .exact _, .any => false
  | .subdomains _, .any => false
  | .exact _, .subdomains _ => false
  | .exact outer, .exact host => outer == host
  | .subdomains outer, .exact (.domain name) => isProperSubdomain name outer
  | .subdomains _, .exact (.ipv4 ..) => false
  | .subdomains outer, .subdomains domain => domain == outer || isProperSubdomain domain outer

/-- Whether every origin `inner` matches is also matched by `p`. -/
def covers (p inner : OriginPattern) : Bool :=
  (Scheme.all.filter inner.admitsScheme).all (fun scheme =>
    p.admitsScheme scheme && p.portFor scheme == inner.portFor scheme) &&
    coversHost p.host inner.host

theorem coversHost_sound {outer inner : HostPattern} {host : Host}
    (hcovers : coversHost outer inner = true) (hmatch : matchesHost inner host = true) :
    matchesHost outer host = true := by
  cases outer with
  | any => rfl
  | exact =>
    cases inner with
    | any => cases hcovers
    | subdomains => cases hcovers
    | exact =>
      simp only [coversHost, matchesHost, beq_iff_eq] at *
      rw [hcovers, hmatch]
  | subdomains =>
    cases inner with
    | any => cases hcovers
    | exact h' =>
      simp only [matchesHost, beq_iff_eq] at hmatch
      subst hmatch
      cases h' with
      | domain => exact hcovers
      | ipv4 => cases hcovers
    | subdomains =>
      cases host with
      | ipv4 => cases hmatch
      | domain =>
        simp only [coversHost, matchesHost, Bool.or_eq_true, beq_iff_eq] at *
        rcases hcovers with rfl | hsub
        · exact hmatch
        · exact isProperSubdomain_trans hmatch hsub

/-- **Coverage is sound**: a covering pattern matches every origin the covered one
does. -/
theorem covers_sound {outer inner : OriginPattern} {origin : Origin}
    (hcovers : outer.covers inner = true) (hmatch : inner.matches_ origin = true) :
    outer.matches_ origin = true := by
  simp only [covers, matches_, Bool.and_eq_true, List.all_eq_true, List.mem_filter, Scheme.mem_all,
    true_and, beq_iff_eq] at *
  obtain ⟨hschemes, hhost⟩ := hcovers
  obtain ⟨⟨hscheme, hport⟩, hhost'⟩ := hmatch
  obtain ⟨hadmits, hsame⟩ := hschemes origin.scheme hscheme
  exact ⟨⟨hadmits, hsame.trans hport⟩, coversHost_sound hhost hhost'⟩

end OriginPattern

/-- A grant's target scope; an empty one admits no target. -/
structure TargetScope where
  patterns : List OriginPattern
  deriving DecidableEq, Repr

namespace TargetScope

def parse (patterns : List Bytes) : Except AuthzError TargetScope := do
  return ⟨← patterns.mapM OriginPattern.parse⟩

def matches_ (scope : TargetScope) (origin : Origin) : Bool :=
  scope.patterns.any fun pattern => pattern.matches_ origin

/-- Whether every pattern of `inner` is covered by some pattern of `scope`. -/
def covers (scope inner : TargetScope) : Bool :=
  inner.patterns.all fun pattern => scope.patterns.any fun outer => outer.covers pattern

theorem covers_sound {outer inner : TargetScope} {origin : Origin}
    (hcovers : outer.covers inner = true) (hmatch : inner.matches_ origin = true) :
    outer.matches_ origin = true := by
  simp only [covers, matches_, List.all_eq_true, List.any_eq_true] at *
  obtain ⟨pattern, hmem, hmatch⟩ := hmatch
  obtain ⟨cover, hmem', hcover⟩ := hcovers pattern hmem
  exact ⟨cover, hmem', OriginPattern.covers_sound hcover hmatch⟩

end TargetScope
end Dioptron
