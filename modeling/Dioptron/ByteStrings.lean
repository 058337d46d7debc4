import Mathlib

/-! # Byte strings with opaque blocks

Hash outputs, keys and salts are fixed-width blocks of bytes of which a program
only ever compares and concatenates whole copies.  A `Str` is a byte string in
which such a block is kept as one symbol, so that an idealised hash function can
be injective and the framing around its outputs is still spelled out byte by
byte.  The module has the fixed-width integer encodings and the fact that
length-prefixed strings can be read back.
-/
namespace Dioptron

abbrev Bytes := List UInt8

/-! ## Fixed-width integers -/

/-- The `width` low bytes of `n`, least significant first. -/
def leBytes : Nat → Nat → Bytes
  | 0, _ => []
  | width + 1, n => UInt8.ofNat (n % 256) :: leBytes width (n / 256)

/-- The `width` low bytes of `n`, most significant first. -/
def beBytes (width n : Nat) : Bytes := (leBytes width n).reverse

@[simp] theorem leBytes_length (width n : Nat) : (leBytes width n).length = width := by
  induction width generalizing n with
  | zero => rfl
  | succ _ ih => simp [leBytes, ih]

@[simp] theorem beBytes_length (width n : Nat) : (beBytes width n).length = width := by
  simp [beBytes]

theorem leBytes_inj {width n m : Nat} (hn : n < 256 ^ width) (hm : m < 256 ^ width)
    (h : leBytes width n = leBytes width m) : n = m := by
  induction width generalizing n m with
  | zero => simp at hn hm; omega
  | succ _ ih =>
    rw [leBytes, leBytes, List.cons.injEq] at h
    have hlow : n % 256 = m % 256 := by
      have := congrArg UInt8.toNat h.1
      simpa using this
    have hhigh : n / 256 = m / 256 := by
      refine ih ?_ ?_ h.2 <;> rw [pow_succ] at hn hm <;> omega
    omega

theorem beBytes_inj {width n m : Nat} (hn : n < 256 ^ width) (hm : m < 256 ^ width)
    (h : beBytes width n = beBytes width m) : n = m :=
  leBytes_inj hn hm (List.reverse_injective h)

/-- Lists of one length compare by their starts first and then by their last
elements. -/
theorem compare_append_singleton {α : Type} [Ord α] {a b : List α} {x y : α}
    (h : a.length = b.length) :
    compare (a ++ [x]) (b ++ [y]) = (compare a b).then (compare x y) := by
  induction a generalizing b with
  | nil =>
    cases b with
    | nil => simp [List.compare_cons_cons, List.compare_nil_nil]
    | cons => simp at h
  | cons c a ih =>
    cases b with
    | nil => simp at h
    | cons =>
      rw [List.cons_append, List.cons_append, List.compare_cons_cons, List.compare_cons_cons,
        ih (by simpa using h), Ordering.then_assoc]

theorem compare_div_mod (n m : Nat) :
    compare n m = (compare (n / 256) (m / 256)).then (compare (n % 256) (m % 256)) := by
  simp only [Nat.compare_eq_ite_lt, Ordering.then]
  split_ifs <;> simp_all <;> omega

/-- Big-endian encodings of one width compare as the numbers do. -/
theorem compare_beBytes {width n m : Nat} (hn : n < 256 ^ width) (hm : m < 256 ^ width) :
    compare (beBytes width n) (beBytes width m) = compare n m := by
  induction width generalizing n m with
  | zero =>
    have hzero : n = m := by simp at hn hm; omega
    rw [hzero, Std.ReflOrd.compare_self, Std.ReflOrd.compare_self]
  | succ width ih =>
    have hbe (k : Nat) : beBytes (width + 1) k =
        beBytes width (k / 256) ++ [UInt8.ofNat (k % 256)] := by
      simp [beBytes, leBytes]
    have hlow (k : Nat) : (UInt8.ofNat (k % 256)).toNat = k % 256 := by simp
    rw [pow_succ] at hn hm
    rw [hbe, hbe, compare_append_singleton (by simp), ih (by omega) (by omega),
      compare_div_mod n m, UInt8.compare_eq_toNat_compare_toNat, hlow, hlow]

/-! ## Strings of bytes and blocks -/

/-- One symbol of a `Str`: a byte, or a whole 32-byte block. -/
inductive Sym (B : Type) where
  | byte (b : UInt8)
  | block (b : B)
  deriving DecidableEq, Repr

abbrev Str (B : Type) := List (Sym B)

variable {B : Type}

namespace Sym

/-- The number of bytes a symbol stands for. -/
def len : Sym B → Nat
  | byte _ => 1
  | block _ => 32

theorem len_pos (x : Sym B) : 0 < x.len := by
  cases x <;> simp [len]

section Order

variable [Ord B]

/-- Bytes compare as bytes and blocks as blocks.  The two are never compared in a
keyspace, where a position holds either always a byte or always a block. -/
instance : Ord (Sym B) where
  compare
    | byte a, byte b => compare a b
    | byte _, block _ => .lt
    | block _, byte _ => .gt
    | block a, block b => compare a b

@[simp] theorem compare_byte_byte (a b : UInt8) :
    compare (byte a : Sym B) (byte b) = compare a b := rfl

@[simp] theorem compare_byte_block (a : UInt8) (b : B) :
    compare (byte a) (block b) = .lt := rfl

@[simp] theorem compare_block_byte (a : B) (b : UInt8) :
    compare (block a) (byte b) = .gt := rfl

@[simp] theorem compare_block_block (a b : B) :
    compare (block a) (block b) = compare a b := rfl

instance [Std.TransOrd B] : Std.TransOrd (Sym B) where
  eq_swap {a b} := by
    cases a <;> cases b <;> simp only [compare_byte_byte, compare_byte_block,
      compare_block_byte, compare_block_block, Ordering.swap_lt, Ordering.swap_gt] <;>
      exact Std.OrientedOrd.eq_swap
  isLE_trans {a b c} := by
    cases a <;> cases b <;> cases c <;> simp only [compare_byte_byte, compare_byte_block,
      compare_block_byte, compare_block_block, Ordering.isLE_lt, Ordering.isLE_gt,
      Bool.false_eq_true, false_implies, implies_true] <;>
      exact Std.TransOrd.isLE_trans

instance [Std.LawfulEqOrd B] : Std.LawfulEqOrd (Sym B) where
  compare_self {a} := by
    cases a <;> simp
  eq_of_compare {a b} := by
    cases a <;> cases b <;> simp

end Order

end Sym

namespace Str

/-- The string of these bytes. -/
def ofBytes (bs : Bytes) : Str B := bs.map .byte

/-- The length in bytes. -/
def len (s : Str B) : Nat := (s.map Sym.len).sum

@[simp] theorem len_nil : len ([] : Str B) = 0 := rfl

@[simp] theorem len_cons (x : Sym B) (s : Str B) : len (x :: s) = x.len + len s := rfl

@[simp] theorem len_append (s t : Str B) : len (s ++ t) = len s + len t := by
  simp [len]

@[simp] theorem len_ofBytes (bs : Bytes) : len (ofBytes bs : Str B) = bs.length := by
  induction bs with
  | nil => rfl
  | cons =>
    simp only [ofBytes, List.map_cons, len_cons, Sym.len, List.length_cons] at *
    omega

@[simp] theorem length_ofBytes (bs : Bytes) : (ofBytes bs : Str B).length = bs.length := by
  simp [ofBytes]

theorem ofBytes_injective : Function.Injective (ofBytes : Bytes → Str B) :=
  List.map_injective_iff.mpr fun _ _ h => Sym.byte.inj h

@[simp] theorem ofBytes_append (a b : Bytes) :
    (ofBytes (a ++ b) : Str B) = ofBytes a ++ ofBytes b := by
  simp [ofBytes]

@[simp] theorem compare_ofBytes [Ord B] (a b : Bytes) :
    compare (ofBytes a : Str B) (ofBytes b) = compare a b := by
  induction a generalizing b with
  | nil => cases b <;> rfl
  | cons x a ih =>
    cases b with
    | nil => rfl
    | cons y b =>
      show compare (Sym.byte x :: (ofBytes a : Str B)) (Sym.byte y :: ofBytes b) = _
      rw [List.compare_cons_cons, List.compare_cons_cons, ih, Sym.compare_byte_byte]

variable {s t x y : Str B}

/-- A string is determined by its start and its length in bytes. -/
theorem append_inj_of_len (hlen : s.len = t.len) (h : s ++ x = t ++ y) : s = t ∧ x = y := by
  induction s generalizing t with
  | nil =>
    cases t with
    | nil => exact ⟨rfl, h⟩
    | cons b => have := b.len_pos; simp only [len_nil, len_cons] at hlen; omega
  | cons a s ih =>
    cases t with
    | nil => have := a.len_pos; simp only [len_nil, len_cons] at hlen; omega
    | cons =>
      simp only [List.cons_append, List.cons.injEq] at h
      obtain ⟨rfl, h⟩ := h
      obtain ⟨rfl, hxy⟩ := ih (by simpa using hlen) h
      exact ⟨rfl, hxy⟩

/-- A string is determined up to the first occurrence of a symbol. -/
theorem append_cons_inj {a : Sym B} (hs : a ∉ s) (ht : a ∉ t) (h : s ++ a :: x = t ++ a :: y) :
    s = t ∧ x = y := by
  induction s generalizing t with
  | nil =>
    cases t with
    | nil => exact ⟨rfl, by simpa using h⟩
    | cons =>
      simp only [List.nil_append, List.cons_append, List.cons.injEq] at h
      exact absurd h.1 (List.ne_of_not_mem_cons ht)
  | cons c s ih =>
    cases t with
    | nil =>
      simp only [List.nil_append, List.cons_append, List.cons.injEq] at h
      exact absurd h.1.symm (List.ne_of_not_mem_cons hs)
    | cons =>
      simp only [List.cons_append, List.cons.injEq] at h
      obtain ⟨rfl, hxy⟩ := ih (List.not_mem_of_not_mem_cons hs)
        (List.not_mem_of_not_mem_cons ht) h.2
      exact ⟨by rw [h.1], hxy⟩

/-- Two byte strings of one length at the start of equal strings are equal. -/
theorem ofBytes_append_inj {a b : Bytes} (hlen : a.length = b.length)
    (h : ofBytes a ++ x = ofBytes b ++ y) : a = b ∧ x = y := by
  obtain ⟨hab, hxy⟩ := append_inj_of_len (by simpa using hlen) h
  exact ⟨ofBytes_injective hab, hxy⟩

/-- `s` behind its own length in `width` little-endian bytes; a length that does
not fit is written as the largest one. -/
def lengthPrefixed (width : Nat) (s : Str B) : Str B :=
  ofBytes (leBytes width (min s.len (256 ^ width - 1))) ++ s

/-- A length-prefixed string in front of anything can be read back, as long as its
length fits the width. -/
theorem lengthPrefixed_append_inj {width : Nat} (hs : s.len < 256 ^ width)
    (ht : t.len < 256 ^ width) (h : lengthPrefixed width s ++ x = lengthPrefixed width t ++ y) :
    s = t ∧ x = y := by
  simp only [lengthPrefixed, List.append_assoc] at h
  obtain ⟨hbytes, hrest⟩ := ofBytes_append_inj (by simp) h
  have hlen := leBytes_inj (by omega) (by omega) hbytes
  exact append_inj_of_len (by omega) hrest

/-- At the end of a string the length prefix adds nothing: the string itself is
read back whatever its length. -/
theorem lengthPrefixed_inj {width : Nat} (h : lengthPrefixed width s = lengthPrefixed width t) :
    s = t :=
  (ofBytes_append_inj (by simp) h).2

end Str
end Dioptron
