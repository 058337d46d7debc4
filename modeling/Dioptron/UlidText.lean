import Dioptron.Texts
import Dioptron.TextViews

/-! # The text form of an identifier

An identifier is written as 26 digits in base 32, most significant first, and read back from
digits of either case.  Twenty-six digits have 130 bits, so the first may be at most 7.
-/
namespace Dioptron

/-- Length of the text form in characters. -/
def ulidLen : Nat := 26

/-- The Crockford alphabet, which omits I, L, O and U. -/
def ulidAlphabet : Bytes := ascii "0123456789ABCDEFGHJKMNPQRSTVWXYZ"

/-- The largest leading digit that keeps a 26-digit value within 128 bits. -/
def maxLeadingDigit : Nat := 7

inductive UlidError
  | length (len : Nat)
  | character (position : Nat)
  | overflow
  deriving DecidableEq

def toAsciiUppercase (b : UInt8) : UInt8 := if 97 ≤ b ∧ b ≤ 122 then b - 32 else b

/-- The symbol of a digit. -/
def ulidSymbol (digit : Nat) : UInt8 := (ulidAlphabet[digit]?).getD 48

/-- The digit of a symbol of either case. -/
def ulidDigit (b : UInt8) : Option Nat := ulidAlphabet.idxOf? (toAsciiUppercase b)

section
variable {kind : IdKind}

/-- Fills slots from the last one on. -/
def writeSlots : Nat → BitVec 128 → Bytes → Bytes
  | 0, _, out => out
  | slots + 1, value, out =>
    writeSlots slots (value >>> 5) (ulidSymbol (value &&& 0x1f#128).toNat :: out)

/-- The uppercase text of an identifier. -/
def writeUlid (id : Ulid kind) : Bytes := writeSlots ulidLen id.bits []

def parseSymbols : Nat → BitVec 128 → Bytes → Except UlidError (BitVec 128)
  | _, value, [] => .ok value
  | position, value, byte :: rest =>
    match ulidDigit byte with
    | none => .error (.character position)
    | some digit => do
      ensure (position ≠ 0 ∨ digit ≤ maxLeadingDigit) .overflow
      parseSymbols (position + 1) (value <<< 5 ||| BitVec.ofNat 128 digit) rest

/-- Reads the text of an identifier, in either case. -/
def parseUlid (text : Bytes) : Except UlidError (Ulid kind) := do
  ensure (text.length = ulidLen) (.length text.length)
  return ⟨← parseSymbols 0 0 text⟩

end

/-! ## Digits -/

/-- The `width` low digits of `n` in base 32, least significant first. -/
def lowDigits : Nat → Nat → List Nat
  | 0, _ => []
  | width + 1, n => n % 32 :: lowDigits width (n / 32)

@[simp] theorem length_lowDigits (width n : Nat) : (lowDigits width n).length = width := by
  induction width generalizing n with
  | zero => rfl
  | succ _ ih => rw [lowDigits, List.length_cons, ih]

theorem lowDigits_lt (width n : Nat) : ∀ d ∈ lowDigits width n, d < 32 := by
  induction width generalizing n with
  | zero => exact nofun
  | succ _ ih =>
    intro d hd
    rcases List.mem_cons.mp hd with rfl | hd
    · exact Nat.mod_lt _ (by norm_num)
    · exact ih _ d hd

theorem ofDigits_lowDigits {width n : Nat} (h : n < 32 ^ width) :
    Nat.ofDigits 32 (lowDigits width n) = n := by
  induction width generalizing n with
  | zero =>
    rw [pow_zero] at h
    rw [lowDigits, Nat.ofDigits_nil]
    omega
  | succ _ ih =>
    rw [pow_succ] at h
    rw [lowDigits, Nat.ofDigits_cons, ih (by omega)]
    exact Nat.mod_add_div n 32

theorem compare_div_mod_32 (n m : Nat) :
    compare n m = (compare (n / 32) (m / 32)).then (compare (n % 32) (m % 32)) := by
  simp only [Nat.compare_eq_ite_lt, Ordering.then]
  split_ifs <;> simp_all <;> omega

/-- Digits of one width, most significant first, compare as the numbers do. -/
theorem compare_lowDigits {width n m : Nat} (hn : n < 32 ^ width) (hm : m < 32 ^ width) :
    compare (lowDigits width n).reverse (lowDigits width m).reverse = compare n m := by
  induction width generalizing n m with
  | zero =>
    have hzero : n = m := by simp at hn hm; omega
    rw [hzero, Std.ReflOrd.compare_self, Std.ReflOrd.compare_self]
  | succ _ ih =>
    rw [pow_succ] at hn hm
    rw [lowDigits, lowDigits, List.reverse_cons, List.reverse_cons,
      compare_append_singleton (by simp), ih (by omega) (by omega), compare_div_mod_32 n m]

/-! ## Writing -/

theorem writeSlots_eq (slots : Nat) (value : BitVec 128) (out : Bytes) :
    writeSlots slots value out =
      (lowDigits slots value.toNat).reverse.map ulidSymbol ++ out := by
  induction slots generalizing value out with
  | zero => rfl
  | succ _ ih =>
    have hlow : (value &&& 0x1f#128).toNat = value.toNat % 32 := by
      rw [BitVec.toNat_and]
      exact Nat.and_two_pow_sub_one_eq_mod _ 5
    have hhigh : (value >>> 5).toNat = value.toNat / 32 := by
      rw [BitVec.toNat_ushiftRight, Nat.shiftRight_eq_div_pow]
    rw [writeSlots, ih, hlow, hhigh, lowDigits, List.reverse_cons, List.map_append,
      List.append_assoc]
    rfl

theorem writeUlid_eq {kind : IdKind} (id : Ulid kind) :
    writeUlid id = (lowDigits 26 id.bits.toNat).reverse.map ulidSymbol := by
  rw [writeUlid, writeSlots_eq, List.append_nil]
  rfl

theorem bits_lt {kind : IdKind} (id : Ulid kind) : id.bits.toNat < 32 ^ 26 :=
  id.bits.isLt.trans (by norm_num)

/-! ## Reading -/

/-- The digits of the bytes, checked byte by byte. -/
theorem ulidDigit_spec : ∀ b : UInt8,
    (∀ d ∈ ulidDigit b, d < 32 ∧ toAsciiUppercase b = ulidSymbol d) ∧
      (128 ≤ b → ulidDigit b = none) :=
  forall_byte (by decide +kernel)

/-- The symbols of the digits, checked digit by digit. -/
theorem ulidSymbol_spec : ∀ d : Fin 32, ulidAlphabet.idxOf? (ulidSymbol d) = some d.val ∧
    toAsciiUppercase (ulidSymbol d) = ulidSymbol d ∧
    ∀ e : Fin 32, compare (ulidSymbol d) (ulidSymbol e) = compare d.val e.val := by
  decide +kernel

/-- A symbol and its digit. -/
theorem ulidDigit_eq_some {b : UInt8} {d : Nat} :
    ulidDigit b = some d ↔ d < 32 ∧ toAsciiUppercase b = ulidSymbol d := by
  constructor
  · intro h
    exact (ulidDigit_spec b).1 d h
  · rintro ⟨hlt, hsymbol⟩
    rw [ulidDigit, hsymbol]
    exact (ulidSymbol_spec ⟨d, hlt⟩).1

theorem ulidDigit_symbol {d : Nat} (h : d < 32) : ulidDigit (ulidSymbol d) = some d :=
  ulidDigit_eq_some.mpr ⟨h, (ulidSymbol_spec ⟨d, h⟩).2.1⟩

/-- Appends a digit to a value. -/
def pushDigit (value : BitVec 128) (digit : Nat) : BitVec 128 :=
  value <<< 5 ||| BitVec.ofNat 128 digit

variable {value : BitVec 128} {text : List Char} {ds : List Nat} {c : Char}

/-- **What the loop accepts**: digits only, the first of the whole text at most 7. -/
theorem parseSymbols_eq_ok {position : Nat} {v : BitVec 128} {text : Bytes} :
    parseSymbols position value text = .ok v ↔ ∃ ds : List Nat, text.map ulidDigit = ds.map some ∧
      (position = 0 → ∀ d ∈ ds.head?, d ≤ maxLeadingDigit) ∧ v = ds.foldl pushDigit value := by
  induction text generalizing position value with
  | nil =>
    rw [parseSymbols]
    constructor
    · rintro h
      cases h
      exact ⟨[], rfl, fun _ => nofun, rfl⟩
    · rintro ⟨ds, hds, -, rfl⟩
      obtain rfl : ds = [] := List.map_eq_nil_iff.mp hds.symm
      rfl
  | cons b _ ih =>
    rw [parseSymbols, List.map_cons]
    cases hb : ulidDigit b with
    | none =>
      refine iff_of_false nofun ?_
      rintro ⟨ds, hds, -⟩
      cases ds with
      | nil => cases hds
      | cons => cases (List.cons.inj hds).1
    | some d =>
      dsimp only
      rw [bind_eq_ok]
      constructor
      · rintro ⟨u, hfirst, hrest⟩
        obtain ⟨ds, hds, -, rfl⟩ := ih.mp hrest
        refine ⟨d :: ds, by rw [List.map_cons, hds], fun hzero => ?_, rfl⟩
        rintro d' hd'
        cases hd'
        exact (ensure_eq_ok.mp hfirst).resolve_left (not_not_intro hzero)
      · rintro ⟨ds, hds, hfirst, rfl⟩
        cases ds with
        | nil => cases hds
        | cons _ ds =>
          obtain ⟨hd, hrest⟩ := List.cons.inj hds
          cases hd
          refine ⟨(), ensure_eq_ok.mpr ?_, ih.mpr ⟨ds, hrest, nofun, rfl⟩⟩
          exact (Decidable.em (position = 0)).symm.imp_right fun hzero => hfirst hzero d rfl

/-- A digit that is appended without a carry out of the word. -/
theorem toNat_pushDigit {digit : Nat} (hv : value.toNat < 2 ^ 123) (hd : digit < 32) :
    (pushDigit value digit).toNat = value.toNat * 32 + digit := by
  have hshift : (value <<< 5).toNat = value.toNat <<< 5 := by
    rw [BitVec.toNat_shiftLeft, Nat.mod_eq_of_lt]
    rw [Nat.shiftLeft_eq]
    omega
  have hdigit : (BitVec.ofNat 128 digit).toNat = digit := by
    rw [BitVec.toNat_ofNat, Nat.mod_eq_of_lt (by omega)]
  rw [pushDigit, BitVec.toNat_or, hshift, hdigit, ← Nat.shiftLeft_add_eq_or_of_lt (by omega),
    Nat.shiftLeft_eq]

/-- Digits that fit are the digits of the value. -/
theorem toNat_foldl_pushDigit (hds : ∀ d ∈ ds, d < 32)
    (hfits : (value.toNat + 1) * 32 ^ ds.length ≤ 2 ^ 128) :
    (ds.foldl pushDigit value).toNat =
      value.toNat * 32 ^ ds.length + Nat.ofDigits 32 ds.reverse := by
  induction ds generalizing value with
  | nil => simp
  | cons d ds ih =>
    have hd : d < 32 := hds d List.mem_cons_self
    have hpos : 1 ≤ 32 ^ ds.length := Nat.one_le_pow _ _ (by norm_num)
    rw [List.length_cons, pow_succ] at hfits
    have hv : value.toNat < 2 ^ 123 := by nlinarith
    have hpush := toNat_pushDigit hv hd
    have hnext : ((pushDigit value d).toNat + 1) * 32 ^ ds.length ≤ 2 ^ 128 := by
      rw [hpush]
      nlinarith
    rw [List.foldl_cons, ih (fun d' hd' => hds d' (List.mem_cons_of_mem _ hd')) hnext, hpush,
      List.reverse_cons, Nat.ofDigits_append, Nat.ofDigits_singleton, List.length_reverse,
      List.length_cons, pow_succ]
    ring

/-- Twenty-six digits, the first at most 7, are a value of 128 bits. -/
theorem toNat_ulid (hlen : ds.length = 26) (hds : ∀ d ∈ ds, d < 32)
    (hfirst : ∀ d ∈ ds.head?, d ≤ maxLeadingDigit) :
    (ds.foldl pushDigit 0).toNat = Nat.ofDigits 32 ds.reverse := by
  cases ds with
  | nil => cases hlen
  | cons d ds =>
    have hd : d ≤ 7 := hfirst d rfl
    have hlen' : ds.length = 25 := Nat.succ.inj hlen
    have hpush : (pushDigit 0 d).toNat = d := by
      have hzero : (0 : BitVec 128).toNat < 2 ^ 123 := by decide
      rw [toNat_pushDigit hzero (by omega)]
      exact (congrArg (· + d) (Nat.zero_mul 32)).trans (Nat.zero_add d)
    rw [List.foldl_cons, toNat_foldl_pushDigit (fun d' hd' => hds d' (List.mem_cons_of_mem _ hd')),
      hpush, List.reverse_cons, Nat.ofDigits_append, Nat.ofDigits_singleton, List.length_reverse]
    · ring
    · rw [hpush, hlen']
      omega

/-- **What is read**: twenty-six digits, the first at most 7, and the number they are. -/
theorem parseUlid_eq_ok {kind : IdKind} {text : Bytes} {id : Ulid kind} :
    parseUlid text = .ok id ↔ ∃ ds : List Nat, text.map ulidDigit = ds.map some ∧
      ds.length = 26 ∧ (∀ d ∈ ds.head?, d ≤ maxLeadingDigit) ∧
      id.bits.toNat = Nat.ofDigits 32 ds.reverse := by
  have hsmall {ds : List Nat} (hds : text.map ulidDigit = ds.map some) : ∀ d ∈ ds, d < 32 := by
    intro d hd
    have hmem : some d ∈ text.map ulidDigit := by
      rw [hds]
      exact List.mem_map_of_mem hd
    obtain ⟨b, -, hb⟩ := List.mem_map.mp hmem
    exact (ulidDigit_eq_some.mp hb).1
  have hlength {ds : List Nat} (hds : text.map ulidDigit = ds.map some) :
      text.length = ds.length := by
    simpa using congrArg List.length hds
  rw [parseUlid, bind_eq_ok]
  constructor
  · rintro ⟨u, hlen, hparse⟩
    obtain ⟨v, hv, hid⟩ := bind_eq_ok.mp hparse
    obtain ⟨ds, hds, hfirst, rfl⟩ := parseSymbols_eq_ok.mp hv
    cases hid
    have hlen : ds.length = 26 := (hlength hds).symm.trans (ensure_eq_ok.mp hlen)
    exact ⟨ds, hds, hlen, hfirst rfl, toNat_ulid hlen (hsmall hds) (hfirst rfl)⟩
  · rintro ⟨ds, hds, hlen, hfirst, hid⟩
    refine ⟨(), ensure_eq_ok.mpr ((hlength hds).trans hlen), bind_eq_ok.mpr
      ⟨id.bits, parseSymbols_eq_ok.mpr ⟨ds, hds, fun _ => hfirst, ?_⟩, rfl⟩⟩
    exact BitVec.eq_of_toNat_eq (hid.trans (toNat_ulid hlen (hsmall hds) hfirst).symm)

/-- Reading what was written. -/
theorem parseUlid_writeUlid {kind : IdKind} (id : Ulid kind) :
    parseUlid (writeUlid id) = .ok id := by
  refine parseUlid_eq_ok.mpr ⟨(lowDigits 26 id.bits.toNat).reverse, ?_, by simp, ?_, ?_⟩
  · rw [writeUlid_eq, List.map_map]
    refine List.map_congr_left fun d hd => ?_
    exact ulidDigit_symbol (lowDigits_lt _ _ d (List.mem_reverse.mp hd))
  · -- The first digit is the quotient by the twenty-five others.
    intro d hd
    have hlast : (lowDigits 26 id.bits.toNat).getLast? = some (id.bits.toNat / 32 ^ 25 % 32) := by
      simp only [lowDigits, Nat.div_div_eq_div_mul]
      norm_num
    rw [List.head?_reverse, hlast] at hd
    cases hd
    have hlt := id.bits.isLt
    show _ ≤ 7
    omega
  · rw [List.reverse_reverse]
    exact (ofDigits_lowDigits (bits_lt id)).symm

/-! ## Characters -/

/-- The characters of the alphabet. -/
def ulidCharacters : List Char := "0123456789ABCDEFGHJKMNPQRSTVWXYZ".toList

/-- Twenty-six characters of the alphabet of either case, the first at most `7`. -/
structure IsUlidText (text : List Char) : Prop where
  length : text.length = 26
  characters : ∀ c ∈ text, c.toUpper ∈ ulidCharacters
  first : ∀ c ∈ text.head?, c ≤ '7'

/-- The digit of a character. -/
def charDigit (c : Char) : Option Nat :=
  if c.toNat < 128 then ulidDigit (UInt8.ofNat c.toNat) else none

theorem utf8EncodeChar_ascii (h : c.toNat < 128) :
    String.utf8EncodeChar c = [UInt8.ofNat c.toNat] := by
  unfold String.utf8EncodeChar
  exact if_pos (Nat.le_of_lt_succ h)

/-- No byte of another character is ASCII. -/
theorem utf8EncodeChar_ge (h : 128 ≤ c.toNat) : ∀ b ∈ String.utf8EncodeChar c, 128 ≤ b := by
  have hbyte {n : Nat} (hlow : 128 ≤ n) (hhigh : n < 256) : 128 ≤ UInt8.ofNat n := by
    rw [UInt8.le_iff_toNat_le, UInt8.toNat_ofNat_of_lt' hhigh]
    exact hlow
  unfold String.utf8EncodeChar
  dsimp only
  have hc : c.val.toNat = c.toNat := rfl
  split_ifs with h₁
  · omega
  all_goals
    simp only [List.mem_cons, List.not_mem_nil, or_false, forall_eq_or_imp, forall_eq]
    repeat first
      | exact hbyte (by omega) (by omega)
      | refine ⟨hbyte (by omega) (by omega), ?_⟩

theorem charDigit_of_ge (h : 128 ≤ c.toNat) : charDigit c = none :=
  if_neg (Nat.not_lt.mpr h)

/-- Only ASCII characters are spelled with digits. -/
theorem map_ulidDigit_utf8 :
    (utf8 text).map ulidDigit = ds.map some ↔ text.map charDigit = ds.map some := by
  induction text generalizing ds with
  | nil => rfl
  | cons c _ ih =>
    rw [utf8_cons, List.map_append, List.map_cons]
    by_cases hc : c.toNat < 128
    · rw [utf8EncodeChar_ascii hc, charDigit, if_pos hc]
      cases ds with
      | nil => exact iff_of_false nofun nofun
      | cons =>
        rw [List.map_cons, List.map_nil, List.singleton_append, List.map_cons, List.cons.injEq,
          List.cons.injEq, ih]
    · have hge := Nat.not_lt.mp hc
      rw [charDigit_of_ge hge]
      refine iff_of_false (fun heq => ?_) fun heq => ?_
      · obtain ⟨b, rest, hb, -⟩ := utf8EncodeChar_bytes c
        have hb128 := utf8EncodeChar_ge hge b (by rw [hb]; exact List.mem_cons_self)
        rw [hb, List.map_cons, (ulidDigit_spec b).2 hb128] at heq
        cases ds with
        | nil => cases heq
        | cons => cases (List.cons.inj heq).1
      · cases ds with
        | nil => cases heq
        | cons => cases (List.cons.inj heq).1

/-- What holds of the ASCII characters by enumeration. -/
theorem forall_ascii {P : Char → Prop} (h : ∀ n : Fin 128, P (Char.ofNat n)) (hc : c.toNat < 128) :
    P c := by
  have hn := h ⟨c.toNat, hc⟩
  rwa [Char.ofNat_toNat] at hn

theorem toUpper_of_ge (h : 128 ≤ c.toNat) : c.toUpper = c := by
  unfold Char.toUpper
  refine dif_neg fun hlower => ?_
  have hle : c.val.toNat ≤ 122 := UInt32.le_iff_toNat_le.mp hlower.2
  have hc : c.val.toNat = c.toNat := rfl
  omega

/-- The digits of the ASCII characters, checked one by one. -/
theorem charDigit_spec (hc : c.toNat < 128) : charDigit c.toUpper = charDigit c ∧
    ∀ d ∈ charDigit c, ulidCharacters[d]? = some c.toUpper ∧ (d ≤ maxLeadingDigit ↔ c ≤ '7') :=
  forall_ascii (P := fun c => charDigit c.toUpper = charDigit c ∧
    ∀ d ∈ charDigit c, ulidCharacters[d]? = some c.toUpper ∧ (d ≤ maxLeadingDigit ↔ c ≤ '7'))
    (by decide +kernel) hc

theorem charDigit_toUpper (c : Char) : charDigit c.toUpper = charDigit c := by
  by_cases hc : c.toNat < 128
  · exact (charDigit_spec hc).1
  · rw [toUpper_of_ge (Nat.not_lt.mp hc)]

/-- A character and its digit. -/
theorem charDigit_eq_some {d : Nat} :
    charDigit c = some d ↔ ulidCharacters[d]? = some c.toUpper := by
  have hindex : ∀ d < 32, (ulidCharacters[d]?).bind charDigit = some d := by decide +kernel
  have hupper (h : ulidCharacters[d]? = some c.toUpper) : charDigit c.toUpper = some d := by
    have hd := hindex d (List.getElem?_eq_some_iff.mp h).1
    rwa [h] at hd
  by_cases hc : c.toNat < 128
  · constructor
    · exact fun h => ((charDigit_spec hc).2 d h).1
    · exact fun h => (charDigit_toUpper c).symm.trans (hupper h)
  · have hge := Nat.not_lt.mp hc
    rw [charDigit_of_ge hge]
    refine iff_of_false nofun fun h => ?_
    have hd := hupper h
    rw [toUpper_of_ge hge, charDigit_of_ge hge] at hd
    cases hd

theorem digits_lt (h : text.map charDigit = ds.map some) : ∀ d ∈ ds, d < 32 := by
  intro d hd
  have hmem := List.mem_map_of_mem (f := some) hd
  rw [← h] at hmem
  obtain ⟨c, -, hc⟩ := List.mem_map.mp hmem
  exact (List.getElem?_eq_some_iff.mp (charDigit_eq_some.mp hc)).1

/-- The leading digits are the leading characters. -/
theorem charDigit_le {d : Nat} (h : charDigit c = some d) : d ≤ maxLeadingDigit ↔ c ≤ '7' := by
  by_cases hc : c.toNat < 128
  · exact ((charDigit_spec hc).2 d h).2
  · rw [charDigit_of_ge (Nat.not_lt.mp hc)] at h
    cases h

/-- **What is accepted.** -/
theorem isUlidText_iff : IsUlidText text ↔ ∃ ds : List Nat,
    text.map charDigit = ds.map some ∧ ds.length = 26 ∧ ∀ d ∈ ds.head?, d ≤ maxLeadingDigit := by
  constructor
  · rintro ⟨hlen, hchars, hfirst⟩
    have hdigits : ∀ c ∈ text, ∃ d, charDigit c = some d := by
      intro c hc
      obtain ⟨d, hd⟩ := List.mem_iff_getElem?.mp (hchars c hc)
      exact ⟨d, charDigit_eq_some.mpr hd⟩
    have hsome : text.map charDigit = (text.map fun c => (charDigit c).getD 0).map some := by
      rw [List.map_map]
      refine List.map_congr_left fun c hc => ?_
      obtain ⟨d, hd⟩ := hdigits c hc
      rw [Function.comp_apply, hd]
      rfl
    refine ⟨_, hsome, by rw [List.length_map, hlen], fun d hd => ?_⟩
    rw [List.head?_map] at hd
    obtain ⟨c, hc, rfl⟩ := Option.map_eq_some_iff.mp hd
    obtain ⟨d, hd⟩ := hdigits c (List.mem_of_mem_head? hc)
    rw [hd]
    exact (charDigit_le hd).mpr (hfirst c hc)
  · rintro ⟨ds, hds, hlen, hfirst⟩
    have hlength : text.length = ds.length := by simpa using congrArg List.length hds
    refine ⟨hlength.trans hlen, fun c hc => ?_, fun c hc => ?_⟩
    · have hmem := List.mem_map_of_mem (f := charDigit) hc
      rw [hds] at hmem
      obtain ⟨d, -, hd⟩ := List.mem_map.mp hmem
      exact List.mem_of_getElem? (charDigit_eq_some.mp hd.symm)
    · have hhead := congrArg List.head? hds
      rw [List.head?_map, List.head?_map, hc] at hhead
      obtain ⟨d, hd, hcd⟩ := Option.map_eq_some_iff.mp hhead.symm
      exact (charDigit_le hcd.symm).mp (hfirst d hd)

/-- Spellings of one number differ only in case. -/
theorem map_toUpper_eq_iff {a b : List Char} {es : List Nat} (ha : a.map charDigit = ds.map some)
    (hb : b.map charDigit = es.map some) : a.map Char.toUpper = b.map Char.toUpper ↔ ds = es := by
  have hchars {text : List Char} {ds : List Nat} (h : text.map charDigit = ds.map some) :
      ds.map (ulidCharacters[·]?) = (text.map Char.toUpper).map some := by
    induction text generalizing ds with
    | nil =>
      obtain rfl : ds = [] := List.map_eq_nil_iff.mp h.symm
      rfl
    | cons _ _ ih =>
      cases ds with
      | nil => cases h
      | cons =>
        obtain ⟨hd, hrest⟩ := List.cons.inj h
        rw [List.map_cons, List.map_cons, List.map_cons, ih hrest, charDigit_eq_some.mp hd]
  constructor
  · intro h
    have hdigits (text : List Char) :
        (text.map Char.toUpper).map charDigit = text.map charDigit := by
      rw [List.map_map]
      exact List.map_congr_left fun c _ => charDigit_toUpper c
    refine List.map_injective_iff.mpr (Option.some_injective _) (ha.symm.trans ?_)
    rw [← hb, ← hdigits a, h, hdigits b]
  · rintro rfl
    have heq := (hchars ha).symm.trans (hchars hb)
    exact List.map_injective_iff.mpr (Option.some_injective _) heq

/-! ## The text form -/

/-- Symbols compare as their digits do. -/
theorem compare_map_ulidSymbol {es : List Nat} (hds : ∀ d ∈ ds, d < 32) (hes : ∀ d ∈ es, d < 32) :
    compare (ds.map ulidSymbol) (es.map ulidSymbol) = compare ds es := by
  induction ds generalizing es with
  | nil => cases es <;> rfl
  | cons d _ ih =>
    cases es with
    | nil => rfl
    | cons e =>
      rw [List.map_cons, List.map_cons, List.compare_cons_cons, List.compare_cons_cons,
        ih (fun d' hd' => hds d' (List.mem_cons_of_mem _ hd'))
          fun e' he' => hes e' (List.mem_cons_of_mem _ he'),
        (ulidSymbol_spec ⟨d, hds d List.mem_cons_self⟩).2.2 ⟨e, hes e List.mem_cons_self⟩]

/-- Written identifiers compare as their bytes do. -/
theorem compare_writeUlid {kind : IdKind} (a b : Ulid kind) :
    compare (writeUlid a) (writeUlid b) = compare a.toBytes b.toBytes := by
  have hbytes (x : Ulid kind) : x.bits.toNat < 256 ^ 16 := x.bits.isLt.trans_eq (by norm_num)
  have hsmall (x : Ulid kind) : ∀ d ∈ (lowDigits 26 x.bits.toNat).reverse, d < 32 :=
    fun d hd => lowDigits_lt _ _ d (List.mem_reverse.mp hd)
  rw [writeUlid_eq, writeUlid_eq, compare_map_ulidSymbol (hsmall a) (hsmall b),
    compare_lowDigits (bits_lt a) (bits_lt b), Ulid.toBytes, Ulid.toBytes,
    compare_beBytes (hbytes a) (hbytes b)]

/-- **The text of an identifier is a bijection up to case.**  Reading what was written gives
the identifier back; a text is read exactly if it has twenty-six characters of the alphabet
in either case, the first at most `7`; two texts are read as one identifier exactly if they
are such texts and differ at most in case; and written identifiers are ordered as their
bytes are. -/
theorem ulid_text_bijective {kind : IdKind} :
    (∀ id : Ulid kind, parseUlid (writeUlid id) = .ok id) ∧
    (∀ text : List Char, (∃ id : Ulid kind, parseUlid (utf8 text) = .ok id) ↔ IsUlidText text) ∧
    (∀ a b : List Char, (∃ id : Ulid kind, parseUlid (utf8 a) = .ok id ∧
        parseUlid (utf8 b) = .ok id) ↔
      IsUlidText a ∧ IsUlidText b ∧ a.map Char.toUpper = b.map Char.toUpper) ∧
    ∀ a b : Ulid kind, compare (writeUlid a) (writeUlid b) = compare a.toBytes b.toBytes := by
  have haccept {text : List Char} {ds : List Nat} (hds : text.map charDigit = ds.map some)
      (hlen : ds.length = 26) (hfirst : ∀ d ∈ ds.head?, d ≤ maxLeadingDigit) :
      parseUlid (utf8 text) = .ok (⟨ds.foldl pushDigit 0⟩ : Ulid kind) := by
    refine parseUlid_eq_ok.mpr ⟨ds, map_ulidDigit_utf8.mpr hds, hlen, hfirst,
      toNat_ulid hlen (digits_lt hds) hfirst⟩
  refine ⟨parseUlid_writeUlid, fun text => ⟨?_, ?_⟩, fun a b => ⟨?_, ?_⟩, compare_writeUlid⟩
  · rintro ⟨id, hid⟩
    obtain ⟨ds, hds, hlen, hfirst, -⟩ := parseUlid_eq_ok.mp hid
    exact isUlidText_iff.mpr ⟨ds, map_ulidDigit_utf8.mp hds, hlen, hfirst⟩
  · intro h
    obtain ⟨ds, hds, hlen, hfirst⟩ := isUlidText_iff.mp h
    exact ⟨_, haccept hds hlen hfirst⟩
  · rintro ⟨id, ha, hb⟩
    obtain ⟨ds, hds, hlen, hfirst, hid⟩ := parseUlid_eq_ok.mp ha
    obtain ⟨es, hes, hlen', hfirst', hid'⟩ := parseUlid_eq_ok.mp hb
    rw [map_ulidDigit_utf8] at hds hes
    refine ⟨isUlidText_iff.mpr ⟨ds, hds, hlen, hfirst⟩, isUlidText_iff.mpr
      ⟨es, hes, hlen', hfirst'⟩, (map_toUpper_eq_iff hds hes).mpr ?_⟩
    refine List.reverse_injective (Nat.ofDigits_inj_of_len_eq (b := 32) (by norm_num) ?_
      (fun d hd => digits_lt hds d (List.mem_reverse.mp hd))
      (fun d hd => digits_lt hes d (List.mem_reverse.mp hd)) (hid.symm.trans hid'))
    rw [List.length_reverse, List.length_reverse, hlen, hlen']
  · rintro ⟨ha, hb, hcase⟩
    obtain ⟨ds, hds, hlen, hfirst⟩ := isUlidText_iff.mp ha
    obtain ⟨es, hes, hlen', hfirst'⟩ := isUlidText_iff.mp hb
    obtain rfl := (map_toUpper_eq_iff hds hes).mp hcase
    exact ⟨_, haccept hds hlen hfirst, haccept hes hlen' hfirst'⟩

end Dioptron
