import Mathlib.Data.Nat.Digits.Lemmas
import Dioptron.Origins

/-! # Texts

Byte classes and case, the first separator of a text, the pieces between separators, and
decimal numerals.
-/
namespace Dioptron

/-! ## Bytes -/

/-- What holds of the 256 bytes holds of every byte. -/
theorem forall_byte {P : UInt8 → Prop} (h : ∀ n : Fin 256, P (UInt8.ofNat n)) (b : UInt8) :
    P b := by
  simpa using h ⟨b.toNat, b.toNat_lt⟩

/-- What the lower case of a byte keeps of it, checked byte by byte. -/
theorem toLower_spec : ∀ b,
    (isGraphic (toLower b) = isGraphic b ∧ isDigit (toLower b) = isDigit b ∧
      isHexDigit (toLower b) = isHexDigit b ∧ isAlphanumeric (toLower b) = isAlphanumeric b ∧
      endsAuthority (toLower b) = endsAuthority b ∧ toLower (toLower b) = toLower b) ∧
    (isAlphanumeric b = false → toLower b = b) ∧
    (isDigit b = true → toLower b = b ∧ isAlphanumeric b = true) :=
  forall_byte (by decide +kernel)

@[simp] theorem isGraphic_toLower (b : UInt8) : isGraphic (toLower b) = isGraphic b :=
  (toLower_spec b).1.1

@[simp] theorem isDigit_toLower (b : UInt8) : isDigit (toLower b) = isDigit b :=
  (toLower_spec b).1.2.1

@[simp] theorem isHexDigit_toLower (b : UInt8) : isHexDigit (toLower b) = isHexDigit b :=
  (toLower_spec b).1.2.2.1

@[simp] theorem isAlphanumeric_toLower (b : UInt8) :
    isAlphanumeric (toLower b) = isAlphanumeric b :=
  (toLower_spec b).1.2.2.2.1

@[simp] theorem endsAuthority_toLower (b : UInt8) : endsAuthority (toLower b) = endsAuthority b :=
  (toLower_spec b).1.2.2.2.2.1

@[simp] theorem toLower_toLower (b : UInt8) : toLower (toLower b) = toLower b :=
  (toLower_spec b).1.2.2.2.2.2

theorem toLower_of_not_alphanumeric (b : UInt8) (h : isAlphanumeric b = false) : toLower b = b :=
  (toLower_spec b).2.1 h

theorem toLower_of_isDigit (b : UInt8) (h : isDigit b = true) : toLower b = b :=
  ((toLower_spec b).2.2 h).1

theorem isAlphanumeric_of_isDigit (b : UInt8) (h : isDigit b = true) : isAlphanumeric b = true :=
  ((toLower_spec b).2.2 h).2

/-- The classes of a byte and the bytes a case change can give, checked byte by byte. -/
theorem byte_spec : ∀ b,
    (isAlphanumeric b = true → isGraphic b = true ∧ endsAuthority b = false) ∧
    (toLower b = byte '0' → b = byte '0') ∧
    (toLower b = byte 'x' ∨ toLower b = byte 'X' → b = byte 'x' ∨ b = byte 'X') ∧
    (isLower b = true →
      isAlphanumeric b = true ∧ isDigit b = false ∧ toLower b = b ∧ b ≠ byte '-') :=
  forall_byte (by decide +kernel)

/-- Changing case neither makes nor removes a separator. -/
theorem toLower_eq_iff {b c : UInt8} (hc : isAlphanumeric c = false) : toLower b = c ↔ b = c := by
  constructor
  · intro h
    have hb : isAlphanumeric b = false := by rw [← isAlphanumeric_toLower, h, hc]
    rw [← toLower_of_not_alphanumeric b hb, h]
  · rintro rfl
    exact toLower_of_not_alphanumeric b hc

/-- A digit and its value. -/
theorem isDigit_iff {b : UInt8} : isDigit b = true ↔ 48 ≤ b.toNat ∧ b.toNat ≤ 57 := by
  simp [isDigit, byte, UInt8.le_iff_toNat_le]

theorem isDigit_ofNat {d : ℕ} (h : d < 10) : isDigit (UInt8.ofNat (48 + d)) = true := by
  rw [isDigit_iff, UInt8.toNat_ofNat']
  omega

/-! ## The first separator -/

variable {front back : Bytes} {x : UInt8}

theorem splitOnce_eq_some {sep s : Bytes} (h : splitOnce sep s = some (front, back)) :
    s = front ++ sep ++ back := by
  induction s generalizing front with
  | nil => cases h
  | cons _ _ ih =>
    rw [splitOnce] at h
    split_ifs at h with hsep
    · cases h
      obtain ⟨tail, htail⟩ := List.isPrefixOf_iff_prefix.mp hsep
      rw [← htail, List.nil_append, List.drop_left]
    · obtain ⟨⟨front', back'⟩, hrest, heq⟩ := Option.map_eq_some_iff.mp h
      cases heq
      rw [ih hrest]
      rfl

/-- A text whose front does not hold the separator's first byte is cut right behind it. -/
theorem splitOnce_append {sep : Bytes} (hfront : x ∉ front) :
    splitOnce (x :: sep) (front ++ (x :: sep) ++ back) = some (front, back) := by
  induction front with
  | nil =>
    rw [List.nil_append, List.cons_append, splitOnce, if_pos]
    · simp
    · exact List.isPrefixOf_iff_prefix.mpr ⟨back, rfl⟩
  | cons _ _ ih =>
    rw [List.mem_cons, not_or] at hfront
    obtain ⟨hb, hfront⟩ := hfront
    rw [List.cons_append, List.cons_append, splitOnce, if_neg, ih hfront]
    · rfl
    · simp [hb]

theorem splitOnce_singleton {s : Bytes} :
    splitOnce [x] s = some (front, back) ↔ s = front ++ x :: back ∧ x ∉ front := by
  constructor
  · intro h
    refine ⟨by rw [splitOnce_eq_some h, List.append_assoc]; rfl, ?_⟩
    induction s generalizing front with
    | nil => cases h
    | cons _ _ ih =>
      rw [splitOnce] at h
      split_ifs at h with hsep
      · cases h
        exact List.not_mem_nil
      · obtain ⟨⟨front', back'⟩, hrest, heq⟩ := Option.map_eq_some_iff.mp h
        cases heq
        rw [List.mem_cons, not_or]
        refine ⟨?_, ih hrest⟩
        rintro rfl
        simp at hsep
  · rintro ⟨rfl, hfront⟩
    have h : splitOnce [x] (front ++ [x] ++ back) = some (front, back) := splitOnce_append hfront
    rwa [List.append_assoc] at h

theorem splitOnce_singleton_eq_none {s : Bytes} : splitOnce [x] s = none ↔ x ∉ s := by
  induction s with
  | nil => simp [splitOnce]
  | cons b _ ih =>
    rw [splitOnce, List.mem_cons, not_or, ← ih]
    by_cases hb : x = b
    · simp [hb]
    · simp [hb]

/-- Changing case moves no separator. -/
theorem splitOnce_map_toLower {sep : Bytes} (hsep : ∀ b ∈ sep, isAlphanumeric b = false)
    (s : Bytes) : splitOnce sep (s.map toLower) =
      (splitOnce sep s).map fun (front, back) => (front.map toLower, back.map toLower) := by
  have hstart (t : Bytes) : sep.isPrefixOf (t.map toLower) = sep.isPrefixOf t := by
    induction sep generalizing t with
    | nil => rfl
    | cons _ _ ih =>
      obtain ⟨hx, hsep⟩ := List.forall_mem_cons.mp hsep
      cases t with
      | nil => rfl
      | cons =>
        rw [List.map_cons, List.isPrefixOf_cons_cons, List.isPrefixOf_cons_cons, ih hsep]
        congr 1
        rw [Bool.eq_iff_iff, beq_iff_eq, beq_iff_eq, eq_comm, toLower_eq_iff hx, eq_comm]
  induction s with
  | nil => rfl
  | cons b rest ih =>
    have h := hstart (b :: rest)
    rw [List.map_cons] at h
    rw [List.map_cons, splitOnce, splitOnce, h, ih]
    split_ifs
    · simp
    · cases splitOnce sep rest <;> rfl

/-! ## Pieces -/

theorem splitOn_ne_nil (x : UInt8) (s : Bytes) : s.splitOn x ≠ [] :=
  List.splitOnP_ne_nil _ _

/-- Changing case keeps the pieces, each in its new case. -/
theorem splitOn_map_toLower (hx : isAlphanumeric x = false) (s : Bytes) :
    (s.map toLower).splitOn x = (s.splitOn x).map (List.map toLower) := by
  induction s with
  | nil => rfl
  | cons b rest ih =>
    rw [List.splitOn, List.splitOn] at ih ⊢
    rw [List.map_cons, List.splitOnP_cons_eq_if_modifyHead, List.splitOnP_cons_eq_if_modifyHead, ih]
    have hb : (toLower b == x) = (b == x) := by
      rw [Bool.eq_iff_iff, beq_iff_eq, beq_iff_eq, toLower_eq_iff hx]
    rw [hb]
    split_ifs
    · rfl
    · cases List.splitOnP (fun y => y == x) rest <;> rfl

/-! ## Decimal numerals -/

/-- The number a string of digits stands for. -/
def decimalValue (digits : Bytes) : ℕ :=
  digits.foldl (fun acc b => acc * 10 + (b.toNat - 48)) 0

/-- A number in decimal, as it is displayed. -/
def decimal (n : ℕ) : Bytes :=
  if n = 0 then [byte '0'] else (Nat.digits 10 n).reverse.map fun d => UInt8.ofNat (48 + d)

/-- Decimal digits without a needless zero in front. -/
structure IsNumeral (text : Bytes) : Prop where
  ne_nil : text ≠ []
  digits : ∀ b ∈ text, isDigit b = true
  canonical : text = [byte '0'] ∨ text.head? ≠ some (byte '0')

theorem decimalValue_eq_ofDigits (digits : Bytes) :
    decimalValue digits = Nat.ofDigits 10 (digits.reverse.map fun b => b.toNat - 48) := by
  rw [decimalValue, Nat.ofDigits_eq_foldr, List.map_reverse, List.foldr_reverse, List.foldl_map]
  simp only [Nat.cast_id, Nat.add_comm, Nat.mul_comm]

/-- The checked fold is the value, where the value is within the limit. -/
theorem parseDecimal_eq (limit : ℕ) (digits : Bytes) :
    parseDecimal limit digits =
      if decimalValue digits ≤ limit then some (decimalValue digits) else none := by
  have hgrows (acc : ℕ) (rest : Bytes) :
      acc ≤ rest.foldl (fun acc b => acc * 10 + (b.toNat - 48)) acc := by
    induction rest generalizing acc with
    | nil => exact Nat.le_refl _
    | cons b _ ih =>
      rw [List.foldl_cons]
      exact le_trans (by omega : acc ≤ acc * 10 + (b.toNat - 48)) (ih _)
  have hfold (acc : ℕ) (hacc : acc ≤ limit) : digits.foldlM (fun acc b =>
      if acc * 10 + (b.toNat - 48) ≤ limit then some (acc * 10 + (b.toNat - 48)) else none) acc =
      if digits.foldl (fun acc b => acc * 10 + (b.toNat - 48)) acc ≤ limit then
        some (digits.foldl (fun acc b => acc * 10 + (b.toNat - 48)) acc) else none := by
    induction digits generalizing acc with
    | nil => exact (if_pos hacc).symm
    | cons b rest ih =>
      rw [List.foldlM_cons, List.foldl_cons]
      by_cases hnext : acc * 10 + (b.toNat - 48) ≤ limit
      · rw [if_pos hnext]
        exact ih _ hnext
      · rw [if_neg hnext, if_neg]
        · rfl
        · have := hgrows (acc * 10 + (b.toNat - 48)) rest
          omega
  exact hfold 0 (Nat.zero_le _)

theorem isNumeral_decimal (n : ℕ) : IsNumeral (decimal n) := by
  unfold decimal
  split_ifs with hn
  · exact ⟨List.cons_ne_nil _ _, List.forall_mem_singleton.mpr (by decide), .inl rfl⟩
  · have hdigits : Nat.digits 10 n ≠ [] := Nat.digits_ne_nil_iff_ne_zero.mpr hn
    refine ⟨by simpa using hdigits, ?_, .inr ?_⟩
    · intro b hb
      obtain ⟨d, hd, rfl⟩ := List.mem_map.mp hb
      exact isDigit_ofNat (Nat.digits_lt_base (by omega) (List.mem_reverse.mp hd))
    · -- The most significant digit of a positive number is not zero.
      rw [List.head?_map, List.head?_reverse, List.getLast?_eq_some_getLast hdigits,
        Option.map_some, ne_eq, Option.some.injEq]
      intro hzero
      have hlast := Nat.getLast_digit_ne_zero 10 hn
      have hlt := Nat.digits_lt_base (by omega : 1 < 10) (List.getLast_mem hdigits)
      have hval := congrArg UInt8.toNat hzero
      rw [UInt8.toNat_ofNat'] at hval
      have h48 : (byte '0').toNat = 48 := rfl
      omega

theorem decimalValue_decimal (n : ℕ) : decimalValue (decimal n) = n := by
  unfold decimal
  split_ifs with hn
  · rw [hn]
    rfl
  · rw [decimalValue_eq_ofDigits, ← List.map_reverse, List.reverse_reverse, List.map_map]
    have hid : (Nat.digits 10 n).map ((fun b : UInt8 => b.toNat - 48) ∘
        fun d => UInt8.ofNat (48 + d)) = Nat.digits 10 n := by
      refine (List.map_congr_left fun d hd => ?_).trans (List.map_id _)
      have hlt := Nat.digits_lt_base (by omega : 1 < 10) hd
      simp only [Function.comp_apply, UInt8.toNat_ofNat', id_eq]
      omega
    rw [hid, Nat.ofDigits_digits]

/-- **A numeral is the display of its value.** -/
theorem IsNumeral.decimal_eq {digits : Bytes} (h : IsNumeral digits) :
    decimal (decimalValue digits) = digits := by
  have hback : (digits.map fun b => UInt8.ofNat (48 + (b.toNat - 48))) = digits := by
    refine (List.map_congr_left fun b hb => ?_).trans (List.map_id _)
    have hdigit := isDigit_iff.mp (h.digits b hb)
    rw [id_eq, ← UInt8.toNat_inj, UInt8.toNat_ofNat']
    omega
  rcases h.canonical with rfl | hhead
  · rfl
  · have hvalue : Nat.digits 10 (decimalValue digits) =
        digits.reverse.map fun b => b.toNat - 48 := by
      rw [decimalValue_eq_ofDigits]
      refine Nat.digits_ofDigits 10 (by omega) _ ?_ ?_
      · intro d hd
        obtain ⟨b, hb, rfl⟩ := List.mem_map.mp hd
        have hdigit := isDigit_iff.mp (h.digits b (List.mem_reverse.mp hb))
        omega
      · intro hne hlast
        obtain ⟨b, rest, rfl⟩ := List.exists_cons_of_ne_nil h.ne_nil
        have hdigit := isDigit_iff.mp (h.digits b List.mem_cons_self)
        simp only [List.reverse_cons, List.map_append, List.map_cons, List.map_nil,
          List.getLast_append_singleton] at hlast
        refine hhead ?_
        rw [List.head?_cons, Option.some.injEq, ← UInt8.toNat_inj]
        have h48 : (byte '0').toNat = 48 := rfl
        omega
    have hpos : decimalValue digits ≠ 0 := by
      intro hzero
      rw [hzero, Nat.digits_zero] at hvalue
      exact h.ne_nil (by simpa using hvalue.symm)
    rw [decimal, if_neg hpos, hvalue, ← List.map_reverse, List.reverse_reverse, List.map_map]
    exact hback

theorem length_decimal_le {n k : ℕ} (hk : 0 < k) (h : n < 10 ^ k) : (decimal n).length ≤ k := by
  unfold decimal
  split_ifs with hn
  · exact hk
  · rw [List.length_map, List.length_reverse]
    exact (Nat.digits_length_le_iff (by omega) n).mpr h

end Dioptron
