import Dioptron.Origins

/-! # Cutting a text

A text view that is too long for a reply is cut at a character boundary.  The cut looks
at single bytes; over the characters of the text it keeps the most whole characters that
fit.
-/
namespace Dioptron

/-- The UTF-8 bytes of characters. -/
def utf8 (cs : List Char) : Bytes := cs.flatMap String.utf8EncodeChar

/-- Not a continuation byte: as a signed byte, at least `-0x40`. -/
def isBoundaryByte (b : UInt8) : Bool := decide (b < 128) || decide (192 ≤ b)

/-- Whether a character of `text` starts at `index`, or the text ends there. -/
def isCharBoundary (text : Bytes) (index : Nat) : Bool :=
  index == 0 ||
    match text[index]? with
    | some b => isBoundaryByte b
    | none => index == text.length

/-- Cuts `text` to at most `max` bytes at a character boundary: the kept text, and whether
anything was cut. -/
def cutText : Option Bytes → UInt64 → Option Bytes × Bool
  | none, _ => (none, false)
  | some text, max =>
    if text.length ≤ max.toNat then
      (some text, false)
    else
      let stop := ((List.range (max.toNat + 1)).reverse.find? (isCharBoundary text)).getD 0
      (some (text.take stop), true)

/-- `kept` is the longest part of `text` from its start on that ends at a character boundary
and has at most `room` bytes. -/
structure LongestCut (text : Bytes) (room : Nat) (kept : Bytes) : Prop where
  initial : kept <+: text
  boundary : isCharBoundary text kept.length = true
  fits : kept.length ≤ room
  longest : ∀ i ≤ room, isCharBoundary text i = true → i ≤ kept.length

theorem isCharBoundary_iff {text : Bytes} {i : Nat} :
    isCharBoundary text i = true ↔
      i = 0 ∨ i = text.length ∨ ∃ b, text[i]? = some b ∧ isBoundaryByte b = true := by
  rw [isCharBoundary, Bool.or_eq_true, beq_iff_eq]
  refine or_congr_right ?_
  cases hb : text[i]? with
  | none => simp
  | some =>
    have hlt : i < text.length := (List.getElem?_eq_some_iff.mp hb).1
    simp [hlt.ne]

theorem isCharBoundary_length (text : Bytes) : isCharBoundary text text.length = true :=
  isCharBoundary_iff.mpr (.inr (.inl rfl))

theorem le_length_of_isCharBoundary {text : Bytes} {i : Nat} (h : isCharBoundary text i = true) :
    i ≤ text.length := by
  rcases isCharBoundary_iff.mp h with rfl | rfl | ⟨b, hb, -⟩
  · exact Nat.zero_le _
  · exact le_rfl
  · exact (List.getElem?_eq_some_iff.mp hb).1.le

/-- **A cut keeps the longest part that fits**, and says whether anything was cut. -/
theorem cutText_some (text : Bytes) (max : UInt64) :
    ∃ kept, cutText (some text) max = (some kept, decide (max.toNat < text.length)) ∧
      LongestCut text max.toNat kept := by
  by_cases hfits : text.length ≤ max.toNat
  · refine ⟨text, ?_, List.prefix_rfl, isCharBoundary_length text, hfits, fun i _ hi => ?_⟩
    · rw [cutText, if_pos hfits, decide_eq_false (by omega)]
    · exact le_length_of_isCharBoundary hi
  · -- The search runs down from `max` and ends at zero at the latest.
    obtain ⟨stop, hstop⟩ : ∃ stop,
        (List.range (max.toNat + 1)).reverse.find? (isCharBoundary text) = some stop := by
      rw [← Option.isSome_iff_exists, List.find?_isSome]
      exact ⟨0, by simp, rfl⟩
    have hboundary : isCharBoundary text stop = true := List.find?_some hstop
    have hle : stop ≤ max.toNat := by
      have hmem := List.mem_of_find?_eq_some hstop
      simp only [List.mem_reverse, List.mem_range] at hmem
      omega
    have hlength : (text.take stop).length = stop := by
      rw [List.length_take]
      omega
    refine ⟨text.take stop, ?_, List.take_prefix _ _, ?_, ?_, fun i hi hbound => ?_⟩
    · rw [cutText, if_neg hfits, hstop, decide_eq_true (by omega)]
      rfl
    · rw [hlength]
      exact hboundary
    · rw [hlength]
      exact hle
    · rw [hlength]
      by_contra hgt
      obtain ⟨-, before, after, hsplit, hnone⟩ := List.find?_eq_some_iff_append.mp hstop
      have hdown : (List.range (max.toNat + 1)).reverse.Pairwise (· > ·) :=
        List.pairwise_reverse.mpr List.pairwise_lt_range
      have hi : i ∈ (List.range (max.toNat + 1)).reverse := by
        rw [List.mem_reverse, List.mem_range]
        omega
      rw [hsplit] at hdown hi
      rcases List.mem_append.mp hi with hi | hi
      · have hnot := hnone i hi
        rw [hbound] at hnot
        cases hnot
      rcases List.mem_cons.mp hi with rfl | hi
      · exact hgt le_rfl
      · have hlt := (List.pairwise_cons.mp (List.pairwise_append.mp hdown).2.1).1 i hi
        omega

/-! ## Characters -/

/-- A character starts with the one boundary byte it has. -/
theorem utf8EncodeChar_bytes (c : Char) : ∃ b rest, String.utf8EncodeChar c = b :: rest ∧
    isBoundaryByte b = true ∧ ∀ x ∈ rest, isBoundaryByte x = false := by
  have hstart {n : Nat} (hn : n < 256) (h : n < 128 ∨ 192 ≤ n) :
      isBoundaryByte (UInt8.ofNat n) = true := by
    rw [isBoundaryByte, Bool.or_eq_true, decide_eq_true_eq, decide_eq_true_eq,
      UInt8.lt_iff_toNat_lt, UInt8.le_iff_toNat_le, UInt8.toNat_ofNat_of_lt' hn]
    exact h
  have hnext (n : Nat) : isBoundaryByte (UInt8.ofNat (n % 64 + 128)) = false := by
    rw [isBoundaryByte, Bool.or_eq_false_iff, decide_eq_false_iff_not, decide_eq_false_iff_not,
      UInt8.lt_iff_toNat_lt, UInt8.le_iff_toNat_le,
      UInt8.toNat_ofNat_of_lt' (show n % 64 + 128 < UInt8.size by
        show n % 64 + 128 < 256
        omega)]
    show ¬ n % 64 + 128 < 128 ∧ ¬ 192 ≤ n % 64 + 128
    omega
  unfold String.utf8EncodeChar
  dsimp only
  split_ifs with h₁ h₂ h₃
  · exact ⟨_, [], rfl, hstart (by omega) (.inl (by omega)), by simp⟩
  · exact ⟨_, _, rfl, hstart (by omega) (.inr (by omega)),
      List.forall_mem_singleton.mpr (hnext _)⟩
  · exact ⟨_, _, rfl, hstart (by omega) (.inr (by omega)), by
      simp only [List.mem_cons, List.not_mem_nil, or_false, forall_eq_or_imp, forall_eq,
        hnext, and_self]⟩
  · exact ⟨_, _, rfl, hstart (by omega) (.inr (by omega)), by
      simp only [List.mem_cons, List.not_mem_nil, or_false, forall_eq_or_imp, forall_eq,
        hnext, and_self]⟩

theorem utf8_cons (c : Char) (cs : List Char) :
    utf8 (c :: cs) = String.utf8EncodeChar c ++ utf8 cs := rfl

/-- Text starts with a boundary byte. -/
theorem isBoundaryByte_head {cs : List Char} {b : UInt8} (h : (utf8 cs)[0]? = some b) :
    isBoundaryByte b = true := by
  cases cs with
  | nil => cases h
  | cons c =>
    obtain ⟨first, rest, hc, hfirst, -⟩ := utf8EncodeChar_bytes c
    rw [utf8_cons, hc] at h
    cases h
    exact hfirst

/-- The boundaries of a text after its first character. -/
theorem isCharBoundary_cons (c : Char) (cs : List Char) (i : Nat) :
    isCharBoundary (utf8 (c :: cs)) i = true ↔
      i = 0 ∨ ∃ j, i = (String.utf8EncodeChar c).length + j ∧
        isCharBoundary (utf8 cs) j = true := by
  obtain ⟨b, rest, hc, -, hrest⟩ := utf8EncodeChar_bytes c
  rw [utf8_cons, hc, isCharBoundary_iff]
  constructor
  · rintro (hzero | rfl | ⟨x, hx, hbound⟩)
    · exact .inl hzero
    · exact .inr ⟨_, List.length_append, isCharBoundary_length _⟩
    rcases Nat.lt_or_ge i (b :: rest).length with hlt | hge
    · cases i with
      | zero => exact .inl rfl
      | succ =>
        -- Inside the first character every byte is a continuation byte.
        rw [List.getElem?_append_left hlt, List.getElem?_cons_succ] at hx
        rw [hrest x (List.mem_of_getElem? hx)] at hbound
        cases hbound
    · rw [List.getElem?_append_right hge] at hx
      exact .inr ⟨_, (Nat.add_sub_of_le hge).symm,
        isCharBoundary_iff.mpr (.inr (.inr ⟨x, hx, hbound⟩))⟩
  · rintro (hzero | ⟨j, rfl, hj⟩)
    · exact .inl hzero
    right
    have hge : (b :: rest).length + j ≥ (b :: rest).length := Nat.le_add_right _ _
    rw [List.getElem?_append_right hge, Nat.add_sub_cancel_left, List.length_append]
    rcases isCharBoundary_iff.mp hj with rfl | rfl | hbyte
    · -- The next character starts here, or the text ends.
      cases hhead : (utf8 cs)[0]? with
      | none => exact .inl (by rw [List.getElem?_eq_none_iff] at hhead; omega)
      | some x => exact .inr ⟨x, rfl, isBoundaryByte_head hhead⟩
    · exact .inl rfl
    · exact .inr hbyte

/-- **Boundaries are where characters end.** -/
theorem isCharBoundary_utf8 (cs : List Char) (i : Nat) :
    isCharBoundary (utf8 cs) i = true ↔ ∃ n, i = (utf8 (cs.take n)).length := by
  induction cs generalizing i with
  | nil => simp [isCharBoundary, utf8]
  | cons _ _ ih =>
    rw [isCharBoundary_cons]
    constructor
    · rintro (rfl | ⟨j, rfl, hj⟩)
      · exact ⟨0, rfl⟩
      · obtain ⟨n, rfl⟩ := (ih j).mp hj
        exact ⟨n + 1, by rw [List.take_succ_cons, utf8_cons, List.length_append]⟩
    · rintro ⟨n, rfl⟩
      cases n with
      | zero => exact .inl rfl
      | succ n =>
        refine .inr ⟨_, ?_, (ih _).mpr ⟨n, rfl⟩⟩
        rw [List.take_succ_cons, utf8_cons, List.length_append]

/-- **A cut keeps the most whole characters that fit.** -/
theorem LongestCut.exists_take {cs : List Char} {room : Nat} {kept : Bytes}
    (h : LongestCut (utf8 cs) room kept) :
    ∃ n, kept = utf8 (cs.take n) ∧ kept.length ≤ room ∧
      ∀ m, (utf8 (cs.take m)).length ≤ room → (utf8 (cs.take m)).length ≤ kept.length := by
  obtain ⟨n, hn⟩ := (isCharBoundary_utf8 cs _).mp h.boundary
  refine ⟨n, ?_, h.fits, fun m hm => h.longest _ hm ((isCharBoundary_utf8 cs _).mpr ⟨m, rfl⟩)⟩
  have htake : utf8 (cs.take n) <+: utf8 cs := by
    conv_rhs => rw [← List.take_append_drop n cs]
    rw [utf8, utf8, List.flatMap_append]
    exact List.prefix_append _ _
  exact (List.prefix_of_prefix_length_le h.initial htake hn.le).eq_of_length hn

end Dioptron
