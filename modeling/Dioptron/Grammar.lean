import Dioptron.Texts

/-! # The grammar of targets

The parser of targets, by splits, against the grammar it is for, by concatenation: what is
accepted, what is read, that the display of an origin is its canonical text, and what of a
target does not matter.
-/
namespace Dioptron

/-! ## Hosts -/

/-- One to 63 letters, digits and hyphens, with no hyphen at either end. -/
structure IsLabel (label : Bytes) : Prop where
  ne_nil : label ≠ []
  length_le : label.length ≤ 63
  chars : ∀ b ∈ label, isAlphanumeric b = true ∨ b = byte '-'
  head : label.head? ≠ some (byte '-')
  last : label.getLast? ≠ some (byte '-')

/-- A label that reads as a number: all digits, or `0x` with only hexadecimal digits behind. -/
inductive IsNumber : Bytes → Prop
  | decimal {label : Bytes} (hne : label ≠ []) (h : ∀ b ∈ label, isDigit b = true) : IsNumber label
  | hex {x : UInt8} {digits : Bytes} (hx : x = byte 'x' ∨ x = byte 'X')
      (h : ∀ b ∈ digits, isHexDigit b = true) : IsNumber (byte '0' :: x :: digits)

/-- Labels or octets with a dot between two of them. -/
def dotted (labels : List Bytes) : Bytes := [byte '.'].intercalate labels

/-- The texts of hosts, and the host each stands for. -/
inductive IsHost : Bytes → Host → Prop
  | domain {labels : List Bytes} (hne : labels ≠ []) (hlabels : ∀ label ∈ labels, IsLabel label)
      (hlast : ∀ label, labels.getLast? = some label → ¬ IsNumber label)
      (hlength : (dotted labels).length ≤ 253) :
      IsHost (dotted labels) (.domain ((dotted labels).map toLower))
  | ipv4 (a b c d : UInt8) :
      IsHost (dotted [decimal a.toNat, decimal b.toNat, decimal c.toNat, decimal d.toNat])
        (.ipv4 a b c d)

theorem isLdhLabel_iff {label : Bytes} : isLdhLabel label = true ↔ IsLabel label := by
  simp only [isLdhLabel, Bool.and_eq_true, Bool.not_eq_true', List.isEmpty_eq_false_iff,
    decide_eq_true_eq, List.all_eq_true, Bool.or_eq_true, beq_iff_eq, bne_iff_ne]
  exact ⟨fun ⟨⟨⟨⟨hne, hlen⟩, hchars⟩, hhead⟩, hlast⟩ => ⟨hne, hlen, hchars, hhead, hlast⟩,
    fun h => ⟨⟨⟨⟨h.ne_nil, h.length_le⟩, h.chars⟩, h.head⟩, h.last⟩⟩

variable {rest text front : Bytes} {labels : List Bytes} {host : Host} {port : Option UInt16}
  {origin : Origin}

theorem stripStart_eq_some {start s : Bytes} :
    stripStart start s = some rest ↔ s = start ++ rest := by
  unfold stripStart
  constructor
  · intro h
    split_ifs at h with hstart
    obtain ⟨tail, rfl⟩ := List.isPrefixOf_iff_prefix.mp hstart
    cases h
    simp
  · rintro rfl
    rw [if_pos (List.isPrefixOf_iff_prefix.mpr ⟨rest, rfl⟩), List.drop_left]

theorem endsInNumber_iff {label : Bytes} : endsInNumber label = true ↔ IsNumber label := by
  have hlow : ascii "0x" = [byte '0', byte 'x'] := rfl
  have hup : ascii "0X" = [byte '0', byte 'X'] := rfl
  simp only [endsInNumber, Bool.or_eq_true, Bool.and_eq_true, Bool.not_eq_true',
    List.isEmpty_eq_false_iff, List.all_eq_true, Option.any_eq_true]
  constructor
  · rintro (⟨hne, h⟩ | ⟨digits, hdigits, h⟩)
    · exact .decimal hne h
    · rcases Option.or_eq_some_iff.mp hdigits with hstrip | ⟨-, hstrip⟩
      · rw [stripStart_eq_some.mp hstrip, hlow]
        exact .hex (.inl rfl) h
      · rw [stripStart_eq_some.mp hstrip, hup]
        exact .hex (.inr rfl) h
  · intro h
    cases h with
    | decimal hne h => exact .inl ⟨hne, h⟩
    | @hex x digits hx h =>
      refine .inr ⟨digits, ?_, h⟩
      rcases hx with rfl | rfl
      · rw [show byte '0' :: byte 'x' :: digits = ascii "0x" ++ digits from rfl,
          stripStart_eq_some.mpr rfl, Option.some_or]
      · rw [show byte '0' :: byte 'X' :: digits = ascii "0X" ++ digits from rfl]
        rw [stripStart_eq_some.mpr rfl]
        have hnone : stripStart (ascii "0x") (ascii "0X" ++ digits) = none := by
          refine if_neg fun hstart => ?_
          obtain ⟨tail, htail⟩ := List.isPrefixOf_iff_prefix.mp hstart
          rw [hlow, hup] at htail
          cases htail
        rw [hnone, Option.none_or]

/-- An octet is read exactly from its display. -/
theorem octet_eq_ok {label : Bytes} {n : UInt8} :
    octet label = .ok n ↔ label = decimal n.toNat := by
  constructor
  · intro h
    simp only [octet, parseDecimal_eq] at h
    split_ifs at h with hcanonical hle
    · cases h
      simp only [Bool.not_eq_true', Bool.not_eq_false, Bool.and_eq_true,
        Bool.or_eq_true, beq_iff_eq,
        bne_iff_ne, List.all_eq_true, List.isEmpty_eq_false_iff, decide_eq_true_eq] at hcanonical
      obtain ⟨⟨⟨hne, -⟩, hdigits⟩, hzero⟩ := hcanonical
      rw [UInt8.toNat_ofNat', Nat.mod_eq_of_lt (by omega)]
      exact (IsNumeral.decimal_eq ⟨hne, hdigits, hzero⟩).symm
  · rintro rfl
    obtain ⟨hne, hdigits, hzero⟩ := isNumeral_decimal n.toNat
    have hlt := n.toNat_lt
    have hlength : (decimal n.toNat).length ≤ 3 := length_decimal_le (by omega) (by omega)
    have hcanonical : (!(decimal n.toNat).isEmpty && decide ((decimal n.toNat).length ≤ 3) &&
        (decimal n.toNat).all isDigit && (decimal n.toNat == [byte '0'] ||
          (decimal n.toNat).head? != some (byte '0'))) = true := by
      simp only [Bool.not_eq_true', Bool.and_eq_true, Bool.or_eq_true, beq_iff_eq, bne_iff_ne,
        List.all_eq_true, List.isEmpty_eq_false_iff, decide_eq_true_eq]
      exact ⟨⟨⟨hne, hlength⟩, hdigits⟩, hzero⟩
    simp only [octet, hcanonical, Bool.not_true, Bool.false_eq_true, if_false, parseDecimal_eq,
      decimalValue_decimal, if_pos (by omega : n.toNat ≤ 255), UInt8.ofNat_toNat]

theorem dotted_splitOn (text : Bytes) : dotted (text.splitOn (byte '.')) = text :=
  List.intercalate_splitOn _

theorem IsLabel.no_dot {label : Bytes} (h : IsLabel label) : byte '.' ∉ label := by
  intro hmem
  rcases h.chars _ hmem with halpha | hhyphen
  · exact absurd halpha (by decide)
  · exact absurd hhyphen (by decide)

theorem no_dot_decimal (n : ℕ) : byte '.' ∉ decimal n := by
  intro hmem
  exact absurd ((isNumeral_decimal n).digits _ hmem) (by decide)

/-- The labels of a dotted text are what the parser splits it into. -/
theorem splitOn_dotted (hne : labels ≠ []) (hdots : ∀ label ∈ labels, byte '.' ∉ label) :
    (dotted labels).splitOn (byte '.') = labels :=
  List.splitOn_intercalate _ hdots hne

theorem dotted_cons {label : Bytes} {rest : List Bytes} (h : rest ≠ []) :
    dotted (label :: rest) = label ++ byte '.' :: dotted rest := by
  obtain ⟨next, rest, rfl⟩ := List.exists_cons_of_ne_nil h
  rfl

/-- The bytes of a dotted text are those of its labels, and dots. -/
theorem mem_dotted {b : UInt8} (h : b ∈ dotted labels) :
    b = byte '.' ∨ ∃ label ∈ labels, b ∈ label := by
  induction labels with
  | nil => cases h
  | cons label rest ih =>
    by_cases hrest : rest = []
    · subst hrest
      refine .inr ⟨label, List.mem_cons_self, ?_⟩
      simpa [dotted, List.intercalate] using h
    · rw [dotted_cons hrest, List.mem_append, List.mem_cons] at h
      rcases h with h | h | h
      · exact .inr ⟨label, List.mem_cons_self, h⟩
      · exact .inl h
      · rcases ih h with hdot | ⟨l, hl, hb⟩
        · exact .inl hdot
        · exact .inr ⟨l, List.mem_cons_of_mem _ hl, hb⟩

/-- A host holds letters, digits, hyphens and dots only. -/
theorem IsHost.chars (h : IsHost text host) :
    ∀ b ∈ text, isAlphanumeric b = true ∨ b = byte '-' ∨ b = byte '.' := by
  intro b hb
  cases h with
  | domain _ hlabels =>
    rcases mem_dotted hb with hdot | ⟨label, hlabel, hb⟩
    · exact .inr (.inr hdot)
    · exact ((hlabels label hlabel).chars b hb).imp_right .inl
  | ipv4 =>
    rcases mem_dotted hb with hdot | ⟨label, hlabel, hb⟩
    · exact .inr (.inr hdot)
    · refine .inl (isAlphanumeric_of_isDigit b ?_)
      simp only [List.mem_cons, List.not_mem_nil, or_false] at hlabel
      rcases hlabel with rfl | rfl | rfl | rfl <;> exact (isNumeral_decimal _).digits b hb

theorem IsHost.exists_labels {domain : Bytes} (h : IsHost text (.domain domain)) :
    ∃ labels, labels ≠ [] ∧ (∀ label ∈ labels, IsLabel label) ∧
      (∀ label, labels.getLast? = some label → ¬ IsNumber label) ∧
      text = dotted labels ∧ text.length ≤ 253 ∧ domain = text.map toLower := by
  cases h with
  | domain hne hlabels hlast hlength => exact ⟨_, hne, hlabels, hlast, rfl, hlength, rfl⟩

theorem parseIpv4_eq_ok :
    parseIpv4 labels = .ok host ↔ ∃ a b c d : UInt8, host = .ipv4 a b c d ∧
      labels = [decimal a.toNat, decimal b.toNat, decimal c.toNat, decimal d.toNat] := by
  constructor
  · intro h
    unfold parseIpv4 at h
    split at h
    · simp only [bind_eq_ok, octet_eq_ok] at h
      obtain ⟨a, rfl, b, rfl, c, rfl, d, rfl, h⟩ := h
      cases h
      exact ⟨a, b, c, d, rfl, rfl⟩
    · cases h
  · rintro ⟨a, b, c, d, rfl, rfl⟩
    simp only [parseIpv4, octet_eq_ok.mpr rfl, ok_bind]
    rfl

/-- **Hosts are parsed exactly.** -/
theorem parseHost_eq_ok : parseHost text = .ok host ↔ IsHost text host := by
  constructor
  · intro h
    simp only [parseHost] at h
    split_ifs at h with hlength hnumber hlabels
    · obtain ⟨a, b, c, d, rfl, hsplit⟩ := parseIpv4_eq_ok.mp h
      rw [← dotted_splitOn text, hsplit]
      exact .ipv4 a b c d
    · cases h
      simp only [Bool.or_eq_true, decide_eq_true_eq, not_or, not_lt] at hlength
      have hdomain : IsHost (dotted (text.splitOn (byte '.')))
          (.domain ((dotted (text.splitOn (byte '.'))).map toLower)) := by
        refine .domain (splitOn_ne_nil _ _) (fun label hlabel => ?_) (fun label hlast => ?_) ?_
        · exact isLdhLabel_iff.mp (List.all_eq_true.mp hlabels label hlabel)
        · rw [hlast] at hnumber
          exact fun hbad => hnumber (endsInNumber_iff.mpr hbad)
        · rw [dotted_splitOn]
          exact hlength.2
      rwa [dotted_splitOn] at hdomain
  · intro h
    cases h with
    | @domain labels hne hlabels hlast hlength =>
      have hsplit := splitOn_dotted hne fun label hlabel => (hlabels label hlabel).no_dot
      obtain ⟨last, hlast'⟩ : ∃ last, labels.getLast? = some last :=
        ⟨_, List.getLast?_eq_some_getLast hne⟩
      have hnonempty : dotted labels ≠ [] := by
        obtain ⟨label, rest, rfl⟩ := List.exists_cons_of_ne_nil hne
        have hlabel := (hlabels label List.mem_cons_self).ne_nil
        by_cases hrest : rest = []
        · subst hrest
          simpa [dotted, List.intercalate] using hlabel
        · rw [dotted_cons hrest]
          exact List.append_ne_nil_of_left_ne_nil hlabel _
      simp only [parseHost, hsplit]
      rw [if_neg, if_neg, if_pos]
      · exact List.all_eq_true.mpr fun label hlabel => isLdhLabel_iff.mpr (hlabels label hlabel)
      · rw [hlast', Option.getD_some, endsInNumber_iff]
        exact hlast last hlast'
      · simp only [Bool.or_eq_true, List.isEmpty_iff, decide_eq_true_eq, not_or, not_lt]
        exact ⟨hnonempty, hlength⟩
    | ipv4 a b c d =>
      have hsplit : (dotted [decimal a.toNat, decimal b.toNat, decimal c.toNat,
          decimal d.toNat]).splitOn (byte '.') = _ :=
        splitOn_dotted (List.cons_ne_nil _ _) (by simp [no_dot_decimal])
      have hshort (n : UInt8) : (decimal n.toNat).length ≤ 3 :=
        length_decimal_le (by omega) (lt_trans n.toNat_lt (by omega))
      simp only [parseHost, hsplit]
      rw [if_neg, if_pos]
      · exact parseIpv4_eq_ok.mpr ⟨a, b, c, d, rfl, rfl⟩
      · exact endsInNumber_iff.mpr
          (.decimal (isNumeral_decimal _).ne_nil (isNumeral_decimal _).digits)
      · have ha := hshort a
        have hb := hshort b
        have hc := hshort c
        have hd := hshort d
        simp only [Bool.or_eq_true, List.isEmpty_iff, decide_eq_true_eq, not_or, not_lt, maxHostLen,
          dotted, List.intercalate, List.intersperse, List.flatten_cons, List.flatten_nil,
          List.append_eq_nil_iff, (isNumeral_decimal a.toNat).ne_nil, false_and, not_false_eq_true,
          true_and, List.length_append, List.length_cons, List.length_nil]
        omega

/-! ## Targets -/

/-- A host, and a decimal port from 1 to 65535 behind a colon when there is one. -/
inductive IsAuthority : Bytes → Host → Option UInt16 → Prop
  | bare {text : Bytes} {host : Host} (hhost : IsHost text host) : IsAuthority text host none
  | port {text digits : Bytes} {host : Host} {port : UInt16} (hhost : IsHost text host)
      (hne : digits ≠ []) (hdigits : ∀ b ∈ digits, isDigit b = true)
      (hvalue : decimalValue digits = port.toNat) (hport : port ≠ 0) :
      IsAuthority (text ++ byte ':' :: digits) host (some port)

/-- What may follow an authority: nothing, or a printable text that starts with a byte that
ends authorities. -/
structure IsTail (rest : Bytes) : Prop where
  graphic : ∀ b ∈ rest, isGraphic b = true
  cut : ∀ b, rest.head? = some b → endsAuthority b = true

def Scheme.name : Scheme → Bytes
  | http => ascii "http"
  | https => ascii "https"

/-- The texts of targets, and the origin of each. -/
inductive IsTarget : Bytes → Origin → Prop
  | mk {scheme authority rest : Bytes} {s : Scheme} {host : Host} {port : Option UInt16}
      (hscheme : scheme.map toLower = s.name) (hauthority : IsAuthority authority host port)
      (hrest : IsTail rest) :
      IsTarget (scheme ++ ascii "://" ++ authority ++ rest) ⟨s, host, port.getD s.defaultPort⟩

theorem Scheme.defaultPort_ne_zero (s : Scheme) : s.defaultPort ≠ 0 := by
  cases s <;> decide

/-- The names of the schemes and the separator after them. -/
theorem Scheme.name_spec : (∀ s ∈ [http, https], s.name.map toLower = s.name ∧
      ∀ b ∈ s.name, isAlphanumeric b = true) ∧ http.name ≠ https.name ∧
    ∀ b ∈ ascii "://", isGraphic b = true ∧ isAlphanumeric b = false := by
  decide +kernel

theorem Scheme.name_bytes (s : Scheme) : s.name.map toLower = s.name ∧
    ∀ b ∈ s.name, isAlphanumeric b = true :=
  Scheme.name_spec.1 s (by cases s <;> simp)

theorem Scheme.map_toLower_name (s : Scheme) : s.name.map toLower = s.name := s.name_bytes.1

theorem Scheme.parse_eq_ok {s : Scheme} :
    Scheme.parse text = .ok s ↔ text.map toLower = s.name := by
  have hhttp : (ascii "http").map toLower = ascii "http" := http.map_toLower_name
  have hhttps : (ascii "https").map toLower = ascii "https" := https.map_toLower_name
  simp only [Scheme.parse, eqIgnoreCase, hhttp, hhttps, beq_iff_eq]
  by_cases h : text.map toLower = ascii "http"
  · rw [if_pos h, h]
    cases s with
    | http => exact iff_of_true rfl rfl
    | https => exact iff_of_false nofun Scheme.name_spec.2.1
  · rw [if_neg h]
    by_cases h' : text.map toLower = ascii "https"
    · rw [if_pos h', h']
      cases s with
      | http => exact iff_of_false nofun Scheme.name_spec.2.1.symm
      | https => exact iff_of_true rfl rfl
    · rw [if_neg h']
      cases s with
      | http => exact iff_of_false nofun h
      | https => exact iff_of_false nofun h'

/-- What a split at the port reads. -/
theorem splitPort_eq_ok {authority host : Bytes} :
    splitPort authority = .ok (host, port) ↔ byte ':' ∉ host ∧
      ((port = none ∧ authority = host) ∨ ∃ digits p, port = some p ∧
        authority = host ++ byte ':' :: digits ∧ digits ≠ [] ∧ (∀ b ∈ digits, isDigit b = true) ∧
        decimalValue digits = p.toNat ∧ p ≠ 0) := by
  unfold splitPort
  constructor
  · intro h
    split at h
    · rename_i hnone
      cases h
      exact ⟨splitOnce_singleton_eq_none.mp hnone, .inl ⟨rfl, rfl⟩⟩
    · rename_i front digits hsplit
      obtain ⟨hauthority, hfront⟩ := splitOnce_singleton.mp hsplit
      rw [parseDecimal_eq] at h
      split_ifs at h with hdigits hle
      · simp only [Bool.or_eq_true, List.isEmpty_iff, Bool.not_eq_true', not_or,
          Bool.not_eq_false, List.all_eq_true] at hdigits
        split at h
        · cases h
        · cases h
        · rename_i p hp hvalue
          cases h
          rw [Option.some.injEq] at hvalue
          have hlt : p < 65536 := by omega
          refine ⟨hfront, .inr ⟨digits, _, rfl, hauthority, hdigits.1, hdigits.2, ?_, ?_⟩⟩
          · rw [UInt16.toNat_ofNat', Nat.mod_eq_of_lt hlt, hvalue]
          · rw [ne_eq, ← UInt16.toNat_inj, UInt16.toNat_ofNat', Nat.mod_eq_of_lt hlt]
            exact hp
  · rintro ⟨hcolon, ⟨rfl, rfl⟩ | ⟨digits, p, rfl, rfl, hne, hdigits, hvalue, hp⟩⟩
    · rw [splitOnce_singleton_eq_none.mpr hcolon]
    · have hlt := p.toNat_lt
      have hpos : p.toNat ≠ 0 := fun h => hp (UInt16.toNat_inj.mp h)
      rw [splitOnce_singleton.mpr ⟨rfl, hcolon⟩]
      simp only [parseDecimal_eq, hvalue, if_pos (by omega : p.toNat ≤ 65535)]
      rw [if_neg]
      · rw [UInt16.ofNat_toNat]
      · simp only [Bool.or_eq_true, List.isEmpty_iff, Bool.not_eq_true', not_or, Bool.not_eq_false,
          List.all_eq_true]
        exact ⟨hne, hdigits⟩

theorem IsHost.no_colon (h : IsHost text host) : byte ':' ∉ text := by
  intro hmem
  rcases h.chars _ hmem with halpha | hhyphen | hdot
  · exact absurd halpha (by decide)
  · exact absurd hhyphen (by decide)
  · exact absurd hdot (by decide)

/-- **Authorities are parsed exactly.** -/
theorem isAuthority_iff :
    IsAuthority text host port ↔
      ∃ front, splitPort text = .ok (front, port) ∧ parseHost front = .ok host := by
  constructor
  · intro h
    cases h with
    | bare hhost =>
      exact ⟨text, splitPort_eq_ok.mpr ⟨hhost.no_colon, .inl ⟨rfl, rfl⟩⟩, parseHost_eq_ok.mpr hhost⟩
    | @port front digits _ p hhost hne hdigits hvalue hport =>
      exact ⟨front, splitPort_eq_ok.mpr ⟨hhost.no_colon,
        .inr ⟨digits, p, rfl, rfl, hne, hdigits, hvalue, hport⟩⟩, parseHost_eq_ok.mpr hhost⟩
  · rintro ⟨front, hsplit, hhost⟩
    have hhost := parseHost_eq_ok.mp hhost
    obtain ⟨-, ⟨rfl, rfl⟩ | ⟨digits, p, rfl, rfl, hne, hdigits, hvalue, hport⟩⟩ :=
      splitPort_eq_ok.mp hsplit
    · exact .bare hhost
    · exact .port hhost hne hdigits hvalue hport

theorem Origin.parse_eq_ok :
    Origin.parse text = .ok origin ↔ (∀ b ∈ text, isGraphic b = true) ∧
      ∃ scheme after s host port, splitOnce (ascii "://") text = some (scheme, after) ∧
        Scheme.parse scheme = .ok s ∧
        IsAuthority (after.takeWhile fun b => !endsAuthority b) host port ∧
        origin = ⟨s, host, port.getD s.defaultPort⟩ := by
  simp only [Origin.parse, bind_eq_ok, ensure_eq_ok, List.all_eq_true, isAuthority_iff]
  constructor
  · rintro ⟨-, hgraphic, h⟩
    split at h
    · cases h
    · rename_i scheme after hsplit
      obtain ⟨s, hs, h⟩ := bind_eq_ok.mp h
      obtain ⟨⟨front, port⟩, hport, h⟩ := bind_eq_ok.mp h
      obtain ⟨host, hhost, h⟩ := bind_eq_ok.mp h
      cases h
      exact ⟨hgraphic, scheme, after, s, host, port, hsplit, hs, ⟨front, hport, hhost⟩, rfl⟩
  · rintro ⟨hgraphic, scheme, after, s, host, port, hsplit, hs, ⟨front, hport, hhost⟩, rfl⟩
    refine ⟨(), hgraphic, ?_⟩
    simp only [hsplit, hs, ok_bind, hport, hhost]
    rfl

theorem IsAuthority.chars (h : IsAuthority text host port) :
    ∀ b ∈ text, isAlphanumeric b = true ∨ b = byte '-' ∨ b = byte '.' ∨ b = byte ':' := by
  intro b hb
  cases h with
  | bare hhost => exact (hhost.chars b hb).imp_right (Or.imp_right .inl)
  | port hhost _ hdigits =>
    rcases List.mem_append.mp hb with hb | hb
    · exact (hhost.chars b hb).imp_right (Or.imp_right .inl)
    · rcases List.mem_cons.mp hb with hb | hb
      · exact .inr (.inr (.inr hb))
      · exact .inl (isAlphanumeric_of_isDigit b (hdigits b hb))

theorem isGraphic_of_alphanumeric (b : UInt8) (h : isAlphanumeric b = true) :
    isGraphic b = true ∧ endsAuthority b = false :=
  (byte_spec b).1 h

/-- An authority is printable and holds no byte that would end it. -/
theorem IsAuthority.graphic (h : IsAuthority text host port) :
    ∀ b ∈ text, isGraphic b = true ∧ endsAuthority b = false := by
  intro b hb
  rcases h.chars b hb with halpha | rfl | rfl | rfl
  · exact isGraphic_of_alphanumeric b halpha
  all_goals decide

theorem takeWhile_append_tail (hrest : IsTail rest) :
    (front ++ rest).takeWhile (fun b => !endsAuthority b) =
      front.takeWhile fun b => !endsAuthority b := by
  induction front with
  | nil =>
    cases rest with
    | nil => rfl
    | cons b => simp [hrest.cut b rfl]
  | cons _ _ ih =>
    rw [List.cons_append, List.takeWhile_cons, List.takeWhile_cons, ih]

theorem isTail_dropWhile (h : ∀ b ∈ rest, isGraphic b = true) :
    IsTail (rest.dropWhile fun b => !endsAuthority b) where
  graphic b hb := h b (List.dropWhile_sublist _ |>.subset hb)
  cut b hb := by
    have hcut := List.head?_dropWhile_not (fun b => !endsAuthority b) rest
    rw [hb] at hcut
    simpa using hcut

theorem scheme_chars {s : Scheme} (h : text.map toLower = s.name) :
    ∀ b ∈ text, isAlphanumeric b = true := by
  intro b hb
  have hmem : toLower b ∈ s.name := h ▸ List.mem_map_of_mem hb
  rw [← isAlphanumeric_toLower]
  exact s.name_bytes.2 _ hmem

/-- **Targets are parsed exactly.** -/
theorem Origin.parse_iff_isTarget : Origin.parse text = .ok origin ↔ IsTarget text origin := by
  rw [Origin.parse_eq_ok]
  constructor
  · rintro ⟨hgraphic, scheme, after, s, host, port, hsplit, hs, hauthority, rfl⟩
    have htext := splitOnce_eq_some hsplit
    have hrest : IsTail (after.dropWhile fun b => !endsAuthority b) := by
      refine isTail_dropWhile fun b hb => hgraphic b ?_
      rw [htext]
      exact List.mem_append_right _ hb
    have htarget : IsTarget (scheme ++ ascii "://" ++ _ ++ _) _ :=
      .mk (Scheme.parse_eq_ok.mp hs) hauthority hrest
    rwa [List.append_assoc _ _ (List.dropWhile _ _), List.takeWhile_append_dropWhile, ← htext]
      at htarget
  · intro h
    cases h with
    | @mk scheme authority rest s host port hscheme hauthority hrest =>
      have hchars := scheme_chars hscheme
      have hcolon : byte ':' ∉ scheme := fun hmem => absurd (hchars _ hmem) (by decide)
      have hseparator : ∀ b ∈ ascii "://", isGraphic b = true :=
        fun b hb => (Scheme.name_spec.2.2 b hb).1
      refine ⟨?_, scheme, authority ++ rest, s, host, port, ?_, Scheme.parse_eq_ok.mpr hscheme, ?_,
        rfl⟩
      · intro b hb
        rcases List.mem_append.mp hb with hb | hb
        · rcases List.mem_append.mp hb with hb | hb
          · rcases List.mem_append.mp hb with hb | hb
            · exact (isGraphic_of_alphanumeric b (hchars b hb)).1
            · exact hseparator b hb
          · exact (hauthority.graphic b hb).1
        · exact hrest.graphic b hb
      · rw [List.append_assoc (scheme ++ _)]
        exact splitOnce_append hcolon
      · rw [takeWhile_append_tail hrest, List.takeWhile_eq_self_iff.mpr]
        · exact hauthority
        · intro b hb
          rw [(hauthority.graphic b hb).2]
          rfl

/-! ## What does not matter -/

theorem map_toLower_of_digits {digits : Bytes} (h : ∀ b ∈ digits, isDigit b = true) :
    digits.map toLower = digits :=
  (List.map_congr_left fun b hb => toLower_of_isDigit b (h b hb)).trans (List.map_id _)

theorem map_toLower_map_toLower (text : Bytes) :
    (text.map toLower).map toLower = text.map toLower := by
  rw [List.map_map]
  exact List.map_congr_left fun b _ => toLower_toLower b

theorem map_toLower_eq_some {o : Option UInt8} {c : UInt8} (hc : isAlphanumeric c = false) :
    o.map toLower = some c ↔ o = some c := by
  cases o with
  | none => simp
  | some => simp [toLower_eq_iff hc]

theorem isLdhLabel_map_toLower (label : Bytes) :
    isLdhLabel (label.map toLower) = isLdhLabel label := by
  have hhyphen : isAlphanumeric (byte '-') = false := by decide
  rw [Bool.eq_iff_iff]
  simp only [isLdhLabel, List.isEmpty_map, List.length_map, List.all_map, Function.comp_def,
    List.head?_map, List.getLast?_map, Bool.and_eq_true, List.all_eq_true, Bool.or_eq_true,
    beq_iff_eq, bne_iff_ne, ne_eq, isAlphanumeric_toLower, toLower_eq_iff hhyphen,
    map_toLower_eq_some hhyphen]

theorem toLower_eq_zero (b : UInt8) (h : toLower b = byte '0') : b = byte '0' :=
  (byte_spec b).2.1 h

theorem toLower_eq_x (b : UInt8) (h : toLower b = byte 'x' ∨ toLower b = byte 'X') :
    b = byte 'x' ∨ b = byte 'X' :=
  (byte_spec b).2.2.1 h

theorem IsNumber.of_map_toLower {label : Bytes} (h : IsNumber (label.map toLower)) :
    IsNumber label := by
  generalize htext : label.map toLower = text at h
  cases h with
  | decimal hne h =>
    subst htext
    refine .decimal (by simpa using hne) fun b hb => ?_
    rw [← isDigit_toLower]
    exact h _ (List.mem_map_of_mem hb)
  | @hex _ _ hx h =>
    match label, htext with
    | [_], htext => exact absurd (List.cons.inj htext).2 nofun
    | b :: c :: rest, htext =>
      simp only [List.map_cons, List.cons.injEq] at htext
      obtain ⟨hb, rfl, rfl⟩ := htext
      rw [toLower_eq_zero b hb]
      refine .hex (toLower_eq_x c hx) fun d hd => ?_
      rw [← isHexDigit_toLower]
      exact h _ (List.mem_map_of_mem hd)

theorem IsNumber.map_toLower {label : Bytes} (h : IsNumber label) :
    IsNumber (label.map toLower) := by
  cases h with
  | decimal hne h =>
    rw [map_toLower_of_digits h]
    exact .decimal hne h
  | hex hx h =>
    refine .hex ?_ fun d hd => ?_
    · rcases hx with rfl | rfl <;> exact .inl rfl
    · obtain ⟨c, hc, rfl⟩ := List.mem_map.mp hd
      rw [isHexDigit_toLower]
      exact h c hc

theorem endsInNumber_map_toLower (label : Bytes) :
    endsInNumber (label.map toLower) = endsInNumber label := by
  rw [Bool.eq_iff_iff, endsInNumber_iff, endsInNumber_iff]
  exact ⟨IsNumber.of_map_toLower, IsNumber.map_toLower⟩

theorem octet_map_toLower (label : Bytes) : octet (label.map toLower) = octet label := by
  by_cases h : label.all isDigit = true
  · rw [map_toLower_of_digits (List.all_eq_true.mp h)]
  · have hlower : (label.map toLower).all isDigit = false := by
      simpa [List.all_map, Function.comp_def] using h
    simp [octet, hlower, Bool.not_eq_true _ |>.mp h]

theorem parseIpv4_map_toLower (labels : List Bytes) :
    parseIpv4 (labels.map (List.map toLower)) = parseIpv4 labels := by
  match labels with
  | [] | [_] | [_, _] | [_, _, _] | _ :: _ :: _ :: _ :: _ :: _ => rfl
  | [a, b, c, d] => simp only [List.map_cons, List.map_nil, parseIpv4, octet_map_toLower]

/-- A host does not depend on case. -/
theorem parseHost_map_toLower (text : Bytes) : parseHost (text.map toLower) = parseHost text := by
  have hlast (labels : List Bytes) : (labels.map (List.map toLower)).getLast?.getD [] =
      (labels.getLast?.getD []).map toLower := by
    rw [List.getLast?_map]
    cases labels.getLast? <;> rfl
  have hall (labels : List Bytes) :
      (labels.map (List.map toLower)).all isLdhLabel = labels.all isLdhLabel := by
    rw [List.all_map]
    exact congrArg labels.all (funext isLdhLabel_map_toLower)
  have hdot : isAlphanumeric (byte '.') = false := by decide
  simp only [parseHost, List.isEmpty_map, List.length_map, splitOn_map_toLower hdot, hlast,
    hall, endsInNumber_map_toLower, parseIpv4_map_toLower, map_toLower_map_toLower]

theorem splitPort_map_toLower (authority : Bytes) :
    splitPort (authority.map toLower) =
      (splitPort authority).map fun (host, port) => (host.map toLower, port) := by
  have hcolon : ∀ b ∈ [byte ':'], isAlphanumeric b = false :=
    List.forall_mem_singleton.mpr (by decide)
  unfold splitPort
  rw [splitOnce_map_toLower hcolon]
  cases splitOnce [byte ':'] authority with
  | none => rfl
  | some parts =>
    obtain ⟨front, digits⟩ := parts
    simp only [Option.map_some, List.isEmpty_map, List.all_map, Function.comp_def, isDigit_toLower]
    by_cases hdigits : (digits.isEmpty || !digits.all isDigit) = true
    · simp only [if_pos hdigits]
      rfl
    · simp only [if_neg hdigits]
      simp only [Bool.or_eq_true, Bool.not_eq_true', not_or, Bool.not_eq_false,
        List.all_eq_true] at hdigits
      rw [map_toLower_of_digits hdigits.2]
      split <;> rfl

/-- **The origin of a target does not depend on case.** -/
theorem Origin.parse_map_toLower (text : Bytes) :
    Origin.parse (text.map toLower) = Origin.parse text := by
  have hseparator : ∀ b ∈ ascii "://", isAlphanumeric b = false :=
    fun b hb => (Scheme.name_spec.2.2 b hb).2
  have hgraphic : (text.map toLower).all isGraphic = text.all isGraphic := by
    rw [List.all_map]
    exact congrArg text.all (funext isGraphic_toLower)
  simp only [Origin.parse, hgraphic, splitOnce_map_toLower hseparator]
  refine bind_congr fun _ => ?_
  cases splitOnce (ascii "://") text with
  | none => rfl
  | some parts =>
    obtain ⟨scheme, after⟩ := parts
    have hscheme : Scheme.parse (scheme.map toLower) = Scheme.parse scheme := by
      simp only [Scheme.parse, eqIgnoreCase, map_toLower_map_toLower]
      rfl
    have htake : (after.map toLower).takeWhile (fun b => !endsAuthority b) =
        (after.takeWhile fun b => !endsAuthority b).map toLower := by
      rw [List.takeWhile_map]
      simp only [Function.comp_def, endsAuthority_toLower]
    simp only [Option.map_some, hscheme, htake, splitPort_map_toLower]
    refine bind_congr fun s => ?_
    cases splitPort (after.takeWhile fun b => !endsAuthority b) with
    | error => rfl
    | ok =>
      simp only [Except.map, ok_bind, parseHost_map_toLower]

/-- Case aside, equal targets have equal origins. -/
theorem Origin.parse_of_eqIgnoreCase {text' : Bytes} (h : eqIgnoreCase text text' = true) :
    Origin.parse text = Origin.parse text' := by
  rw [← Origin.parse_map_toLower text, beq_iff_eq.mp h, Origin.parse_map_toLower]

/-- The first separator stays where it is when what follows changes. -/
theorem splitOnce_append_right {sep s back : Bytes} (h : splitOnce sep s = some (front, back))
    (rest : Bytes) : splitOnce sep (s ++ rest) = some (front, back ++ rest) := by
  induction s generalizing front with
  | nil => cases h
  | cons b s ih =>
    rw [splitOnce] at h
    rw [List.cons_append, splitOnce]
    split_ifs at h with hsep
    · cases h
      obtain ⟨tail, htail⟩ := List.isPrefixOf_iff_prefix.mp hsep
      rw [if_pos, ← List.cons_append, ← htail, List.append_assoc, List.drop_left, List.drop_left]
      rw [← List.cons_append, ← htail, List.append_assoc]
      exact List.isPrefixOf_iff_prefix.mpr (List.prefix_append _ _)
    · obtain ⟨⟨front', back'⟩, hrest, heq⟩ := Option.map_eq_some_iff.mp h
      cases heq
      rw [if_neg, ih hrest]
      · rfl
      · -- A separator at the front would lie in the text before what follows.
        intro hstart
        have hfront : b :: s <+: b :: (s ++ rest) := ⟨rest, rfl⟩
        refine hsep (List.isPrefixOf_iff_prefix.mpr (List.prefix_of_prefix_length_le
          (List.isPrefixOf_iff_prefix.mp hstart) hfront ?_))
        rw [splitOnce_eq_some hrest]
        simp only [List.length_cons, List.length_append]
        omega

theorem splitOnce_ne_none (front back : Bytes) (sep : Bytes) (hsep : sep ≠ []) :
    splitOnce sep (front ++ sep ++ back) ≠ none := by
  induction front with
  | nil =>
    obtain ⟨b, sep, rfl⟩ := List.exists_cons_of_ne_nil hsep
    rw [List.nil_append, List.cons_append, splitOnce, if_pos]
    · exact Option.some_ne_none _
    · exact List.isPrefixOf_iff_prefix.mpr ⟨back, rfl⟩
  | cons _ _ ih =>
    rw [List.cons_append, List.cons_append, splitOnce]
    split_ifs
    · exact Option.some_ne_none _
    · rw [ne_eq, Option.map_eq_none_iff]
      exact ih

/-- **What follows the authority does not matter.** -/
theorem Origin.parse_tail (hfront : splitOnce (ascii "://") front ≠ none) {rest' : Bytes}
    (h : IsTail rest) (h' : IsTail rest') :
    Origin.parse (front ++ rest) = Origin.parse (front ++ rest') := by
  obtain ⟨⟨scheme, after⟩, hsplit⟩ := Option.ne_none_iff_exists'.mp hfront
  have hgraphic {tail : Bytes} (htail : IsTail tail) :
      (front ++ tail).all isGraphic = front.all isGraphic := by
    rw [List.all_append, List.all_eq_true.mpr htail.graphic, Bool.and_true]
  simp only [Origin.parse, hgraphic h, hgraphic h', splitOnce_append_right hsplit,
    takeWhile_append_tail h, takeWhile_append_tail h']

/-! ## Display -/

def Host.display : Host → Bytes
  | domain name => name
  | ipv4 a b c d =>
    decimal a.toNat ++ [byte '.'] ++ decimal b.toNat ++ [byte '.'] ++ decimal c.toNat ++
      [byte '.'] ++ decimal d.toNat

def Origin.display (origin : Origin) : Bytes :=
  origin.scheme.name ++ ascii "://" ++ origin.host.display ++ [byte ':'] ++
    decimal origin.port.toNat

/-- The display of a host is a text of it. -/
theorem IsHost.display (h : IsHost text host) : IsHost host.display host := by
  cases h with
  | domain hne hlabels hlast hlength =>
    have h := IsHost.domain hne hlabels hlast hlength
    rw [← parseHost_eq_ok, ← parseHost_map_toLower, parseHost_eq_ok] at h
    exact h
  | ipv4 a b c d =>
    have h := IsHost.ipv4 a b c d
    simpa [dotted, List.intercalate, List.intersperse, Host.display] using h

/-- The display of an origin is a text of it. -/
theorem IsTarget.display (h : IsTarget text origin) : IsTarget origin.display origin := by
  cases h with
  | @mk _ _ _ s host port _ hauthority =>
    have hport : port.getD s.defaultPort ≠ 0 := by
      cases hauthority with
      | bare => exact s.defaultPort_ne_zero
      | port _ _ _ _ hport => exact hport
    obtain ⟨text, hhost⟩ : ∃ text, IsHost text host := by
      cases hauthority with
      | bare hhost => exact ⟨_, hhost⟩
      | port hhost => exact ⟨_, hhost⟩
    have hnumeral := isNumeral_decimal (port.getD s.defaultPort).toNat
    have hshown : IsAuthority (host.display ++ byte ':' :: decimal (port.getD s.defaultPort).toNat)
        host (some (port.getD s.defaultPort)) :=
      .port hhost.display hnumeral.ne_nil hnumeral.digits (decimalValue_decimal _) hport
    have htarget := IsTarget.mk s.map_toLower_name hshown ⟨List.forall_mem_nil _,
      fun _ h => by cases h⟩
    simpa [Origin.display] using htarget

/-- **Origins are parsed exactly and canonically.**  A text is accepted exactly when it is of
the grammar, and read as the origin it stands for; the display of an origin reads as that
origin again; and neither what follows the authority nor case matters to the result. -/
theorem origin_parsing_exact :
    (∀ text origin, Origin.parse text = .ok origin ↔ IsTarget text origin) ∧
    (∀ text origin, Origin.parse text = .ok origin → Origin.parse origin.display = .ok origin) ∧
    (∀ scheme authority rest rest', (∀ b ∈ authority, endsAuthority b = false) → IsTail rest →
      IsTail rest' → Origin.parse (scheme ++ ascii "://" ++ authority ++ rest) =
        Origin.parse (scheme ++ ascii "://" ++ authority ++ rest')) ∧
    ∀ scheme scheme' authority authority' rest, eqIgnoreCase scheme scheme' = true →
      eqIgnoreCase authority authority' = true →
      Origin.parse (scheme ++ ascii "://" ++ authority ++ rest) =
        Origin.parse (scheme' ++ ascii "://" ++ authority' ++ rest) := by
  refine ⟨fun text origin => Origin.parse_iff_isTarget, ?_, ?_, ?_⟩
  · intro text origin h
    exact Origin.parse_iff_isTarget.mpr (Origin.parse_iff_isTarget.mp h).display
  · intro scheme authority rest rest' _ h h'
    exact Origin.parse_tail (splitOnce_ne_none _ _ _ (by decide)) h h'
  · intro scheme scheme' authority authority' rest hscheme hauthority
    refine Origin.parse_of_eqIgnoreCase ?_
    simp only [eqIgnoreCase, beq_iff_eq] at hscheme hauthority ⊢
    simp only [List.map_append, hscheme, hauthority]

end Dioptron
