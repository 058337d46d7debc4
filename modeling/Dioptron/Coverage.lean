import Dioptron.Grammar

/-! # Coverage is exact

A pattern covers another exactly when it matches every origin the other matches.  Soundness
needs nothing of the patterns; for the converse each uncovered pair is told apart by an
origin that some target has, built from a label in front of the inner domain.
-/
namespace Dioptron

/-! ## The origins targets have -/

/-- Some target has this origin. -/
def Producible (origin : Origin) : Prop := ∃ text, Origin.parse text = .ok origin

/-- Some text is read as this host. -/
def HasText (host : Host) : Prop := ∃ text, IsHost text host

theorem producible_iff {origin : Origin} :
    Producible origin ↔ HasText origin.host ∧ origin.port ≠ 0 := by
  constructor
  · rintro ⟨text, h⟩
    cases Origin.parse_iff_isTarget.mp h with
    | mk _ hauthority =>
      cases hauthority with
      | bare hhost => exact ⟨⟨_, hhost⟩, Scheme.defaultPort_ne_zero _⟩
      | port hhost _ _ _ hport => exact ⟨⟨_, hhost⟩, hport⟩
  · rintro ⟨⟨text, hhost⟩, hport⟩
    obtain ⟨scheme, host, port⟩ := origin
    have hnumeral := isNumeral_decimal port.toNat
    have hauthority : IsAuthority (text ++ byte ':' :: decimal port.toNat) host (some port) :=
      .port hhost hnumeral.ne_nil hnumeral.digits (decimalValue_decimal _) hport
    exact ⟨_, Origin.parse_iff_isTarget.mpr
      (.mk scheme.map_toLower_name hauthority ⟨List.forall_mem_nil _, fun _ h => by cases h⟩)⟩

/-! ## Domains -/

/-- A domain as hosts carry it: labels in lower case. -/
theorem HasText.exists_labels {domain : Bytes} (h : HasText (.domain domain)) :
    ∃ labels, labels ≠ [] ∧ (∀ label ∈ labels, IsLabel label) ∧
      (∀ label, labels.getLast? = some label → ¬ IsNumber label) ∧
      domain = dotted labels ∧ domain.map toLower = domain := by
  obtain ⟨text, h⟩ := h
  have hself : IsHost domain (.domain domain) := h.display
  obtain ⟨labels, hne, hlabels, hlast, heq, -, hlower⟩ := hself.exists_labels
  exact ⟨labels, hne, hlabels, hlast, heq, hlower.symm⟩

/-- A label is in front of a short enough domain. -/
theorem hasText_sub {domain : Bytes} (h : HasText (.domain domain)) (hlength : domain.length ≤ 251)
    {c : UInt8} (hc : isLower c = true) : HasText (.domain (c :: byte '.' :: domain)) := by
  obtain ⟨labels, hne, hlabels, hlast, rfl, hlower⟩ := h.exists_labels
  obtain ⟨halpha, -, hsame, hhyphen⟩ := (byte_spec c).2.2.2 hc
  have hdotted : [c] ++ byte '.' :: dotted labels = dotted ([c] :: labels) := (dotted_cons hne).symm
  have hhost : IsHost (dotted ([c] :: labels))
    (.domain ((dotted ([c] :: labels)).map toLower)) := by
    refine .domain (List.cons_ne_nil _ _) (List.forall_mem_cons.mpr ⟨?_, hlabels⟩) ?_ ?_
    · exact ⟨List.cons_ne_nil _ _, by simp, List.forall_mem_singleton.mpr (.inl halpha),
        by simpa using hhyphen, by simpa using hhyphen⟩
    · intro label hlabel
      rw [List.getLast?_cons_of_ne_nil hne] at hlabel
      exact hlast label hlabel
    · rw [← hdotted, List.length_append, List.length_singleton, List.length_cons]
      omega
  have heq : (dotted ([c] :: labels)).map toLower = c :: byte '.' :: dotted labels := by
    rw [← hdotted, List.map_append, List.map_cons, List.map_cons, hlower, hsame]
    rfl
  rw [heq] at hhost
  exact ⟨_, hhost⟩

theorem hasText_label {c : UInt8} (hc : isLower c = true) : HasText (.domain [c]) := by
  obtain ⟨halpha, hdigit, hsame, hhyphen⟩ := (byte_spec c).2.2.2 hc
  have hhost : IsHost (dotted [[c]]) (.domain ((dotted [[c]]).map toLower)) := by
    refine .domain (List.cons_ne_nil _ _) (List.forall_mem_singleton.mpr ?_) ?_ ?_
    · exact ⟨List.cons_ne_nil _ _, by simp, List.forall_mem_singleton.mpr (.inl halpha),
        by simpa using hhyphen, by simpa using hhyphen⟩
    · intro label hlast hnumber
      cases hlast
      cases hnumber with
      | decimal _ h =>
        rw [h c List.mem_cons_self] at hdigit
        cases hdigit
    · exact Nat.le_of_ble_eq_true rfl
  have heq : (dotted [[c]]).map toLower = [c] := by
    show [toLower c] = [c]
    rw [hsame]
  rw [heq] at hhost
  exact ⟨_, hhost⟩

/-- A domain does not start with a dot. -/
theorem head_ne_dot {domain : Bytes} (h : HasText (.domain domain)) :
    domain.head? ≠ some (byte '.') := by
  obtain ⟨labels, hne, hlabels, -, rfl, -⟩ := h.exists_labels
  obtain ⟨label, rest, rfl⟩ := List.exists_cons_of_ne_nil hne
  have hlabel := hlabels label List.mem_cons_self
  obtain ⟨b, tail, rfl⟩ := List.exists_cons_of_ne_nil hlabel.ne_nil
  have hhead : (dotted ((b :: tail) :: rest)).head? = some b := by
    by_cases hrest : rest = []
    · subst hrest
      rfl
    · rw [dotted_cons hrest]
      rfl
  rw [hhead]
  intro heq
  exact hlabel.no_dot (Option.some.inj heq ▸ List.mem_cons_self)

/-- A domain with one more byte and a dot in front is below an outer domain only if it is that
domain or itself below it. -/
theorem eq_or_isProperSubdomain {domain outer : Bytes} {c : UInt8}
    (hdot : domain.head? ≠ some (byte '.'))
    (h : isProperSubdomain (c :: byte '.' :: domain) outer = true) :
    domain = outer ∨ isProperSubdomain domain outer = true := by
  obtain ⟨front, hfront, heq⟩ := isProperSubdomain_iff.mp h
  match front, hfront with
  | [_], _ =>
    simp only [List.cons_append, List.nil_append, List.cons.injEq, true_and] at heq
    exact .inl heq.2
  | [_, _], _ =>
    simp only [List.cons_append, List.nil_append, List.cons.injEq] at heq
    rw [heq.2.2] at hdot
    exact absurd rfl hdot
  | _ :: _ :: x :: rest, _ =>
    simp only [List.cons_append, List.cons.injEq] at heq
    exact .inr (isProperSubdomain_iff.mpr ⟨x :: rest, List.cons_ne_nil _ _, heq.2.2⟩)

/-! ## Patterns -/

/-- What a parsed pattern satisfies. -/
structure OriginPattern.WellFormed (p : OriginPattern) : Prop where
  port : p.port ≠ some 0
  host : ∀ host, p.host = .exact host → HasText host
  domain : ∀ domain, p.host = .subdomains domain → HasText (.domain domain)

namespace OriginPattern

theorem wellFormed_of_parse {text : Bytes} {p : OriginPattern} (h : parse text = .ok p) :
    p.WellFormed := by
  simp only [parse, bind_eq_ok] at h
  obtain ⟨-, -, ⟨scheme, authority⟩, -, ⟨front, port⟩, hport, host, hhost, h⟩ := h
  cases h
  refine ⟨?_, ?_, ?_⟩
  · rintro rfl
    obtain ⟨-, ⟨hnone, -⟩ | ⟨digits, p, hp, -, -, -, -, hne⟩⟩ := splitPort_eq_ok.mp hport
    · cases hnone
    · cases hp
      exact hne rfl
  all_goals
    rintro x rfl
    unfold parseHostPattern at hhost
    split_ifs at hhost
    · cases hhost
    · split at hhost
      · obtain ⟨found, hfound, hhost⟩ := bind_eq_ok.mp hhost
        cases found <;> cases hhost
        all_goals exact ⟨_, parseHost_eq_ok.mp hfound⟩
      · obtain ⟨found, hfound, hhost⟩ := bind_eq_ok.mp hhost
        cases hhost
        all_goals exact ⟨_, parseHost_eq_ok.mp hfound⟩

variable {outer inner : OriginPattern}

theorem portFor_ne_zero (h : inner.WellFormed) (s : Scheme) : inner.portFor s ≠ 0 := by
  unfold portFor
  cases hport : inner.port with
  | none => exact s.defaultPort_ne_zero
  | some =>
    rintro rfl
    exact h.port hport

theorem exists_admitsScheme (p : OriginPattern) : ∃ s, p.admitsScheme s = true := by
  cases hscheme : p.scheme with
  | none => exact ⟨.http, by simp [admitsScheme, hscheme]⟩
  | some s => exact ⟨s, by simp [admitsScheme, hscheme]⟩

/-- Every host that the inner pattern matches, the outer one matches. -/
def HostsWithin (inner outer : HostPattern) : Prop :=
  ∀ host, HasText host → matchesHost inner host = true → matchesHost outer host = true

/-- A pattern that parses matches some host. -/
theorem exists_matchesHost (h : inner.WellFormed)
    (hlength : ∀ domain, inner.host = .subdomains domain → domain.length ≤ 251) :
    ∃ host, HasText host ∧ matchesHost inner.host host = true := by
  cases hhost : inner.host with
  | any => exact ⟨_, hasText_label (by decide : isLower (byte 'a') = true), rfl⟩
  | exact host => exact ⟨host, h.host host hhost, by simp [matchesHost]⟩
  | subdomains domain =>
    refine ⟨_, hasText_sub (h.domain domain hhost) (hlength domain hhost)
      (by decide : isLower (byte 'a') = true), ?_⟩
    exact isProperSubdomain_iff.mpr ⟨[byte 'a'], List.cons_ne_nil _ _, rfl⟩

/-- **Host coverage is complete.** -/
theorem coversHost_complete (h : inner.WellFormed)
    (hlength : ∀ domain, inner.host = .subdomains domain → domain.length ≤ 251)
    (hwithin : HostsWithin inner.host outer.host) : coversHost outer.host inner.host = true := by
  have ha : isLower (byte 'a') = true := by decide
  have hb : isLower (byte 'b') = true := by decide
  cases houter : outer.host with
  | any => rfl
  | exact host =>
    rw [houter] at hwithin
    cases hinner : inner.host with
    | exact host' =>
      have hmatch := hwithin host' (h.host host' hinner) (by simp [hinner, matchesHost])
      exact hmatch
    | any =>
      -- Two hosts cannot both be the one the outer pattern names.
      rw [hinner] at hwithin
      have hfirst := beq_iff_eq.mp (hwithin _ (hasText_label ha) rfl)
      have hsecond := beq_iff_eq.mp (hwithin _ (hasText_label hb) rfl)
      exact absurd (hfirst.symm.trans hsecond) (by decide)
    | subdomains domain =>
      have hsub (c : UInt8) (hc : isLower c = true) :
          host = .domain (c :: byte '.' :: domain) := by
        refine beq_iff_eq.mp (hwithin _ (hasText_sub (h.domain domain hinner)
          (hlength domain hinner) hc) ?_)
        rw [hinner]
        exact isProperSubdomain_iff.mpr ⟨[c], List.cons_ne_nil _ _, rfl⟩
      have hsame := (hsub _ ha).symm.trans (hsub _ hb)
      simp only [Host.domain.injEq, List.cons.injEq, and_true] at hsame
      exact absurd hsame (by decide)
  | subdomains domain =>
    rw [houter] at hwithin
    cases hinner : inner.host with
    | any =>
      rw [hinner] at hwithin
      exact absurd (hwithin (.ipv4 0 0 0 0) ⟨_, .ipv4 0 0 0 0⟩ rfl)
        Bool.false_ne_true
    | exact host =>
      have hmatch := hwithin host (h.host host hinner) (by simp [hinner, matchesHost])
      cases host with
      | domain => exact hmatch
      | ipv4 => cases hmatch
    | subdomains inside =>
      have htext := h.domain inside hinner
      have hmatch := hwithin _ (hasText_sub htext (hlength inside hinner) ha) (by
        rw [hinner]
        exact isProperSubdomain_iff.mpr ⟨[byte 'a'], List.cons_ne_nil _ _, rfl⟩)
      have hcases := eq_or_isProperSubdomain (head_ne_dot htext) hmatch
      simpa only [coversHost, Bool.or_eq_true, beq_iff_eq] using hcases

/-- **Coverage is exact.** -/
theorem covers_iff (h : inner.WellFormed)
    (hlength : ∀ domain, inner.host = .subdomains domain → domain.length ≤ 251) :
    outer.covers inner = true ↔ ∀ origin, Producible origin → inner.matches_ origin = true →
      outer.matches_ origin = true := by
  refine ⟨fun hcovers origin _ => covers_sound hcovers, fun hwithin => ?_⟩
  have horigin (s : Scheme) (hs : inner.admitsScheme s = true) (host : Host) (htext : HasText host)
      (hmatch : matchesHost inner.host host = true) :
      outer.matches_ ⟨s, host, inner.portFor s⟩ = true :=
    hwithin _ (producible_iff.mpr ⟨htext, portFor_ne_zero h s⟩) (by simp [matches_, hs, hmatch])
  obtain ⟨host, htext, hmatch⟩ := exists_matchesHost h hlength
  obtain ⟨s, hs⟩ := inner.exists_admitsScheme
  simp only [matches_, Bool.and_eq_true, beq_iff_eq] at horigin
  simp only [covers, Bool.and_eq_true, List.all_eq_true, List.mem_filter, Scheme.mem_all, true_and,
    beq_iff_eq]
  refine ⟨fun s hs => (horigin s hs host htext hmatch).1, ?_⟩
  exact coversHost_complete h hlength fun host htext hmatch => (horigin s hs host htext hmatch).2

end OriginPattern

theorem TargetScope.wellFormed_of_parse {texts : List Bytes} {scope : TargetScope}
    (h : TargetScope.parse texts = .ok scope) : ∀ p ∈ scope.patterns, p.WellFormed := by
  obtain ⟨patterns, hpatterns, h⟩ := bind_eq_ok.mp h
  cases h
  intro p hp
  obtain ⟨text, -, hparse⟩ := exists_of_mem_right (mapM_eq_ok.mp hpatterns) hp
  exact OriginPattern.wellFormed_of_parse hparse

/-- **Pattern coverage is exact.**  Of two patterns that parse, where a domain behind `*.` in
the inner one has at most 251 bytes, the outer covers the inner exactly when it matches every
origin of a target that the inner matches; and a scope that covers another admits every
origin the other admits. -/
theorem pattern_coverage_exact :
    (∀ outerText innerText outer inner, OriginPattern.parse outerText = .ok outer →
      OriginPattern.parse innerText = .ok inner →
      (∀ domain, inner.host = .subdomains domain → domain.length ≤ 251) →
      (outer.covers inner = true ↔ ∀ text origin, Origin.parse text = .ok origin →
        inner.matches_ origin = true → outer.matches_ origin = true)) ∧
    ∀ outerTexts innerTexts outer inner, TargetScope.parse outerTexts = .ok outer →
      TargetScope.parse innerTexts = .ok inner → outer.covers inner = true →
      ∀ text origin, Origin.parse text = .ok origin →
        inner.matches_ origin = true → outer.matches_ origin = true := by
  refine ⟨?_, ?_⟩
  · intro outerText innerText outer inner _ hinner hlength
    rw [OriginPattern.covers_iff (OriginPattern.wellFormed_of_parse hinner) hlength]
    exact ⟨fun h text origin htext => h origin ⟨text, htext⟩,
      fun h origin ⟨text, htext⟩ => h text origin htext⟩
  · intro _ _ outer inner _ _ hcovers text origin _
    exact TargetScope.covers_sound hcovers

end Dioptron
