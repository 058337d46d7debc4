import Dioptron.Effects

/-! # What a database holds

`Records key under content db`: outside the metadata and the wrapped keys, `db` holds
the records of `content` and nothing else, each at the key of its name and sealed under
one of the sealing keys `under` names for it.  `Wraps` says the same of the keyspace of
wrapped keys.  Both are kept by single insertions and removals, whatever the operation
does to the other keyspaces.
-/
namespace Dioptron

variable {C : Crypto}

/-- No record lies with the metadata or with the wrapped keys. -/
theorem Name.slot_ne {B : Type} (n : Name B) :
    n.slot.keyspace ≠ .metadata ∧ n.slot.keyspace ≠ .keys := by
  rcases n with t | t | t | n | ⟨t, n⟩
  case global => cases n <;> exact ⟨nofun, nofun⟩
  case sealed => cases n <;> exact ⟨nofun, nofun⟩
  all_goals exact ⟨nofun, nofun⟩

/-- The keyspaces of records. -/
def Keyspace.HoldsRecords (keyspace : Keyspace) : Prop :=
  keyspace ≠ .metadata ∧ keyspace ≠ .keys

/-- The records a database holds. -/
structure Records (key : Name C.Block → Str C.Block) (under : Name C.Block → SealingKey C → Prop)
    (content : Name C.Block → Option (Plain C.Block)) (db : Database C) : Prop where
  inj : ∀ n n', n.slot.keyspace = n'.slot.keyspace → key n = key n' → n = n'
  stored : ∀ n p, content n = some p → ∃ k nonce, under n k ∧
    db.get n.slot.keyspace (key n) = some (sealedValue k n.slot (key n) nonce p)
  named : ∀ keyspace k v, db.get keyspace k = some v → keyspace.HoldsRecords →
    ∃ n p, n.slot.keyspace = keyspace ∧ k = key n ∧ content n = some p

namespace Records

variable {key : Name C.Block → Str C.Block} {under under' : Name C.Block → SealingKey C → Prop}
  {content : Name C.Block → Option (Plain C.Block)} {db db' : Database C} {n : Name C.Block}
  {p : Plain C.Block}

theorem get_none (h : Records key under content db) (hn : content n = none) :
    db.get n.slot.keyspace (key n) = none := by
  cases hget : db.get n.slot.keyspace (key n) with
  | none => rfl
  | some =>
    obtain ⟨n', p, hspace, hkey, hp⟩ := h.named _ _ _ hget n.slot_ne
    obtain rfl := h.inj _ _ hspace.symm hkey
    rw [hn] at hp
    cases hp

theorem get_isSome (h : Records key under content db) (n : Name C.Block) :
    (db.get n.slot.keyspace (key n)).isSome = (content n).isSome := by
  cases hn : content n with
  | none => rw [h.get_none hn]; rfl
  | some p =>
    obtain ⟨k, nonce, -, hget⟩ := h.stored n p hn
    rw [hget]
    rfl

/-- What is found at a key. -/
theorem sealed_of_get (h : Records key under content db) {keyspace : Keyspace} {k : Str C.Block}
    {v : Value C} (hget : db.get keyspace k = some v) (hspace : keyspace.HoldsRecords) :
    ∃ n p sk nonce, n.slot.keyspace = keyspace ∧ k = key n ∧ content n = some p ∧ under n sk ∧
      v = sealedValue sk n.slot (key n) nonce p := by
  obtain ⟨n, p, rfl, rfl, hp⟩ := h.named _ _ _ hget hspace
  obtain ⟨sk, nonce, hsk, hstored⟩ := h.stored n p hp
  rw [hstored] at hget
  exact ⟨n, p, sk, nonce, rfl, rfl, hp, hsk, (Option.some.inj hget).symm⟩

/-- The keys may move for names without a record, and records may change which sealing
keys are theirs as long as the one in use stays one of them. -/
theorem change {key' : Name C.Block → Str C.Block} (h : Records key under content db)
    (hinj : ∀ n n', n.slot.keyspace = n'.slot.keyspace → key' n = key' n' → n = n')
    (hkey : ∀ n, (content n).isSome → key' n = key n)
    (hunder : ∀ n k, (content n).isSome → under n k → under' n k)
    (hget : ∀ keyspace k, keyspace.HoldsRecords → db'.get keyspace k = db.get keyspace k) :
    Records key' under' content db' where
  inj := hinj
  stored := by
    intro n p hp
    have hsome : (content n).isSome := by rw [hp]; rfl
    obtain ⟨k, nonce, hk, hstored⟩ := h.stored n p hp
    refine ⟨k, nonce, hunder n k hsome hk, ?_⟩
    rw [hget _ _ n.slot_ne, hkey n hsome, hstored]
  named := by
    intro keyspace k v hfound hspace
    rw [hget _ _ hspace] at hfound
    obtain ⟨n, p, hn, rfl, hp⟩ := h.named _ _ _ hfound hspace
    exact ⟨n, p, hn, (hkey n (by rw [hp]; rfl)).symm, hp⟩

variable (h : Records key under content db)

include h

/-- More may be said of the sealing keys in use. -/
theorem sharpen (hunder : ∀ n p k nonce, content n = some p → under n k →
      db.get n.slot.keyspace (key n) = some (sealedValue k n.slot (key n) nonce p) → under' n k) :
    Records key under' content db where
  inj := h.inj
  stored := by
    intro n p hp
    obtain ⟨k, nonce, hk, hget⟩ := h.stored n p hp
    exact ⟨k, nonce, hunder n p k nonce hp hk hget, hget⟩
  named := h.named

/-- Other keyspaces do not matter. -/
theorem of_get
    (hget : ∀ keyspace k, keyspace.HoldsRecords → db'.get keyspace k = db.get keyspace k) :
    Records key under content db' :=
  h.change h.inj (fun _ _ => rfl) (fun _ _ _ hk => hk) hget

theorem insert {sk : SealingKey C} (nonce : C.Nonce)
    (hunder : ∀ m k, m ≠ n → (content m).isSome → under m k → under' m k) (hn : under' n sk) :
    Records key under' (Function.update content n (some p))
      (db.insert n.slot.keyspace (key n) (sealedValue sk n.slot (key n) nonce p)) where
  inj := h.inj
  stored := by
    intro m q hq
    rw [Function.update_apply] at hq
    split_ifs at hq with hm
    · subst hm
      cases hq
      exact ⟨sk, nonce, hn, Keyspaces.get_insert_self⟩
    · obtain ⟨k, nonce', hk, hget⟩ := h.stored m q hq
      refine ⟨k, nonce', hunder m k hm (by rw [hq]; rfl) hk, ?_⟩
      rw [Keyspaces.get_insert_of_ne, hget]
      by_cases hspace : n.slot.keyspace = m.slot.keyspace
      · exact .inr fun hkeys => hm (h.inj _ _ hspace hkeys).symm
      · exact .inl hspace
  named := by
    intro keyspace k v hget hspace
    rw [Keyspaces.get_insert] at hget
    split_ifs at hget with hhere
    · obtain ⟨rfl, rfl⟩ := hhere
      exact ⟨n, p, rfl, rfl, by simp⟩
    · obtain ⟨m, q, hm, rfl, hq⟩ := h.named _ _ _ hget hspace
      refine ⟨m, q, hm, rfl, ?_⟩
      rw [Function.update_of_ne, hq]
      rintro rfl
      exact hhere ⟨hm, rfl⟩

theorem remove :
    Records key under (Function.update content n none) (db.remove n.slot.keyspace (key n)) where
  inj := h.inj
  stored := by
    intro m q hq
    rw [Function.update_apply] at hq
    split_ifs at hq with hm
    obtain ⟨k, nonce, hk, hget⟩ := h.stored m q hq
    refine ⟨k, nonce, hk, ?_⟩
    rw [Keyspaces.get_remove_of_ne, hget]
    by_cases hspace : n.slot.keyspace = m.slot.keyspace
    · exact .inr fun hkeys => hm (h.inj _ _ hspace hkeys).symm
    · exact .inl hspace
  named := by
    intro keyspace k v hget hspace
    rw [Keyspaces.get_remove] at hget
    split_ifs at hget with hhere
    obtain ⟨m, q, hm, rfl, hq⟩ := h.named _ _ _ hget hspace
    refine ⟨m, q, hm, rfl, ?_⟩
    rw [Function.update_of_ne, hq]
    rintro rfl
    exact hhere ⟨hm, rfl⟩

end Records

/-! ## Wrapped keys -/

/-- The wrapped keys a database holds: those of `held`, each with a value `value` gives
it under some nonce. -/
structure Wraps (key : WrapName → Str C.Block) (held : Set WrapName)
    (value : C.Nonce → WrapName → Value C) (db : Database C) : Prop where
  wrapInj : Function.Injective key
  wrapped : ∀ w ∈ held, ∃ nonce, db.get .keys (key w) = some (value nonce w)
  wrapNamed : ∀ k v, db.get .keys k = some v → ∃ w ∈ held, k = key w

namespace Wraps

variable {key : WrapName → Str C.Block} {held held' : Set WrapName}
  {value value' : C.Nonce → WrapName → Value C} {db db' : Database C} {w : WrapName}

variable (h : Wraps key held value db)

include h

/-- An entry is a key that is held, wrapped under some nonce. -/
theorem exists_wrap {k : Str C.Block} {v : Value C} (hget : db.get .keys k = some v) :
    ∃ w ∈ held, k = key w ∧ ∃ nonce, v = value nonce w := by
  obtain ⟨w, hw, rfl⟩ := h.wrapNamed k v hget
  obtain ⟨nonce, hwrapped⟩ := h.wrapped w hw
  exact ⟨w, hw, rfl, nonce, Option.some.inj (hget.symm.trans hwrapped)⟩

theorem get_none (hw : w ∉ held) : db.get .keys (key w) = none := by
  cases hget : db.get .keys (key w) with
  | none => rfl
  | some =>
    obtain ⟨w', hw', hkey⟩ := h.wrapNamed _ _ hget
    rw [h.wrapInj hkey] at hw
    exact absurd hw' hw

/-- Values may change for keys that are not held, and other keyspaces do not matter. -/
theorem change (hheld : ∀ w, w ∈ held' ↔ w ∈ held)
    (hvalue : ∀ nonce, ∀ w ∈ held, value' nonce w = value nonce w)
    (hget : ∀ k, db'.get .keys k = db.get .keys k) : Wraps key held' value' db' where
  wrapInj := h.wrapInj
  wrapped := by
    intro w hw
    obtain ⟨nonce, hstored⟩ := h.wrapped w ((hheld w).mp hw)
    exact ⟨nonce, by rw [hget, hstored, hvalue nonce w ((hheld w).mp hw)]⟩
  wrapNamed := by
    intro k v hfound
    rw [hget] at hfound
    obtain ⟨w, hw, hk⟩ := h.wrapNamed k v hfound
    exact ⟨w, (hheld w).mpr hw, hk⟩

theorem of_get (hget : ∀ k, db'.get .keys k = db.get .keys k) :
    Wraps key held value db' := h.change (fun _ => .rfl) (fun _ _ _ => rfl) hget

theorem insert (nonce : C.Nonce) {v : Value C} (hheld : ∀ w', w' ∈ held' ↔ w' = w ∨ w' ∈ held)
    (hvalue : ∀ nonce, ∀ w' ∈ held, w' ≠ w → value' nonce w' = value nonce w')
    (hv : v = value' nonce w) : Wraps key held' value' (db.insert .keys (key w) v) where
  wrapInj := h.wrapInj
  wrapped := by
    intro w' hw'
    by_cases hne : w' = w
    · subst hne
      exact ⟨nonce, by rw [Keyspaces.get_insert_self, hv]⟩
    · have hold : w' ∈ held := ((hheld w').mp hw').resolve_left hne
      obtain ⟨nonce', hget⟩ := h.wrapped w' hold
      refine ⟨nonce', ?_⟩
      rw [Keyspaces.get_insert_of_ne (.inr fun hk => hne (h.wrapInj hk).symm), hget,
        hvalue nonce' w' hold hne]
  wrapNamed := by
    intro k u hget
    rw [Keyspaces.get_insert] at hget
    split_ifs at hget with hhere
    · exact ⟨w, (hheld w).mpr (.inl rfl), hhere.2.symm⟩
    · obtain ⟨w', hw', hk⟩ := h.wrapNamed k u hget
      exact ⟨w', (hheld w').mpr (.inr hw'), hk⟩

theorem remove (hheld : ∀ w', w' ∈ held' ↔ w' ≠ w ∧ w' ∈ held) :
    Wraps key held' value (db.remove .keys (key w)) where
  wrapInj := h.wrapInj
  wrapped := by
    intro w' hw'
    obtain ⟨hne, hold⟩ := (hheld w').mp hw'
    obtain ⟨nonce, hget⟩ := h.wrapped w' hold
    exact ⟨nonce, by rw [Keyspaces.get_remove_of_ne (.inr fun hk => hne (h.wrapInj hk).symm), hget]⟩
  wrapNamed := by
    intro k u hget
    rw [Keyspaces.get_remove] at hget
    split_ifs at hget with hhere
    obtain ⟨w', hw', hk⟩ := h.wrapNamed k u hget
    refine ⟨w', (hheld w').mpr ⟨?_, hw'⟩, hk⟩
    rintro rfl
    exact hhere ⟨rfl, hk.symm⟩

end Wraps
end Dioptron
