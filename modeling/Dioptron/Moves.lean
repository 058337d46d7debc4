import Dioptron.Shredding

/-! # Moving everything under the store keys

A root rotation stages one move for every record sealed under the store keys and for
every wrapped key: the old key goes, and the new key gets the same content under the
new root.  `Carried` says that a list of moves does this for one keyspace; the staging
functions are shown to produce such lists, and applying them to represent the same book
under the new root.
-/
namespace Dioptron

variable {C : Crypto}

/-- The keys after the root key changed. -/
def KeyState.reroot (K : KeyState C) (root : C.Block) (rootId : KeyId) (salt : C.Block) :
    KeyState C :=
  { K with root := root, rootId := rootId, salt := salt }

/-! ## Applying moves -/

section Apply

variable {db : Database C} {moves : List (Move C)} {keyspace : Keyspace} {k : Str C.Block}

/-- A key that some move writes holds what a move writes there. -/
theorem get_applyMoves_of_new (db : Database C) {m : Move C} (hm : m ∈ moves) :
    ∃ m' ∈ moves, m'.keyspace = m.keyspace ∧ m'.new = m.new ∧
      (applyMoves db moves).get m.keyspace m.new = some m'.value :=
  Keyspaces.get_foldl_insert_of_mem hm

/-- A key that moves only vacate is free. -/
theorem get_applyMoves_of_old {m : Move C} (hm : m ∈ moves)
    (h : ∀ m' ∈ moves, m'.keyspace ≠ m.keyspace ∨ m'.new ≠ m.old) :
    (applyMoves db moves).get m.keyspace m.old = none :=
  (Keyspaces.get_foldl_insert_of_not h).trans (Keyspaces.get_foldl_remove_of_mem hm)

/-- Every other key stays as it is. -/
theorem get_applyMoves_of_not (hnew : ∀ m ∈ moves, m.keyspace ≠ keyspace ∨ m.new ≠ k)
    (hold : ∀ m ∈ moves, m.keyspace ≠ keyspace ∨ m.old ≠ k) :
    (applyMoves db moves).get keyspace k = db.get keyspace k :=
  (Keyspaces.get_foldl_insert_of_not hnew).trans (Keyspaces.get_foldl_remove_of_not hold)

/-- What is found after the moves was written by one or was there and not moved. -/
theorem get_applyMoves_cases {v : Value C} (h : (applyMoves db moves).get keyspace k = some v) :
    (∃ m ∈ moves, m.keyspace = keyspace ∧ m.new = k) ∨
      db.get keyspace k = some v ∧ ∀ m ∈ moves, ¬ (m.keyspace = keyspace ∧ m.old = k) := by
  by_cases hnew : ∃ m ∈ moves, m.keyspace = keyspace ∧ m.new = k
  · exact .inl hnew
  · have hnew : ∀ m ∈ moves, m.keyspace ≠ keyspace ∨ m.new ≠ k :=
      fun m hm => not_and_or.mp fun hplace => hnew ⟨m, hm, hplace⟩
    have hold : ∀ m ∈ moves, ¬ (m.keyspace = keyspace ∧ m.old = k) := by
      rintro m hm ⟨rfl, rfl⟩
      rw [get_applyMoves_of_old hm hnew] at h
      cases h
    rw [get_applyMoves_of_not hnew fun m hm => not_and_or.mp (hold m hm)] at h
    exact .inr ⟨h, hold⟩

end Apply

/-! ## What moves carry over -/

theorem Name.exists_sealed {B : Type} {n : Name B} (h : ¬ n.StoreScoped) :
    ∃ t m, n = .sealed t m := by
  simpa only [Name.StoreScoped, ne_eq, not_forall, not_not] using h

/-- `m` moves the record `n` from the keys of `K` to those of `K'`. -/
def Relocates (K K' : KeyState C) (L : Custody C) (n : Name C.Block) (m : Move C) : Prop :=
  ∃ p nonce, K.content L n = some p ∧
    m = ⟨n.slot.keyspace, K.key L n, K'.key L n,
      sealedValue K'.storeKeys.metaKey n.slot (K'.key L n) nonce p⟩

/-- `m` moves the wrapped key `w`. -/
def Rewraps (K K' : KeyState C) (L : Custody C) (w : WrapName) (m : Move C) : Prop :=
  ∃ nonce, m = ⟨.keys, K.wrapKey w, K'.wrapKey w, K'.wrap L nonce w⟩

/-- The moves of a list are those of the records of one keyspace. -/
structure Carried (K K' : KeyState C) (L : Custody C) (keyspace : Keyspace)
    (moves : List (Move C)) : Prop where
  sound : ∀ m ∈ moves, ∃ n, n.StoreScoped ∧ n.slot.keyspace = keyspace ∧ Relocates K K' L n m
  complete : ∀ n, n.StoreScoped → n.slot.keyspace = keyspace → (K.content L n).isSome →
    ∃ m ∈ moves, Relocates K K' L n m

/-- The moves of a list are those of everything under the store keys. -/
structure CarriesAll (K K' : KeyState C) (L : Custody C) (moves : List (Move C)) : Prop where
  sound : ∀ m ∈ moves, (∃ n, n.StoreScoped ∧ Relocates K K' L n m) ∨
    ∃ w ∈ K.Wrapped L, Rewraps K K' L w m
  records : ∀ n, n.StoreScoped → (K.content L n).isSome → ∃ m ∈ moves, Relocates K K' L n m
  wraps : ∀ w ∈ K.Wrapped L, ∃ m ∈ moves, Rewraps K K' L w m

namespace CarriesAll

variable {K : KeyState C} {L : Custody C} {s : Store C} {moves : List (Move C)}
  {root salt : C.Block} {rootId : KeyId}

/-- A move that writes or vacates the place of a record is a move of that record. -/
theorem name_of_place {K' : KeyState C} (h : CarriesAll K K' L moves) {m : Move C} (hm : m ∈ moves)
    {n : Name C.Block} (hspace : m.keyspace = n.slot.keyspace)
    (hkey : m.new = K'.key L n ∨ m.old = K'.key L n ∨ m.new = K.key L n ∨ m.old = K.key L n) :
    n.StoreScoped ∧ Relocates K K' L n m := by
  rcases h.sound m hm with ⟨n', hn', p, nonce, hp, rfl⟩ | ⟨w, -, nonce, rfl⟩
  · have hname : n' = n := by
      rcases hkey with hkey | hkey | hkey | hkey <;> exact RecordKey.ofName_inj hspace hkey
    subst hname
    exact ⟨hn', p, nonce, hp, rfl⟩
  · exact absurd hspace.symm n.slot_ne.2

theorem name_of_wrap_place {K' : KeyState C} (h : CarriesAll K K' L moves) {m : Move C}
    (hm : m ∈ moves) {w : WrapName} (hspace : m.keyspace = .keys) (hkey : m.new = K'.wrapKey w) :
    Rewraps K K' L w m := by
  rcases h.sound m hm with ⟨n, -, p, nonce, -, rfl⟩ | ⟨w', -, nonce, rfl⟩
  · exact absurd hspace n.slot_ne.2
  · obtain rfl : w' = w := RecordKey.ofWrap_inj hkey
    exact ⟨nonce, rfl⟩

/-- After the moves the database holds every record, under the new root. -/
theorem applyMoves_records (h : CarriesAll K (K.reroot root rootId salt) L moves)
    (hrep : Represents K L s) :
    Records ((K.reroot root rootId salt).key L) ((K.reroot root rootId salt).SealedUnder L)
      (K.content L) (applyMoves s.db moves) where
  inj := fun _ _ => KeyState.key_inj
  stored := by
    intro n p hp
    by_cases hn : n.StoreScoped
    · obtain ⟨m, hm, q, nonce, -, rfl⟩ := h.records n hn (by rw [hp]; rfl)
      obtain ⟨m', hm', hspace, hkey, hget⟩ := get_applyMoves_of_new s.db hm
      obtain ⟨-, q', nonce', hq', rfl⟩ := h.name_of_place hm' hspace (.inl hkey)
      rw [hp] at hq'
      cases hq'
      exact ⟨_, nonce', (KeyState.sealedUnder_of_storeScoped hn).mpr rfl, hget⟩
    · -- A tenant's own record stays where it is.
      obtain ⟨t, n, rfl⟩ := Name.exists_sealed hn
      obtain ⟨k, nonce, hk, hget⟩ := hrep.stored _ p hp
      refine ⟨k, nonce, hk, ?_⟩
      refine (get_applyMoves_of_not ?_ ?_).trans hget <;> intro m hm <;> by_contra hplace <;>
        rw [not_or, not_not, not_not] at hplace
      · exact hn (h.name_of_place hm hplace.1 (.inr (.inr (.inl hplace.2)))).1
      · exact hn (h.name_of_place hm hplace.1 (.inr (.inr (.inr hplace.2)))).1
  named := by
    intro keyspace k v hget hspace
    rcases get_applyMoves_cases hget with ⟨m, hm, rfl, rfl⟩ | ⟨hget, hold⟩
    · rcases h.sound m hm with ⟨n, -, p, nonce, hp, rfl⟩ | ⟨w, -, nonce, rfl⟩
      · exact ⟨n, p, rfl, rfl, hp⟩
      · exact absurd rfl hspace.2
    · obtain ⟨n, p, rfl, rfl, hp⟩ := hrep.named _ _ _ hget hspace
      refine ⟨n, p, rfl, ?_, hp⟩
      by_cases hn : n.StoreScoped
      · obtain ⟨m, hm, q, nonce, -, rfl⟩ := h.records n hn (by rw [hp]; rfl)
        exact absurd ⟨rfl, rfl⟩ (hold _ hm)
      · obtain ⟨t, n, rfl⟩ := Name.exists_sealed hn
        rfl

/-- So does it hold every wrapped key. -/
theorem applyMoves_wraps (h : CarriesAll K (K.reroot root rootId salt) L moves)
    (hrep : Represents K L s) :
    Wraps (K.reroot root rootId salt).wrapKey (K.Wrapped L) ((K.reroot root rootId salt).wrap L)
      (applyMoves s.db moves) where
  wrapInj := fun _ _ => RecordKey.ofWrap_inj
  wrapped := by
    intro w hw
    obtain ⟨m, hm, nonce, rfl⟩ := h.wraps w hw
    obtain ⟨m', hm', hspace, hkey, hget⟩ := get_applyMoves_of_new s.db hm
    obtain ⟨nonce', rfl⟩ := h.name_of_wrap_place hm' hspace hkey
    exact ⟨nonce', hget⟩
  wrapNamed := by
    intro k v hget
    rcases get_applyMoves_cases hget with ⟨m, hm, hspace, rfl⟩ | ⟨hget, hold⟩
    · rcases h.sound m hm with ⟨n, -, p, nonce, -, rfl⟩ | ⟨w, hw, nonce, rfl⟩
      · exact absurd hspace n.slot_ne.2
      · exact ⟨w, hw, rfl⟩
    · obtain ⟨w, hw, rfl⟩ := hrep.wrapNamed k v hget
      obtain ⟨m, hm, nonce, rfl⟩ := h.wraps w hw
      exact absurd ⟨rfl, rfl⟩ (hold _ hm)

end CarriesAll
end Dioptron
