import Dioptron.Reseal

/-! # Scans of whole keyspaces

Several operations read every entry of a keyspace.  A `Shelf` is a keyspace all of whose
records are of one kind and sealed under the store keys; a scan of it lists the records
of the book, each once and in key order.
-/
namespace Dioptron

variable {C : Crypto}

/-- A keyspace of records of one kind: their names and what the book has under each. -/
structure Shelf (K : KeyState C) (L : Custody C) (ι T : Type) [Stored C.Block T] where
  slot : Slot
  name : ι → Name C.Block
  get : ι → Option T
  slot_eq : ∀ i, (name i).slot = slot
  storeScoped : ∀ i, (name i).StoreScoped
  content_eq : ∀ i, K.content L (name i) = (get i).map Stored.encode
  exhausts : ∀ n : Name C.Block, n.slot.keyspace = slot.keyspace → ∃ i, n = name i
  holds : slot.keyspace.HoldsRecords

namespace Shelf

variable (K : KeyState C) (L : Custody C)

def grants : Shelf K L GrantId GrantRecord where
  slot := .grant
  name i := .global (.grant i)
  get := L.grants
  slot_eq _ := rfl
  storeScoped _ := Name.storeScoped_global _
  content_eq _ := rfl
  exhausts := by
    rintro (t | t | t | (_ | _ | _ | _ | _ | _ | _) | ⟨t, (_ | _ | _ | _ | _ | _)⟩) h <;> cases h
    exact ⟨_, rfl⟩
  holds := ⟨nofun, nofun⟩

def revocations : Shelf K L GrantId RevocationRecord where
  slot := .revocation
  name i := .global (.revocation i)
  get := L.revocations
  slot_eq _ := rfl
  storeScoped _ := Name.storeScoped_global _
  content_eq _ := rfl
  exhausts := by
    rintro (t | t | t | (_ | _ | _ | _ | _ | _ | _) | ⟨t, (_ | _ | _ | _ | _ | _)⟩) h <;> cases h
    exact ⟨_, rfl⟩
  holds := ⟨nofun, nofun⟩

def sessions : Shelf K L SessionId SessionRecord where
  slot := .session
  name i := .global (.session i)
  get := L.sessions
  slot_eq _ := rfl
  storeScoped _ := Name.storeScoped_global _
  content_eq _ := rfl
  exhausts := by
    rintro (t | t | t | (_ | _ | _ | _ | _ | _ | _) | ⟨t, (_ | _ | _ | _ | _ | _)⟩) h <;> cases h
    exact ⟨_, rfl⟩
  holds := ⟨nofun, nofun⟩

def invocations : Shelf K L InvocationId InvocationRecord where
  slot := .invocation
  name i := .global (.invocation i)
  get := L.invocations
  slot_eq _ := rfl
  storeScoped _ := Name.storeScoped_global _
  content_eq _ := rfl
  exhausts := by
    rintro (t | t | t | (_ | _ | _ | _ | _ | _ | _) | ⟨t, (_ | _ | _ | _ | _ | _)⟩) h <;> cases h
    exact ⟨_, rfl⟩
  holds := ⟨nofun, nofun⟩

def stubs : Shelf K L AuditSeq AuditStubRecord where
  slot := .auditStub
  name i := .global (.auditStub i)
  get := L.stubs
  slot_eq _ := rfl
  storeScoped _ := Name.storeScoped_global _
  content_eq _ := rfl
  exhausts := by
    rintro (t | t | t | (_ | _ | _ | _ | _ | _ | _) | ⟨t, (_ | _ | _ | _ | _ | _)⟩) h <;> cases h
    exact ⟨_, rfl⟩
  holds := ⟨nofun, nofun⟩

def rekeys : Shelf K L TenantId (RekeyRecord C.Block) where
  slot := .rekey
  name i := .rekey i
  get := K.rekey
  slot_eq _ := rfl
  storeScoped _ _ _ := nofun
  content_eq _ := rfl
  exhausts := by
    rintro (t | t | t | (_ | _ | _ | _ | _ | _ | _) | ⟨t, (_ | _ | _ | _ | _ | _)⟩) h <;> cases h
    exact ⟨_, rfl⟩
  holds := ⟨nofun, nofun⟩

variable {K : KeyState C} {L : Custody C} {s : Store C} {ι T : Type} [Stored C.Block T]

/-- What a scan finds at one entry. -/
theorem open_entry (h : Represents K L s) (shelf : Shelf K L ι T) {e : Str C.Block × Value C}
    (he : e ∈ s.db.entries shelf.slot.keyspace) :
    ∃ i r, e.1 = K.key L (shelf.name i) ∧ shelf.get i = some r ∧
      openBytes [s.keys.metaKey] shelf.slot e.1 e.2 = .ok (Stored.encode r) ∧
      decodeAs T shelf.slot.keyspace (Stored.encode r : Plain C.Block) = .ok r := by
  obtain ⟨k, v⟩ := e
  obtain ⟨n, p, sk, nonce, hspace, rfl, hp, hsk, rfl⟩ :=
    h.toRecords.sealed_of_get (Keyspaces.mem_entries.mp he) shelf.holds
  obtain ⟨i, rfl⟩ := shelf.exhausts n hspace
  rw [shelf.content_eq] at hp
  obtain ⟨r, hr, rfl⟩ := Option.map_eq_some_iff.mp hp
  refine ⟨i, r, rfl, hr, ?_, ?_⟩
  · obtain rfl := (KeyState.sealedUnder_of_storeScoped (shelf.storeScoped i)).mp hsk
    rw [openBytes_sealedValue _ _ _ _ (KeyState.key_len_lt _), h.keys, shelf.slot_eq]
    simp
  · have hdecode : Stored.decode (Stored.encode r : Plain C.Block) = some r :=
      (Stored.decode_eq_some _ r).mpr rfl
    simp only [decodeAs, hdecode]

/-- Every record of the book is at an entry. -/
theorem exists_entry (h : Represents K L s) (shelf : Shelf K L ι T) {i : ι} {r : T}
    (hr : shelf.get i = some r) :
    ∃ v, (K.key L (shelf.name i), v) ∈ s.db.entries shelf.slot.keyspace := by
  have hp : K.content L (shelf.name i) = some (Stored.encode r) := by
    rw [shelf.content_eq, hr]
    rfl
  obtain ⟨sk, nonce, -, hget⟩ := h.stored _ _ hp
  rw [shelf.slot_eq] at hget
  exact ⟨_, Keyspaces.mem_entries.mpr hget⟩

theorem name_injective (shelf : Shelf K L ι T) (hname : Function.Injective shelf.name) {i j : ι}
    (h : K.key L (shelf.name i) = K.key L (shelf.name j)) : i = j :=
  hname (KeyState.key_inj (by rw [shelf.slot_eq, shelf.slot_eq]) h)

/-- A scan lists the record at each entry. -/
theorem openAll_ok (h : Represents K L s) (shelf : Shelf K L ι T) :
    ∃ rs, s.openAll T shelf.slot = .ok rs ∧
      List.Forall₂ (fun e r => ∃ i, e.1 = K.key L (shelf.name i) ∧ shelf.get i = some r)
        (s.db.entries shelf.slot.keyspace) rs := by
  refine exists_mapM_ok fun e he => ?_
  obtain ⟨i, r, hkey, hr, hopen, hdecode⟩ := shelf.open_entry h he
  refine ⟨r, ?_, i, hkey, hr⟩
  rw [hopen, ok_bind, hdecode]

/-- A scan of records that lie under their own names lists each once, and no others. -/
theorem openAll_records (h : Represents K L s) (shelf : Shelf K L ι T) {name : T → ι}
    (hname : ∀ i r, shelf.get i = some r → name r = i) :
    ∃ rs, s.openAll T shelf.slot = .ok rs ∧ (rs.map name).Nodup ∧
      ∀ r, r ∈ rs ↔ shelf.get (name r) = some r := by
  obtain ⟨rs, hopen, hall⟩ := shelf.openAll_ok h
  refine ⟨rs, hopen, ?_, ?_⟩
  · have hkeys := Keyspaces.entries_keys_nodup s.db shelf.slot.keyspace
    rw [List.nodup_iff_pairwise_ne, List.pairwise_map] at hkeys ⊢
    refine pairwise_of_forall₂ hall hkeys ?_
    rintro e r e' r' ⟨i, hkey, hr⟩ ⟨i', hkey', hr'⟩ hne heq
    refine hne ?_
    rw [hkey, hkey', ← hname i r hr, ← hname i' r' hr', heq]
  · intro r
    constructor
    · intro hr
      obtain ⟨e, -, i, -, hget⟩ := exists_of_mem_right hall hr
      rw [hname i r hget, hget]
    · intro hget
      obtain ⟨v, he⟩ := shelf.exists_entry h hget
      obtain ⟨r', hr', i, hkey, hget'⟩ := exists_of_mem_left hall he
      have hsame : shelf.name (name r) = shelf.name i :=
        KeyState.key_inj (by rw [shelf.slot_eq, shelf.slot_eq]) hkey
      have hcontent := shelf.content_eq (name r)
      rw [hsame, shelf.content_eq i, hget, hget'] at hcontent
      have hencode : (Stored.encode r' : Plain C.Block) = Stored.encode r :=
        Option.some.inj hcontent
      have hdecode := (Stored.decode_eq_some _ r').mpr hencode.symm
      rw [(Stored.decode_eq_some _ r).mpr rfl] at hdecode
      cases hdecode
      exact hr'

end Shelf
end Dioptron
