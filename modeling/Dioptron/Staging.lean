import Dioptron.Moves

/-! # Staging a root rotation

One lemma per staging function: what it is given of the entries of a keyspace it stages
the moves of, each once.  Ledgers and wrapped keys do not name their owners and are
taken one by one from the entries that remain; `Remaining.Holds` says which those are.
-/
namespace Dioptron

variable {C : Crypto}

namespace Store

variable {s : Store C} {slot slot' : Slot} {rk rk' : Str C.Block} {nonce : C.Nonce}
  {p : Plain C.Block}

theorem tryOpen_of_open {v : Value C} (h : openBytes [s.keys.metaKey] slot rk v = .ok p) :
    s.tryOpen slot rk v = .ok (some p) := by
  rw [tryOpen, h]

/-- Another kind of record does not open. -/
theorem tryOpen_of_ne (key : SealingKey C) (hrk : rk.len < 2 ^ 16) (hslot : slot ≠ slot') :
    s.tryOpen slot rk (sealedValue key slot' rk' nonce p) = .ok none := by
  rw [tryOpen, openBytes_sealedValue _ _ _ _ hrk]
  cases hfind : [s.keys.metaKey].find? fun k => k.id == key.id with
  | none => rfl
  | some =>
    dsimp only
    rw [if_neg fun hall => hslot hall.2.1]

theorem tryOpen_self (hrk : rk.len < 2 ^ 16) :
    s.tryOpen slot rk (sealedValue s.keys.metaKey slot rk nonce p) = .ok (some p) := by
  refine tryOpen_of_open ?_
  rw [openBytes_sealedValue _ _ _ _ hrk]
  simp

end Store

theorem decodeAs_encode {T : Type} [Stored C.Block T] (keyspace : Keyspace) (r : T) :
    decodeAs T keyspace (Stored.encode r : Plain C.Block) = .ok r := by
  have hdecode : Stored.decode (Stored.encode r : Plain C.Block) = some r :=
    (Stored.decode_eq_some _ r).mpr rfl
  simp only [decodeAs, hdecode]

namespace Represents

variable {K K' : KeyState C} {L : Custody C} {s : Store C}

theorem stageMove_ok (h : Represents K L s) (K' : KeyState C) {n : Name C.Block}
    {p : Plain C.Block} (hp : K.content L n = some p) :
    ∃ m, s.stageMove K'.storeKeys n.slot (K.key L n) (K'.key L n) p = .ok m ∧
      Relocates K K' L n m := by
  refine ⟨_, ?_, p, s.nonce n.slot.keyspace (K'.key L n), hp, rfl⟩
  rw [Store.stageMove, sealBytes_eq_ok (KeyState.key_len_lt n) (h.sized n p hp)]
  rfl

/-- Moves made entry by entry carry a keyspace over. -/
theorem carried_of_entries (h : Represents K L s) {keyspace : Keyspace} {moves : List (Move C)}
    (hmoves : List.Forall₂ (fun e m => ∃ n, n.StoreScoped ∧ n.slot.keyspace = keyspace ∧
      e.1 = K.key L n ∧ Relocates K K' L n m) (s.db.entries keyspace) moves) :
    Carried K K' L keyspace moves where
  sound := by
    intro m hm
    obtain ⟨e, -, n, hn, hspace, -, hmove⟩ := exists_of_mem_right hmoves hm
    exact ⟨n, hn, hspace, hmove⟩
  complete := by
    rintro n hn rfl hsome
    obtain ⟨p, hp⟩ := Option.isSome_iff_exists.mp hsome
    obtain ⟨k, nonce, -, hget⟩ := h.stored n p hp
    obtain ⟨m, hm, n', hn', hspace, hkey, hmove⟩ :=
      exists_of_mem_left hmoves (Keyspaces.mem_entries.mpr hget)
    obtain rfl := KeyState.key_inj hspace.symm hkey
    exact ⟨m, hm, hmove⟩

/-- Every record of a shelf moves. -/
theorem moveAll_ok (h : Represents K L s) (K' : KeyState C) {ι T : Type} [Stored C.Block T]
    (shelf : Shelf K L ι T) (name : T → Name C.Block)
    (hname : ∀ i r, shelf.get i = some r → name r = shelf.name i) :
    ∃ ms, s.moveAll T K'.storeKeys shelf.slot name = .ok ms ∧
      List.Forall₂ (fun e m => ∃ i, e.1 = K.key L (shelf.name i) ∧ shelf.get i = some m.1 ∧
        Relocates K K' L (shelf.name i) m.2) (s.db.entries shelf.slot.keyspace) ms := by
  refine exists_mapM_ok fun e he => ?_
  obtain ⟨i, r, hkey, hr, hopen, hdecode⟩ := shelf.open_entry h he
  have hp : K.content L (shelf.name i) = some (Stored.encode r) := by
    rw [shelf.content_eq, hr]
    rfl
  obtain ⟨m, hstage, hmove⟩ := h.stageMove_ok K' hp
  refine ⟨(r, m), ?_, i, hkey, hr, hmove⟩
  rw [Store.tryOpen_of_open hopen, ok_bind]
  show (decodeAs T shelf.slot.keyspace (Stored.encode r) >>= _) = _
  rw [hdecode, ok_bind, hname i r hr, ← KeyState.key_of_storeScoped (L := L) (shelf.storeScoped i),
    hkey, ← shelf.slot_eq i, hstage]
  rfl

/-- What the moves of a shelf carry over. -/
theorem carried_of_shelf (h : Represents K L s) {ι T : Type} [Stored C.Block T]
    (shelf : Shelf K L ι T) {ms : List (T × Move C)}
    (hms : List.Forall₂ (fun e m => ∃ i, e.1 = K.key L (shelf.name i) ∧ shelf.get i = some m.1 ∧
        Relocates K K' L (shelf.name i) m.2) (s.db.entries shelf.slot.keyspace) ms) :
    Carried K K' L shelf.slot.keyspace (ms.map Prod.snd) := by
  refine h.carried_of_entries (List.forall₂_map_right_iff.mpr (hms.imp ?_))
  rintro e m ⟨i, hkey, -, hmove⟩
  exact ⟨shelf.name i, shelf.storeScoped i, by rw [shelf.slot_eq], hkey, hmove⟩

/-- The records of a shelf are those its moves name. -/
theorem mem_of_shelf (h : Represents K L s) {ι T : Type} [Stored C.Block T]
    (shelf : Shelf K L ι T) {ms : List (T × Move C)}
    (hms : List.Forall₂ (fun e m => ∃ i, e.1 = K.key L (shelf.name i) ∧ shelf.get i = some m.1 ∧
        Relocates K K' L (shelf.name i) m.2) (s.db.entries shelf.slot.keyspace) ms)
    (hinj : Function.Injective shelf.name) (r : T) :
    r ∈ ms.map Prod.fst ↔ ∃ i, shelf.get i = some r := by
  rw [List.mem_map]
  constructor
  · rintro ⟨m, hm, rfl⟩
    obtain ⟨e, -, i, -, hr, -⟩ := exists_of_mem_right hms hm
    exact ⟨i, hr⟩
  · rintro ⟨i, hr⟩
    obtain ⟨v, hv⟩ := shelf.exists_entry h hr
    obtain ⟨m, hm, i', hkey, hr', -⟩ := exists_of_mem_left hms hv
    obtain rfl := shelf.name_injective hinj hkey
    rw [hr] at hr'
    exact ⟨m, hm, (Option.some.inj hr').symm⟩

/-! ## Tenants and locators -/

/-- What one entry of the tenants keyspace stands for. -/
def OwnerAt (K : KeyState C) (L : Custody C) (k : Str C.Block) (owner : TenantOwner)
    (n : Name C.Block) : Prop :=
  k = K.key L n ∧
    ((∃ t p, n = .tenant t ∧ L.profiles t = some p ∧ owner = .live (p.withKey (K.active t))) ∨
      ∃ t r, n = .tombstone t ∧ L.tombstones t = some r ∧ owner = .shredded t)

theorem moveTenant_ok (h : Represents K L s) (hnamed : L.Named) (K' : KeyState C)
    {e : Str C.Block × Value C} (he : e ∈ s.db.entries .tenants) :
    ∃ om, s.moveTenant K'.storeKeys e = .ok om ∧
      ∃ n, OwnerAt K L e.1 om.1 n ∧ Relocates K K' L n om.2 := by
  obtain ⟨k, v⟩ := e
  obtain ⟨n, p, sk, nonce, hspace, rfl, hp, hsk, rfl⟩ :=
    h.toRecords.sealed_of_get (Keyspaces.mem_entries.mp he) ⟨nofun, nofun⟩
  obtain ⟨m, hstage, hmove⟩ := h.stageMove_ok K' hp
  rcases n with t | t | t | n | ⟨t, n⟩
  case tenant =>
    obtain rfl : sk = s.keys.metaKey := by rw [h.keys]; exact hsk
    obtain ⟨profile, hprofile, rfl⟩ := Option.map_eq_some_iff.mp hp
    have hid : (profile.withKey (K.active t)).id = t := hnamed.profiles t profile hprofile
    have hopen : s.tryOpen .tenant (K.key L (.tenant t)) (sealedValue s.keys.metaKey .tenant
        (K.key L (.tenant t)) nonce (.tenant (profile.withKey (K.active t)))) =
        .ok (some (.tenant (profile.withKey (K.active t)))) :=
      Store.tryOpen_self (KeyState.key_len_lt _)
    have hdecode : decodeAs TenantRecord .tenants
        (.tenant (profile.withKey (K.active t)) : Plain C.Block) =
        .ok (profile.withKey (K.active t)) := decodeAs_encode .tenants _
    refine ⟨(.live (profile.withKey (K.active t)), m), ?_, .tenant t,
      ⟨rfl, .inl ⟨t, profile, rfl, hprofile, rfl⟩⟩, hmove⟩
    unfold Store.moveTenant
    simp only [Name.slot, hopen, ok_bind, hdecode, hid]
    exact bind_eq_ok.mpr ⟨m, hstage, rfl⟩
  case tombstone =>
    obtain rfl : sk = s.keys.metaKey := by rw [h.keys]; exact hsk
    obtain ⟨r, hr, rfl⟩ := Option.map_eq_some_iff.mp hp
    have hid : r.tenant = t := hnamed.tombstones t r hr
    have hother : s.tryOpen .tenant (K.key L (.tombstone t)) (sealedValue s.keys.metaKey .tombstone
        (K.key L (.tombstone t)) nonce (.tombstone r)) = .ok none :=
      Store.tryOpen_of_ne _ (KeyState.key_len_lt _) (by decide)
    have hopen : s.tryOpen .tombstone (K.key L (.tombstone t))
      (sealedValue s.keys.metaKey .tombstone
        (K.key L (.tombstone t)) nonce (.tombstone r)) = .ok (some (.tombstone r)) :=
      Store.tryOpen_self (KeyState.key_len_lt _)
    have hdecode : decodeAs TombstoneRecord .tenants (.tombstone r : Plain C.Block) = .ok r :=
      decodeAs_encode .tenants _
    refine ⟨(.shredded r.tenant, m), ?_, .tombstone t,
      ⟨rfl, .inr ⟨t, r, rfl, hr, by rw [hid]⟩⟩, hmove⟩
    unfold Store.moveTenant
    simp only [Name.slot, hother, hopen, ok_bind, Store.expect, hdecode, hid]
    exact bind_eq_ok.mpr ⟨m, hstage, rfl⟩
  case rekey => cases hspace
  case global => cases n <;> cases hspace
  case sealed => cases n <;> cases hspace

/-- A locator moves; a tenant's own records of the keyspace stay. -/
theorem moveLocator_ok (h : Represents K L s) (hnamed : L.Named) (K' : KeyState C)
    {e : Str C.Block × Value C} (he : e ∈ s.db.entries .artifacts) :
    ∃ o, s.moveLocator K'.storeKeys e = .ok o ∧ ∃ n, n.slot.keyspace = .artifacts ∧
      e.1 = K.key L n ∧ (n.StoreScoped ∧ (∃ m, o = some m ∧ Relocates K K' L n m) ∨
        ¬ n.StoreScoped ∧ o = none) := by
  obtain ⟨k, v⟩ := e
  obtain ⟨n, p, sk, nonce, hspace, rfl, hp, hsk, rfl⟩ :=
    h.toRecords.sealed_of_get (Keyspaces.mem_entries.mp he) ⟨by decide, by decide⟩
  by_cases hn : n.StoreScoped
  · obtain ⟨id, rfl⟩ : ∃ id, n = .global (.locator id) := by
      rcases n with t | t | t | n | ⟨t, n⟩
      case global => cases n <;> cases hspace; exact ⟨_, rfl⟩
      case sealed => exact absurd rfl (hn t n)
      all_goals cases hspace
    obtain rfl : sk = s.keys.metaKey := by rw [h.keys]; exact hsk
    obtain ⟨m, hstage, hmove⟩ := h.stageMove_ok K' hp
    obtain ⟨r, hr, rfl⟩ := Option.map_eq_some_iff.mp hp
    have hid : r.artifact = id := hnamed.locators id r hr
    have hopen : s.tryOpen .locator (K.key L (.global (.locator id))) (sealedValue s.keys.metaKey
        .locator (K.key L (.global (.locator id))) nonce (.locator r)) = .ok (some (.locator r)) :=
      Store.tryOpen_self (KeyState.key_len_lt _)
    have hdecode : decodeAs LocatorRecord .artifacts (.locator r : Plain C.Block) = .ok r :=
      decodeAs_encode .artifacts _
    refine ⟨some m, ?_, _, rfl, rfl, .inl ⟨hn, m, rfl, hmove⟩⟩
    unfold Store.moveLocator
    simp only [Name.slot, GlobalName.slot, hopen, ok_bind, hdecode, hid]
    exact bind_eq_ok.mpr ⟨m, hstage, rfl⟩
  · refine ⟨none, ?_, n, hspace, rfl, .inr ⟨hn, rfl⟩⟩
    obtain ⟨t, n, rfl⟩ := Name.exists_sealed hn
    have hslot : Slot.locator ≠ (Name.sealed t n : Name C.Block).slot := by
      intro hsame
      cases n <;> cases hsame
    rw [Store.moveLocator, Store.tryOpen_of_ne sk (KeyState.key_len_lt _) hslot]
    rfl

theorem moveLocators_ok (h : Represents K L s) (hnamed : L.Named) (K' : KeyState C) :
    ∃ ms, s.moveLocators K'.storeKeys = .ok ms ∧ Carried K K' L .artifacts ms := by
  obtain ⟨os, hos, hall⟩ := exists_mapM_ok (f := s.moveLocator K'.storeKeys) fun e he =>
    h.moveLocator_ok hnamed K' (e := e) he
  refine ⟨os.filterMap id, by rw [Store.moveLocators, hos]; rfl, ?_, ?_⟩
  · intro m hm
    obtain ⟨o, ho, rfl⟩ := List.mem_filterMap.mp hm
    obtain ⟨e, -, n, hspace, -, ⟨hn, m', heq, hmove⟩ | ⟨-, hnone⟩⟩ := exists_of_mem_right hall ho
    · cases heq
      exact ⟨n, hn, hspace, hmove⟩
    · cases hnone
  · intro n hn hspace hsome
    obtain ⟨p, hp⟩ := Option.isSome_iff_exists.mp hsome
    obtain ⟨k, nonce, -, hget⟩ := h.stored n p hp
    rw [hspace] at hget
    obtain ⟨o, ho, n', hspace', hkey, hcase⟩ :=
      exists_of_mem_left hall (Keyspaces.mem_entries.mpr hget)
    obtain rfl := KeyState.key_inj (hspace.trans hspace'.symm) hkey
    rcases hcase with ⟨-, m, rfl, hmove⟩ | ⟨hnot, -⟩
    · exact ⟨m, List.mem_filterMap.mpr ⟨some m, ho, rfl⟩, hmove⟩
    · exact absurd hn hnot

end Represents

/-! ## Entries found from their owners -/

/-- The entries left are those of the names in `left`, each with a value `value` allows. -/
structure Remaining.Holds {ι : Type} (key : ι → Str C.Block) (value : ι → Value C → Prop)
    (left : Set ι) (rest : Remaining C) : Prop where
  present : ∀ i ∈ left, ∃ v, (key i, v) ∈ rest
  only : ∀ e ∈ rest, ∃ i ∈ left, e.1 = key i ∧ value i e.2

namespace Remaining.Holds

variable {ι : Type} {key : ι → Str C.Block} {value : ι → Value C → Prop} {left left' : Set ι}
  {rest : Remaining C} {i : ι}

variable (h : Holds key value left rest)

include h

theorem take_of_mem (left' : Set ι) (hkey : Function.Injective key)
    (hi : i ∈ left) (hleft : ∀ j, j ∈ left' ↔ j ≠ i ∧ j ∈ left) :
    ∃ v rest', rest.take (key i) = some (v, rest') ∧ value i v ∧ Holds key value left' rest' := by
  obtain ⟨v, hv⟩ := h.present i hi
  cases hlookup : rest.lookup (key i) with
  | none =>
    have := List.lookup_eq_none_iff.mp hlookup _ hv
    simp at this
  | some u =>
    obtain ⟨front, back, hrest, -⟩ := List.lookup_eq_some_iff.mp hlookup
    obtain ⟨j, hj, hkeys, hvalue⟩ := h.only (key i, u) (by rw [hrest]; simp)
    obtain rfl := hkey hkeys
    refine ⟨u, rest.filter fun entry => entry.1 ≠ key i, by rw [Remaining.take, hlookup], hvalue,
      ?_, ?_⟩
    · intro j hj
      obtain ⟨hne, hj⟩ := (hleft j).mp hj
      obtain ⟨w, hw⟩ := h.present j hj
      exact ⟨w, List.mem_filter.mpr ⟨hw, by simpa using fun heq => hne (hkey heq)⟩⟩
    · intro e he
      obtain ⟨he, hne⟩ := List.mem_filter.mp he
      obtain ⟨j', hj', hkeys', hvalue'⟩ := h.only e he
      refine ⟨j', (hleft j').mpr ⟨?_, hj'⟩, hkeys', hvalue'⟩
      rintro rfl
      exact absurd hkeys' (of_decide_eq_true hne)

theorem take_of_not_mem (hkey : Function.Injective key)
    (hi : i ∉ left) : rest.take (key i) = none := by
  have hlookup : rest.lookup (key i) = none := by
    rw [List.lookup_eq_none_iff]
    intro e he
    obtain ⟨j, hj, hkeys, -⟩ := h.only e he
    have hne : key i ≠ e.1 := by
      rw [hkeys]
      exact fun heq => hi (hkey heq ▸ hj)
    simpa using hne
  rw [Remaining.take, hlookup]

theorem change (hleft : ∀ j, j ∈ left' ↔ j ∈ left) :
    Holds key value left' rest where
  present := fun i hi => h.present i ((hleft i).mp hi)
  only := fun e he => by
    obtain ⟨i, hi, hrest⟩ := h.only e he
    exact ⟨i, (hleft i).mpr hi, hrest⟩

theorem isEmpty (hleft : ∀ i, i ∉ left) : rest.isEmpty := by
  rw [List.isEmpty_iff]
  refine List.eq_nil_iff_forall_not_mem.mpr fun e he => ?_
  obtain ⟨i, hi, -⟩ := h.only e he
  exact hleft i hi

end Remaining.Holds

namespace Represents

variable {K K' : KeyState C} {L : Custody C} {s : Store C}

/-- What the ledger entries hold. -/
def LedgerValue (K : KeyState C) (L : Custody C) (id : LedgerRef) (v : Value C) : Prop :=
  ∃ p nonce, K.content L (.global (.ledger id)) = some p ∧
    v = sealedValue K.storeKeys.metaKey .ledger (K.key L (.global (.ledger id))) nonce p

theorem ledgerKey_injective :
    Function.Injective fun id => K.key L (.global (.ledger id)) := by
  intro id id' hkey
  have hname : (Name.global (.ledger id) : Name C.Block) = .global (.ledger id') :=
    KeyState.key_inj rfl hkey
  cases hname
  rfl

/-- Every ledger whose owner is listed moves, and none is left over. -/
theorem moveLedgersOf_ok (h : Represents K L s) (K' : KeyState C) (owners : List LedgerRef)
    (left : Set LedgerRef) (rest : Remaining C)
    (hrest : rest.Holds (fun id => K.key L (.global (.ledger id))) (LedgerValue K L) left)
    (howners : ∀ id ∈ left, id ∈ owners) :
    ∃ ms, s.moveLedgersOf K'.storeKeys owners rest = .ok ms ∧
      (∀ m ∈ ms, ∃ id ∈ left, Relocates K K' L (.global (.ledger id)) m) ∧
      ∀ id ∈ left, ∃ m ∈ ms, Relocates K K' L (.global (.ledger id)) m := by
  induction owners generalizing left rest with
  | nil =>
    have hempty : ∀ id, id ∉ left := fun id hid => by cases howners id hid
    refine ⟨[], ?_, nofun, fun id hid => absurd hid (hempty id)⟩
    rw [Store.moveLedgersOf, ensure_of_true (hrest.isEmpty hempty)]
    rfl
  | cons id _ ih =>
    have hkey : s.globalKey (.global (.ledger id)) = K.key L (.global (.ledger id)) :=
      h.globalKey_eq (Name.storeScoped_global _)
    by_cases hid : id ∈ left
    · obtain ⟨v, rest', htake, ⟨p, nonce, hp, rfl⟩, hrest'⟩ :=
        hrest.take_of_mem (fun j => j ≠ id ∧ j ∈ left) ledgerKey_injective hid
          fun _ => .rfl
      obtain ⟨ms, hms, hsound, hcomplete⟩ := ih _ rest' hrest' fun j hj =>
        (List.mem_cons.mp (howners j hj.2)).resolve_left hj.1
      obtain ⟨m, hstage, hmove⟩ := h.stageMove_ok K' hp
      have hopen : s.tryOpen .ledger (K.key L (.global (.ledger id))) (sealedValue
          K.storeKeys.metaKey .ledger (K.key L (.global (.ledger id))) nonce p) = .ok (some p) := by
        rw [← h.keys]
        exact Store.tryOpen_self (KeyState.key_len_lt _)
      refine ⟨m :: ms, ?_, ?_, ?_⟩
      · simp only [Store.moveLedgersOf, hkey, htake, hopen, ok_bind, Store.expect]
        exact bind_eq_ok.mpr ⟨m, hstage, bind_eq_ok.mpr ⟨ms, hms, rfl⟩⟩
      · intro m' hm'
        rcases List.mem_cons.mp hm' with rfl | hm'
        · exact ⟨id, hid, hmove⟩
        · obtain ⟨j, hj, hmove'⟩ := hsound m' hm'
          exact ⟨j, hj.2, hmove'⟩
      · intro j hj
        rcases eq_or_ne j id with rfl | hne
        · exact ⟨m, List.mem_cons_self, hmove⟩
        · obtain ⟨m', hm', hmove'⟩ := hcomplete j ⟨hne, hj⟩
          exact ⟨m', List.mem_cons_of_mem _ hm', hmove'⟩
    · have htake := hrest.take_of_not_mem ledgerKey_injective hid
      obtain ⟨ms, hms, hboth⟩ := ih left rest hrest fun j hj =>
        (List.mem_cons.mp (howners j hj)).resolve_left fun heq => hid (heq ▸ hj)
      refine ⟨ms, ?_, hboth⟩
      simp only [Store.moveLedgersOf, hkey, htake]
      exact hms

/-! ## Wrapped keys -/

/-- What the entries of wrapped keys hold. -/
def WrapValue (K : KeyState C) (L : Custody C) (w : WrapName) (v : Value C) : Prop :=
  ∃ nonce, v = K.wrap L nonce w

theorem wrapKey_injective : Function.Injective K.wrapKey := fun _ _ => RecordKey.ofWrap_inj

/-- Each listed data key is wrapped again. -/
theorem moveDataKeys_ok (h : Represents K L s) (hdata : K'.dataKey = K.dataKey) (t : TenantId)
    (ids : List KeyId) (hnodup : ids.Nodup) (left left' : Set WrapName) (rest : Remaining C)
    (hrest : rest.Holds K.wrapKey (WrapValue K L) left) (hids : ∀ id ∈ ids, .dataKey t id ∈ left)
    (hleft : ∀ w, w ∈ left' ↔ (∀ id ∈ ids, w ≠ .dataKey t id) ∧ w ∈ left) :
    ∃ ms rest', s.moveDataKeys K'.storeKeys t ids rest = .ok (ms, rest') ∧
      rest'.Holds K.wrapKey (WrapValue K L) left' ∧
      (∀ m ∈ ms, ∃ id ∈ ids, Rewraps K K' L (.dataKey t id) m) ∧
      ∀ id ∈ ids, ∃ m ∈ ms, Rewraps K K' L (.dataKey t id) m := by
  induction ids generalizing left rest with
  | nil =>
    exact ⟨[], rest, rfl, hrest.change fun w => by simp [hleft], nofun, nofun⟩
  | cons id _ ih =>
    obtain ⟨hnot, hnodup⟩ := List.nodup_cons.mp hnodup
    obtain ⟨v, rest₁, htake, ⟨nonce, rfl⟩, hrest₁⟩ := hrest.take_of_mem
      (fun w => w ≠ .dataKey t id ∧ w ∈ left) wrapKey_injective
      (hids id List.mem_cons_self) fun _ => .rfl
    obtain ⟨ms, rest', hms, hrest', hsound, hcomplete⟩ := ih hnodup _ rest₁ hrest₁
      (fun id' hid' => ⟨fun heq => hnot (by cases heq; exact hid'),
        hids id' (List.mem_cons_of_mem _ hid')⟩)
      (fun w => (hleft w).trans (by
        simp only [List.forall_mem_cons]
        constructor
        · rintro ⟨⟨hne, hall⟩, hw⟩
          exact ⟨hall, hne, hw⟩
        · rintro ⟨hall, hne, hw⟩
          exact ⟨⟨hne, hall⟩, hw⟩))
    have hunwrap : s.keys.unwrapTenantKey t (K.wrap L nonce (.dataKey t id)) =
        .ok ⟨id, K.dataKey t id⟩ := by
      rw [h.keys]
      exact StoreKeys.unwrapTenantKey_wrapTenantKey _ _ _ _
    obtain ⟨m, hm, hmove⟩ : ∃ m, m = (⟨.keys, K.wrapKey (.dataKey t id), K'.wrapKey (.dataKey t id),
        K'.storeKeys.wrapTenantKey t (s.nonce .keys (K'.wrapKey (.dataKey t id)))
          ⟨id, K.dataKey t id⟩⟩ : Move C) ∧ Rewraps K K' L (.dataKey t id) m := by
      refine ⟨_, rfl, s.nonce .keys (K'.wrapKey (.dataKey t id)), ?_⟩
      rw [KeyState.wrap, hdata]
    refine ⟨m :: ms, rest', ?_, hrest', ?_, ?_⟩
    · simp only [Store.moveDataKeys, h.wrapKey_eq, htake, Store.expect, ok_bind, hunwrap, hms, hm]
      rfl
    · intro m' hm'
      rcases List.mem_cons.mp hm' with rfl | hm'
      · exact ⟨id, List.mem_cons_self, hmove⟩
      · obtain ⟨id', hid', hmove'⟩ := hsound m' hm'
        exact ⟨id', List.mem_cons_of_mem _ hid', hmove'⟩
    · intro id' hid'
      rcases List.mem_cons.mp hid' with rfl | hid'
      · exact ⟨m, List.mem_cons_self, hmove⟩
      · obtain ⟨m', hm', hmove'⟩ := hcomplete id' hid'
        exact ⟨m', List.mem_cons_of_mem _ hm', hmove'⟩

/-- Stored addressing keys are wrapped again. -/
theorem moveAddressKeys_ok (h : Represents K L s) (K' : KeyState C) (t : TenantId)
    (left left' : Set WrapName) (rest : Remaining C)
    (hrest : rest.Holds K.wrapKey (WrapValue K L) left)
    (hleft : ∀ w, w ∈ left' ↔ w ≠ .addressKeys t ∧ w ∈ left) :
    ∃ ms rest', s.moveAddressKeys K'.storeKeys t rest = .ok (ms, rest') ∧
      rest'.Holds K.wrapKey (WrapValue K L) left' ∧
      (∀ m ∈ ms, .addressKeys t ∈ left ∧ Rewraps K K' L (.addressKeys t) m) ∧
      (.addressKeys t ∈ left → ∃ m ∈ ms, Rewraps K K' L (.addressKeys t) m) := by
  by_cases hheld : WrapName.addressKeys t ∈ left
  · obtain ⟨v, rest', htake, ⟨nonce, rfl⟩, hrest'⟩ :=
      hrest.take_of_mem _ wrapKey_injective hheld hleft
    have hunwrap : s.keys.unwrapAddressKeys t (K.wrap L nonce (.addressKeys t)) =
        .ok (L.address t) := by
      rw [h.keys]
      exact StoreKeys.unwrapAddressKeys_wrapAddressKeys _ _ _ _
    have hmove : Rewraps K K' L (.addressKeys t) ⟨.keys, K.wrapKey (.addressKeys t),
        K'.wrapKey (.addressKeys t), K'.storeKeys.wrapAddressKeys t
          (s.nonce .keys (K'.wrapKey (.addressKeys t))) (L.address t)⟩ :=
      ⟨s.nonce .keys (K'.wrapKey (.addressKeys t)), rfl⟩
    refine ⟨[_], rest', ?_, hrest', ?_, fun _ => ⟨_, List.mem_singleton_self _, hmove⟩⟩
    · simp only [Store.moveAddressKeys, h.wrapKey_eq, htake, hunwrap, ok_bind]
      rfl
    · intro m hm
      rw [List.mem_singleton] at hm
      exact ⟨hheld, hm ▸ hmove⟩
  · have htake := hrest.take_of_not_mem wrapKey_injective hheld
    refine ⟨[], rest, ?_, hrest.change fun w => ?_, nofun, fun hw => absurd hw hheld⟩
    · simp only [Store.moveAddressKeys, h.wrapKey_eq, htake]
    · rw [hleft]
      exact ⟨And.right, fun hw => ⟨fun heq => hheld (heq ▸ hw), hw⟩⟩

end Represents

/-- The tenant a wrapped key belongs to. -/
def WrapName.tenant : WrapName → TenantId
  | dataKey t _ => t
  | addressKeys t => t

namespace Represents

variable {K K' : KeyState C} {L : Custody C} {s : Store C}

/-- Every wrapped key of the listed tenants moves, and none is left over. -/
theorem moveWrappedKeys_ok (h : Represents K L s) (hdata : K'.dataKey = K.dataKey)
    (rekeys : List (RekeyRecord C.Block)) (records : List TenantRecord)
    (hnodup : records.Pairwise fun r r' => r.id ≠ r'.id) (left : Set WrapName) (rest : Remaining C)
    (hrest : rest.Holds K.wrapKey (WrapValue K L) left)
    (hheld : ∀ r ∈ records, (Store.heldKeyIds r rekeys).Nodup ∧
      ∀ id, .dataKey r.id id ∈ left ↔ id ∈ Store.heldKeyIds r rekeys)
    (howner : ∀ w ∈ left, ∃ r ∈ records, r.id = w.tenant) :
    ∃ ms, s.moveWrappedKeys K'.storeKeys rekeys records rest = .ok ms ∧
      (∀ m ∈ ms, ∃ w ∈ left, Rewraps K K' L w m) ∧
      ∀ w ∈ left, ∃ m ∈ ms, Rewraps K K' L w m := by
  induction records generalizing left rest with
  | nil =>
    have hempty : ∀ w, w ∉ left := fun w hw => by
      obtain ⟨r, hr, -⟩ := howner w hw
      cases hr
    refine ⟨[], ?_, nofun, fun w hw => absurd hw (hempty w)⟩
    rw [Store.moveWrappedKeys, ensure_of_true (hrest.isEmpty hempty)]
    rfl
  | cons r _ ih =>
    obtain ⟨hfirst, hnodup⟩ := List.pairwise_cons.mp hnodup
    obtain ⟨hids, hmem⟩ := hheld r List.mem_cons_self
    obtain ⟨ms₁, rest₁, hrun₁, hrest₁, hsound₁, hcomplete₁⟩ := h.moveDataKeys_ok hdata r.id
      (Store.heldKeyIds r rekeys) hids left
      (fun w => (∀ id ∈ Store.heldKeyIds r rekeys, w ≠ .dataKey r.id id) ∧ w ∈ left) rest hrest
      (fun id hid => (hmem id).mpr hid) fun _ => .rfl
    obtain ⟨ms₂, rest₂, hrun₂, hrest₂, hsound₂, hcomplete₂⟩ := h.moveAddressKeys_ok K' r.id _
      (fun w => w.tenant ≠ r.id ∧ w ∈ left) rest₁ hrest₁ (by
        -- What is left of the tenant's keys is nothing.
        intro w
        constructor
        · rintro ⟨hne, hw⟩
          exact ⟨fun heq => hne (by rw [heq]; rfl), fun id _ heq => hne (by rw [heq]; rfl), hw⟩
        · rintro ⟨haddress, hdataKeys, hw⟩
          refine ⟨?_, hw⟩
          rintro ht
          cases w with
          | dataKey t id =>
            obtain rfl : t = r.id := ht
            exact hdataKeys id ((hmem id).mp hw) rfl
          | addressKeys t =>
            obtain rfl : t = r.id := ht
            exact haddress rfl)
    obtain ⟨ms₃, hrun₃, hsound₃, hcomplete₃⟩ := ih hnodup _ rest₂ hrest₂
      (fun r' hr' => ⟨(hheld r' (List.mem_cons_of_mem _ hr')).1, fun id =>
        (and_iff_right (hfirst r' hr').symm).trans
          ((hheld r' (List.mem_cons_of_mem _ hr')).2 id)⟩)
      (fun w hw => by
        obtain ⟨r', hr', ht⟩ := howner w hw.2
        rcases List.mem_cons.mp hr' with rfl | hr'
        · exact absurd ht.symm hw.1
        · exact ⟨r', hr', ht⟩)
    refine ⟨ms₁ ++ ms₂ ++ ms₃, ?_, ?_, ?_⟩
    · simp only [Store.moveWrappedKeys, hrun₁, hrun₂, hrun₃, ok_bind]
      rfl
    · intro m hm
      rcases List.mem_append.mp hm with hm | hm
      · rcases List.mem_append.mp hm with hm | hm
        · obtain ⟨id, hid, hmove⟩ := hsound₁ m hm
          exact ⟨_, (hmem id).mpr hid, hmove⟩
        · obtain ⟨hw, hmove⟩ := hsound₂ m hm
          exact ⟨_, hw.2, hmove⟩
      · obtain ⟨w, hw, hmove⟩ := hsound₃ m hm
        exact ⟨w, hw.2, hmove⟩
    · intro w hw
      by_cases ht : w.tenant = r.id
      · cases w with
        | dataKey t id =>
          obtain rfl : t = r.id := ht
          obtain ⟨m, hm, hmove⟩ := hcomplete₁ id ((hmem id).mp hw)
          exact ⟨m, List.mem_append_left _ (List.mem_append_left _ hm), hmove⟩
        | addressKeys t =>
          obtain rfl : t = r.id := ht
          obtain ⟨m, hm, hmove⟩ := hcomplete₂ ⟨fun _ _ => nofun, hw⟩
          exact ⟨m, List.mem_append_left _ (List.mem_append_right _ hm), hmove⟩
      · obtain ⟨m, hm, hmove⟩ := hcomplete₃ w ⟨ht, hw⟩
        exact ⟨m, List.mem_append_right _ hm, hmove⟩

/-- A live tenant's data keys in use are those its own and its rotation's records name. -/
theorem heldKeyIds_ok (h : Represents K L s) (hnamed : L.Named) {t : TenantId} {p : TenantProfile}
    (hp : L.profiles t = some p) {rekeys : List (RekeyRecord C.Block)} (hnodup : rekeys.Nodup)
    (hrekeys : ∀ r, r ∈ rekeys ↔ ∃ t, K.rekey t = some r) :
    (Store.heldKeyIds (p.withKey (K.active t)) rekeys).Nodup ∧
      ∀ id, .dataKey t id ∈ K.Wrapped L ↔
        id ∈ Store.heldKeyIds (p.withKey (K.active t)) rekeys := by
  have hid : (p.withKey (K.active t)).id = t := hnamed.profiles t p hp
  have hlive : (L.profiles t).isSome := by rw [hp]; rfl
  -- At most one record is of a rotation of this tenant.
  have hmine (r : RekeyRecord C.Block) :
      r ∈ rekeys.filter (fun r => r.tenant = (p.withKey (K.active t)).id ∧ !r.done) ↔
        r ∈ K.rotation t := by
    rw [List.mem_filter, hrekeys, KeyState.mem_rotation, hid]
    constructor
    · rintro ⟨⟨t', hr⟩, hmatch⟩
      obtain ⟨htenant, hdone⟩ := of_decide_eq_true hmatch
      rw [← htenant, (h.tenants t').rekey_tenant r hr]
      exact ⟨hr, by simpa using hdone⟩
    · rintro ⟨hr, hdone⟩
      exact ⟨⟨t, hr⟩, decide_eq_true ⟨(h.tenants t).rekey_tenant r hr, by simp [hdone]⟩⟩
  constructor
  · refine List.nodup_cons.mpr ⟨?_, (hnodup.filter _).map_on ?_⟩
    · intro hactive
      obtain ⟨r, hr, hfrom⟩ := List.mem_map.mp hactive
      exact (h.tenants t).rekey_source r (KeyState.mem_rotation.mp ((hmine r).mp hr)).1 hfrom
    · intro r hr r' hr' _
      have hsame := (hmine r').mp hr'
      rw [Option.mem_def, Option.mem_def.mp ((hmine r).mp hr)] at hsame
      exact Option.some.inj hsame
  · intro id
    rw [KeyState.mem_wrapped_dataKey, and_iff_right hlive, Store.heldKeyIds, List.mem_cons,
      List.mem_map]
    simp only [hmine]
    constructor
    · rintro (rfl | ⟨r, hr, rfl⟩)
      · exact .inl rfl
      · exact .inr ⟨r, hr, rfl⟩
    · rintro (rfl | ⟨r, hr, rfl⟩)
      · exact .inl rfl
      · exact .inr ⟨r, hr, rfl⟩

end Represents
end Dioptron
