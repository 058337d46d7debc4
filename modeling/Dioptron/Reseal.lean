import Dioptron.KeyRotation

/-! # The walk of a rotation

One batch visits a stretch of a keyspace that all tenants share.  It re-seals exactly
the visited records that are the rotating tenant's and under the key being retired;
records of other tenants and of other kinds do not authenticate under that key.  The
invariant is about the visited keys: every record of the tenant at one of them is under
the active key.
-/
namespace Dioptron

variable {C : Crypto}

/-! ## The keyspaces of the walk -/

/-- A step tries every kind of tenant record its keyspace holds, with their sealer. -/
theorem walk_sealer {step : WalkStep C} (hstep : step ∈ walk C) {n : TenantName C.Block}
    (hn : n.slot.keyspace = step.keyspace) : n.slot ∈ step.slots ∧ step.sealer = n.sealer := by
  simp only [walk, List.mem_cons, List.not_mem_nil, or_false] at hstep
  rcases hstep with rfl | rfl | rfl | rfl | rfl <;> cases n <;> cases hn <;>
    exact ⟨by simp [TenantName.slot], rfl⟩

theorem walk_sealer_id {step : WalkStep C} (hstep : step ∈ walk C)
    (dk : TenantDataKey C) : (step.sealer dk.sealing).id = dk.id := by
  simp only [walk, List.mem_cons, List.not_mem_nil, or_false] at hstep
  rcases hstep with rfl | rfl | rfl | rfl | rfl <;> rfl

theorem walk_holdsRecords {step : WalkStep C} (hstep : step ∈ walk C) :
    step.keyspace.HoldsRecords := by
  simp only [walk, List.mem_cons, List.not_mem_nil, or_false] at hstep
  rcases hstep with rfl | rfl | rfl | rfl | rfl <;>
    exact ⟨by simp, by simp⟩

/-- The place of a step in the walk. -/
theorem walkIndex_of_walk {i : Nat} {step : WalkStep C}
    (h : (walk C)[i]? = some step) : walkIndex step.keyspace = some i := by
  match i with
  | 0 | 1 | 2 | 3 | 4 => cases h; rfl
  | i + 5 => simp [walk] at h

theorem keyspace_of_walkIndex {i : Nat} {step : WalkStep C} {keyspace : Keyspace}
    (h : (walk C)[i]? = some step) (hi : walkIndex keyspace = some i) :
    keyspace = step.keyspace := by
  have hstep := walkIndex_of_walk h
  cases keyspace <;> cases hi <;> cases h <;> rfl

/-- Every kind of tenant record is in the walk. -/
theorem walkIndex_lt (n : TenantName C.Block) : ∃ i < 5, walkIndex n.slot.keyspace = some i := by
  cases n <;> exact ⟨_, by decide, rfl⟩

/-- What a batch moves the cursor past: what was passed before, and what it visited. -/
theorem passed_advance {db : Database C} {r : RekeyRecord C.Block} {step : WalkStep C}
    {batch : ℕ+} {count : Nat} {keyspace : Keyspace} {k : Str C.Block} {v : Value C}
    (hwalk : (walk C)[r.keyspace.toNat]? = some step) (hget : db.get keyspace k = some v)
    (hpassed : Passed (Store.advance r batch ((db.entriesAfter step.keyspace r.cursor).take batch)
      count) keyspace k) :
    Passed r keyspace k ∨ keyspace = step.keyspace ∧
      k ∈ ((db.entriesAfter step.keyspace r.cursor).take batch).map Prod.fst := by
  obtain ⟨i, hi, hcase⟩ := hpassed
  -- A key of the current keyspace is at or before the old cursor, or still to visit.
  have hmem (hr : i = r.keyspace.toNat) :
      Passed r keyspace k ∨ (k, v) ∈ db.entriesAfter step.keyspace r.cursor := by
    subst hr
    obtain rfl := keyspace_of_walkIndex hwalk hi
    by_cases hafter : ∀ x, r.cursor = some x → compare x k = .lt
    · exact .inr (Keyspaces.mem_entriesAfter.mpr ⟨hget, hafter⟩)
    · simp only [not_forall] at hafter
      obtain ⟨x, hx, hnot⟩ := hafter
      refine .inl ⟨_, hi, .inr ⟨rfl, x, hx, ?_⟩⟩
      rw [Std.OrientedOrd.eq_swap]
      cases hcmp : compare x k with
      | lt => exact absurd hcmp hnot
      | eq | gt => rfl
  have hfive : r.keyspace.toNat < 5 := (List.getElem?_eq_some_iff.mp hwalk).1
  unfold Store.advance at hcase
  split_ifs at hcase with hshort
  · have hnext : (Store.advance.saturatingSucc r.keyspace).toNat = r.keyspace.toNat + 1 := by
      simp only [Store.advance.saturatingSucc, UInt8.toNat_ofNat']
      omega
    rw [hnext] at hcase
    rcases hcase with hlt | ⟨-, c, hc, -⟩
    · rcases Nat.lt_succ_iff_lt_or_eq.mp hlt with hlt | heq
      · exact .inl ⟨i, hi, .inl hlt⟩
      · refine (hmem heq).imp_right fun hafter => ⟨?_, ?_⟩
        · rw [heq] at hi
          exact keyspace_of_walkIndex hwalk hi
        · rw [List.take_of_length_le]
          · exact List.mem_map_of_mem hafter
          · rw [List.length_take] at hshort
            omega
    · cases hc
  · rcases hcase with hlt | ⟨heq, c, hc, hle⟩
    · exact .inl ⟨i, hi, .inl hlt⟩
    · refine (hmem heq).imp_right fun hafter => ⟨?_, ?_⟩
      · rw [show i = r.keyspace.toNat from heq] at hi
        exact keyspace_of_walkIndex hwalk hi
      · obtain ⟨⟨c', u⟩, hlast, rfl⟩ := Option.map_eq_some_iff.mp hc
        exact List.mem_map_of_mem (Keyspaces.mem_take_of_le_last hlast hafter hle)

/-! ## One entry -/

section Entry

variable (s : Store C) {step : WalkStep C} (retiring active : TenantSealingKeys C)
  {k : Str C.Block} {slot : Slot} {p : Plain C.Block} {sk : SealingKey C} {nonce : C.Nonce}

theorem resealAs_eq (hk : k.len < 2 ^ 16) (hp : C.encodedLen p ≤ maxPlaintextLen)
    (hid : (step.sealer retiring).id = sk.id) (slots : List Slot) :
    Store.reseal.resealAs s step retiring active k (sealedValue sk slot k nonce p) slots =
      .ok (if (step.sealer retiring).key = sk.key ∧ slot ∈ slots then
        some (sealedValue (step.sealer active) slot k (s.nonce slot.keyspace k) p) else none) := by
  induction slots with
  | nil => simp [Store.reseal.resealAs]
  | cons slot' _ ih =>
    rw [Store.reseal.resealAs, openBytes_sealedValue _ _ _ _ hk]
    simp only [List.find?_cons, hid, beq_self_eq_true, and_true]
    by_cases hkey : (step.sealer retiring).key = sk.key
    · by_cases hslot : slot' = slot
      · subst hslot
        simp only [hkey, and_self, if_true, sealBytes_eq_ok hk hp, ok_bind, List.mem_cons, true_or]
        rfl
      · rw [if_neg (fun h => hslot h.2)]
        dsimp only
        rw [ih]
        simp [Ne.symm hslot]
    · rw [if_neg (fun h => hkey h.1)]
      dsimp only
      rw [ih]
      simp [hkey]

/-- What re-sealing does to one sealed value. -/
theorem reseal_eq (hk : k.len < 2 ^ 16) (hp : C.encodedLen p ≤ maxPlaintextLen)
    (hid : (step.sealer retiring).id = retiring.keyId) :
    s.reseal step retiring active k (sealedValue sk slot k nonce p) =
      .ok (if sk.id = retiring.keyId ∧ (step.sealer retiring).key = sk.key ∧ slot ∈ step.slots then
        some (sealedValue (step.sealer active) slot k (s.nonce slot.keyspace k) p) else none) := by
  unfold Store.reseal
  rw [sealedKeyId_sealedValue]
  by_cases hsame : sk.id = retiring.keyId
  · rw [if_pos (by rw [hsame]), resealAs_eq s retiring active hk hp (hid.trans hsame.symm)]
    simp [hsame]
  · rw [if_neg (by simpa using hsame)]
    simp [hsame]

end Entry

/-- A data key's sealing subkeys tell it apart from every other. -/
theorem sealer_key_inj {n m : TenantName C.Block} {dk dk' : TenantDataKey C}
    (h : (n.sealer dk.sealing).key = (m.sealer dk'.sealing).key) : dk.key = dk'.key := by
  cases n <;> cases m <;> exact (C.hkdf_inj h).1

/-- No tenant subkey is a store subkey. -/
theorem walk_key_ne_meta {step : WalkStep C} (hstep : step ∈ walk C) (dk : TenantDataKey C)
    (K : KeyState C) : (step.sealer dk.sealing).key ≠ K.storeKeys.metaKey.key := by
  intro h
  simp only [walk, List.mem_cons, List.not_mem_nil, or_false] at hstep
  rcases hstep with rfl | rfl | rfl | rfl | rfl <;> exact absurd (C.hkdf_inj h).2 (by decide)

namespace Represents

variable {K : KeyState C} {L : Custody C} {s s' : Store C} {t : TenantId} {r : RekeyRecord C.Block}
  {step : WalkStep C}

/-- A value opens under a data key of a tenant exactly when it is a record of the tenant
under that key. -/
theorem opened_iff (h : Represents K L s) {id : KeyId} (hissued : (t, id) ∈ K.issued)
    (hstep : step ∈ walk C) {n : Name C.Block} {sk : SealingKey C}
    (hspace : n.slot.keyspace = step.keyspace) (hsk : K.SealedUnder L n sk) :
    (sk.id = (K.sealing t id).keyId ∧
        (step.sealer (K.sealing t id)).key = sk.key ∧ n.slot ∈ step.slots) ↔
      ∃ m, n = .sealed t m ∧ sk = m.sealer (K.sealing t id) := by
  constructor
  · rintro ⟨hid, hkey, -⟩
    cases n with
    | sealed _ m =>
      obtain ⟨id', hissued', -, rfl⟩ := hsk
      rw [KeyState.sealer_id] at hid
      obtain rfl : id' = id := hid
      rw [(walk_sealer hstep hspace).2] at hkey
      have hsame := h.distinct _ hissued' _ hissued (sealer_key_inj hkey).symm
      cases hsame
      exact ⟨m, rfl, rfl⟩
    | tenant t' | tombstone t' | rekey t' | global m =>
      rw [show sk = K.storeKeys.metaKey from hsk] at hkey
      exact absurd hkey (walk_key_ne_meta hstep _ K)
  · rintro ⟨m, rfl, rfl⟩
    obtain ⟨hslot, hsealer⟩ := walk_sealer hstep hspace
    exact ⟨KeyState.sealer_id .., by rw [hsealer], hslot⟩

/-- A value is re-sealed exactly when it is a record of the tenant under the key being
retired. -/
theorem resealed_iff (h : Represents K L s) (hr : r ∈ K.rotation t)
    (hstep : step ∈ walk C) {n : Name C.Block} {sk : SealingKey C}
    (hspace : n.slot.keyspace = step.keyspace) (hsk : K.SealedUnder L n sk) :
    (sk.id = (K.sealing t r.fromKeyId).keyId ∧
        (step.sealer (K.sealing t r.fromKeyId)).key = sk.key ∧ n.slot ∈ step.slots) ↔
      ∃ m, n = .sealed t m ∧ sk = m.sealer (K.sealing t r.fromKeyId) :=
  h.opened_iff ((h.tenants t).source_issued r (KeyState.mem_rotation.mp hr).1) hstep hspace hsk

end Represents

/-! ## A batch of entries -/

/-- Sealed as the keys allow and, at the visited keys of one keyspace, under the active
key when it is a record of `t`. -/
def KeyState.SealedAfter (K : KeyState C) (L : Custody C) (t : TenantId) (keyspace : Keyspace)
    (visited : Set (Str C.Block)) (n : Name C.Block) (sk : SealingKey C) : Prop :=
  K.SealedUnder L n sk ∧ ∀ m, n = .sealed t m → n.slot.keyspace = keyspace →
    K.key L n ∈ visited → sk = m.sealer (K.sealing t (K.active t))

namespace Represents

variable {K : KeyState C} {L : Custody C} {s s' : Store C} {t : TenantId} {r : RekeyRecord C.Block}
  {step : WalkStep C}

theorem live_of_rotation (h : Represents K L s) (hr : r ∈ K.rotation t) : (L.profiles t).isSome :=
  (h.tenants t).live_of_rekey r (KeyState.mem_rotation.mp hr).1

/-- Visiting one more key: the record there is under the active key, the others are
sealed as before. -/
theorem sealedAfter_insert {visited : Set (Str C.Block)} {n m : Name C.Block}
    {sk : SealingKey C} (hspace : n.slot.keyspace = step.keyspace) (hne : m ≠ n)
    (hm : K.SealedAfter L t step.keyspace visited m sk) :
    K.SealedAfter L t step.keyspace (Insert.insert (K.key L n) visited) m sk := by
  refine ⟨hm.1, ?_⟩
  intro m' hm' hspace' hkey
  refine hm.2 m' hm' hspace' (hkey.resolve_left ?_)
  intro hsame
  exact hne (KeyState.key_inj (hspace'.trans hspace.symm) hsame)

/-- Visiting one entry. -/
theorem reseal_ok (h : Represents K L s) (hr : r ∈ K.rotation t)
    (hstep : step ∈ walk C) {visited : Set (Str C.Block)} {w : Store C}
    (hrecords : Records (K.key L) (K.SealedAfter L t step.keyspace visited) (K.content L) w.db)
    {k : Str C.Block} {v : Value C} (hget : w.db.get step.keyspace k = some v) :
    ∃ fresh, w.reseal step (K.sealing t r.fromKeyId) (K.sealing t (K.active t)) k v = .ok fresh ∧
      Records (K.key L) (K.SealedAfter L t step.keyspace (Insert.insert k visited)) (K.content L)
        (fresh.elim w.db fun v' => w.db.insert step.keyspace k v') ∧
      (fresh.isSome → ∃ m, step.keyspace = m.slot.keyspace ∧ k = K.key L (.sealed t m)) := by
  obtain ⟨n, p, sk, nonce, hn, rfl, hp, hsk, rfl⟩ :=
    hrecords.sealed_of_get hget (walk_holdsRecords hstep)
  have hlen : (K.key L n).len < 2 ^ 16 := KeyState.key_len_lt n
  refine ⟨_, reseal_eq w _ _ hlen (h.sized n p hp) (walk_sealer_id hstep _), ?_⟩
  by_cases hown : ∃ m, n = .sealed t m ∧ sk = m.sealer (K.sealing t r.fromKeyId)
  · rw [if_pos ((h.resealed_iff hr hstep hn hsk.1).mpr hown)]
    obtain ⟨m, rfl, rfl⟩ := hown
    have hlive := h.live_of_rotation hr
    refine ⟨?_, fun _ => ⟨m, hn.symm, rfl⟩⟩
    have hunder (n' : Name C.Block) (k : SealingKey C) (hne : n' ≠ .sealed t m)
        (_ : (K.content L n').isSome) (hk : K.SealedAfter L t step.keyspace visited n' k) :
        K.SealedAfter L t step.keyspace (Insert.insert (K.key L (.sealed t m)) visited) n' k :=
      sealedAfter_insert hn hne hk
    have hinsert := hrecords.insert (p := p) (w.nonce step.keyspace (K.key L (.sealed t m))) hunder
      ⟨⟨K.active t, (h.tenants t).active_issued hlive, fun _ => .inl rfl, rfl⟩,
        fun m' hm' _ _ => by cases hm'; rfl⟩
    rw [Function.update_eq_self_iff.mpr hp.symm] at hinsert
    rw [hn] at hinsert ⊢
    rw [(walk_sealer hstep hn).2]
    exact hinsert
  · rw [if_neg (mt (h.resealed_iff hr hstep hn hsk.1).mp hown)]
    refine ⟨hrecords.sharpen ?_, by simp⟩
    intro n' p' sk' nonce' hp' hsk' hget'
    rcases eq_or_ne n' n with rfl | hne
    · -- The record here is not under the key being retired, so it is under the active one.
      rw [hn, hget, Option.some.injEq] at hget'
      obtain ⟨rfl, -⟩ := sealedValue_inj hget'
      refine ⟨hsk.1, ?_⟩
      rintro m rfl - -
      obtain ⟨id, -, hallowed, rfl⟩ := hsk.1
      rcases hallowed (h.live_of_rotation hr) with rfl | ⟨r', hr', rfl, -⟩
      · rfl
      · rw [Option.mem_def.mp hr, Option.mem_def, Option.some.injEq] at hr'
        subst hr'
        exact absurd ⟨m, rfl, rfl⟩ hown
    · exact sealedAfter_insert hn hne hsk'

/-- One batch re-seals the records of `t` at the keys it visits, and nothing else. -/
theorem resealEntries_ok (h : Represents K L s) (hr : r ∈ K.rotation t) (hstep : step ∈ walk C)
    (entries : List (Str C.Block × Value C)) (visited : Set (Str C.Block)) (w : Store C)
    (hrecords : Records (K.key L) (K.SealedAfter L t step.keyspace visited) (K.content L) w.db)
    (hentries : ∀ e ∈ entries, w.db.get step.keyspace e.1 = some e.2)
    (hnodup : (entries.map Prod.fst).Nodup) :
    ∃ count db, Store.resealEntries step (K.sealing t r.fromKeyId) (K.sealing t (K.active t))
        entries w = .ok (count, { w with db := db }) ∧
      Records (K.key L)
        (K.SealedAfter L t step.keyspace {k | k ∈ visited ∨ k ∈ entries.map Prod.fst})
        (K.content L) db ∧
      ∀ keyspace k, (∀ m, keyspace = m.slot.keyspace → k ≠ K.key L (.sealed t m)) →
        db.get keyspace k = w.db.get keyspace k := by
  induction entries generalizing visited w with
  | nil => exact ⟨0, w.db, rfl, by simpa using hrecords, fun _ _ _ => rfl⟩
  | cons e entries ih =>
    obtain ⟨k, v⟩ := e
    rw [List.map_cons, List.nodup_cons] at hnodup
    obtain ⟨fresh, hfresh, hnext, hown⟩ :=
      h.reseal_ok hr hstep hrecords (hentries (k, v) (by simp))
    have hunion : {k' | k' ∈ visited ∨ k' ∈ ((k, v) :: entries).map Prod.fst} =
        {k' | k' ∈ Insert.insert k visited ∨ k' ∈ entries.map Prod.fst} := by
      ext k'
      simp only [List.map_cons, List.mem_cons, Set.mem_insert_iff, Set.mem_ofPred_eq]
      tauto
    rw [hunion, Store.resealEntries, hfresh, ok_bind]
    cases fresh with
    | none =>
      exact ih (Insert.insert k visited) w hnext
        (fun e he => hentries e (List.mem_cons_of_mem _ he)) hnodup.2
    | some v' =>
      obtain ⟨m, hspace, rfl⟩ := hown rfl
      -- The entries to come are at other keys.
      have hrest (e : Str C.Block × Value C) (he : e ∈ entries) :
          (w.db.insert step.keyspace (K.key L (.sealed t m)) v').get step.keyspace e.1 =
            some e.2 := by
        rw [Keyspaces.get_insert_of_ne, hentries e (List.mem_cons_of_mem _ he)]
        refine .inr fun hkey => hnodup.1 ?_
        show K.key L (.sealed t m) ∈ entries.map Prod.fst
        rw [hkey]
        exact List.mem_map_of_mem he
      obtain ⟨count, db, hrun, hafter, hother⟩ := ih (Insert.insert _ visited)
        { w with db := w.db.insert step.keyspace (K.key L (.sealed t m)) v' } hnext hrest hnodup.2
      refine ⟨count + 1, db, ?_, hafter, ?_⟩
      · show (Store.resealEntries _ _ _ _ _ >>= _) = _
        rw [hrun]
        rfl
      · intro keyspace k' hk'
        rw [hother keyspace k' hk']
        refine Keyspaces.get_insert_of_ne ?_
        by_cases hsame : step.keyspace = keyspace
        · exact .inr fun hkey => hk' m (hsame.symm.trans hspace) hkey.symm
        · exact .inl hsame

/-! ## Progress of a rotation -/

/-- `next` is a later progress record of the rotation `r`. -/
structure Continues (r next : RekeyRecord C.Block) : Prop where
  tenant : next.tenant = r.tenant
  source : next.fromKeyId = r.fromKeyId
  target : next.toKeyId = r.toKeyId
  cursor_len : ∀ c ∈ next.cursor, c.len ≤ 64

theorem continues_tenantOk (h : Represents K L s) (hr : r ∈ K.rotation t)
    {next : RekeyRecord C.Block} (hnext : Continues r next) (t' : TenantId) :
    (K.setRekey t next).TenantOk L t' := by
  have hok := h.tenants t'
  rcases eq_or_ne t' t with rfl | ht
  · obtain ⟨hrekey, -⟩ := KeyState.mem_rotation.mp hr
    refine ⟨?_, hok.active_issued, ?_, ?_, ?_, ?_, ?_, ?_⟩
    · intro _ hnone
      rw [KeyState.setRekey_rekey_self] at hnone
      cases hnone
    all_goals
      intro r' hr'
      rw [KeyState.setRekey_rekey_self] at hr'
      cases hr'
    · exact h.live_of_rotation hr
    · rw [hnext.tenant]
      exact hok.rekey_tenant r hrekey
    · rw [hnext.target]
      exact hok.rekey_target r hrekey
    · rw [hnext.source]
      exact hok.rekey_source r hrekey
    · rw [hnext.source]
      exact hok.source_issued r hrekey
    · exact hnext.cursor_len
  · exact hok.congr rfl rfl rfl (KeyState.setRekey_rekey_of_ne ht) rfl subset_rfl

/-- Writing a progress record. -/
theorem setRekey (h : Represents K L s) (hr : r ∈ K.rotation t) {next : RekeyRecord C.Block}
    (hnext : Continues r next) {db : Database C}
    (hrecords : Records (K.key L) ((K.setRekey t next).SealedUnder L) (K.content L) db)
    (hwraps : Wraps K.wrapKey ((K.setRekey t next).Wrapped L) (K.wrap L) db)
    (hmeta : K.Unlocks db) :
    Represents (K.setRekey t next) L
      (Store.placed { s with db := db } (.rekey t) (.rekey next)) := by
  obtain ⟨old, keys, nonce, clock⟩ := s
  obtain rfl := h.keys
  have hrekey : Keyspace.rekey ≠ .metadata ∧ Keyspace.rekey ≠ .keys := ⟨nofun, nofun⟩
  refine ⟨?_, hwraps.of_get fun k => Keyspaces.get_insert_of_ne (.inl hrekey.2),
    hmeta.insert hrekey.1 _ _, rfl, h.clock, ?_, h.continues_tenantOk hr hnext, h.distinct,
    h.stub_le, h.last_stub, h.owned⟩
  · rw [KeyState.content_setRekey]
    exact hrecords.insert (n := .rekey t) _ (fun _ _ _ _ hk => hk) rfl
  · intro n q hq
    rw [KeyState.content_setRekey, Function.update_apply] at hq
    split_ifs at hq
    · cases hq
      exact C.encodedLen_rekey next hnext.cursor_len
    · exact h.sized n q hq

/-- A cursor is the key of a record. -/
theorem advance_continues (h : Represents K L s) (hstep : step ∈ walk C)
    {batch : ℕ+} {entries : List (Str C.Block × Value C)} {count : Nat}
    (hmem : ∀ e ∈ entries, s.db.get step.keyspace e.1 = some e.2) :
    Continues r (Store.advance r batch entries count) := by
  unfold Store.advance
  split_ifs
  · exact ⟨rfl, rfl, rfl, nofun⟩
  · refine ⟨rfl, rfl, rfl, ?_⟩
    intro c hc
    obtain ⟨e, he, rfl⟩ := Option.map_eq_some_iff.mp hc
    obtain ⟨n, -, -, hkey, -⟩ := h.named _ _ _ (hmem e (List.mem_of_getLast? he))
      (walk_holdsRecords hstep)
    rw [hkey]
    exact RecordKey.ofName_len_le _ n

/-- While a rotation runs both of its keys are held. -/
theorem setRekey_wrapped (hr : r ∈ K.rotation t) {next : RekeyRecord C.Block}
    (hnext : Continues r next) (hdone : next.done = false) :
    (K.setRekey t next).Wrapped L = K.Wrapped L := by
  ext w
  cases w with
  | dataKey t' =>
    rcases eq_or_ne t' t with rfl | ht
    · have hrotation : (K.setRekey t' next).rotation t' = some next := by
        rw [KeyState.setRekey_rotation_self, hdone]
        rfl
      simp only [KeyState.mem_wrapped_dataKey, hrotation, Option.mem_def.mp hr, Option.mem_some,
        exists_eq_left', hnext.source]
      rfl
    · simp only [KeyState.mem_wrapped_dataKey, KeyState.setRekey_rotation_of_ne ht]
      rfl
  | addressKeys t' =>
    rcases eq_or_ne t' t with rfl | ht
    · simp [KeyState.mem_wrapped_addressKeys, (KeyState.mem_rotation.mp hr).1]
    · simp [KeyState.mem_wrapped_addressKeys, KeyState.setRekey_rekey_of_ne ht]

/-- After a batch every record is under a key its readers try, wherever the cursor
stands. -/
theorem advance_records (h : Represents K L s) (hr : r ∈ K.rotation t)
    (hwalk : (walk C)[r.keyspace.toNat]? = some step) {batch : ℕ+} {count : Nat}
    {db : Database C} {entries : List (Str C.Block × Value C)}
    (hentries : (s.db.entriesAfter step.keyspace r.cursor).take batch = entries)
    (hafter : Records (K.key L) (K.SealedAfter L t step.keyspace
      {k | k ∈ (∅ : Set (Str C.Block)) ∨ k ∈ entries.map Prod.fst}) (K.content L) db) :
    Records (K.key L) ((K.setRekey t (Store.advance r batch entries count)).SealedUnder L)
      (K.content L) db := by
  obtain ⟨hrekey, hdone⟩ := KeyState.mem_rotation.mp hr
  have hrotation : (K.setRekey t (Store.advance r batch entries count)).rotation t =
      some (Store.advance r batch entries count) := by
    have hnextDone : (Store.advance r batch entries count).done = false := by
      unfold Store.advance
      split_ifs <;> exact hdone
    rw [KeyState.setRekey_rotation_self, hnextDone]
    rfl
  refine hafter.change hafter.inj (fun _ _ => rfl) ?_ (fun _ _ _ => rfl)
  intro n sk hsome hsk
  cases n with
  | tenant t' | tombstone t' | rekey t' | global n => exact hsk.1
  | sealed t' m =>
    obtain ⟨⟨id, hissued, hallowed, rfl⟩, hvisited⟩ := hsk
    refine ⟨id, hissued, ?_, rfl⟩
    intro hlive
    rcases eq_or_ne t' t with rfl | ht
    · rcases hallowed hlive with hid | ⟨r', hr', rfl, hnot⟩
      · exact .inl hid
      · rw [Option.mem_def.mp hr, Option.mem_def, Option.some.injEq] at hr'
        subst hr'
        refine .inr ⟨_, hrotation, ?_, ?_⟩
        · unfold Store.advance
          split_ifs <;> rfl
        · -- What the batch passed and had not been passed it has visited and re-sealed.
          intro hpassed
          obtain ⟨p, hp⟩ := Option.isSome_iff_exists.mp hsome
          obtain ⟨key, nonce, -, hget⟩ := h.stored _ p hp
          rw [← hentries] at hpassed hvisited
          rcases passed_advance hwalk hget hpassed with hold | ⟨hspace, hmem⟩
          · exact hnot hold
          · have hsame := congrArg SealingKey.id (hvisited m rfl hspace (.inr hmem))
            rw [KeyState.sealer_id, KeyState.sealer_id] at hsame
            exact (h.tenants t').rekey_source r hrekey hsame
    · rw [KeyState.setRekey_rotation_of_ne ht]
      exact hallowed hlive

/-- A batch of the walk goes through: it re-seals the entries it visits, moves the cursor
past them and changes no record but the tenant's. -/
theorem walkBatch_resealed (h : Represents K L s) (hr : r ∈ K.rotation t)
    (hwalk : (walk C)[r.keyspace.toNat]? = some step) (batch : ℕ+)
    {entries : List (Str C.Block × Value C)}
    (hentries : (s.db.entriesAfter step.keyspace r.cursor).take batch = entries) :
    ∃ count db s', Store.resealEntries step (K.sealing t r.fromKeyId) (K.sealing t (K.active t))
        entries s = .ok (count, { s with db := db }) ∧
      s.walkBatch t r step batch =
        .ok (RekeyRecord.status (C := C) (Store.advance r batch entries count), s') ∧
      Continues r (Store.advance r batch entries count) ∧
      (Store.advance r batch entries count).done = false ∧
      Represents (K.setRekey t (Store.advance r batch entries count)) L s' ∧
      (∀ keyspace, keyspace ≠ .rekey → s'.db.entries keyspace = db.entries keyspace) ∧
      ∀ keyspace k, (∀ m, keyspace = m.slot.keyspace → k ≠ K.key L (.sealed t m)) →
        keyspace ≠ .rekey → s'.db.get keyspace k = s.db.get keyspace k := by
  have hstep : step ∈ walk C := List.mem_of_getElem? hwalk
  have hlive := h.live_of_rotation hr
  obtain ⟨hrekey, hdone⟩ := KeyState.mem_rotation.mp hr
  have hretiring : (K.ring L t).retiring = some (K.sealing t r.fromKeyId) := by
    show (K.rotation t).map _ = _
    rw [Option.mem_def.mp hr]
    rfl
  have hmem (e : Str C.Block × Value C) (he : e ∈ entries) :
      s.db.get step.keyspace e.1 = some e.2 := by
    rw [← hentries] at he
    exact (Keyspaces.mem_entriesAfter.mp (List.mem_of_mem_take he)).1
  have hnodup : (entries.map Prod.fst).Nodup := by
    rw [← hentries]
    exact Keyspaces.keys_nodup_of_sorted
      ((Keyspaces.entriesAfter_sorted s.db step.keyspace r.cursor).sublist (List.take_sublist _ _))
  have hstart : Records (K.key L) (K.SealedAfter L t step.keyspace ∅) (K.content L) s.db :=
    h.toRecords.change h.inj (fun _ _ => rfl) (fun _ _ _ hk => ⟨hk, fun _ _ _ hin => hin.elim⟩)
      (fun _ _ _ => rfl)
  obtain ⟨count, db, hrun, hafter, hother⟩ :=
    h.resealEntries_ok hr hstep entries ∅ s hstart hmem hnodup
  have hnext : Continues r (Store.advance r batch entries count) := h.advance_continues hstep hmem
  have hnextDone : (Store.advance r batch entries count).done = false := by
    unfold Store.advance
    split_ifs <;> exact hdone
  have hkeys (k : Str C.Block) : db.get .keys k = s.db.get .keys k :=
    hother _ _ fun m hm => absurd hm.symm (Name.slot_ne (.sealed t m)).2
  have hmeta : K.Unlocks db := fun f hf =>
    (hother _ _ fun m hm => absurd hm.symm (Name.slot_ne (.sealed t m)).1).trans (h.metadata f hf)
  have hrep := h.setRekey hr hnext (h.advance_records hr hwalk hentries hafter)
    (by rw [setRekey_wrapped hr hnext hnextDone]; exact h.toWraps.of_get hkeys) hmeta
  refine ⟨count, db, _, hrun, ?_, hnext, hnextDone, hrep, ?_, ?_⟩
  · have htenant : (Store.advance r batch entries count).tenant = t :=
      hnext.tenant.trans ((h.tenants t).rekey_tenant r hrekey)
    simp only [Store.walkBatch, h.tenantKeys_of_live hlive, ok_bind, hretiring, Store.expect,
      hentries]
    rw [show (K.ring L t).active = K.sealing t (K.active t) from rfl, hrun, ok_bind,
      Store.putRekey_eq hnext.cursor_len, htenant]
    rfl
  · intro keyspace hne
    exact Keyspaces.entries_insert_of_ne (Ne.symm hne)
  · intro keyspace k hk hne
    exact (Keyspaces.get_insert_of_ne (.inl hne.symm)).trans (hother keyspace k hk)

theorem walkBatch_ok (h : Represents K L s) (hr : r ∈ K.rotation t)
    (hwalk : (walk C)[r.keyspace.toNat]? = some step) (batch : ℕ+) :
    ∃ next s', s.walkBatch t r step batch = .ok (RekeyRecord.status (C := C) next, s') ∧
      Continues r next ∧ next.done = false ∧ Represents (K.setRekey t next) L s' ∧
      ∀ keyspace k, (∀ m, keyspace = m.slot.keyspace → k ≠ K.key L (.sealed t m)) →
        keyspace ≠ .rekey → s'.db.get keyspace k = s.db.get keyspace k := by
  obtain ⟨count, db, s', -, hrun, hnext, hdone, hrep, -, hget⟩ :=
    h.walkBatch_resealed hr hwalk batch rfl
  exact ⟨_, s', hrun, hnext, hdone, hrep, hget⟩

/-! ## Retiring the old key -/

/-- When the walk is over every record of the tenant has been passed. -/
theorem passed_of_walk_over (hwalk : (walk C)[r.keyspace.toNat]? = none)
    (n : TenantName C.Block) (k : Str C.Block) : Passed r n.slot.keyspace k := by
  obtain ⟨i, hlt, hi⟩ := walkIndex_lt n
  have hlen : 5 ≤ r.keyspace.toNat := by
    simpa [walk] using List.getElem?_eq_none_iff.mp hwalk
  exact ⟨i, hi, .inl (by omega)⟩

variable (h : Represents K L s)

include h

/-- Retiring deletes a key nothing is sealed under any more. -/
theorem retire_finished (hr : r ∈ K.rotation t)
    (hwalk : (walk C)[r.keyspace.toNat]? = none) {next : RekeyRecord C.Block}
    (hnext : { r with done := true, cursor := none, finishedAt := some (s.clock 0) } = next) :
    ∃ s', s.retire r = .ok (RekeyRecord.status (C := C) next, s') ∧ Continues r next ∧
      next.done = true ∧ Represents (K.setRekey t next) L.tick s' ∧
      ∀ keyspace k, keyspace ≠ .keys → keyspace ≠ .rekey →
        s'.db.get keyspace k = s.db.get keyspace k := by
  obtain ⟨hrekey, -⟩ := KeyState.mem_rotation.mp hr
  have htenant : r.tenant = t := (h.tenants t).rekey_tenant r hrekey
  have hkey : s.wrapKey (.dataKey t r.fromKeyId) = K.wrapKey (.dataKey t r.fromKeyId) :=
    h.wrapKey_eq _
  have hcontinues : Continues r next := by
    subst hnext
    exact ⟨rfl, rfl, rfl, nofun⟩
  have hdone : next.done = true := by rw [← hnext]
  have hrotation : (K.setRekey t next).rotation t = none := by
    rw [KeyState.setRekey_rotation_self, hdone]
    rfl
  have hrecords : Records (K.key L) ((K.setRekey t next).SealedUnder L) (K.content L)
      (s.db.remove .keys (K.wrapKey (.dataKey t r.fromKeyId))) := by
    refine h.toRecords.change h.inj (fun _ _ => rfl) ?_
      (fun _ _ hspace => Keyspaces.get_remove_of_ne (.inl hspace.2.symm))
    intro n sk _ hsk
    cases n with
    | tenant t' | tombstone t' | rekey t' | global n => exact hsk
    | sealed t' m =>
      obtain ⟨id, hissued, hallowed, rfl⟩ := hsk
      refine ⟨id, hissued, ?_, rfl⟩
      intro hlive
      rcases eq_or_ne t' t with rfl | ht
      · rcases hallowed hlive with hid | ⟨r', hr', -, hnot⟩
        · exact .inl hid
        · rw [Option.mem_def.mp hr, Option.mem_def, Option.some.injEq] at hr'
          subst hr'
          exact absurd (passed_of_walk_over hwalk m _) hnot
      · rw [KeyState.setRekey_rotation_of_ne ht]
        exact hallowed hlive
  have hwraps : Wraps K.wrapKey ((K.setRekey t next).Wrapped L) (K.wrap L)
      (s.db.remove .keys (K.wrapKey (.dataKey t r.fromKeyId))) := by
    refine h.toWraps.remove ?_
    rintro (⟨t', id⟩ | t')
    · rcases eq_or_ne t' t with rfl | ht
      · have hne := (h.tenants t').rekey_source r hrekey
        simp only [KeyState.mem_wrapped_dataKey, hrotation, Option.mem_def.mp hr]
        constructor
        · rintro ⟨hlive, hid | ⟨r', hr', -⟩⟩
          · have hid : id = K.active t' := hid
            refine ⟨?_, hlive, .inl hid⟩
            rw [hid]
            exact fun heq => hne (WrapName.dataKey.inj heq).2.symm
          · cases hr'
        · rintro ⟨hdiff, hlive, hid | ⟨r', hr', rfl⟩⟩
          · exact ⟨hlive, .inl hid⟩
          · cases hr'
            exact absurd rfl hdiff
      · simp only [KeyState.mem_wrapped_dataKey, KeyState.setRekey_rotation_of_ne ht, ne_eq,
          WrapName.dataKey.injEq, ht, false_and, not_false_eq_true, true_and]
        rfl
    · rcases eq_or_ne t' t with rfl | ht
      · simp [KeyState.mem_wrapped_addressKeys, hrekey]
      · simp [KeyState.mem_wrapped_addressKeys, KeyState.setRekey_rekey_of_ne ht]
  have hmeta : K.Unlocks (s.db.remove .keys (K.wrapKey (.dataKey t r.fromKeyId))) := by
    have hspace : Keyspace.keys ≠ .metadata := nofun
    exact h.metadata.remove hspace _
  have hrep := h.tick.setRekey (K := K) (L := L.tick) hr hcontinues hrecords hwraps hmeta
  refine ⟨_, ?_, hcontinues, hdone, hrep, ?_⟩
  · have hrun : s.retire r = (Store.putRekey
        { s.now.2 with db := s.db.remove .keys (s.wrapKey (.dataKey r.tenant r.fromKeyId)) }
        { r with done := true, cursor := none, finishedAt := some (s.clock 0) } >>= fun retired =>
          .ok (RekeyRecord.status (C := C)
            { r with done := true, cursor := none, finishedAt := some (s.clock 0) },
              retired)) := rfl
    rw [hrun, hnext, Store.putRekey_eq hcontinues.cursor_len, hcontinues.tenant, htenant, hkey]
    rfl
  · intro keyspace k hkeys hrekeys
    exact (Keyspaces.get_insert_of_ne (.inl hrekeys.symm)).trans
      (Keyspaces.get_remove_of_ne (.inl hkeys.symm))

theorem retire_ok (hr : r ∈ K.rotation t)
    (hwalk : (walk C)[r.keyspace.toNat]? = none) :
    ∃ next s', s.retire r = .ok (RekeyRecord.status (C := C) next, s') ∧ Continues r next ∧
      next.done = true ∧ Represents (K.setRekey t next) L.tick s' ∧
      ∀ keyspace k, keyspace ≠ .keys → keyspace ≠ .rekey →
        s'.db.get keyspace k = s.db.get keyspace k :=
  ⟨_, h.retire_finished hr hwalk rfl⟩

theorem rekeyBatch_eq (hr : r ∈ K.rotation t) (batch : ℕ+) :
    s.rekeyBatch t batch =
      match (walk C)[r.keyspace.toNat]? with
      | none => s.retire r
      | some step => s.walkBatch t r step batch := by
  unfold Store.rekeyBatch
  rw [h.rekeyRecord_eq, ok_bind, show (K.rekey t).filter (fun r => !r.done) = some r from hr]
  rfl

/-- A batch is refused when no rotation runs and goes through when one does: it moves the
cursor on or, with the walk over, retires the old key. -/
theorem rekeyBatch_ok {batch : ℕ+} {status : RekeyStatus}
    (hs : s.rekeyBatch t batch = .ok (status, s')) :
    ∃ r ∈ K.rotation t, ∃ next, Continues r next ∧
      (next.done = false ∧ Represents (K.setRekey t next) L s' ∨
        next.done = true ∧ (walk C)[r.keyspace.toNat]? = none ∧
          Represents (K.setRekey t next) L.tick s') := by
  cases hr : K.rotation t with
  | none =>
    unfold Store.rekeyBatch at hs
    rw [h.rekeyRecord_eq, ok_bind, show (K.rekey t).filter (fun r => !r.done) = none from hr] at hs
    cases hs
  | some r =>
    refine ⟨r, rfl, ?_⟩
    rw [h.rekeyBatch_eq hr] at hs
    cases hwalk : (walk C)[r.keyspace.toNat]? with
    | none =>
      obtain ⟨next, s'', hrun, hnext, hdone, hrep, -⟩ := h.retire_ok hr hwalk
      simp only [hwalk, hrun] at hs
      cases hs
      exact ⟨next, hnext, .inr ⟨hdone, rfl, hrep⟩⟩
    | some =>
      obtain ⟨next, s'', hrun, hnext, hdone, hrep, -⟩ := h.walkBatch_ok hr hwalk batch
      simp only [hwalk, hrun] at hs
      cases hs
      exact ⟨next, hnext, .inl ⟨hdone, hrep⟩⟩

end Represents
end Dioptron
