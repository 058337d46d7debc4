import Dioptron.Retirements

/-! # What a rotation counts

`rekeyTenant` runs one begin, the batches of the walk and one retire, each a transaction.
The number of batches left is a measure on the progress record and the keyspaces it walks:
every batch takes one off it, and adds to the counts what it takes off what is left to
visit and to re-seal.  So a rotation that is interrupted after any of its commits goes on
with the rest of them and ends with the same counts.
-/
namespace Dioptron

variable {C : Crypto}

/-! ## The loop of a rotation -/

/-- What the environment gives one transaction: the nonces it draws and the clock. -/
structure Environment (C : Crypto) where
  nonce : Keyspace → Str C.Block → C.Nonce
  clock : Nat → Timestamp

/-- The commits of a rotation. -/
inductive Boundary
  | rekeyBegin
  | rekeyBatch
  | rekeyRetire
  deriving DecidableEq

/-- The commit that returned a batch's status: only the one that retires the key reports
the end. -/
def RekeyStatus.boundary (status : RekeyStatus) : Boundary :=
  if status.done then .rekeyRetire else .rekeyBatch

namespace Store

def under (s : Store C) (e : Environment C) : Store C :=
  { s with nonce := e.nonce, clock := e.clock }

def rekeyStatus (s : Store C) (tenant : TenantId) : Except Error (Option RekeyStatus) := do
  return (← s.rekeyRecord tenant).map (RekeyRecord.status (C := C))

/-- Batches until one reports the end, a transaction for each environment; with each commit
what it reported. -/
def rekeyLoop (tenant : TenantId) (batch : ℕ+) :
    List (Environment C) → RekeyStatus → Store C →
      Except Error (List (Boundary × RekeyStatus) × Store C)
  | [], _, s => .ok ([], s)
  | e :: es, status, s =>
    if status.done then .ok ([], s) else do
      let r ← (s.under e).rekeyBatch tenant batch
      let rest ← rekeyLoop tenant batch es r.1 r.2
      return ((r.1.boundary, r.1) :: rest.1, rest.2)

/-- Rotates the tenant's data key.  The process has an environment for each commit it
lives to make: with fewer than the rotation takes, the store is the one a crash leaves. -/
def rekeyTenant (s : Store C) (tenant : TenantId) (batch : ℕ+) (draw : C.Block) :
    List (Environment C) → Except Error (List (Boundary × RekeyStatus) × Store C)
  | [] => .ok ([], s)
  | e :: es => do
    match (← s.rekeyStatus tenant).filter fun status => !status.done with
    | some status => rekeyLoop tenant batch (e :: es) status s
    | none => do
      let begun ← (s.under e).beginRekey tenant draw
      let rest ← rekeyLoop tenant batch es begun.1 begun.2
      return ((.rekeyBegin, begun.1) :: rest.1, rest.2)

end Store

/-! ## What is left to do -/

/-- Whether an entry of the step's keyspace is sealed under the tenant's `keys`. -/
def WalkStep.opens (step : WalkStep C) (keys : TenantSealingKeys C) (e : Str C.Block × Value C) :
    Bool :=
  decide (e.2.sealedKeyId = some keys.keyId) &&
    step.slots.any fun slot => (openBytes [step.sealer keys] slot e.1 e.2).toOption.isSome

namespace Store

/-- The number of records under `keys` in the keyspace of a step. -/
def countIn (s : Store C) (keys : TenantSealingKeys C) (step : WalkStep C) : Nat :=
  s.db.total step.keyspace fun e => if step.opens keys e then 1 else 0

/-- The number of records under `keys`. -/
def countUnder (s : Store C) (keys : TenantSealingKeys C) : Nat :=
  ((walk C).map (s.countIn keys)).sum

/-- For each keyspace the walk has not finished, how many entries it has still to visit. -/
def left (s : Store C) (r : RekeyRecord C.Block) : List Nat :=
  match (walk C).drop r.keyspace.toNat with
  | [] => []
  | step :: later => (s.db.entriesAfter step.keyspace r.cursor).length ::
      later.map fun step => (s.db.entries step.keyspace).length

end Store

/-- The batches that visit so many entries in each keyspace: a keyspace ends with the first
batch that is not full. -/
def batches (batch : ℕ+) (sizes : List Nat) : Nat := (sizes.map fun n => n / (batch : Nat) + 1).sum

/-- The commits of a rotation with `n` batches to go. -/
def commitsLeft (n : Nat) : List Boundary := List.replicate n .rekeyBatch ++ [.rekeyRetire]

theorem commitsLeft_succ (n : Nat) : commitsLeft (n + 1) = .rekeyBatch :: commitsLeft n := rfl

theorem drop_commitsLeft {k n : Nat} (h : k ≤ n) :
    (commitsLeft n).drop k = commitsLeft (n - k) := by
  rw [commitsLeft, List.drop_append_of_le_length (by simpa using h), List.drop_replicate]
  rfl

section Sizes

variable {batch : ℕ+} {m : Nat} {sizes : List Nat}

theorem batches_cons : batches batch (m :: sizes) = m / (batch : Nat) + 1 + batches batch sizes :=
  rfl

/-- The last batch of a keyspace. -/
theorem batches_of_lt (h : m < batch) : batches batch (m :: sizes) = batches batch sizes + 1 := by
  rw [batches_cons, Nat.div_eq_of_lt h]
  omega

/-- A full batch. -/
theorem batches_of_le (h : (batch : Nat) ≤ m) :
    batches batch (m :: sizes) = batches batch ((m - batch) :: sizes) + 1 := by
  rw [batches_cons, batches_cons, Nat.div_eq_sub_div batch.pos h]
  omega

theorem toNat_saturatingCount (a : UInt64) (n : Nat) :
    (saturatingCount a n).toNat = min (a.toNat + n) (2 ^ 64 - 1) := by
  rw [saturatingCount, UInt64.toNat_ofNat']
  omega

theorem saturatingCount_add (a : UInt64) (m n : Nat) :
    saturatingCount (saturatingCount a m) n = saturatingCount a (m + n) := by
  apply UInt64.toNat_inj.mp
  rw [toNat_saturatingCount, toNat_saturatingCount, toNat_saturatingCount]
  omega

theorem saturatingCount_zero (a : UInt64) : saturatingCount a 0 = a := by
  apply UInt64.toNat_inj.mp
  have hlt := a.toNat_lt
  rw [toNat_saturatingCount]
  omega

end Sizes

/-! ## Counting one entry -/

section Entry

variable {s : Store C} {step : WalkStep C} {retiring active : TenantSealingKeys C}
  {k : Str C.Block} {v : Value C}

theorem sealedKeyId_of_sealBytes {key : SealingKey C} {slot : Slot} {nonce : C.Nonce}
    {p : Plain C.Block} (h : sealBytes key slot k nonce p = .ok v) :
    v.sealedKeyId = some key.id := by
  unfold sealBytes at h
  obtain ⟨-, -, h⟩ := bind_eq_ok.mp h
  obtain ⟨-, -, h⟩ := bind_eq_ok.mp h
  cases h
  exact sealedKeyId_sealedValue ..

/-- Re-sealing gives a value exactly for what one of the slots opens, under the active
key. -/
theorem resealAs_ok {slots : List Slot} {fresh : Option (Value C)}
    (h : Store.reseal.resealAs s step retiring active k v slots = .ok fresh) :
    (slots.any fun slot => (openBytes [step.sealer retiring] slot k v).toOption.isSome) =
        fresh.isSome ∧
      ∀ v' ∈ fresh, v'.sealedKeyId = some (step.sealer active).id := by
  induction slots with
  | nil =>
    cases h
    exact ⟨rfl, nofun⟩
  | cons slot _ ih =>
    rw [Store.reseal.resealAs] at h
    rw [List.any_cons]
    cases hopen : openBytes [step.sealer retiring] slot k v with
    | ok =>
      rw [hopen] at h
      obtain ⟨v', hseal, h⟩ := bind_eq_ok.mp h
      cases h
      refine ⟨rfl, ?_⟩
      rintro _ ⟨⟩
      exact sealedKeyId_of_sealBytes hseal
    | error error =>
      rw [hopen] at h
      cases error with
      | open_ => exact ih h
      | _ => cases h

theorem reseal_opens {fresh : Option (Value C)}
    (h : s.reseal step retiring active k v = .ok fresh) :
    step.opens retiring (k, v) = fresh.isSome ∧
      ∀ v' ∈ fresh, v'.sealedKeyId = some (step.sealer active).id := by
  unfold Store.reseal at h
  unfold WalkStep.opens
  split_ifs at h with hid
  · rw [decide_eq_true hid, Bool.true_and]
    exact resealAs_ok h
  · cases h
    rw [decide_eq_false hid]
    exact ⟨rfl, nofun⟩

/-- A value under another key id is not under these keys. -/
theorem opens_of_ne {id : KeyId} (hv : v.sealedKeyId = some id) (hne : id ≠ retiring.keyId) :
    step.opens retiring (k, v) = false := by
  unfold WalkStep.opens
  rw [hv, decide_eq_false (by simpa using hne), Bool.false_and]

/-- Re-sealing a stretch of entries moves no key, and takes from the records under the old
key as many as it counts. -/
theorem resealEntries_counts (hne : (step.sealer active).id ≠ retiring.keyId)
    {entries : List (Str C.Block × Value C)} {count : Nat} {s' : Store C}
    (hmem : ∀ e ∈ entries, s.db.get step.keyspace e.1 = some e.2)
    (hnodup : (entries.map Prod.fst).Nodup)
    (h : Store.resealEntries step retiring active entries s = .ok (count, s')) :
    s'.countIn retiring step + count = s.countIn retiring step ∧
      (∀ keyspace, s'.db.keys keyspace = s.db.keys keyspace) ∧
      ∀ keyspace, keyspace ≠ step.keyspace → s'.db.entries keyspace = s.db.entries keyspace := by
  induction entries generalizing s count with
  | nil =>
    cases h
    exact ⟨rfl, fun _ => rfl, fun _ _ => rfl⟩
  | cons e entries ih =>
    obtain ⟨k, v⟩ := e
    rw [List.map_cons, List.nodup_cons] at hnodup
    have hget : s.db.get step.keyspace k = some v := hmem (k, v) List.mem_cons_self
    have hrest (e : Str C.Block × Value C) (he : e ∈ entries) :
        s.db.get step.keyspace e.1 = some e.2 := hmem e (List.mem_cons_of_mem _ he)
    rw [Store.resealEntries] at h
    obtain ⟨fresh, hreseal, h⟩ := bind_eq_ok.mp h
    obtain ⟨hopens, hid⟩ := reseal_opens hreseal
    cases fresh with
    | none => exact ih hrest hnodup.2 h
    | some v' =>
      obtain ⟨⟨n, s₁⟩, hrun, h⟩ := bind_eq_ok.mp h
      cases h
      have hafter (e : Str C.Block × Value C) (he : e ∈ entries) :
          (s.db.insert step.keyspace k v').get step.keyspace e.1 = some e.2 := by
        rw [Keyspaces.get_insert_of_ne, hrest e he]
        refine .inr fun hkey => hnodup.1 ?_
        show k ∈ entries.map Prod.fst
        rw [hkey]
        exact List.mem_map_of_mem he
      obtain ⟨hcount, hkeys, hother⟩ := ih hafter hnodup.2 hrun
      refine ⟨?_, fun keyspace => ?_, fun keyspace hspace => ?_⟩
      · -- The entry was under the old key and is not any more.
        have hsum := Keyspaces.total_insert_add (w := v')
          (f := fun e => if step.opens retiring e then 1 else 0) hget
        simp only [hopens, opens_of_ne (hid v' rfl) hne] at hsum
        simp only [Store.countIn] at hcount ⊢
        simp only [Option.isSome_some, if_true, Bool.false_eq_true, if_false] at hsum
        omega
      · rw [hkeys, Keyspaces.keys_insert hget]
      · rw [hother keyspace hspace, Keyspaces.entries_insert_of_ne (Ne.symm hspace)]

end Entry

/-! ## Counting over the walk -/

theorem walk_nodup : ((walk C).map WalkStep.keyspace).Nodup :=
  (by decide : [Keyspace.idem, .artifacts, .blobs, .sessionIndex, .audit].Nodup)

theorem walk_ne_rekey {step : WalkStep C} (hstep : step ∈ walk C) :
    step.keyspace ∉ [Keyspace.keys, .tenants, .rekey] := by
  simp only [walk, List.mem_cons, List.not_mem_nil, or_false] at hstep
  rcases hstep with rfl | rfl | rfl | rfl | rfl <;> simp

/-- A sum over steps of which one changes. -/
theorem sum_map_of_step {f f' : WalkStep C → Nat} {n : Nat} {step : WalkStep C}
    (hchanged : f' step + n = f step)
    (hsame : ∀ other, other.keyspace ≠ step.keyspace → f' other = f other)
    {steps : List (WalkStep C)} (hnodup : (steps.map WalkStep.keyspace).Nodup)
    (hstep : step ∈ steps) : (steps.map f').sum + n = (steps.map f).sum := by
  induction steps with
  | nil => cases hstep
  | cons other steps ih =>
    rw [List.map_cons, List.nodup_cons] at hnodup
    simp only [List.map_cons, List.sum_cons]
    rcases List.mem_cons.mp hstep with rfl | hlater
    · have hrest : steps.map f' = steps.map f := by
        refine List.map_congr_left fun other hother => hsame other fun hkeyspace => hnodup.1 ?_
        rw [← hkeyspace]
        exact List.mem_map_of_mem hother
      rw [hrest]
      omega
    · have hhead : f' other = f other := by
        refine hsame other fun hkeyspace => hnodup.1 ?_
        rw [hkeyspace]
        exact List.mem_map_of_mem hlater
      have := ih hnodup.2 hlater
      omega

namespace Store

variable {s s' : Store C} {r : RekeyRecord C.Block} {step : WalkStep C} {batch : ℕ+}
  {keys : TenantSealingKeys C}

theorem countIn_congr (h : s'.db.entries step.keyspace = s.db.entries step.keyspace) :
    s'.countIn keys step = s.countIn keys step := by
  unfold countIn Keyspaces.total
  rw [h]

theorem countUnder_congr (h : ∀ step ∈ walk C,
    s'.db.entries step.keyspace = s.db.entries step.keyspace) :
    s'.countUnder keys = s.countUnder keys := by
  unfold countUnder
  rw [List.map_congr_left fun step hstep => countIn_congr (h step hstep)]

theorem left_congr (h : ∀ step ∈ walk C,
    s'.db.keys step.keyspace = s.db.keys step.keyspace) : s'.left r = s.left r := by
  unfold left
  cases hdrop : (walk C).drop r.keyspace.toNat with
  | nil => rfl
  | cons step later =>
    have hmem (other : WalkStep C) (hother : other ∈ step :: later) :
        s'.db.keys other.keyspace = s.db.keys other.keyspace :=
      h other (List.mem_of_mem_drop (hdrop ▸ hother))
    dsimp only
    rw [Keyspaces.length_entriesAfter_of_keys (hmem step List.mem_cons_self)]
    congr 1
    exact List.map_congr_left fun other hother =>
      Keyspaces.length_entries_of_keys (hmem other (List.mem_cons_of_mem _ hother))

theorem left_of_over (h : (walk C)[r.keyspace.toNat]? = none) : s.left r = [] := by
  unfold left
  rw [List.drop_of_length_le (List.getElem?_eq_none_iff.mp h)]

theorem left_fresh {tenant : TenantId} {source target : KeyId} {total : UInt64} {now : Timestamp} :
    s.left (freshRekey tenant source target total now) =
      (walk C).map fun step => (s.db.entries step.keyspace).length := rfl

theorem advance_visited {entries : List (Str C.Block × Value C)} {count : Nat} :
    (advance r batch entries count).visited = saturatingCount r.visited entries.length := by
  unfold advance
  split_ifs <;> rfl

theorem advance_resealed {entries : List (Str C.Block × Value C)} {count : Nat} :
    (advance r batch entries count).resealed = saturatingCount r.resealed count := by
  unfold advance
  split_ifs <;> rfl

theorem advance_total {entries : List (Str C.Block × Value C)} {count : Nat} :
    (advance r batch entries count).total = r.total := by
  unfold advance
  split_ifs <;> rfl

/-- One batch takes what it visits off what is left. -/
theorem left_advance (hwalk : (walk C)[r.keyspace.toNat]? = some step)
    {entries : List (Str C.Block × Value C)}
    (hentries : (s.db.entriesAfter step.keyspace r.cursor).take batch = entries) (count : Nat) :
    batches batch (s.left r) = batches batch (s.left (advance r batch entries count)) + 1 ∧
      (s.left r).sum = entries.length + (s.left (advance r batch entries count)).sum := by
  obtain ⟨hlt, hget⟩ := List.getElem?_eq_some_iff.mp hwalk
  have hfive : r.keyspace.toNat < 5 := hlt
  have hdrop := List.drop_eq_getElem_cons hlt
  rw [hget] at hdrop
  have hleft : s.left r = (s.db.entriesAfter step.keyspace r.cursor).length ::
      ((walk C).drop (r.keyspace.toNat + 1)).map
        fun step => (s.db.entries step.keyspace).length := by
    unfold left
    rw [hdrop]
  have hlen : entries.length = min (batch : Nat)
    (s.db.entriesAfter step.keyspace r.cursor).length := by
    rw [← hentries, List.length_take]
  rw [hleft]
  unfold advance
  split_ifs with hshort
  · -- The keyspace is finished: the walk goes on at the start of the next one.
    have hnext : (advance.saturatingSucc r.keyspace).toNat = r.keyspace.toNat + 1 := by
      simp only [advance.saturatingSucc, UInt8.toNat_ofNat']
      omega
    have hrest : s.left { r with
        visited := saturatingCount r.visited entries.length
        resealed := saturatingCount r.resealed count
        keyspace := advance.saturatingSucc r.keyspace
        cursor := none } = ((walk C).drop (r.keyspace.toNat + 1)).map
          fun step => (s.db.entries step.keyspace).length := by
      unfold left
      simp only [hnext]
      cases (walk C).drop (r.keyspace.toNat + 1) <;> rfl
    rw [hrest]
    refine ⟨batches_of_lt (by omega), ?_⟩
    rw [List.sum_cons]
    omega
  · -- The batch is full: the walk goes on after its last entry.
    have hfull : (batch : Nat) ≤ (s.db.entriesAfter step.keyspace r.cursor).length := by omega
    have hpos := batch.pos
    obtain ⟨⟨x, u⟩, hlast⟩ : ∃ e, entries.getLast? = some e := by
      cases hlast : entries.getLast? with
      | some e => exact ⟨e, rfl⟩
      | none =>
        rw [List.getLast?_eq_none_iff.mp hlast] at hlen
        simp only [List.length_nil] at hlen
        omega
    have hrest : s.left { r with
        visited := saturatingCount r.visited entries.length
        resealed := saturatingCount r.resealed count
        cursor := entries.getLast?.map Prod.fst } =
        ((s.db.entriesAfter step.keyspace r.cursor).length - batch) ::
          ((walk C).drop (r.keyspace.toNat + 1)).map
            fun step => (s.db.entries step.keyspace).length := by
      unfold left
      simp only [hdrop, hlast, Option.map_some]
      rw [Keyspaces.entriesAfter_last (hentries ▸ hlast), List.length_drop]
    rw [hrest]
    refine ⟨batches_of_le hfull, ?_⟩
    rw [List.sum_cons, List.sum_cons]
    omega

end Store

/-- Opening a sealed value as a step does. -/
theorem opens_sealedValue {step : WalkStep C} {keys : TenantSealingKeys C} {k : Str C.Block}
    {slot : Slot} {p : Plain C.Block} {sk : SealingKey C} {nonce : C.Nonce} (hk : k.len < 2 ^ 16)
    (hid : (step.sealer keys).id = keys.keyId) :
    step.opens keys (k, sealedValue sk slot k nonce p) = true ↔
      sk.id = keys.keyId ∧ (step.sealer keys).key = sk.key ∧ slot ∈ step.slots := by
  simp only [WalkStep.opens, sealedKeyId_sealedValue, Bool.and_eq_true, decide_eq_true_eq,
    Option.some.injEq, List.any_eq_true, and_congr_right_iff]
  intro hsame
  have hfind : List.find? (fun key => key.id == sk.id) [step.sealer keys] =
    some (step.sealer keys) := by
    rw [List.find?_cons, hid, hsame, beq_self_eq_true]
  have hopen (slot' : Slot) :
      (openBytes [step.sealer keys] slot' k (sealedValue sk slot k nonce p)).toOption.isSome =
        true ↔ (step.sealer keys).key = sk.key ∧ slot' = slot := by
    rw [openBytes_sealedValue _ _ _ _ hk, hfind]
    dsimp only
    split_ifs with hmatch
    · exact ⟨fun _ => ⟨hmatch.1, hmatch.2.1⟩, fun _ => rfl⟩
    · exact ⟨nofun, fun hboth => absurd ⟨hboth.1, hboth.2, rfl⟩ hmatch⟩
  constructor
  · rintro ⟨slot', hslot, h⟩
    obtain ⟨hkey, rfl⟩ := (hopen slot').mp h
    exact ⟨hkey, hslot⟩
  · rintro ⟨hkey, hslot⟩
    exact ⟨slot, hslot, (hopen slot).mpr ⟨hkey, rfl⟩⟩

namespace Represents

variable {K : KeyState C} {L : Custody C} {s s' : Store C} {t : TenantId} {r : RekeyRecord C.Block}
  {step : WalkStep C}

/-- The entries under a data key of a tenant are the tenant's records with that key id. -/
theorem opens_iff (h : Represents K L s) {id : KeyId} (hissued : (t, id) ∈ K.issued)
    (hstep : step ∈ walk C) {k : Str C.Block} {v : Value C}
    (hget : s.db.get step.keyspace k = some v) :
    step.opens (K.sealing t id) (k, v) = true ↔ ∃ m : TenantName C.Block,
      m.slot.keyspace = step.keyspace ∧ k = K.key L (.sealed t m) ∧ v.sealedKeyId = some id := by
  obtain ⟨n, p, sk, nonce, hspace, rfl, -, hsk, rfl⟩ :=
    h.toRecords.sealed_of_get hget (walk_holdsRecords hstep)
  have hstepId : (step.sealer (K.sealing t id)).id = (K.sealing t id).keyId :=
    walk_sealer_id hstep _
  rw [opens_sealedValue (KeyState.key_len_lt n) hstepId, h.opened_iff hissued hstep hspace hsk]
  constructor
  · rintro ⟨m, rfl, rfl⟩
    exact ⟨m, hspace, rfl, by rw [sealedKeyId_sealedValue, KeyState.sealer_id]⟩
  · rintro ⟨m, hm, hkey, hid⟩
    obtain rfl : n = .sealed t m := h.inj _ _ (hspace.trans hm.symm) hkey
    obtain ⟨id', -, -, rfl⟩ := hsk
    rw [sealedKeyId_sealedValue, KeyState.sealer_id, Option.some.injEq] at hid
    exact ⟨m, rfl, by rw [hid]⟩

/-- When the walk is over nothing is under the old key. -/
theorem countUnder_of_over (h : Represents K L s) (hr : r ∈ K.rotation t)
    (hwalk : (walk C)[r.keyspace.toNat]? = none) : s.countUnder (K.sealing t r.fromKeyId) = 0 := by
  have hrekey := (KeyState.mem_rotation.mp hr).1
  have hissued := (h.tenants t).source_issued r hrekey
  refine List.sum_eq_zero fun n hn => ?_
  obtain ⟨step, hstep, rfl⟩ := List.mem_map.mp hn
  refine List.sum_eq_zero fun n hn => ?_
  obtain ⟨⟨k, v⟩, he, rfl⟩ := List.mem_map.mp hn
  have hget := Keyspaces.mem_entries.mp he
  refine if_neg fun hopens => ?_
  obtain ⟨m, hspace, rfl, hid⟩ := (h.opens_iff hissued hstep hget).mp hopens
  rw [← hspace] at hget
  obtain ⟨i, hi, hindex⟩ := walkIndex_lt m
  have hpassed : Passed r m.slot.keyspace (K.key L (.sealed t m)) :=
    ⟨i, hindex, .inl (lt_of_lt_of_le hi (List.getElem?_eq_none_iff.mp hwalk))⟩
  obtain ⟨n, p, sk, nonce, hsame, hkey, -, hsk, rfl⟩ :=
    h.toRecords.sealed_of_get hget (Name.slot_ne (.sealed t m))
  obtain rfl : Name.sealed t m = n := h.inj _ _ hsame.symm hkey
  obtain ⟨id, -, hallowed, rfl⟩ := hsk
  rw [sealedKeyId_sealedValue, KeyState.sealer_id, Option.some.injEq] at hid
  subst hid
  rcases hallowed (h.live_of_rotation hr) with hactive | ⟨r', hr', -, hnot⟩
  · exact (h.tenants t).rekey_source r hrekey hactive
  · obtain rfl : r' = r := Option.some.inj (hr'.symm.trans hr)
    exact hnot hpassed

end Represents

/-! ## A rotation in progress -/

/-- What a rotation counts. -/
structure RekeyCounts where
  visited : UInt64
  resealed : UInt64
  total : UInt64

def RekeyStatus.counts (status : RekeyStatus) : RekeyCounts :=
  ⟨status.visited, status.resealed, status.total⟩

namespace Store

variable {s s' : Store C} {t : TenantId} {batch : ℕ+} {n : Nat} {counts : RekeyCounts}
  {status : RekeyStatus}

/-- A rotation in progress with `n` batches to go before the key is retired, and `counts`
to come. -/
def Rekeying (s : Store C) (t : TenantId) (batch : ℕ+) (n : Nat) (counts : RekeyCounts) : Prop :=
  ∃ (K : KeyState C) (L : Custody C) (r : RekeyRecord C.Block), Represents K L s ∧
    r ∈ K.rotation t ∧ batches batch (s.left r) = n ∧
    counts = ⟨saturatingCount r.visited (s.left r).sum,
      saturatingCount r.resealed (s.countUnder (K.sealing t r.fromKeyId)), r.total⟩

/-- The rotation's last commit reported `counts`, and so does the store. -/
def Reported (s : Store C) (t : TenantId) (log : List (Boundary × RekeyStatus))
    (counts : RekeyCounts) : Prop :=
  ∃ last, log.getLast? = some (.rekeyRetire, last) ∧ last.done = true ∧ last.counts = counts ∧
    s.rekeyStatus t = .ok (some last)

namespace Rekeying

theorem under (h : s.Rekeying t batch n counts) (e : Environment C) :
    (s.under e).Rekeying t batch n counts := by
  obtain ⟨K, L, r, hrep, hr, hn, hcounts⟩ := h
  exact ⟨K, _, r, (hrep.setNonce e.nonce).setClock e.clock, hr, hn, hcounts⟩

theorem exists_status (h : s.Rekeying t batch n counts) :
    ∃ status, s.rekeyStatus t = .ok (some status) ∧ status.done = false := by
  obtain ⟨K, L, r, hrep, hr, -⟩ := h
  obtain ⟨hrekey, hdone⟩ := KeyState.mem_rotation.mp hr
  refine ⟨RekeyRecord.status (C := C) r, ?_, hdone⟩
  rw [Store.rekeyStatus, hrep.rekeyRecord_eq, hrekey]
  rfl

/-- With no batch to go the key is retired. -/
theorem retire (h : s.Rekeying t batch 0 counts) :
    ∃ status s', s.rekeyBatch t batch = .ok (status, s') ∧ status.done = true ∧
      status.counts = counts ∧ s'.rekeyStatus t = .ok (some status) := by
  obtain ⟨K, L, r, hrep, hr, hn, rfl⟩ := h
  have hwalk : (walk C)[r.keyspace.toNat]? = none := by
    cases hwalk : (walk C)[r.keyspace.toNat]? with
    | none => rfl
    | some step =>
      have hleft := (left_advance (s := s) hwalk
        (rfl : (s.db.entriesAfter step.keyspace r.cursor).take (batch : Nat) = _) 0).1
      omega
  obtain ⟨s', hrun, -, hdone, hrep', -⟩ := hrep.retire_finished hr hwalk rfl
  have hbatch : s.rekeyBatch t batch = _ := (hrep.rekeyBatch_eq hr batch).trans (by rw [hwalk])
  refine ⟨_, s', hbatch.trans hrun, hdone, ?_, ?_⟩
  · rw [left_of_over hwalk, hrep.countUnder_of_over hr hwalk, List.sum_nil, saturatingCount_zero,
      saturatingCount_zero]
    rfl
  · rw [Store.rekeyStatus, hrep'.rekeyRecord_eq, KeyState.setRekey_rekey_self]
    rfl

/-- A batch takes one off what is left, and the counts to come stay. -/
theorem next (h : s.Rekeying t batch (n + 1) counts) :
    ∃ status s', s.rekeyBatch t batch = .ok (status, s') ∧ status.done = false ∧
      s'.Rekeying t batch n counts := by
  obtain ⟨K, L, r, hrep, hr, hn, rfl⟩ := h
  have hrekey := (KeyState.mem_rotation.mp hr).1
  cases hwalk : (walk C)[r.keyspace.toNat]? with
  | none =>
    rw [left_of_over hwalk] at hn
    cases hn
  | some step =>
    have hstep : step ∈ walk C := List.mem_of_getElem? hwalk
    generalize hentries : (s.db.entriesAfter step.keyspace r.cursor).take batch = entries
    obtain ⟨count, db, s', hreseal, hrun, hnext, hdone, hrep', hframe, -⟩ :=
      hrep.walkBatch_resealed hr hwalk batch hentries
    have hmem (e : Str C.Block × Value C) (he : e ∈ entries) :
        s.db.get step.keyspace e.1 = some e.2 := by
      rw [← hentries] at he
      exact (Keyspaces.mem_entriesAfter.mp (List.mem_of_mem_take he)).1
    have hnodup : (entries.map Prod.fst).Nodup := by
      rw [← hentries]
      exact Keyspaces.keys_nodup_of_sorted
        ((Keyspaces.entriesAfter_sorted s.db step.keyspace r.cursor).sublist
          (List.take_sublist _ _))
    have hne : (step.sealer (K.sealing t (K.active t))).id ≠ (K.sealing t r.fromKeyId).keyId := by
      rw [show (step.sealer (K.sealing t (K.active t))).id = K.active t from walk_sealer_id hstep _]
      exact ((hrep.tenants t).rekey_source r hrekey).symm
    obtain ⟨hcount, hkeys, hother⟩ := resealEntries_counts hne hmem hnodup hreseal
    -- Writing the progress record touches no keyspace of the walk.
    have hentry (other : WalkStep C) (h : other ∈ walk C) :
        s'.db.entries other.keyspace = db.entries other.keyspace :=
      hframe _ fun hrekey => walk_ne_rekey h (by rw [hrekey]; simp)
    have hleft : s'.left (advance r batch entries count) =
      s.left (advance r batch entries count) := by
      refine left_congr fun other hin => ?_
      rw [Keyspaces.keys, hentry other hin]
      exact hkeys other.keyspace
    have hunder : s'.countUnder (K.sealing t r.fromKeyId) + count =
        s.countUnder (K.sealing t r.fromKeyId) := by
      rw [countUnder_congr (s := { s with db := db }) hentry]
      exact sum_map_of_step hcount (fun other hspace => countIn_congr (hother _ hspace)) walk_nodup
        hstep
    obtain ⟨hbatches, hsum⟩ := left_advance (s := s) hwalk hentries count
    have hbatch : s.rekeyBatch t batch = _ := (hrep.rekeyBatch_eq hr batch).trans (by rw [hwalk])
    refine ⟨_, s', hbatch.trans hrun, hdone, K.setRekey t _, L, _, hrep',
      KeyState.mem_rotation.mpr ⟨KeyState.setRekey_rekey_self, hdone⟩, ?_, ?_⟩
    · rw [hleft]
      omega
    · rw [hleft, advance_visited, advance_resealed, hnext.source, advance_total,
        saturatingCount_add, saturatingCount_add, ← hsum, Nat.add_comm count]
      show _ = (⟨_, saturatingCount r.resealed
        (s'.countUnder (K.sealing t r.fromKeyId) + count), _⟩ : RekeyCounts)
      rw [hunder]

/-- The loop over a rotation in progress: it makes the commits that are left, as far as the
process lives. -/
theorem rekeyLoop (h : s.Rekeying t batch n counts) (hstatus : status.done = false)
    (es : List (Environment C)) :
    ∃ log s', Store.rekeyLoop t batch es status s = .ok (log, s') ∧
      log.map Prod.fst = (commitsLeft n).take es.length ∧
      (es.length ≤ n → s'.Rekeying t batch (n - es.length) counts) ∧
      (n < es.length → s'.Reported t log counts) := by
  induction es generalizing s n status with
  | nil => exact ⟨[], s, rfl, rfl, fun _ => h, fun hlt => absurd hlt (Nat.not_lt_zero n)⟩
  | cons e es ih =>
    have hnot : ¬ (status.done = true) := by rw [hstatus]; exact Bool.false_ne_true
    rw [Store.rekeyLoop, if_neg hnot]
    cases n with
    | zero =>
      obtain ⟨last, s', hrun, hdone, hcounts, hread⟩ := (h.under e).retire
      have hrest : Store.rekeyLoop t batch es last s' = .ok ([], s') := by
        cases es with
        | nil => rfl
        | cons => rw [Store.rekeyLoop, if_pos hdone]
      have hboundary : last.boundary = .rekeyRetire := if_pos hdone
      refine ⟨[(.rekeyRetire, last)], s', ?_, by simp [commitsLeft],
        fun hle => absurd hle (by simp), fun _ => ⟨last, rfl, hdone, hcounts, hread⟩⟩
      rw [hrun, ok_bind, hrest, ok_bind, hboundary]
      rfl
    | succ =>
      obtain ⟨status', s₁, hrun, hdone, h₁⟩ := (h.under e).next
      obtain ⟨log, s', hloop, hlog, hopen, hended⟩ := ih h₁ hdone
      have hboundary : status'.boundary = .rekeyBatch :=
        if_neg (by rw [hdone]; exact Bool.false_ne_true)
      refine ⟨(.rekeyBatch, status') :: log, s', ?_, ?_, fun hle => ?_, fun hlt => ?_⟩
      · rw [hrun, ok_bind, hloop, ok_bind, hboundary]
        rfl
      · rw [List.map_cons, hlog, commitsLeft_succ, List.length_cons, List.take_succ_cons]
      · rw [List.length_cons] at hle ⊢
        rw [Nat.add_sub_add_right]
        exact hopen (by omega)
      · rw [List.length_cons] at hlt
        obtain ⟨last, hlast, hrest⟩ := hended (by omega)
        refine ⟨last, ?_, hrest⟩
        rw [List.getLast?_cons, hlast]
        rfl

/-- Resuming a rotation in progress. -/
theorem rekeyTenant (h : s.Rekeying t batch n counts) (draw : C.Block) (es : List (Environment C)) :
    ∃ log s', s.rekeyTenant t batch draw es = .ok (log, s') ∧
      log.map Prod.fst = (commitsLeft n).take es.length ∧
      (es.length ≤ n → s'.Rekeying t batch (n - es.length) counts) ∧
      (n < es.length → s'.Reported t log counts) := by
  obtain ⟨status, hstatus, hdone⟩ := h.exists_status
  have hloop : s.rekeyTenant t batch draw es = Store.rekeyLoop t batch es status s := by
    cases es with
    | nil => rfl
    | cons =>
      rw [Store.rekeyTenant, hstatus, ok_bind]
      simp only [Option.filter_some, hdone, Bool.not_false, if_true]
  rw [hloop]
  exact h.rekeyLoop hdone es

end Rekeying
end Store

/-! ## From the begin to the end -/

namespace Store

/-- The entries of each keyspace of the walk. -/
def walkSizes (s : Store C) : List Nat :=
  (walk C).map fun step => (s.db.entries step.keyspace).length

/-- The counts of a rotation of the data key with the subkeys `keys`. -/
def rotationCounts (s : Store C) (keys : TenantSealingKeys C) : RekeyCounts :=
  ⟨s.walkTotal, saturatingCount 0 (s.countUnder keys), s.walkTotal⟩

/-- A rotation begins only with the keys of the tenant and an id for the new one. -/
theorem beginRekey_keys {s s' : Store C} {t : TenantId} {draw : C.Block} {status : RekeyStatus}
    (h : s.beginRekey t draw = .ok (status, s')) :
    ∃ keys, s.tenantKeys t = .ok keys ∧ keys.active.keyId.toNat + 1 < 2 ^ 32 := by
  unfold beginRekey at h
  obtain ⟨record, -, h⟩ := bind_eq_ok.mp h
  cases record with
  | none => cases h
  | some =>
    obtain ⟨-, -, h⟩ := bind_eq_ok.mp h
    obtain ⟨keys, hkeys, h⟩ := bind_eq_ok.mp h
    obtain ⟨target, htarget, -⟩ := bind_eq_ok.mp h
    obtain ⟨_, hids, _⟩ := bind_eq_ok.mp htarget
    exact ⟨keys, hkeys, ensure_eq_ok.mp hids⟩

end Store

namespace Represents

variable {K : KeyState C} {L : Custody C} {s s' : Store C} {t : TenantId} {draw : C.Block}

variable (h : Represents K L s)

include h

theorem beginRekey_rekeying (hlive : (L.profiles t).isSome)
    (hidle : K.rotation t = none) (hids : (K.active t).toNat + 1 < 2 ^ 32)
    (hfresh : ∀ x ∈ K.issued, K.dataKey x.1 x.2 ≠ draw) (batch : ℕ+) :
    ∃ status s', s.beginRekey t draw = .ok (status, s') ∧ status.done = false ∧
      s'.Rekeying t batch (batches batch s.walkSizes)
        (s.rotationCounts (K.sealing t (K.active t))) := by
  obtain ⟨total, s', hrun, rfl, hrep, hget⟩ := h.beginRekey_begun hlive hidle hids hfresh
  have hentries (step : WalkStep C) (hstep : step ∈ walk C) :
      s'.db.entries step.keyspace = s.db.entries step.keyspace := by
    have hne := walk_ne_rekey hstep
    simp only [List.mem_cons, List.not_mem_nil, or_false, not_or] at hne
    exact Keyspaces.entries_congr fun k => hget _ k hne.1 (.inl hne.2.1) (.inl hne.2.2)
  have hsizes : s'.walkSizes = s.walkSizes :=
    List.map_congr_left fun step hstep => by rw [hentries step hstep]
  have hsealing (r : RekeyRecord C.Block) :
      (K.beginRekey t draw r).sealing t (K.active t) = K.sealing t (K.active t) := by
    simp only [KeyState.beginRekey, KeyState.setRekey, KeyState.sealing,
      KeyState.issue_dataKey_of_ne (Or.inr succ_ne)]
  refine ⟨_, s', hrun, rfl, _, _, _, hrep,
    KeyState.mem_rotation.mpr ⟨KeyState.beginRekey_rekey_self, rfl⟩, ?_, ?_⟩
  · rw [Store.left_fresh]
    exact congrArg (batches batch) hsizes
  · rw [Store.left_fresh]
    show _ = (⟨saturatingCount 0 s'.walkSizes.sum, saturatingCount 0 (s'.countUnder
      ((K.beginRekey t draw _).sealing t (K.active t))), _⟩ : RekeyCounts)
    rw [hsealing, hsizes, Store.countUnder_congr hentries]
    rfl

theorem rekeyStatus_eq (t : TenantId) :
    s.rekeyStatus t = .ok ((K.rekey t).map (RekeyRecord.status (C := C))) := by
  rw [Store.rekeyStatus, h.rekeyRecord_eq]
  rfl

/-- With no rotation in progress one begins. -/
theorem rekeyTenant_of_idle (hidle : K.rotation t = none) (batch : ℕ+)
    (e : Environment C) (es : List (Environment C)) :
    s.rekeyTenant t batch draw (e :: es) = do
      let begun ← (s.under e).beginRekey t draw
      let rest ← Store.rekeyLoop t batch es begun.1 begun.2
      return ((.rekeyBegin, begun.1) :: rest.1, rest.2) := by
  have hnone : ((K.rekey t).map (RekeyRecord.status (C := C))).filter
      (fun status => !status.done) = none := by
    rw [Option.filter_map]
    exact congrArg (Option.map _) hidle
  rw [Store.rekeyTenant, h.rekeyStatus_eq, ok_bind, hnone]

/-- A whole rotation, as far as the process lives. -/
theorem rekeyTenant_begins (hlive : (L.profiles t).isSome)
    (hidle : K.rotation t = none) (hids : (K.active t).toNat + 1 < 2 ^ 32)
    (hfresh : ∀ x ∈ K.issued, K.dataKey x.1 x.2 ≠ draw) (batch : ℕ+) (e : Environment C)
    (es : List (Environment C)) :
    ∃ log s', s.rekeyTenant t batch draw (e :: es) = .ok (log, s') ∧
      log.map Prod.fst =
        .rekeyBegin :: (commitsLeft (batches batch s.walkSizes)).take es.length ∧
      (es.length ≤ batches batch s.walkSizes →
        s'.Rekeying t batch (batches batch s.walkSizes - es.length)
          (s.rotationCounts (K.sealing t (K.active t)))) ∧
      (batches batch s.walkSizes < es.length →
        s'.Reported t log (s.rotationCounts (K.sealing t (K.active t)))) := by
  have hrep : Represents K { L with clock := e.clock } (s.under e) :=
    (h.setNonce e.nonce).setClock e.clock
  obtain ⟨status, s₁, hbegin, hdone, hrekeying⟩ :=
    hrep.beginRekey_rekeying hlive hidle hids hfresh batch
  obtain ⟨log, s', hloop, hlog, hopen, hended⟩ := hrekeying.rekeyLoop hdone es
  refine ⟨(.rekeyBegin, status) :: log, s', ?_, ?_, hopen, fun hlt => ?_⟩
  · rw [h.rekeyTenant_of_idle hidle, hbegin, ok_bind, hloop]
    rfl
  · rw [List.map_cons, hlog]
    rfl
  · obtain ⟨last, hlast, hrest⟩ := hended hlt
    refine ⟨last, ?_, hrest⟩
    rw [List.getLast?_cons, hlast]
    rfl

end Represents

/-- Counting by adding ones. -/
theorem Store.countIn_eq (s : Store C) (keys : TenantSealingKeys C) (step : WalkStep C) :
    s.countIn keys step = ((s.db.entries step.keyspace).filter (step.opens keys)).length := by
  unfold Store.countIn Keyspaces.total
  induction s.db.entries step.keyspace with
  | nil => rfl
  | cons _ _ ih =>
    rw [List.map_cons, List.sum_cons, ih, List.filter_cons]
    split_ifs
    · rw [List.length_cons, Nat.add_comm]
    · rw [Nat.zero_add]

/-- A keyspace has at least as many entries as records under a key. -/
theorem Store.countUnder_le (s : Store C) (keys : TenantSealingKeys C) :
    s.countUnder keys ≤ s.walkSizes.sum := by
  refine List.sum_le_sum fun step _ => ?_
  rw [Store.countIn_eq]
  exact List.length_filter_le _ _

/-- Counting entries of a keyspace by the names of their records. -/
theorem Represents.length_filter {K : KeyState C} {L : Custody C} {s : Store C}
    (h : Represents K L s) {keyspace : Keyspace} (hspace : keyspace.HoldsRecords)
    {f : Str C.Block × Value C → Bool} {names : List (Name C.Block)} (hnodup : names.Nodup)
    (hstored : ∀ n ∈ names, n.slot.keyspace = keyspace ∧ (K.content L n).isSome)
    (hf : ∀ n v, n.slot.keyspace = keyspace → s.db.get keyspace (K.key L n) = some v →
      (f (K.key L n, v) = true ↔ n ∈ names)) :
    ((s.db.entries keyspace).filter f).length = names.length := by
  have hkeys : (names.map (K.key L)).Nodup :=
    (List.nodup_map_iff_inj_on hnodup).mpr fun n hn m hm heq =>
      h.inj n m ((hstored n hn).1.trans (hstored m hm).1.symm) heq
  have hentries : (((s.db.entries keyspace).filter f).map Prod.fst).Nodup :=
    (Keyspaces.entries_keys_nodup s.db keyspace).sublist (List.filter_sublist.map _)
  rw [← List.length_map Prod.fst, ← @List.length_map _ _ names (K.key L)]
  refine ((List.perm_ext_iff_of_nodup hentries hkeys).mpr fun k => ?_).length_eq
  simp only [List.mem_map, List.mem_filter]
  constructor
  · rintro ⟨⟨k, v⟩, ⟨he, hopens⟩, rfl⟩
    have hget := Keyspaces.mem_entries.mp he
    obtain ⟨n, p, hn, rfl, -⟩ := h.named _ _ _ hget hspace
    exact ⟨n, (hf n v hn hget).mp hopens, rfl⟩
  · rintro ⟨n, hn, rfl⟩
    obtain ⟨hsame, hsome⟩ := hstored n hn
    rw [← h.toRecords.get_isSome n, hsame] at hsome
    obtain ⟨v, hget⟩ := Option.isSome_iff_exists.mp hsome
    exact ⟨(_, v), ⟨Keyspaces.mem_entries.mpr hget, (hf n v hsame hget).mpr hn⟩, rfl⟩

namespace Sample

/-- Two keys of the agent and one of the operator. -/
def claims : List (IdemClaim Crypto.ideal) :=
  [opening, { opening with capability := .grantIssue }, { opening with tenant := operator }]

/-- The book in which they are bound. -/
def claimed : Custody Crypto.ideal :=
  claims.foldl (fun L c => L.putSealed c.tenant (.idem c.capability c.key
    ⟨c.invocation, c.binding⟩)) registered

/-- The names of the entries. -/
def claimNames : List (Name Crypto.ideal.Block) :=
  claims.map fun c => .sealed c.tenant (.idem c.capability c.key)

def ofAgent : Name Crypto.ideal.Block → Bool
  | .sealed t _ => t = agent
  | _ => false

/-- Nothing else is in the keyspaces of the walk. -/
theorem mem_claimNames {K : KeyState Crypto.ideal} {n : Name Crypto.ideal.Block}
    (hspace : n.slot.keyspace ∈ [Keyspace.idem, .artifacts, .blobs, .sessionIndex, .audit])
    (hn : (K.content claimed n).isSome) : n ∈ claimNames := by
  cases n with
  | tenant t | tombstone t =>
    exact absurd hspace (by decide : Keyspace.tenants ∉ [Keyspace.idem, _, _, _, _])
  | rekey => exact absurd hspace (by decide : Keyspace.rekey ∉ [Keyspace.idem, _, _, _, _])
  | global n => cases n <;> cases hn
  | sealed t n =>
    cases n with
    | idem capability key =>
      have hempty : registered.idem (t, capability, key) = none := rfl
      have hbound : (claimed.idem (t, capability, key)).isSome := by
        simpa [KeyState.content, Custody.sealed] using hn
      simp only [claimed, claims, List.foldl_cons, List.foldl_nil, Custody.putSealed, Book.setIdem,
        Function.update_apply] at hbound
      simp only [claimNames, claims, List.map_cons, List.map_nil, List.mem_cons]
      split_ifs at hbound <;> simp_all
    | artifact | pending | blob | sessionIndex | audit => cases hn

/-- A store with the three keys, none of whose data keys was rotated. -/
theorem exists_claimed : ∃ (w : World Crypto.ideal) (K : KeyState Crypto.ideal), w.Reachable ∧
    w.Holds K claimed ∧ (∀ t, K.rekey t = none) ∧ ([3] : List ℕ) ∉ w.drawn := by
  obtain ⟨w, K, hreach, h, hrekey, -, hdrawn⟩ := exists_registered
  obtain ⟨w₁, hstep₁, hdrawn₁, h₁⟩ := h.claim (c := opening) rfl rfl
  obtain ⟨w₂, hstep₂, hdrawn₂, h₂⟩ :=
    h₁.claim (c := { opening with capability := .grantIssue }) rfl rfl
  obtain ⟨w₃, hstep₃, hdrawn₃, h₃⟩ := h₂.claim (c := { opening with tenant := operator }) rfl rfl
  refine ⟨w₃, K, ((hreach.next hstep₁).next hstep₂).next hstep₃, h₃, hrekey, ?_⟩
  rw [hdrawn₃, hdrawn₂, hdrawn₁, hdrawn]
  rintro (hmem | hmem) <;> cases hmem

section Claimed

variable {w : World Crypto.ideal} {K : KeyState Crypto.ideal}

/-- Counting entries of the keyspaces of the walk. -/
theorem length_filter_claimed (h : w.Holds K claimed) {keyspace : Keyspace}
    (hwalk : keyspace ∈ [Keyspace.idem, .artifacts, .blobs, .sessionIndex, .audit])
    {f : Str Crypto.ideal.Block × Value Crypto.ideal → Bool} {p : Name Crypto.ideal.Block → Bool}
    (hf : ∀ n ∈ claimNames, n.slot.keyspace = keyspace → ∀ v,
      w.store.db.get keyspace (K.key claimed n) = some v → f (K.key claimed n, v) = p n) :
    ((w.store.db.entries keyspace).filter f).length =
      (claimNames.filter fun n => n.slot.keyspace = keyspace && p n).length := by
  have hspace : keyspace.HoldsRecords := by
    constructor <;> rintro rfl <;> exact absurd hwalk (by decide)
  refine h.represents.length_filter hspace ((by decide : claimNames.Nodup).filter _) ?_ ?_
  · intro n hn
    obtain ⟨hmem, hp⟩ := List.mem_filter.mp hn
    refine ⟨of_decide_eq_true (Bool.and_eq_true_iff.mp hp).1, ?_⟩
    simp only [claimNames, claims, List.map_cons, List.map_nil, List.mem_cons, List.not_mem_nil,
      or_false] at hmem
    rcases hmem with rfl | rfl | rfl <;> rfl
  · intro n v hsame hget
    have hsome := h.represents.toRecords.get_isSome n
    rw [hsame, hget] at hsome
    have hmem : n ∈ claimNames := mem_claimNames (hsame ▸ hwalk) hsome.symm
    rw [hf n hmem hsame v hget, List.mem_filter, hsame]
    simp [hmem]

theorem walkSizes_claimed (h : w.Holds K claimed) : w.store.walkSizes = [3, 0, 0, 0, 0] := by
  have hsize (step : WalkStep Crypto.ideal) (hstep : step ∈ walk _) :
      (w.store.db.entries step.keyspace).length = (claimNames.filter fun n =>
        n.slot.keyspace = step.keyspace && true).length := by
    rw [← length_filter_claimed h (f := fun _ => true) (List.mem_map_of_mem hstep)
      fun _ _ _ _ _ => rfl, List.filter_true]
  rw [Store.walkSizes, List.map_congr_left hsize]
  decide

theorem countUnder_claimed (h : w.Holds K claimed) (hrekey : ∀ t, K.rekey t = none) :
    w.store.countUnder (K.sealing agent (K.active agent)) = 2 := by
  have hidle : K.rotation agent = none := by
    rw [KeyState.rotation, hrekey]
    rfl
  have hissued := (h.represents.tenants agent).active_issued rfl
  have hcount (step : WalkStep Crypto.ideal) (hstep : step ∈ walk _) :
      w.store.countIn (K.sealing agent (K.active agent)) step = (claimNames.filter fun n =>
        n.slot.keyspace = step.keyspace && ofAgent n).length := by
    rw [Store.countIn_eq]
    refine length_filter_claimed h (List.mem_map_of_mem hstep) fun n hn hsame v hget => ?_
    rw [Bool.eq_iff_iff, h.represents.opens_iff hissued hstep hget]
    constructor
    · rintro ⟨m, hspace, hkey, -⟩
      obtain rfl : n = .sealed agent m := h.represents.inj _ _ (hsame.trans hspace.symm) hkey
      rfl
    · intro hagent
      cases n with
      | sealed t m =>
        obtain rfl : t = agent := of_decide_eq_true hagent
        rw [← hsame] at hget
        exact ⟨m, hsame, rfl, h.represents.sealedKeyId_of_idle rfl hidle hget⟩
      | _ => cases hagent
  rw [Store.countUnder, List.map_congr_left hcount]
  decide

end Claimed
end Sample

/-- **A rotation ends, and its progress adds up.**  In every store, a tenant with keys, no
rotation in progress and an id left for a new data key is rotated by one begin, the batches
that visit the five keyspaces and one retire, in batches of any size, as long as the
keyspaces hold fewer than `2 ^ 64` entries.  Visited and total are the number of those
entries, and re-sealed is the number of records under the old data key, which are the
tenant's.  After a crash at any of the commits the next run makes those that are left and
reports the same counts; after the last one nothing is left, and the store reports them.
Any other tenant is refused with nothing written. -/
theorem rekeyTenant_adds_up {w : World C} (hw : w.Reachable) {t : TenantId} {draw : C.Block}
    (hidle : ∀ status, w.store.rekeyStatus t = .ok (some status) → status.done = true)
    (hdraw : draw ∉ w.drawn) (batch : ℕ+) :
    (∀ keys, w.store.tenantKeys t = .ok keys → keys.active.keyId.toNat + 1 < 2 ^ 32 →
      (∀ step ∈ walk C, ∀ k v, w.store.db.get step.keyspace k = some v →
        (step.opens keys.active (k, v) = true ↔ ∃ n : TenantName C.Block,
          n.slot.keyspace = step.keyspace ∧ k = Store.sealedKey keys t n)) ∧
      (w.store.walkSizes.sum < 2 ^ 64 → ∃ counts : RekeyCounts, counts.visited = counts.total ∧
        counts.total.toNat = w.store.walkSizes.sum ∧
        counts.resealed.toNat = w.store.countUnder keys.active ∧
        ∀ commits, commits = .rekeyBegin :: commitsLeft (batches batch w.store.walkSizes) →
          ∀ es, ∃ log s', w.store.rekeyTenant t batch draw es = .ok (log, s') ∧
            log.map Prod.fst = commits.take es.length ∧
            (commits.length ≤ es.length → s'.Reported t log counts) ∧
            (es ≠ [] → es.length < commits.length → ∀ draw' es', ∃ log' s'',
              s'.rekeyTenant t batch draw' es' = .ok (log', s'') ∧
              log'.map Prod.fst = (commits.drop es.length).take es'.length ∧
              (commits.length ≤ es.length + es'.length → s''.Reported t log' counts)))) ∧
    ((∀ keys, w.store.tenantKeys t = .ok keys → 2 ^ 32 ≤ keys.active.keyId.toNat + 1) →
      ∀ e es, ∃ error, w.store.rekeyTenant t batch draw (e :: es) = .error error) := by
  obtain ⟨K, L, h⟩ := hw.holds
  have hrep := h.represents
  have hrotation : K.rotation t = none := by
    rw [KeyState.rotation]
    cases hrekey : K.rekey t with
    | none => rfl
    | some r =>
      have hstatus := hrep.rekeyStatus_eq t
      rw [hrekey] at hstatus
      have hdone : r.done = true := hidle _ hstatus
      simp [Option.filter_some, hdone]
  refine ⟨fun keys hkeys hids => ?_, fun hnone e es => ?_⟩
  · have hlive : (L.profiles t).isSome := by
      rw [hrep.tenantKeys_eq] at hkeys
      obtain ⟨u, hcheck, -⟩ := map_eq_ok.mp hkeys
      exact (Custody.checkLive_eq_ok L).mp hcheck
    rw [hrep.tenantKeys_of_live hlive] at hkeys
    cases hkeys
    refine ⟨fun step hstep k v hget => ?_, fun hfits =>
      ⟨w.store.rotationCounts (K.sealing t (K.active t)), rfl, ?_, ?_, ?_⟩⟩
    · rw [show (K.ring L t).active = K.sealing t (K.active t) from rfl,
        hrep.opens_iff ((hrep.tenants t).active_issued hlive) hstep hget]
      constructor
      · rintro ⟨n, hspace, hkey, -⟩
        exact ⟨n, hspace, hkey⟩
      · rintro ⟨n, hspace, hkey⟩
        obtain rfl : k = K.key L (.sealed t n) := hkey
        rw [← hspace] at hget
        exact ⟨n, hspace, rfl, hrep.sealedKeyId_of_idle hlive hrotation hget⟩
    · have htotal := toNat_saturatingCount 0 w.store.walkSizes.sum
      rw [UInt64.toNat_zero, Nat.zero_add, min_eq_left (by omega)] at htotal
      exact htotal
    · have hle := w.store.countUnder_le (K.sealing t (K.active t))
      have hcount := toNat_saturatingCount 0 (w.store.countUnder (K.sealing t (K.active t)))
      rw [UInt64.toNat_zero, Nat.zero_add, min_eq_left (by omega)] at hcount
      exact hcount
    · rintro _ rfl es
      cases es with
      | nil =>
        exact ⟨[], w.store, rfl, rfl, fun hle => absurd hle (by simp), fun hne => absurd rfl hne⟩
      | cons e es =>
        obtain ⟨log, s', hrun, hlog, hopen, hended⟩ :=
          hrep.rekeyTenant_begins hlive hrotation hids (h.fresh hdraw) batch e es
        have hlen (n : Nat) : (commitsLeft n).length = n + 1 := by simp [commitsLeft]
        refine ⟨log, s', hrun, hlog, fun hle => ?_, fun _ hlt draw' es' => ?_⟩
        · rw [List.length_cons, List.length_cons, hlen] at hle
          exact hended (by omega)
        · rw [List.length_cons, List.length_cons, hlen] at hlt
          obtain ⟨log', s'', hresume, hlog', -, hended'⟩ :=
            (hopen (by omega)).rekeyTenant draw' es'
          refine ⟨log', s'', hresume, ?_, fun hle => hended' ?_⟩
          · rw [hlog', List.length_cons, List.drop_succ_cons, drop_commitsLeft (by omega)]
          · rw [List.length_cons, List.length_cons, hlen] at hle
            omega
  · cases hrun : w.store.rekeyTenant t batch draw (e :: es) with
    | error error => exact ⟨error, rfl⟩
    | ok =>
      rw [hrep.rekeyTenant_of_idle hrotation] at hrun
      obtain ⟨⟨status, s'⟩, hbegin, -⟩ := bind_eq_ok.mp hrun
      obtain ⟨keys, hkeys, hids⟩ := Store.beginRekey_keys hbegin
      have := hnone keys hkeys
      omega

/-- A rotation of a tenant that is not registered is refused, and one that is resumed after
its last commit does not go on with nothing: it begins again, or fails to. -/
theorem rekeyTenant_refused_or_restarted : ∃ (w : World Crypto.ideal)
    (es : List (Environment Crypto.ideal)) (log : List (Boundary × RekeyStatus))
    (s' : Store Crypto.ideal), w.Reachable ∧
      (w.store.rekeyStatus ⟨3⟩ = .ok none ∧ ∀ draw e es, ∃ error,
        w.store.rekeyTenant ⟨3⟩ 2 draw (e :: es) = .error error) ∧
      w.store.rekeyStatus Sample.agent = .ok none ∧
      w.store.rekeyTenant Sample.agent 2 ([3] : List ℕ) es = .ok (log, s') ∧
      log.map Prod.fst = .rekeyBegin :: commitsLeft 6 ∧
      ∀ draw e es, (∃ error, s'.rekeyTenant Sample.agent 2 draw (e :: es) = .error error) ∨
        ∃ begun rest s'', s'.rekeyTenant Sample.agent 2 draw (e :: es) =
          .ok ((.rekeyBegin, begun) :: rest, s'') := by
  obtain ⟨w, K, hreach, h, hrekey, hdraw⟩ := Sample.exists_claimed
  have hrep := h.represents
  have hidle (t : TenantId) : K.rotation t = none := by
    rw [KeyState.rotation, hrekey]
    rfl
  have hstatus (t : TenantId) : w.store.rekeyStatus t = .ok none := by
    rw [hrep.rekeyStatus_eq, hrekey]
    rfl
  have hactive : K.active Sample.agent = initialDataKeyId :=
    ((hrep.tenants Sample.agent).initial rfl (hrekey _)).1
  let e : Environment Crypto.ideal := ⟨w.store.nonce, w.store.clock⟩
  obtain ⟨log, s', hrun, hlog, -, hended⟩ := hrep.rekeyTenant_begins rfl (hidle Sample.agent)
    (by rw [hactive]; decide) (h.fresh hdraw) 2 e (List.replicate 7 e)
  rw [Sample.walkSizes_claimed h] at hlog hended
  obtain ⟨last, -, hdone, -, hreported⟩ := hended (by rw [List.length_replicate]; decide)
  refine ⟨w, _, log, s', hreach, ⟨hstatus _, fun draw e es => ?_⟩, hstatus _, hrun, hlog,
    fun draw e es => ?_⟩
  · rw [hrep.rekeyTenant_of_idle (hidle _)]
    cases hbegin : (w.store.under e).beginRekey ⟨3⟩ draw with
    | error error => exact ⟨error, rfl⟩
    | ok =>
      obtain ⟨keys, hkeys, -⟩ := Store.beginRekey_keys hbegin
      have hkeys : w.store.tenantKeys ⟨3⟩ = .ok keys := hkeys
      rw [hrep.tenantKeys_eq] at hkeys
      cases hkeys
  · rw [Store.rekeyTenant, hreported, ok_bind]
    simp only [Option.filter_some, hdone, Bool.not_true, Bool.false_eq_true, if_false]
    cases hbegin : (s'.under e).beginRekey Sample.agent draw with
    | error error => exact .inl ⟨error, rfl⟩
    | ok begun =>
      rw [ok_bind]
      cases hrest : Store.rekeyLoop Sample.agent 2 es begun.1 begun.2 with
      | error error => exact .inl ⟨error, rfl⟩
      | ok => exact .inr ⟨_, _, _, rfl⟩

/-- Two records of the agent, one of the operator and batches of two.  The rotation crashes
after its first batch, and the next run makes the commits that are left and reports three
records visited and two re-sealed. -/
theorem rekeyTenant_adds_up_of_crash : ∃ (w : World Crypto.ideal)
    (keys : TenantKeyring Crypto.ideal) (counts : RekeyCounts), w.Reachable ∧
      w.store.tenantKeys Sample.agent = .ok keys ∧ w.store.walkSizes = [3, 0, 0, 0, 0] ∧
      w.store.countUnder keys.active = 2 ∧ counts.visited = 3 ∧ counts.total = 3 ∧
      counts.resealed = 2 ∧
      ∃ es log s', w.store.rekeyTenant Sample.agent 2 ([3] : List ℕ) es = .ok (log, s') ∧
        log.map Prod.fst = [.rekeyBegin, .rekeyBatch] ∧
        ∃ draw es' log' s'', s'.rekeyTenant Sample.agent 2 draw es' = .ok (log', s'') ∧
          log'.map Prod.fst = commitsLeft 5 ∧ s''.Reported Sample.agent log' counts := by
  obtain ⟨w, K, hreach, h, hrekey, hdraw⟩ := Sample.exists_claimed
  have hrep := h.represents
  have hstatus : w.store.rekeyStatus Sample.agent = .ok none := by
    rw [hrep.rekeyStatus_eq, hrekey]
    rfl
  have hactive : K.active Sample.agent = initialDataKeyId :=
    ((hrep.tenants Sample.agent).initial rfl (hrekey _)).1
  have hkeys := hrep.tenantKeys_of_live (t := Sample.agent) rfl
  have hsizes := Sample.walkSizes_claimed h
  have hunder := Sample.countUnder_claimed h hrekey
  obtain ⟨counts, hvisited, htotal, hresealed, hruns⟩ :=
    ((rekeyTenant_adds_up hreach (t := Sample.agent)
      (fun status hsome => by rw [hstatus] at hsome; cases hsome) hdraw 2).1 _ hkeys
      (by rw [KeyState.ring_active_keyId, hactive]; decide)).2 (by rw [hsizes]; decide)
  let e : Environment Crypto.ideal := ⟨w.store.nonce, w.store.clock⟩
  rw [hsizes] at htotal hruns
  obtain ⟨log, s', hrun, hlog, -, hresumes⟩ := hruns _ rfl [e, e]
  obtain ⟨log', s'', hrun', hlog', hended⟩ := hresumes (by simp)
    (by rw [List.length_cons, List.length_singleton]; decide) ([4] : List ℕ) (List.replicate 6 e)
  refine ⟨w, _, counts, hreach, hkeys, hsizes, hunder, ?_, ?_, ?_, _, log, s', hrun, hlog, _, _,
    log', s'', hrun', hlog', hended ?_⟩
  · rw [hvisited]
    exact UInt64.toNat_inj.mp htotal
  · exact UInt64.toNat_inj.mp htotal
  · exact UInt64.toNat_inj.mp (hresealed.trans hunder)
  · rw [List.length_replicate, List.length_cons, List.length_cons, List.length_cons]
    decide

end Dioptron
