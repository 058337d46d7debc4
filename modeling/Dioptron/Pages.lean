import Dioptron.System

/-! # Pages of a tenant's records

A session's index and a tenant's audit trail are stretches of a keyspace: their keys share
a hashed start and go on with a number in the order of the stretch.  Reading a page opens
the entries of a stretch in key order.  The answer is the records of the book in the order
of their numbers, whichever keys they are sealed under.
-/
namespace Dioptron

variable {C : Crypto}

/-- Where a test can only fail for good, the elements that pass it are the first ones. -/
theorem takeWhile_eq_filter_of_pairwise {α : Type} {p : α → Bool} {l : List α}
    (h : l.Pairwise fun x y => p y = true → p x = true) : l.takeWhile p = l.filter p := by
  induction l with
  | nil => rfl
  | cons a l ih =>
    obtain ⟨hhead, htail⟩ := List.pairwise_cons.mp h
    by_cases ha : p a = true
    · rw [List.takeWhile_cons_of_pos ha, List.filter_cons_of_pos ha, ih htail]
    · rw [List.takeWhile_cons_of_neg ha, List.filter_cons_of_neg ha, eq_comm,
        List.filter_eq_nil_iff]
      exact fun b hb hpb => ha (hhead b hb hpb)

/-- The records of one kind that a tenant has under one hashed start. -/
structure Stretch (K : KeyState C) (L : Custody C) (t : TenantId) (ι T : Type)
    [Stored C.Block T] where
  slot : Slot
  pick : TenantSealingKeys C → SealingKey C
  start : C.Block
  name : ι → TenantName C.Block
  suffix : ι → Bytes
  get : ι → Option T
  suffix_inj : Function.Injective suffix
  slot_eq : ∀ i, (name i).slot = slot
  sealer_eq : ∀ i, (name i).sealer = pick
  key_eq : ∀ i, K.key L (.sealed t (name i)) = .block start :: Str.ofBytes (suffix i)
  sealed_eq : ∀ i, L.sealed t (name i) = (get i).map Stored.encode
  exhausts : ∀ n : Name C.Block, n.slot.keyspace = slot.keyspace →
    (K.key L n).head? = some (.block start) → ∃ i, n = .sealed t (name i)
  holds : slot.keyspace.HoldsRecords

namespace Stretch

variable {K : KeyState C} {L : Custody C} {s : Store C} {t : TenantId} {ι T : Type}
  [Stored C.Block T]

/-- The key of the `i`-th record. -/
def key (stretch : Stretch K L t ι T) (i : ι) : Str C.Block :=
  .block stretch.start :: Str.ofBytes (stretch.suffix i)

/-- What a reader finds at one entry: the `i`-th record, with its number. -/
structure Finds (stretch : Stretch K L t ι T) (e : Str C.Block × Value C) (x : ι × T) : Prop where
  key_eq : e.1 = stretch.key x.1
  get_eq : stretch.get x.1 = some x.2
  opens : openBytes ((K.ring L t).openers stretch.pick) stretch.slot e.1 e.2 =
    .ok (Stored.encode x.2)

theorem exists_finds (h : Represents K L s) (stretch : Stretch K L t ι T)
    (hlive : (L.profiles t).isSome) {e : Str C.Block × Value C}
    (he : e ∈ s.db.entries stretch.slot.keyspace)
    (hhead : e.1.head? = some (.block stretch.start)) : ∃ x, stretch.Finds e x := by
  obtain ⟨k, v⟩ := e
  obtain ⟨n, p, sk, nonce, hspace, rfl, hp, hsk, rfl⟩ :=
    h.toRecords.sealed_of_get (Keyspaces.mem_entries.mp he) stretch.holds
  obtain ⟨i, rfl⟩ := stretch.exhausts n hspace hhead
  obtain ⟨r, hr, rfl⟩ := Option.map_eq_some_iff.mp ((stretch.sealed_eq i).symm.trans hp)
  obtain ⟨id, -, hid, rfl⟩ := hsk
  refine ⟨(i, r), ⟨stretch.key_eq i, hr, ?_⟩⟩
  rw [openBytes_sealedValue _ _ _ _ (KeyState.key_len_lt _), KeyState.sealer_id,
    ← stretch.sealer_eq i, h.find_opener hlive hid]
  simp only [Name.slot, stretch.slot_eq, and_self, if_true]

theorem exists_entry (h : Represents K L s) (stretch : Stretch K L t ι T) {i : ι} {r : T}
    (hr : stretch.get i = some r) :
    ∃ v, (stretch.key i, v) ∈ s.db.entries stretch.slot.keyspace := by
  have hp : K.content L (.sealed t (stretch.name i)) = some (Stored.encode r) := by
    show L.sealed t (stretch.name i) = _
    rw [stretch.sealed_eq, hr]
    rfl
  obtain ⟨sk, nonce, -, hget⟩ := h.stored _ _ hp
  rw [stretch.key_eq i, Name.slot, stretch.slot_eq i] at hget
  exact ⟨_, Keyspaces.mem_entries.mpr hget⟩

theorem compare_key (stretch : Stretch K L t ι T) (i j : ι) :
    compare (stretch.key i) (stretch.key j) = compare (stretch.suffix i) (stretch.suffix j) := by
  rw [key, key, List.compare_cons_cons, Sym.compare_block_block, Std.ReflOrd.compare_self,
    Str.compare_ofBytes]
  rfl

/-- **A stretch in key order.**  The entries of the stretch that pass a test on their keys
are its records that pass it, each once and in the order of their numbers. -/
theorem exists_records (h : Represents K L s) (stretch : Stretch K L t ι T)
    (hlive : (L.profiles t).isSome) (keep : Str C.Block → Bool)
    (hkeep : ∀ k, keep k = true → k.head? = some (.block stretch.start)) :
    ∃ rs, List.Forall₂ stretch.Finds
        ((s.db.entries stretch.slot.keyspace).filter fun e => keep e.1) rs ∧
      rs.Pairwise (fun a b => compare (stretch.suffix a.1) (stretch.suffix b.1) = .lt) ∧
      ∀ x, x ∈ rs ↔ stretch.get x.1 = some x.2 ∧ keep (stretch.key x.1) = true := by
  have hfinds : ∀ e ∈ (s.db.entries stretch.slot.keyspace).filter fun e => keep e.1,
      ∃ x, stretch.Finds e x := by
    intro e he
    obtain ⟨hmem, hkept⟩ := List.mem_filter.mp he
    exact stretch.exists_finds h hlive hmem (hkeep _ hkept)
  obtain ⟨rs, hall⟩ := exists_forall₂ hfinds
  refine ⟨rs, hall, ?_, ?_⟩
  · refine pairwise_of_forall₂ hall ((Keyspaces.entries_sorted s.db _).filter _) ?_
    intro e x e' x' hx hx' hlt
    rwa [hx.key_eq, hx'.key_eq, stretch.compare_key] at hlt
  · rintro ⟨i, r⟩
    constructor
    · intro hmem
      obtain ⟨e, he, hfinds⟩ := exists_of_mem_right hall hmem
      refine ⟨hfinds.get_eq, ?_⟩
      rw [← hfinds.key_eq]
      exact (List.mem_filter.mp he).2
    · rintro ⟨hr, hkept⟩
      obtain ⟨v, he⟩ := stretch.exists_entry h hr
      obtain ⟨⟨j, r'⟩, hmem, hfinds⟩ := exists_of_mem_left hall (List.mem_filter.mpr ⟨he, hkept⟩)
      obtain rfl : i = j :=
        stretch.suffix_inj (Str.ofBytes_injective (List.cons.inj hfinds.key_eq).2)
      obtain rfl : r = r' := Option.some.inj (hr.symm.trans hfinds.get_eq)
      exact hmem

/-! ## The session index -/

/-- The index of a session of tenant `t`. -/
def sessionIndex (K : KeyState C) (L : Custody C) (t : TenantId) (session : SessionId) :
    Stretch K L t ArtifactRef SessionIndexRecord where
  slot := .sessionIndex
  pick := TenantSealingKeys.metaKey
  start := keyed (L.address t).index RecordKey.Domain.sessionIndex.label
    [RecordKey.idPart t, RecordKey.idPart session]
  name ref := .sessionIndex session ref
  suffix := Ulid.toBytes
  get ref := L.sessionIndex (t, session, ref)
  suffix_inj := Ulid.toBytes_injective
  slot_eq _ := rfl
  sealer_eq _ := rfl
  key_eq _ := rfl
  sealed_eq _ := rfl
  exhausts := by
    rintro (u | u | u | (_ | _ | _ | _ | _ | _ | _) | ⟨u, (_ | _ | _ | _ | _ | _)⟩) hspace hhead <;>
      cases hspace
    rename_i session' ref
    -- The name of the same reference in the session has the same key.
    refine ⟨ref, KeyState.key_inj (K := K) (L := L) rfl ?_⟩
    exact congrArg (· :: Str.ofBytes ref.toBytes) (Option.some.inj hhead)
  holds := ⟨nofun, nofun⟩

end Stretch

/-- Ids compare as their bytes do. -/
theorem Ulid.compare_toBytes {kind : IdKind} (a b : Ulid kind) :
    compare a.toBytes b.toBytes = compare a.bits.toNat b.bits.toNat := by
  have hlt (x : Ulid kind) : x.bits.toNat < 256 ^ 16 :=
    lt_of_lt_of_eq x.bits.isLt (by norm_num)
  exact compare_beBytes (hlt a) (hlt b)

namespace Store

/-- A page opens the entries at the front of its range, up to its limit. -/
theorem indexPage_eq {keys : TenantKeyring C} {start : C.Block} (limit : Nat)
    {entries : List (Str C.Block × Value C)} {rs : List SessionIndexRecord}
    (h : List.Forall₂ (fun e r => openBytes (keys.openers TenantSealingKeys.metaKey) .sessionIndex
        e.1 e.2 = .ok (Stored.encode r))
      (entries.takeWhile fun e => e.1.head? = some (.block start)) rs) :
    indexPage keys start limit entries =
      .ok ⟨(rs.map SessionIndexRecord.artifact).take limit, decide (limit < rs.length)⟩ := by
  induction entries generalizing limit rs with
  | nil =>
    cases h
    simp [indexPage]
  | cons e _ ih =>
    obtain ⟨k, v⟩ := e
    by_cases hhead : k.head? = some (.block start)
    · rw [List.takeWhile_cons_of_pos (by simpa using hhead)] at h
      obtain ⟨r, rs, hopen, hrest, rfl⟩ := List.forall₂_cons_left_iff.mp h
      cases limit with
      | zero => simp [indexPage, hhead]
      | succ limit =>
        have hdecode := decodeAs_encode (C := C) .sessionIndex r
        simp only [indexPage, hhead, if_true, hopen, ok_bind, hdecode, ih limit hrest]
        simp
        rfl
    · rw [List.takeWhile_cons_of_neg (by simpa using hhead)] at h
      cases h
      cases limit <;> simp [indexPage, hhead]

/-- A key at or after the start of a range, and before one that has the range's block, has
it too. -/
theorem head_of_between {start : C.Block} {first k k' : Str C.Block}
    (hfirst : first.head? = some (.block start)) (hle : (compare first k).isLE)
    (hlt : compare k k' = .lt) (hk' : k'.head? = some (.block start)) :
    k.head? = some (.block start) := by
  obtain ⟨x, first, rfl⟩ := List.exists_cons_of_ne_nil (show first ≠ [] by rintro rfl; cases hfirst)
  obtain ⟨y, k', rfl⟩ := List.exists_cons_of_ne_nil (show k' ≠ [] by rintro rfl; cases hk')
  cases hfirst
  cases hk'
  cases k with
  | nil => cases hle
  | cons z =>
    rw [List.compare_cons_cons] at hle hlt
    have hzle : (compare (Sym.block start) z).isLE := by
      revert hle
      cases compare (Sym.block start) z <;> simp
    have hzge : (compare z (Sym.block start)).isLE := by
      revert hlt
      cases compare z (Sym.block start) <;> simp
    have heq : compare z (Sym.block start) = .eq := by
      rw [Std.OrientedOrd.eq_swap] at hzle
      revert hzle hzge
      cases compare z (Sym.block start) <;> simp
    rw [Std.LawfulEqOrd.eq_of_compare heq]
    rfl

/-- With one more symbol a string is at most another of its first length exactly when it
was before it. -/
theorem compare_append_isLE {α : Type} [Ord α] {a b : List α} {x : α} (h : a.length = b.length) :
    (compare (a ++ [x]) b).isLE ↔ compare a b = .lt := by
  induction a generalizing b with
  | nil =>
    obtain rfl := List.length_eq_zero_iff.mp h.symm
    rw [List.nil_append, List.compare_nil_nil]
    exact ⟨nofun, nofun⟩
  | cons c a ih =>
    cases b with
    | nil => cases h
    | cons d =>
      rw [List.cons_append, List.compare_cons_cons, List.compare_cons_cons]
      cases compare c d with
      | lt => simp
      | eq => simpa using ih (by simpa using h)
      | gt => simp

end Store

/-- `refs` are the artifacts of a session's index after `after`, in order. -/
structure Custody.Lists (L : Custody C) (owner : TenantId) (session : SessionId)
    (after : Option ArtifactRef) (refs : List ArtifactRef) : Prop where
  sorted : refs.Pairwise fun a b => a.bits.toNat < b.bits.toNat
  mem : ∀ ref, ref ∈ refs ↔ (L.sessionIndex (owner, session, ref)).isSome ∧
    ∀ a ∈ after, a.bits.toNat < ref.bits.toNat

namespace Represents

variable {K : KeyState C} {L : Custody C} {s : Store C}

/-- Whether the start of a page lets a reference in. -/
theorem pageStart_isLE (t : TenantId) (session : SessionId) (after : Option ArtifactRef)
    (ref : ArtifactRef) :
    (compare (Store.pageStart (Stretch.sessionIndex K L t session).start after)
      ((Stretch.sessionIndex K L t session).key ref)).isLE ↔
      ∀ a ∈ after, a.bits.toNat < ref.bits.toNat := by
  cases after with
  | none =>
    refine iff_of_true ?_ nofun
    rw [Store.pageStart, Stretch.key, List.compare_cons_cons, Std.ReflOrd.compare_self]
    cases Str.ofBytes ((Stretch.sessionIndex K L t session).suffix ref) <;> rfl
  | some a =>
    have hlen : (Str.ofBytes a.toBytes : Str C.Block).length =
        (Str.ofBytes ref.toBytes : Str C.Block).length := by simp
    rw [Store.pageStart, Stretch.key, List.compare_cons_cons, Std.ReflOrd.compare_self]
    show (compare (Str.ofBytes a.toBytes ++ [.byte 0]) (Str.ofBytes ref.toBytes)).isLE ↔ _
    rw [Store.compare_append_isLE hlen, Str.compare_ofBytes, Ulid.compare_toBytes,
      Nat.compare_eq_lt]
    exact ⟨fun hlt a' ha' => Option.some.inj ha' ▸ hlt, fun h => h a rfl⟩

/-- **A page of a session's index** is the first references after its start. -/
theorem sessionArtifacts_eq (h : Represents K L s) {session : SessionId} {sr : SessionRecord}
    (hsr : L.sessions session = some sr) (hlive : (L.profiles sr.owner).isSome)
    (hnames : ∀ ref e, L.sessionIndex (sr.owner, session, ref) = some e → e.artifact = ref)
    (after : Option ArtifactRef) (limit : UInt32) :
    ∃ refs, L.Lists sr.owner session after refs ∧ s.sessionArtifacts session after limit =
      .ok (some ⟨refs.take limit.toNat, decide (limit.toNat < refs.length)⟩) := by
  set stretch := Stretch.sessionIndex K L sr.owner session with hstretch
  have hfirst : (Store.pageStart stretch.start after).head? = some (.block stretch.start) := by
    cases after <;> rfl
  obtain ⟨rs, hall, hsorted, hmem⟩ := stretch.exists_records h hlive
    (fun k => decide (k.head? = some (.block stretch.start)) &&
      (compare (Store.pageStart stretch.start after) k).isLE) fun k hk => by
      rw [Bool.and_eq_true] at hk
      exact of_decide_eq_true hk.1
  have hartifact {x : ArtifactRef × SessionIndexRecord} (hx : x ∈ rs) : x.2.artifact = x.1 :=
    hnames _ _ ((hmem x).mp hx).1
  refine ⟨rs.map Prod.fst, ⟨?_, ?_⟩, ?_⟩
  · rw [List.pairwise_map]
    refine hsorted.imp fun hlt => ?_
    rwa [hstretch, Stretch.sessionIndex, Ulid.compare_toBytes, Nat.compare_eq_lt] at hlt
  · intro ref
    rw [List.mem_map, Option.isSome_iff_exists]
    constructor
    · rintro ⟨x, hx, rfl⟩
      obtain ⟨hget, hkept⟩ := (hmem x).mp hx
      rw [Bool.and_eq_true] at hkept
      exact ⟨⟨x.2, hget⟩, (pageStart_isLE _ _ _ _).mp hkept.2⟩
    · rintro ⟨⟨e, he⟩, hafter⟩
      refine ⟨(ref, e), (hmem _).mpr ⟨he, ?_⟩, rfl⟩
      rw [Bool.and_eq_true]
      exact ⟨decide_eq_true rfl, (pageStart_isLE _ _ _ _).mpr hafter⟩
  · have hring : s.liveTenantKeys sr.owner = .ok (some (K.ring L sr.owner)) := by
      rw [h.liveTenantKeys_eq, (Custody.checkLive_eq_ok (u := ()) L).mpr hlive]
    -- The stretch's entries are the first ones at or after the start of the page.
    have hfront : (s.rangeFrom .sessionIndex (Store.pageStart stretch.start after)).takeWhile
          (fun e => decide (e.1.head? = some (.block stretch.start))) =
        (s.db.entries .sessionIndex).filter fun e =>
          decide (e.1.head? = some (.block stretch.start)) &&
            (compare (Store.pageStart stretch.start after) e.1).isLE := by
      rw [takeWhile_eq_filter_of_pairwise, Store.rangeFrom, List.filter_filter]
      have hrange : (s.rangeFrom .sessionIndex (Store.pageStart stretch.start after)).Pairwise
          fun a b => compare a.1 b.1 = .lt := (Keyspaces.entries_sorted s.db _).filter _
      refine hrange.imp_of_mem fun {a b} ha _ hlt hb => ?_
      rw [decide_eq_true_eq] at hb ⊢
      exact Store.head_of_between hfirst (List.mem_filter.mp ha).2 hlt hb
    have hopens : List.Forall₂ (fun e r => openBytes ((K.ring L sr.owner).openers
          TenantSealingKeys.metaKey) .sessionIndex e.1 e.2 = .ok (Stored.encode r))
        ((s.rangeFrom .sessionIndex (Store.pageStart stretch.start after)).takeWhile
          fun e => e.1.head? = some (.block stretch.start)) (rs.map Prod.snd) := by
      rw [hfront, List.forall₂_map_right_iff]
      exact hall.imp fun e x hx => hx.opens
    have hpage := Store.indexPage_eq limit.toNat hopens
    have hrefs : (rs.map Prod.snd).map SessionIndexRecord.artifact = rs.map Prod.fst := by
      rw [List.map_map]
      exact List.map_congr_left fun x hx => hartifact hx
    unfold Store.sessionArtifacts
    rw [h.record_eq (x := L.sessions session) (Name.storeScoped_global _) rfl, ok_bind, hsr]
    dsimp only
    rw [hring, ok_bind]
    dsimp only
    show (Store.indexPage (K.ring L sr.owner) stretch.start limit.toNat
      (s.rangeFrom .sessionIndex (Store.pageStart stretch.start after)) >>= fun page =>
        pure (some page)) = _
    rw [hpage, ok_bind, hrefs, List.length_map, List.length_map]
    rfl

end Represents
end Dioptron
