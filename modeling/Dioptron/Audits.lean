import Dioptron.Ideal
import Dioptron.Merging
import Dioptron.Pages
import Dioptron.Trail

/-! # Audit queries

A query reads every unshredded tenant's partition, keeps at most `limit` selected entries
of each, merges them and cuts the result again.  What it answers is the front of the list
of all selected entries, in the order of the trail; so it depends on the selected entries
alone.
-/
namespace Dioptron

variable {C : Crypto}

namespace Tx

/-- The entry `seq` of a tenant's partition. -/
def auditEntry (tenant : TenantId) (seq : AuditSeq) : Tx C (Option AuditEntryRecord) := do
  let keys ← tenantKeys tenant
  sealedRecord AuditEntryRecord keys (.audit seq)

end Tx

namespace Store

/-- The entry `seq` of the partition of an unshredded tenant. -/
def auditAt (s : Store C) (tenant : TenantId) (seq : AuditSeq) : Option AuditEntryRecord :=
  ((s.commit (Tx.auditEntry tenant seq)).map Prod.fst).toOption.join

/-- A query asks for `e`: it is in the query's session and in its scope. -/
def Selects (s : Store C) (query : AuditQuery) (e : AuditEntryRecord) : Prop :=
  (∀ session ∈ query.session, e.session = some session) ∧
    (query.scope = .all ∨ e.tenant = query.actor ∨
      ∃ session ∈ e.session, (s.sessionAt session).map SessionRecord.owner = some query.actor)

/-- `all` are the entries a query asks for after its start, of every unshredded tenant and
in the order of the trail. -/
structure Matches (s : Store C) (query : AuditQuery) (all : List AuditEvent) : Prop where
  ascending : Ascending (fun e : AuditEvent => e.seq.toNat) all
  mem : ∀ e, e ∈ all ↔ (∃ tenant seq, s.auditAt tenant seq = some e) ∧
    (∀ a ∈ query.after, a.toNat < e.seq.toNat) ∧ s.Selects query e

/-- Both stores have the same entries of `actor`, the same sessions of `actor` and the same
entries of unshredded tenants in them. -/
structure AgreeFor (actor : TenantId) (s s' : Store C) : Prop where
  own : ∀ seq, s.auditAt actor seq = s'.auditAt actor seq
  owned : ∀ session, (s.sessionAt session).map SessionRecord.owner = some actor ↔
    (s'.sessionAt session).map SessionRecord.owner = some actor
  entries : ∀ session, (s.sessionAt session).map SessionRecord.owner = some actor →
    ∀ tenant seq e, e.session = some session →
      (s.auditAt tenant seq = some e ↔ s'.auditAt tenant seq = some e)

/-! ## One partition -/

/-- A page keeps the first selected entries, whatever the test remembers. -/
theorem auditPage_eq {σ : Type} {keys : TenantKeyring C}
    {keep : AuditEntryRecord → StateT σ (Except Error) Bool} {selects : AuditEntryRecord → Bool}
    {Q : σ → Prop} (hkeep : ∀ e m, Q m → ∃ m', keep e m = .ok (selects e, m') ∧ Q m')
    (limit : Nat) {entries : List (Str C.Block × Value C)} {rs : List AuditEntryRecord}
    (h : List.Forall₂ (fun e r => openBytes (keys.openers TenantSealingKeys.auditKey) .audit
      e.1 e.2 = .ok (Stored.encode r)) entries rs) {m : σ} (hm : Q m) :
    ∃ m', auditPage keys keep limit entries m = .ok ((rs.filter selects).take limit, m') ∧
      Q m' := by
  induction h generalizing limit m with
  | nil => exact ⟨m, by simp only [auditPage, List.filter_nil, List.take_nil]; rfl, hm⟩
  | @cons e r entries _ hopen _ ih =>
    obtain ⟨k, v⟩ := e
    cases limit with
    | zero => exact ⟨m, rfl, hm⟩
    | succ limit =>
      obtain ⟨m₁, hkept, hm₁⟩ := hkeep r m hm
      have hdecode := decodeAs_encode (C := C) .audit r
      -- What is left to do after the entry was opened and tested.
      have hfirst : auditPage keys keep (limit + 1) ((k, v) :: entries) m =
          (if selects r then do
              let page ← auditPage keys keep limit entries
              return r :: page
            else auditPage keys keep (limit + 1) entries :
              StateT σ (Except Error) (List AuditEvent)) m₁ := by
        simp only [auditPage, bind, StateT.bind, liftM, monadLift, MonadLift.monadLift, StateT.lift,
          hopen, hdecode, Except.bind, pure, Except.pure, hkept]
      rw [hfirst]
      by_cases hsel : selects r = true
      · obtain ⟨m', hpage, hm'⟩ := ih limit hm₁
        refine ⟨m', ?_, hm'⟩
        rw [if_pos hsel, List.filter_cons_of_pos hsel, List.take_succ_cons]
        simp only [bind, StateT.bind, hpage, Except.bind, pure, StateT.pure, Except.pure]
      · obtain ⟨m', hpage, hm'⟩ := ih (limit + 1) hm₁
        refine ⟨m', ?_, hm'⟩
        rw [if_neg hsel, List.filter_cons_of_neg hsel]
        exact hpage

end Store

/-- A tenant's partition of the trail. -/
def Stretch.audit (K : KeyState C) (L : Custody C) (t : TenantId) :
    Stretch K L t AuditSeq AuditEntryRecord where
  slot := .audit
  pick := TenantSealingKeys.auditKey
  start := keyed (L.address t).index RecordKey.Domain.audit.label [RecordKey.idPart t]
  name seq := .audit seq
  suffix seq := beBytes 8 seq.toNat
  get seq := L.audits (t, seq)
  suffix_inj a b h := UInt64.toNat_inj.mp (beBytes_inj (by have := a.toNat_lt; omega)
    (by have := b.toNat_lt; omega) h)
  slot_eq _ := rfl
  sealer_eq _ := rfl
  key_eq _ := rfl
  sealed_eq _ := rfl
  exhausts := by
    rintro (u | u | u | (_ | _ | _ | _ | _ | _ | _) | ⟨u, (_ | _ | _ | _ | _ | _)⟩) hspace hhead <;>
      cases hspace
    rename_i seq
    refine ⟨seq, KeyState.key_inj (K := K) (L := L) rfl ?_⟩
    exact congrArg (· :: Str.ofBytes (beBytes 8 seq.toNat)) (Option.some.inj hhead)
  holds := ⟨nofun, nofun⟩

/-- `rs` are the entries of a tenant's partition after `after`, in order. -/
structure Custody.Entries (L : Custody C) (t : TenantId) (after : Option AuditSeq)
    (rs : List AuditEntryRecord) : Prop where
  ascending : Ascending (fun e : AuditEntryRecord => e.seq.toNat) rs
  mem : ∀ e, e ∈ rs ↔ L.audits (t, e.seq) = some e ∧ ∀ a ∈ after, a.toNat < e.seq.toNat

namespace Represents

variable {K : KeyState C} {L : Custody C} {s : Store C}

/-- The keys of one hashed start that a range of numbers covers. -/
theorem compare_numbers (b : C.Block) {n m : Nat} (hn : n < 2 ^ 64) (hm : m < 2 ^ 64) :
    compare (Sym.block b :: Str.ofBytes (beBytes 8 n) : Str C.Block)
      (.block b :: Str.ofBytes (beBytes 8 m)) = compare n m := by
  rw [List.compare_cons_cons, Sym.compare_block_block, Std.ReflOrd.compare_self,
    Str.compare_ofBytes, compare_beBytes (by omega) (by omega)]
  rfl

/-- A key between two of a hashed start has it too. -/
theorem head_of_range {b : C.Block} {x y k : Str C.Block}
    (hle : (compare (Sym.block b :: x) k).isLE) (hge : (compare k (Sym.block b :: y)).isLE) :
    k.head? = some (.block b) := by
  by_cases heq : compare k (Sym.block b :: y) = .eq
  · rw [Std.LawfulEqOrd.eq_of_compare heq]
    rfl
  · have hlt : compare k (Sym.block b :: y) = .lt := by
      revert hge heq
      cases compare k (Sym.block b :: y) <;> simp
    exact Store.head_of_between rfl hle hlt rfl

/-- What is read of a tenant's partition from `first` on. -/
theorem exists_auditRange (h : Represents K L s) {t : TenantId} (hlive : (L.profiles t).isSome)
    {first : Nat} (hfirst : first < 2 ^ 64) :
    ∃ rs : List (AuditSeq × AuditEntryRecord),
      List.Forall₂ (fun e x => openBytes ((K.ring L t).openers TenantSealingKeys.auditKey) .audit
        e.1 e.2 = .ok (Stored.encode x.2)) (s.auditRange (K.ring L t) t first) rs ∧
      rs.Pairwise (fun a b => a.1.toNat < b.1.toNat) ∧
      ∀ x, x ∈ rs ↔ L.audits (t, x.1) = some x.2 ∧ first ≤ x.1.toNat := by
  set stretch := Stretch.audit K L t with hstretch
  obtain ⟨rs, hall, hsorted, hmem⟩ := stretch.exists_records h hlive
    (fun k => (compare k (.block stretch.start :: Str.ofBytes (beBytes 8 (2 ^ 64 - 1)))).isLE &&
      (compare (.block stretch.start :: Str.ofBytes (beBytes 8 first)) k).isLE) fun k hk => by
      rw [Bool.and_eq_true] at hk
      exact head_of_range hk.2 hk.1
  have hrange : s.auditRange (K.ring L t) t first = (s.db.entries .audit).filter fun e =>
      (compare e.1 (.block stretch.start :: Str.ofBytes (beBytes 8 (2 ^ 64 - 1)))).isLE &&
        (compare (.block stretch.start :: Str.ofBytes (beBytes 8 first)) e.1).isLE := by
    unfold Store.auditRange Store.rangeFrom
    rw [List.filter_filter]
    rfl
  refine ⟨rs, ?_, ?_, ?_⟩
  · rw [hrange]
    exact hall.imp fun e x hx => hx.opens
  · refine hsorted.imp fun {a b} hlt => ?_
    have hlt : compare (beBytes 8 a.1.toNat) (beBytes 8 b.1.toNat) = .lt := hlt
    rwa [compare_beBytes (by have := a.1.toNat_lt; omega) (by have := b.1.toNat_lt; omega),
      Nat.compare_eq_lt] at hlt
  · intro x
    have hx := x.1.toNat_lt
    have hlast : (compare (stretch.key x.1)
        (.block stretch.start :: Str.ofBytes (beBytes 8 (2 ^ 64 - 1)))).isLE = true := by
      show (compare (Sym.block stretch.start :: Str.ofBytes (beBytes 8 x.1.toNat)) _).isLE = true
      rw [compare_numbers _ (by omega) (by omega), Nat.isLE_compare]
      omega
    have hstart : (compare (.block stretch.start :: Str.ofBytes (beBytes 8 first))
        (stretch.key x.1)).isLE = true ↔ first ≤ x.1.toNat := by
      show (compare _ (Sym.block stretch.start ::
        Str.ofBytes (beBytes 8 x.1.toNat))).isLE = true ↔ _
      rw [compare_numbers _ (by omega) (by omega), Nat.isLE_compare]
    rw [hmem, Bool.and_eq_true, hstart]
    exact ⟨fun hx => ⟨hx.1, hx.2.2⟩, fun hx => ⟨hx.1, hlast, hx.2⟩⟩

/-- **One partition**: the first selected entries after the start. -/
theorem partition_eq (h : Represents K L s) (htrail : L.Trail) {t : TenantId}
    (hlive : (L.profiles t).isSome) (after : Option AuditSeq) (limit : Nat) {σ : Type}
    {keep : AuditEntryRecord → StateT σ (Except Error) Bool} {selects : AuditEntryRecord → Bool}
    {Q : σ → Prop} (hkeep : ∀ e m, Q m → ∃ m', keep e m = .ok (selects e, m') ∧ Q m')
    {m : σ} (hm : Q m) :
    ∃ rs, L.Entries t after rs ∧ ∃ m',
      s.partition t after limit keep m = .ok ((rs.filter selects).take limit, m') ∧ Q m' := by
  set first := (after.map fun seq => seq.toNat + 1).getD 0 with hfirst
  have hafter (n : Nat) : first ≤ n ↔ ∀ a ∈ after, a.toNat < n := by
    rw [hfirst]
    cases after with
    | none => simp
    | some => simp
  have hkeys : s.partition t after limit keep m =
      (if first < 2 ^ 64 then
        Store.auditPage (K.ring L t) keep limit (s.auditRange (K.ring L t) t first)
      else return [] : StateT σ (Except Error) (List AuditEvent)) m := by
    simp only [Store.partition, h.tenantKeys_of_live hlive, bind, StateT.bind, liftM, monadLift,
      MonadLift.monadLift, StateT.lift, Except.bind, pure, Except.pure]
    rw [← hfirst]
  rw [hkeys]
  by_cases hroom : first < 2 ^ 64
  · rw [if_pos hroom]
    obtain ⟨xs, hall, hsorted, hmem⟩ := h.exists_auditRange hlive hroom
    have hseq {x : AuditSeq × AuditEntryRecord} (hx : x ∈ xs) : x.2.seq = x.1 :=
      (htrail.named _ _ _ ((hmem x).mp hx).1).2.1
    refine ⟨xs.map Prod.snd, ⟨?_, ?_⟩, ?_⟩
    · refine List.pairwise_map.mpr (hsorted.imp_of_mem fun ha hb hlt => ?_)
      dsimp only
      rwa [hseq ha, hseq hb]
    · intro e
      rw [List.mem_map, ← hafter]
      constructor
      · rintro ⟨x, hx, rfl⟩
        rw [hseq hx]
        exact (hmem x).mp hx
      · rintro ⟨he, hle⟩
        exact ⟨(e.seq, e), (hmem _).mpr ⟨he, hle⟩, rfl⟩
    · exact Store.auditPage_eq hkeep limit (List.forall₂_map_right_iff.mpr hall) hm
  · -- The start lies past the last number there is.
    rw [if_neg hroom]
    refine ⟨[], ⟨.nil, fun e => iff_of_false (List.not_mem_nil) fun he => ?_⟩, m, by simp; rfl, hm⟩
    have hle := (hafter _).mpr he.2
    have hlt := e.seq.toNat_lt
    omega

/-! ## All partitions -/

/-- An entry of the tenants keyspace is a live tenant's or a tombstone. -/
theorem tenantIdOf_ok (h : Represents K L s) (hnamed : L.Named) {e : Str C.Block × Value C}
    (he : e ∈ s.db.entries .tenants) :
    ∃ x, s.tenantIdOf e = .ok x ∧
      ((∃ t, x = some t ∧ (L.profiles t).isSome ∧ e.1 = K.key L (.tenant t)) ∨
        ∃ t, x = none ∧ e.1 = K.key L (.tombstone t)) := by
  obtain ⟨k, v⟩ := e
  obtain ⟨n, p, sk, nonce, hspace, rfl, hp, hsk, rfl⟩ :=
    h.toRecords.sealed_of_get (Keyspaces.mem_entries.mp he) ⟨by decide, by decide⟩
  have hlen := KeyState.key_len_lt (K := K) (L := L) n
  rcases n with t | t | t | n | ⟨t, n⟩
  case tenant =>
    obtain rfl : sk = s.keys.metaKey := by rw [h.keys]; exact hsk
    obtain ⟨profile, hprofile, rfl⟩ := Option.map_eq_some_iff.mp hp
    have hid : (profile.withKey (K.active t)).id = t := hnamed.profiles t profile hprofile
    have hdecode : decodeAs TenantRecord .tenants
        (.tenant (profile.withKey (K.active t)) : Plain C.Block) =
        .ok (profile.withKey (K.active t)) := decodeAs_encode .tenants _
    refine ⟨some t, ?_, .inl ⟨t, rfl, by rw [hprofile]; rfl, rfl⟩⟩
    simp only [Store.tenantIdOf, Name.slot, openBytes_sealedValue _ _ _ _ hlen, List.find?_cons,
      beq_self_eq_true, and_self, if_true, hdecode, ok_bind, hid]
    rfl
  case tombstone =>
    obtain rfl : sk = s.keys.metaKey := by rw [h.keys]; exact hsk
    refine ⟨none, ?_, .inr ⟨t, rfl, rfl⟩⟩
    have hslot : Slot.tenant ≠ .tombstone := by decide
    simp only [Store.tenantIdOf, Name.slot, openBytes_sealedValue _ _ _ _ hlen, List.find?_cons,
      beq_self_eq_true, hslot, false_and, and_false, and_self, if_false, if_true, ok_bind]
    rfl
  case rekey => cases hspace
  case global => cases n <;> cases hspace
  case sealed => cases n <;> cases hspace

/-- The scan of the tenants keyspace finds every live tenant once. -/
theorem tenantIds_eq (h : Represents K L s) (hnamed : L.Named) :
    ∃ ts, s.tenantIds = .ok ts ∧ ts.Nodup ∧ ∀ t, t ∈ ts ↔ (L.profiles t).isSome := by
  obtain ⟨xs, hxs, hall⟩ := exists_mapM_ok fun e he => h.tenantIdOf_ok hnamed he
  have hkeys := Keyspaces.entries_keys_nodup s.db .tenants
  rw [List.nodup_iff_pairwise_ne, List.pairwise_map] at hkeys
  refine ⟨xs.filterMap id, by rw [Store.tenantIds, hxs]; rfl, ?_, fun t => ?_⟩
  · rw [List.nodup_iff_pairwise_ne, List.pairwise_filterMap]
    refine pairwise_of_forall₂ hall hkeys ?_
    rintro e x e' x' hx hx' hne t rfl t' rfl rfl
    rcases hx with ⟨u, hu, -, hkey⟩ | ⟨u, hu, -⟩
    · rcases hx' with ⟨u', hu', -, hkey'⟩ | ⟨u', hu', -⟩
      · cases hu
        cases hu'
        exact hne (hkey.trans hkey'.symm)
      · cases hu'
    · cases hu
  · rw [List.mem_filterMap]
    constructor
    · rintro ⟨x, hx, rfl⟩
      obtain ⟨e, -, ⟨u, hu, hlive, -⟩ | ⟨u, hu, -⟩⟩ := exists_of_mem_right hall hx
      · cases hu
        exact hlive
      · cases hu
    · intro hlive
      obtain ⟨p, hp⟩ := Option.isSome_iff_exists.mp hlive
      have hcontent : K.content L (.tenant t) = some (.tenant (p.withKey (K.active t))) := by
        rw [KeyState.content, hp]
        rfl
      obtain ⟨sk, nonce, -, hget⟩ := h.stored _ _ hcontent
      obtain ⟨x, hx, ⟨u, rfl, -, hkey⟩ | ⟨u, rfl, hkey⟩⟩ :=
        exists_of_mem_left hall (Keyspaces.mem_entries.mpr hget)
      · have hname : Name.tenant t = Name.tenant u := KeyState.key_inj rfl hkey
        cases hname
        exact ⟨_, hx, rfl⟩
      · have hname : Name.tenant t = Name.tombstone u := KeyState.key_inj rfl hkey
        cases hname

/-- The memory of a query is what a lookup would answer. -/
def Recalls (L : Custody C) (owners : Store.Owners) : Prop :=
  ∀ session owner, owners session = some owner →
    owner = (L.sessions session).map SessionRecord.owner

variable (h : Represents K L s)

include h

/-- Remembering an owner does not change the answer. -/
theorem ownerOf_eq (session : SessionId) {owners : Store.Owners} (howners : Recalls L owners) :
    ∃ owners', s.ownerOf session owners =
      .ok ((L.sessions session).map SessionRecord.owner, owners') ∧ Recalls L owners' := by
  have hrecord : s.record SessionRecord (.global (.session session)) = .ok (L.sessions session) :=
    h.record_eq (Name.storeScoped_global _) rfl
  cases hfound : owners session with
  | some owner =>
    refine ⟨owners, ?_, howners⟩
    rw [← howners session owner hfound]
    simp only [Store.ownerOf, StateT.get, bind, StateT.bind, Except.bind, pure, Except.pure, hfound]
    rfl
  | none =>
    refine ⟨Function.update owners session (some ((L.sessions session).map SessionRecord.owner)),
      ?_, fun session' owner howner => ?_⟩
    · simp only [Store.ownerOf, StateT.get, bind, StateT.bind, Except.bind, pure, Except.pure,
        hfound, hrecord, liftM, monadLift, MonadLift.monadLift, StateT.lift, StateT.set]
      rfl
    · rw [Function.update_apply] at howner
      split_ifs at howner with heq
      · rw [heq]
        exact (Option.some.inj howner).symm
      · exact howners session' owner howner

/-- Testing an entry answers whether the query selects it. -/
theorem selected_eq (query : AuditQuery) (e : AuditEntryRecord) {b : Bool}
    (hb : b = true ↔ s.Selects query e) {owners : Store.Owners} (howners : Recalls L owners) :
    ∃ owners', s.selected query e owners = .ok (b, owners') ∧ Recalls L owners' := by
  rw [Store.Selects, h.sessionAt_eq] at hb
  unfold Store.selected
  by_cases hsession : query.session.isSome ∧ e.session ≠ query.session
  · obtain ⟨session, hquery⟩ := Option.isSome_iff_exists.mp hsession.1
    rw [hquery] at hsession hb
    obtain rfl : b = false := by
      rw [← Bool.not_eq_true, hb]
      exact fun hin => hsession.2 (hin.1 session rfl)
    exact ⟨owners, by rw [hquery, if_pos hsession]; rfl, howners⟩
  have hin : ∀ session ∈ query.session, e.session = some session := by
    intro session hquery
    by_contra hne
    rw [Option.mem_def] at hquery
    exact hsession ⟨by rw [hquery]; rfl, by rw [hquery]; exact hne⟩
  replace hb := hb.trans (and_iff_right hin)
  rw [if_neg hsession]
  cases hscope : query.scope with
  | all =>
    obtain rfl : b = true := hb.mpr (.inl hscope)
    exact ⟨owners, rfl, howners⟩
  | ownAndOwnedSessions =>
    replace hb := hb.trans (or_iff_right (by rw [hscope]; nofun))
    dsimp only
    by_cases hown : e.tenant = query.actor
    · obtain rfl : b = true := hb.mpr (.inl hown)
      exact ⟨owners, by rw [if_pos hown]; rfl, howners⟩
    replace hb := hb.trans (or_iff_right hown)
    rw [if_neg hown]
    cases he : e.session with
    | none =>
      obtain rfl : b = false := by
        rw [← Bool.not_eq_true, hb, he]
        rintro ⟨session, hsession, -⟩
        cases hsession
      exact ⟨owners, rfl, howners⟩
    | some session =>
      obtain ⟨owners', hlookup, howners'⟩ := h.ownerOf_eq session howners
      obtain rfl : b = decide ((L.sessions session).map SessionRecord.owner =
        some query.actor) := by
        rw [Bool.eq_iff_iff, hb, he, decide_eq_true_eq]
        exact ⟨fun ⟨_, hmem, howner⟩ => Option.some.inj hmem ▸ howner,
          fun howner => ⟨_, rfl, howner⟩⟩
      refine ⟨owners', ?_, howners'⟩
      simp only [bind, StateT.bind, hlookup, Except.bind, pure, StateT.pure, Except.pure]

/-- What is read of an unshredded tenant's partition is what the book has there. -/
theorem auditAt_eq_some {t : TenantId} {seq : AuditSeq} {e : AuditEntryRecord} :
    s.auditAt t seq = some e ↔ (L.profiles t).isSome ∧ L.audits (t, seq) = some e := by
  have hread {L' : Custody C} {x : Option AuditEntryRecord} :
      L.run (Tx.auditEntry t seq) = .ok (x, L') ↔
        (L.profiles t).isSome ∧ L' = L ∧ x = L.audits (t, seq) := by
    rw [Tx.auditEntry, Custody.run_bind_ok]
    constructor
    · rintro ⟨keys, mid, hkeys, hrecord⟩
      obtain ⟨hlive, hpair⟩ := (Custody.run_tenantKeys_ok L).mp hkeys
      cases hpair
      obtain ⟨-, hpair⟩ := (Custody.run_sealedRecord_ok L (x := L.audits (t, seq)) rfl).mp hrecord
      cases hpair
      exact ⟨hlive, rfl, rfl⟩
    · rintro ⟨hlive, rfl, rfl⟩
      exact ⟨_, _, (Custody.run_tenantKeys_ok _).mpr ⟨hlive, rfl⟩,
        (Custody.run_sealedRecord_ok _ (x := L'.audits (t, seq)) rfl).mpr ⟨hlive, rfl⟩⟩
  unfold Store.auditAt
  constructor
  · cases hcommit : s.commit (Tx.auditEntry t seq) with
    | error => exact fun hsome => by cases hsome
    | ok =>
      intro hsome
      obtain ⟨L', hrun, -⟩ := h.commit_ok hcommit
      obtain ⟨hlive, -, hx⟩ := hread.mp hrun
      exact ⟨hlive, hx.symm.trans hsome⟩
  · rintro ⟨hlive, he⟩
    obtain ⟨s', hcommit, -⟩ := h.commit_of_run (hread.mpr ⟨hlive, rfl, rfl⟩)
    rw [hcommit, he]
    rfl

/-- The pages of several tenants, one after the other. -/
theorem mapM_partition (htrail : L.Trail) (query : AuditQuery) (selects : AuditEntryRecord → Bool)
    (hselects : ∀ e, selects e = true ↔ s.Selects query e) {ts : List TenantId}
    (hlive : ∀ t ∈ ts, (L.profiles t).isSome) (owners : Store.Owners) (howners : Recalls L owners) :
    ∃ pages owners', (ts.mapM fun t =>
        s.partition t query.after query.limit.toNat (s.selected query)) owners =
        .ok (pages.map (List.take query.limit.toNat), owners') ∧ Recalls L owners' ∧
      List.Forall₂ (fun t page => ∃ rs, L.Entries t query.after rs ∧ page = rs.filter selects)
        ts pages := by
  induction ts generalizing owners with
  | nil => exact ⟨[], owners, rfl, howners, .nil⟩
  | cons t _ ih =>
    obtain ⟨rs, hrs, owners₁, hpage, howners₁⟩ := h.partition_eq htrail
      (hlive t List.mem_cons_self) query.after query.limit.toNat
      (fun e _ hm => h.selected_eq query e (hselects e) hm) howners
    obtain ⟨pages, owners', hrest, howners', hall⟩ :=
      ih (fun t' ht' => hlive t' (List.mem_cons_of_mem _ ht')) owners₁ howners₁
    refine ⟨rs.filter selects :: pages, owners', ?_, howners', .cons ⟨rs, hrs, rfl⟩ hall⟩
    rw [List.mapM_cons]
    simp only [bind, StateT.bind, hpage, Except.bind, hrest, pure, StateT.pure, Except.pure,
      List.map_cons]

/-- **A query answers the front of everything it asks for.** -/
theorem auditQuery_eq (hnamed : L.Named) (htrail : L.Trail) (query : AuditQuery) :
    ∃ all, s.Matches query all ∧ s.auditQuery query = .ok (all.take query.limit.toNat) := by
  classical
  obtain ⟨ts, hts, hnodup, hmem⟩ := h.tenantIds_eq hnamed
  obtain ⟨pages, owners, hpages, -, hall⟩ := h.mapM_partition htrail query
    (fun e => decide (s.Selects query e)) (fun e => decide_eq_true_iff)
    (fun t ht => (hmem t).mp ht) (fun _ => none) fun _ _ hnone => by cases hnone
  -- The pages hold the entries of distinct tenants, so no number is on two of them.
  have hpage : ∀ page ∈ pages, ∃ t ∈ ts, ∃ rs, L.Entries t query.after rs ∧
      page = rs.filter fun e => decide (s.Selects query e) := fun page hp =>
    exists_of_mem_right hall hp
  have hdistinct : pages.flatten.Pairwise fun a b : AuditEvent => a.seq.toNat ≠ b.seq.toNat := by
    rw [List.pairwise_flatten]
    constructor
    · intro page hp
      obtain ⟨t, -, rs, hrs, rfl⟩ := hpage page hp
      exact (hrs.ascending.filter _).imp fun hlt => Nat.ne_of_lt hlt
    · rw [List.nodup_iff_pairwise_ne] at hnodup
      refine pairwise_of_forall₂ hall hnodup ?_
      rintro t _ t' _ ⟨rs, hrs, rfl⟩ ⟨rs', hrs', rfl⟩ hne x hx y hy heq
      have hx' := ((hrs.mem x).mp (List.mem_filter.mp hx).1).1
      have hy' := ((hrs'.mem y).mp (List.mem_filter.mp hy).1).1
      rw [← UInt64.toNat_inj.mp heq] at hy'
      exact hne (htrail.single t t' x.seq (by rw [hx']; rfl) (by rw [hy']; rfl))
  have hle (a b : AuditEvent) : decide (a.seq ≤ b.seq) = true ↔ a.seq.toNat ≤ b.seq.toNat := by
    rw [decide_eq_true_eq, UInt64.le_iff_toNat_le]
  have hascending : ∀ page ∈ pages, Ascending (fun e : AuditEvent => e.seq.toNat) page := by
    intro page hp
    obtain ⟨t, -, rs, hrs, rfl⟩ := hpage page hp
    exact hrs.ascending.filter _
  refine ⟨pages.flatten.mergeSort fun a b => decide (a.seq ≤ b.seq),
    ⟨.of_mergeSort hle hdistinct, fun e => ?_⟩, ?_⟩
  · rw [(List.mergeSort_perm _ _).mem_iff, List.mem_flatten]
    constructor
    · rintro ⟨page, hp, he⟩
      obtain ⟨t, ht, rs, hrs, rfl⟩ := hpage page hp
      obtain ⟨hrs', hsel⟩ := List.mem_filter.mp he
      obtain ⟨hentry, hafter⟩ := (hrs.mem e).mp hrs'
      exact ⟨⟨t, e.seq, h.auditAt_eq_some.mpr ⟨(hmem t).mp ht, hentry⟩⟩, hafter,
        of_decide_eq_true hsel⟩
    · rintro ⟨⟨t, seq, he⟩, hafter, hsel⟩
      obtain ⟨hlive, hentry⟩ := h.auditAt_eq_some.mp he
      obtain ⟨page, hp, rs, hrs, rfl⟩ := exists_of_mem_left hall ((hmem t).mpr hlive)
      refine ⟨_, hp, List.mem_filter.mpr ⟨(hrs.mem e).mpr ⟨?_, hafter⟩, decide_eq_true hsel⟩⟩
      rw [(htrail.named t seq e hentry).2.1]
      exact hentry
  · rw [← take_mergeSort_take hle hascending hdistinct, Store.auditQuery, hts]
    simp only [ok_bind, StateT.run', hpages]
    rfl

end Represents

/-! ## What a query depends on -/

theorem Store.Matches.unique {s s' : Store C} {query : AuditQuery} {all all' : List AuditEvent}
    (h : s.Matches query all) (h' : s'.Matches query all')
    (hsame : ∀ e, (∃ t seq, s.auditAt t seq = some e) ∧ s.Selects query e ↔
      (∃ t seq, s'.auditAt t seq = some e) ∧ s'.Selects query e) : all = all' := by
  refine h.ascending.eq_of_mem_iff h'.ascending fun e => ?_
  rw [h.mem, h'.mem]
  rw [and_left_comm, hsame e, and_left_comm]

/-- **Audit scope.**  A query answers exactly the first `limit` entries, in the order of the
trail, of all unshredded tenants' entries after its start that are in its scope and its
session.  So queries of an actor under its own scope answer alike on any two stores that
agree on its own entries, on the sessions it owns and on the entries in them. -/
theorem audit_query_confined {w w' : World C} (hw : w.Reachable) (hw' : w'.Reachable) :
    (∀ query : AuditQuery, ∃ all, w.store.Matches query all ∧
      w.store.auditQuery query = .ok (all.take query.limit.toNat)) ∧
    ∀ actor, Store.AgreeFor actor w.store w'.store → ∀ session after limit,
      w.store.auditQuery ⟨actor, .ownAndOwnedSessions, session, after, limit⟩ =
        w'.store.auditQuery ⟨actor, .ownAndOwnedSessions, session, after, limit⟩ := by
  obtain ⟨K, L, h⟩ := hw.holds
  obtain ⟨K', L', h'⟩ := hw'.holds
  refine ⟨h.represents.auditQuery_eq h.reachable.named h.reachable.trail, ?_⟩
  intro actor hagree session after limit
  obtain ⟨all, hall, hquery⟩ := h.represents.auditQuery_eq h.reachable.named h.reachable.trail
    ⟨actor, .ownAndOwnedSessions, session, after, limit⟩
  obtain ⟨all', hall', hquery'⟩ := h'.represents.auditQuery_eq h'.reachable.named
    h'.reachable.trail ⟨actor, .ownAndOwnedSessions, session, after, limit⟩
  rw [hquery, hquery', hall.unique hall' fun e => ?_]
  -- An entry lies in its own tenant's partition, in either store.
  have hown {t : TenantId} {seq : AuditSeq} (he : w.store.auditAt t seq = some e) : e.tenant = t :=
    (h.reachable.trail.named _ _ _ (h.represents.auditAt_eq_some.mp he).2).1
  have hown' {t : TenantId} {seq : AuditSeq} (he : w'.store.auditAt t seq = some e) :
      e.tenant = t :=
    (h'.reachable.trail.named _ _ _ (h'.represents.auditAt_eq_some.mp he).2).1
  constructor
  · rintro ⟨⟨t, seq, he⟩, hsession, hscope | hactor | ⟨session', hin, howner⟩⟩
    · cases hscope
    · obtain rfl : t = actor := (hown he).symm.trans hactor
      exact ⟨⟨t, seq, (hagree.own seq).symm.trans he⟩, hsession, .inr (.inl hactor)⟩
    · exact ⟨⟨t, seq, (hagree.entries session' howner t seq e hin).mp he⟩, hsession,
        .inr (.inr ⟨session', hin, (hagree.owned session').mp howner⟩)⟩
  · rintro ⟨⟨t, seq, he⟩, hsession, hscope | hactor | ⟨session', hin, howner⟩⟩
    · cases hscope
    · obtain rfl : t = actor := (hown' he).symm.trans hactor
      exact ⟨⟨t, seq, (hagree.own seq).trans he⟩, hsession, .inr (.inl hactor)⟩
    · have howner' := (hagree.owned session').mpr howner
      exact ⟨⟨t, seq, (hagree.entries session' howner' t seq e hin).mpr he⟩, hsession,
        .inr (.inr ⟨session', hin, howner'⟩)⟩

/-- A call of the operator's own, in no session. -/
def Sample.operatorNote : AuditNote :=
  ⟨operator, ⟨40⟩, .auditQuery, none, .completed none, none, none⟩

/-- The operator's own calls do not show in what the agent reads. -/
theorem audit_query_confined_of_note : ∃ w w' : World Crypto.ideal, w.Reachable ∧ w'.Reachable ∧
    (∃ seq, w.store.auditAt Sample.operator seq ≠ w'.store.auditAt Sample.operator seq) ∧
    ∃ e events,
      w.store.auditQuery ⟨Sample.agent, .ownAndOwnedSessions, none, none, 10⟩ = .ok (e :: events) ∧
      w'.store.auditQuery ⟨Sample.agent, .ownAndOwnedSessions, none, none, 10⟩ =
        .ok (e :: events) := by
  obtain ⟨w, K, hreach, h⟩ := Sample.exists_setUp
  obtain ⟨L', hL'⟩ := Custody.exists_of_reply (a := 3)
    (x := (Sample.book Sample.setUp).run (Tx.recordAudit Sample.operatorNote)) (by decide +kernel)
  have hagent : ((Sample.book Sample.setUp).profiles Sample.agent).isSome := by decide +kernel
  have hopened : ((Sample.book Sample.setUp).audits (Sample.agent, 2)).isSome := by decide +kernel
  obtain ⟨w', hstep, h'⟩ := h.transact (.recordAudit Sample.operatorNote) hL'
  have hreach' : w'.Reachable := hreach.next hstep
  generalize Sample.book Sample.setUp = L at h hL' hagent hopened
  have hwrite : L.Write (.recordAudit Sample.operatorNote) L' :=
    Custody.transact_write (.recordAudit Sample.operatorNote) hL'
  have htrail := h.reachable.trail
  cases hwrite with
  | quiet ht => cases ht
  | refuse _ _ _ _ hentry => cases hentry
  | openSession _ _ _ _ _ ht => cases ht
  | finish _ _ _ _ _ _ _ _ _ _ ht => cases ht
  | recordAudit note time clock haudit =>
  -- The second store has one entry more, of the operator.
  have hread {t : TenantId} {seq : AuditSeq} {e : AuditEntryRecord} :
      w'.store.auditAt t seq = some e ↔ (L.profiles t).isSome ∧
        ((t = Sample.operator ∧ seq = L.nextSeq ∧
            e = Sample.operatorNote.entry.record L.nextSeq time) ∨
          ((t, seq) ≠ (Sample.operator, L.nextSeq) ∧ L.audits (t, seq) = some e)) :=
    h'.represents.auditAt_eq_some.trans (and_congr_right fun _ => Custody.Trail.recorded_audits)
  have hagree : Store.AgreeFor Sample.agent w.store w'.store := by
    have hsessions : w'.store.sessionAt = w.store.sessionAt := by
      rw [h'.represents.sessionAt_eq, h.represents.sessionAt_eq]
      rfl
    have hsame {t : TenantId} {seq : AuditSeq} {e : AuditEntryRecord}
        (hother : t = Sample.agent ∨ e.session ≠ none) :
        w.store.auditAt t seq = some e ↔ w'.store.auditAt t seq = some e := by
      rw [h.represents.auditAt_eq_some, hread]
      refine and_congr_right fun _ => ⟨fun he => .inr ⟨?_, he⟩, ?_⟩
      · rintro heq
        obtain ⟨rfl, rfl⟩ := Prod.mk.inj heq
        rw [htrail.audit_nextSeq haudit] at he
        cases he
      · rintro (⟨rfl, -, rfl⟩ | ⟨-, he⟩)
        · rcases hother with hagent | hsession
          · cases hagent
          · exact absurd rfl hsession
        · exact he
    refine ⟨fun seq => Option.ext fun e => hsame (.inl rfl), fun session => by rw [hsessions],
      fun session _ t seq e he => hsame (.inr (by rw [he]; nofun))⟩
  obtain ⟨hquery, hsame⟩ := audit_query_confined hreach hreach'
  obtain ⟨all, hall, hanswer⟩ := hquery ⟨Sample.agent, .ownAndOwnedSessions, none, none, 10⟩
  refine ⟨w, w', hreach, hreach', ⟨L.nextSeq, fun heq => ?_⟩, ?_⟩
  · have hnew : w'.store.auditAt Sample.operator L.nextSeq =
        some (Sample.operatorNote.entry.record L.nextSeq time) :=
      hread.mpr ⟨haudit.live, .inl ⟨rfl, rfl, rfl⟩⟩
    have hold := (h.represents.auditAt_eq_some.mp (heq.trans hnew)).2
    rw [htrail.audit_nextSeq haudit] at hold
    cases hold
  · obtain ⟨e, he⟩ := Option.isSome_iff_exists.mp hopened
    have hmem : e ∈ all := (hall.mem e).mpr ⟨⟨_, _, h.represents.auditAt_eq_some.mpr ⟨hagent, he⟩⟩,
      nofun, nofun, .inr (.inl (htrail.named _ _ _ he).1)⟩
    obtain ⟨first, rest, rfl⟩ := List.exists_cons_of_ne_nil (List.ne_nil_of_mem hmem)
    exact ⟨first, rest.take 9, hanswer, (hsame _ hagree _ _ _).symm.trans hanswer⟩

end Dioptron
