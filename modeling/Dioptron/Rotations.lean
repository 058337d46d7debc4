import Dioptron.Audits
import Dioptron.Visibility

/-! # Data-key rotations and the calls around them

What a call answers while rotations run, next to what it would answer had none ever
started.  Both stores hold the same book, and every reader but one tries both keys of a
rotation, so both answer as the book does.  The exception is the entry of a bound
idempotency key: a claim opens it under the active key alone.
-/
namespace Dioptron

variable {C : Crypto}

/-! ## Readers answer as the book does -/

/-- A listing is determined by what it lists. -/
theorem Custody.Lists.unique {L : Custody C} {owner : TenantId} {session : SessionId}
    {after : Option ArtifactRef} {refs refs' : List ArtifactRef}
    (h : L.Lists owner session after refs) (h' : L.Lists owner session after refs') :
    refs = refs' := by
  have hsorted : Ascending (fun ref : ArtifactRef => ref.bits.toNat) refs := h.sorted
  exact hsorted.eq_of_mem_iff h'.sorted fun ref => by rw [h.mem, h'.mem]

theorem Custody.Entries.unique {L : Custody C} {t : TenantId} {after : Option AuditSeq}
    {rs rs' : List AuditEntryRecord} (h : L.Entries t after rs) (h' : L.Entries t after rs') :
    rs = rs' :=
  Ascending.eq_of_mem_iff h.ascending h'.ascending fun e => by rw [h.mem, h'.mem]

/-- The stores hold one book, each under its own keys. -/
def SameBook (s s₀ : Store C) : Prop := ∃ K K₀ L, Represents K L s ∧ Represents K₀ L s₀

namespace Represents

variable {K K₀ : KeyState C} {L : Custody C} {s s₀ : Store C}

theorem sessionArtifacts_same (h : Represents K L s) (h₀ : Represents K₀ L s₀) (hfiled : L.Filed)
    (session : SessionId) (after : Option ArtifactRef) (limit : UInt32) :
    s.sessionArtifacts session after limit = s₀.sessionArtifacts session after limit := by
  cases hsr : L.sessions session with
  | none =>
    unfold Store.sessionArtifacts
    rw [h.record_eq (x := L.sessions session) (Name.storeScoped_global _) rfl,
      h₀.record_eq (x := L.sessions session) (Name.storeScoped_global _) rfl, hsr]
    rfl
  | some sr =>
    by_cases hlive : (L.profiles sr.owner).isSome
    · have hnames : ∀ ref e, L.sessionIndex (sr.owner, session, ref) = some e → e.artifact = ref :=
        fun ref e he => (hfiled.indexed _ _ _ _ he).1
      obtain ⟨refs, hrefs, hpage⟩ := h.sessionArtifacts_eq hsr hlive hnames after limit
      obtain ⟨refs₀, hrefs₀, hpage₀⟩ := h₀.sessionArtifacts_eq hsr hlive hnames after limit
      rw [hpage, hpage₀, hrefs.unique hrefs₀]
    · unfold Store.sessionArtifacts
      rw [h.record_eq (x := L.sessions session) (Name.storeScoped_global _) rfl,
        h₀.record_eq (x := L.sessions session) (Name.storeScoped_global _) rfl,
          ok_bind, ok_bind, hsr]
      dsimp only
      rw [h.liveTenantKeys_eq, h₀.liveTenantKeys_eq]
      cases hcheck : L.checkLive sr.owner with
      | ok => exact absurd ((Custody.checkLive_eq_ok L).mp hcheck) hlive
      | error e => cases e <;> rfl

theorem auditRecords_same (h : Represents K L s) (h₀ : Represents K₀ L s₀) (htrail : L.Trail)
    (tenant : TenantId) (after : Option AuditSeq) (limit : UInt32) :
    s.auditRecords tenant after limit = s₀.auditRecords tenant after limit := by
  by_cases hlive : (L.profiles tenant).isSome
  · have hkeep : ∀ (e : AuditEntryRecord) (m : Unit), True →
        ∃ m', (fun _ => pure true : AuditEntryRecord → StateT Unit (Except Error) Bool) e m =
          .ok (true, m') ∧ True := fun e m _ => ⟨m, rfl, trivial⟩
    obtain ⟨rs, hrs, m, hpage, -⟩ := h.partition_eq htrail hlive after limit.toNat
      (Q := fun _ => True) hkeep (m := ()) trivial
    obtain ⟨rs₀, hrs₀, m₀, hpage₀, -⟩ := h₀.partition_eq htrail hlive after limit.toNat
      (Q := fun _ => True) hkeep (m := ()) trivial
    unfold Store.auditRecords StateT.run'
    rw [hpage, hpage₀, hrs.unique hrs₀]
  · have hdead {K : KeyState C} {s : Store C} (h : Represents K L s) :
        s.auditRecords tenant after limit = (L.checkLive tenant).map fun _ => [] := by
      unfold Store.auditRecords StateT.run' Store.partition
      simp only [bind, StateT.bind, liftM, monadLift, MonadLift.monadLift, StateT.lift,
        h.tenantKeys_eq]
      cases hcheck : L.checkLive tenant with
      | ok => exact absurd ((Custody.checkLive_eq_ok L).mp hcheck) hlive
      | error => rfl
    rw [hdead h, hdead h₀]

theorem auditQuery_same (h : Represents K L s) (h₀ : Represents K₀ L s₀) (hnamed : L.Named)
    (htrail : L.Trail) (query : AuditQuery) : s.auditQuery query = s₀.auditQuery query := by
  obtain ⟨all, hall, hquery⟩ := h.auditQuery_eq hnamed htrail query
  obtain ⟨all₀, hall₀, hquery₀⟩ := h₀.auditQuery_eq hnamed htrail query
  have hentries (t : TenantId) (seq : AuditSeq) : s.auditAt t seq = s₀.auditAt t seq :=
    Option.ext fun e => by rw [h.auditAt_eq_some, h₀.auditAt_eq_some]
  have hselects (e : AuditEntryRecord) : s.Selects query e ↔ s₀.Selects query e := by
    unfold Store.Selects
    rw [h.sessionAt_eq, h₀.sessionAt_eq]
  have hsame : all = all₀ := Ascending.eq_of_mem_iff hall.ascending hall₀.ascending fun e => by
    rw [hall.mem, hall₀.mem, hselects]
    simp only [hentries]
  rw [hquery, hquery₀, hsame]

/-- A transaction answers alike on both stores and leaves them with one book. -/
theorem commit_same {α : Type} (h : Represents K L s) (h₀ : Represents K₀ L s₀) (tx : Tx C α) :
    Related (fun x y => x.1 = y.1 ∧ SameBook x.2 y.2) (s.commit tx) (s₀.commit tx) := by
  cases hrun : L.run tx with
  | error e =>
    have hs := (hrun ▸ h.commit_related tx).error_of_error
    have hs₀ := (hrun ▸ h₀.commit_related tx).error_of_error
    rw [hs, hs₀]
    exact .error e
  | ok r =>
    obtain ⟨s', hs, hrep⟩ := h.commit_of_run hrun
    obtain ⟨s₀', hs₀, hrep₀⟩ := h₀.commit_of_run hrun
    rw [hs, hs₀]
    exact .ok ⟨rfl, K, K₀, r.2, hrep, hrep₀⟩

/-! ## Claims -/

/-- Without a rotation every record of a live tenant is under its active key. -/
theorem sealedKeyId_of_idle (h : Represents K L s) {t : TenantId} (hlive : (L.profiles t).isSome)
    (hidle : K.rotation t = none) {n : TenantName C.Block} {v : Value C}
    (hget : s.db.get n.slot.keyspace (K.key L (.sealed t n)) = some v) :
    v.sealedKeyId = some (K.active t) := by
  obtain ⟨n', p, sk, nonce, hspace, hkey, -, hsk, rfl⟩ :=
    h.toRecords.sealed_of_get hget (Name.slot_ne (.sealed t n))
  obtain rfl : Name.sealed t n = n' := h.inj _ _ hspace.symm hkey
  obtain ⟨id, -, hallowed, rfl⟩ := hsk
  rw [sealedKeyId_sealedValue, KeyState.sealer_id]
  rcases hallowed hlive with rfl | ⟨r', hr', -⟩
  · rfl
  · rw [hidle] at hr'
    cases hr'

end Represents

/-- The key of a claim is bound, by an entry that is not under the active data key. -/
def Store.Stranded (s : Store C) (claim : IdemClaim C) : Prop :=
  ∃ keys id, s.tenantKeys claim.tenant = .ok keys ∧
    (s.db.get .idem (Store.sealedKey keys claim.tenant (.idem claim.capability claim.key))).bind
      Value.sealedKeyId = some id ∧ id ≠ keys.active.keyId

namespace Represents

variable {K K₀ : KeyState C} {L : Custody C} {s s₀ : Store C} {claim : IdemClaim C}

/-- A stranded entry is not opened. -/
theorem claimEntry_of_stranded (h : Represents K L s) (hstranded : s.Stranded claim) :
    (L.profiles claim.tenant).isSome ∧
      ∃ id, s.claimEntry (K.ring L claim.tenant) claim = .error (.unknownKeyId id) := by
  obtain ⟨keys, id, hkeys, hid, hne⟩ := hstranded
  rw [h.tenantKeys_eq] at hkeys
  obtain ⟨u, hlive, rfl⟩ := map_eq_ok.mp hkeys
  refine ⟨(Custody.checkLive_eq_ok L).mp hlive, id, ?_⟩
  have hid : (s.db.get .idem (K.key L (.sealed claim.tenant (claimName claim)))).bind
      Value.sealedKeyId = some id := hid
  have hne : id ≠ K.active claim.tenant := hne
  cases hr : L.idem (claim.tenant, claim.capability, claim.key) with
  | none =>
    have hcontent : K.content L (.sealed claim.tenant (claimName claim)) = none := by
      show (L.idem (claim.tenant, claim.capability, claim.key)).map Plain.idem = none
      rw [hr]
      rfl
    rw [show s.db.get .idem (K.key L (.sealed claim.tenant (claimName claim))) = none from
      h.toRecords.get_none hcontent] at hid
    cases hid
  | some =>
    obtain ⟨id', hid', hentry⟩ := h.claimEntry_of_bound hr
    obtain rfl : id' = id := Option.some.inj (hid'.symm.trans hid)
    rw [hentry, if_neg hne]

/-- Any other entry is read as the book has it. -/
theorem claimEntry_of_not_stranded (h : Represents K L s)
    (hlive : (L.profiles claim.tenant).isSome) (hopen : ¬ s.Stranded claim) :
    s.claimEntry (K.ring L claim.tenant) claim =
      .ok (L.idem (claim.tenant, claim.capability, claim.key)) := by
  cases hr : L.idem (claim.tenant, claim.capability, claim.key) with
  | none => exact h.claimEntry_of_free hr
  | some =>
    obtain ⟨id, hid, hentry⟩ := h.claimEntry_of_bound hr
    have hactive : id = K.active claim.tenant := by
      by_contra hne
      exact hopen ⟨K.ring L claim.tenant, id, h.tenantKeys_of_live hlive, hid, hne⟩
    rw [hentry, if_pos hactive]

/-- Without a rotation no entry is stranded. -/
theorem claimEntry_of_idle (h : Represents K L s) (hlive : (L.profiles claim.tenant).isSome)
    (hidle : K.rotation claim.tenant = none) : s.claimEntry (K.ring L claim.tenant) claim =
      .ok (L.idem (claim.tenant, claim.capability, claim.key)) := by
  refine h.claimEntry_of_not_stranded hlive ?_
  rintro ⟨keys, id, hkeys, hid, hne⟩
  cases hkeys.symm.trans (h.tenantKeys_of_live hlive)
  obtain ⟨v, hv, hsealed⟩ := Option.bind_eq_some_iff.mp hid
  exact hne (Option.some.inj (hsealed.symm.trans
    (h.sealedKeyId_of_idle (n := claimName claim) hlive hidle hv)))

section Same

variable (h : Represents K L s) (h₀ : Represents K₀ L s₀)
  (hentry : (L.profiles claim.tenant).isSome → s.claimEntry (K.ring L claim.tenant) claim =
    .ok (L.idem (claim.tenant, claim.capability, claim.key)))
  (hentry₀ : (L.profiles claim.tenant).isSome → s₀.claimEntry (K₀.ring L claim.tenant) claim =
    .ok (L.idem (claim.tenant, claim.capability, claim.key)))

include h h₀ hentry hentry₀

/-- Claims on stores that read the entry alike answer alike. -/
theorem claim_same :
    Related (fun x y => x.1 = y.1 ∧ SameBook x.2 y.2) (s.claim claim) (s₀.claim claim) := by
  cases hcheck : L.checkLive claim.tenant with
  | error e =>
    unfold Store.claim
    rw [h.tenantKeys_eq, h₀.tenantKeys_eq, hcheck]
    exact .error e
  | ok =>
    have hlive := (Custody.checkLive_eq_ok L).mp hcheck
    cases hr : L.idem (claim.tenant, claim.capability, claim.key) with
    | none =>
      obtain ⟨s', hs, hrep⟩ := h.claim_free hlive hr
      obtain ⟨s₀', hs₀, hrep₀⟩ := h₀.claim_free hlive hr
      rw [hs, hs₀]
      exact .ok ⟨rfl, K, K₀, _, hrep, hrep₀⟩
    | some =>
      simp only [Store.claim, h.tenantKeys_of_live hlive, h₀.tenantKeys_of_live hlive, ok_bind,
        hentry hlive, hentry₀ hlive, hr]
      exact .ok ⟨rfl, K, K₀, L, h, h₀⟩

theorem claimed_same : s.claimed claim = s₀.claimed claim := by
  unfold Store.claimed
  rw [h.tenantKeys_eq, h₀.tenantKeys_eq]
  cases hcheck : L.checkLive claim.tenant with
  | error => rfl
  | ok =>
    have hlive := (Custody.checkLive_eq_ok L).mp hcheck
    show (s.claimEntry (K.ring L claim.tenant) claim >>= _) =
      (s₀.claimEntry (K₀.ring L claim.tenant) claim >>= _)
    rw [hentry hlive, hentry₀ hlive]

end Same

/-- A claim of a stranded key fails. -/
theorem claim_of_stranded (h : Represents K L s) (hstranded : s.Stranded claim) :
    ∃ id, s.claim claim = .error (.unknownKeyId id) ∧
      s.claimed claim = .error (.unknownKeyId id) := by
  obtain ⟨hlive, id, hentry⟩ := h.claimEntry_of_stranded hstranded
  refine ⟨id, ?_, ?_⟩
  · simp only [Store.claim, h.tenantKeys_of_live hlive, ok_bind, hentry]
    rfl
  · simp only [Store.claimed, h.tenantKeys_of_live hlive, ok_bind, hentry]
    rfl

/-- A claim of a live tenant that does not rotate goes through. -/
theorem claim_of_idle (h : Represents K L s) (hlive : (L.profiles claim.tenant).isSome)
    (hidle : K.rotation claim.tenant = none) :
    (∃ r, s.claim claim = .ok r) ∧ ∃ r, s.claimed claim = .ok r := by
  have hentry := h.claimEntry_of_idle hlive hidle
  refine ⟨?_, ?_⟩
  · cases hr : L.idem (claim.tenant, claim.capability, claim.key) with
    | none =>
      obtain ⟨s', hs, -⟩ := h.claim_free hlive hr
      exact ⟨_, hs⟩
    | some =>
      simp only [Store.claim, h.tenantKeys_of_live hlive, ok_bind, hentry, hr]
      exact ⟨_, rfl⟩
  · simp only [Store.claimed, h.tenantKeys_of_live hlive, ok_bind, hentry]
    exact ⟨_, rfl⟩

end Represents

/-! ## Calls -/

/-- The calls that read or write the sealed records of a tenant. -/
inductive Access (C : Crypto)
  | begin (intent : Intent C)
  | claim (claim : IdemClaim C)
  | claimed (claim : IdemClaim C)
  | artifact (id : ArtifactRef)
  | readArtifact (id : ArtifactRef) (offset : UInt64) (len : UInt32)
  | sessionArtifacts (session : SessionId) (after : Option ArtifactRef) (limit : UInt32)
  | auditRecords (tenant : TenantId) (after : Option AuditSeq) (limit : UInt32)
  | auditQuery (query : AuditQuery)

namespace Access

def Answer : Access C → Type
  | begin _ => Begin
  | claim _ => Claimed
  | claimed _ => Option Claimed
  | artifact _ => Option ArtifactInfo
  | readArtifact .. => Option ReadChunk
  | sessionArtifacts .. => Option QueryPage
  | auditRecords .. | auditQuery _ => List AuditEvent

/-- What a call answers, and the store it leaves. -/
def run (s : Store C) : (a : Access C) → Except Error (a.Answer × Store C)
  | begin intent => s.commit (Tx.begin intent)
  | claim c => s.claim c
  | claimed c => (s.claimed c).map (·, s)
  | artifact id => (s.artifact id).map (·, s)
  | readArtifact id offset len => (s.readArtifact id offset len).map (·, s)
  | sessionArtifacts session after limit => (s.sessionArtifacts session after limit).map (·, s)
  | auditRecords tenant after limit => (s.auditRecords tenant after limit).map (·, s)
  | auditQuery query => (s.auditQuery query).map (·, s)

/-- A claim of a key whose entry a rotation has not come to. -/
def Stranded (s : Store C) : Access C → Prop
  | claim c | claimed c => s.Stranded c
  | _ => False

end Access

/-- Both fail alike, or answer alike and leave stores that hold one book. -/
def Alike {α : Type} (x y : Except Error (α × Store C)) : Prop :=
  Related (fun a b => a.1 = b.1 ∧ SameBook a.2 b.2) x y

theorem Alike.of_read {α : Type} {x y : Except Error α} {s s₀ : Store C} (hsame : SameBook s s₀)
    (h : x = y) : Alike (x.map (·, s)) (y.map (·, s₀)) :=
  (Related.of_eq h).map fun _ _ heq => ⟨heq, hsame⟩

/-! ## The store that never rotated -/

/-- Not a part of a data-key rotation. -/
def Operation.Ordinary : Operation C → Prop
  | beginRekey .. | rekeyBatch .. => False
  | _ => True

/-- `w₀` is where the run of `w` would have led had no rotation ever started: every other
operation is done on both, and a part of a rotation moves the clock of `w₀` alone. -/
inductive Unrotated : World C → World C → Prop
  | create {w : World C} (h : w.Initial) : Unrotated w w
  | operate {w w₀ : World C} (h : Unrotated w w₀) (op : Operation C) (hop : op.Ordinary)
      {s s₀ : Store C} (hrun : op.run w.store = .ok s) (hrun₀ : op.run w₀.store = .ok s₀)
      (hfresh : ∀ d ∈ op.draw, d ∉ w.drawn) :
      Unrotated ⟨s, w.drawn ∪ {d | d ∈ op.draw}⟩ ⟨s₀, w₀.drawn ∪ {d | d ∈ op.draw}⟩
  | rotate {w w₀ : World C} (h : Unrotated w w₀) (op : Operation C) (hop : ¬ op.Ordinary)
      {s : Store C} (hrun : op.run w.store = .ok s) (hfresh : ∀ d ∈ op.draw, d ∉ w.drawn) :
      Unrotated ⟨s, w.drawn ∪ {d | d ∈ op.draw}⟩
        ⟨{ w₀.store with clock := s.clock }, w₀.drawn⟩
  | environment {w w₀ : World C} (h : Unrotated w w₀)
      (nonce nonce₀ : Keyspace → Str C.Block → C.Nonce) (clock : Nat → Timestamp) :
      Unrotated ⟨{ w.store with nonce := nonce, clock := clock }, w.drawn⟩
        ⟨{ w₀.store with nonce := nonce₀, clock := clock }, w₀.drawn⟩

/-- Both stores hold one book, under one root, and the second knows no rotation. -/
structure Twins (w w₀ : World C) (K K₀ : KeyState C) (L : Custody C) : Prop where
  holds : w.Holds K L
  holds₀ : w₀.Holds K₀ L
  idle : ∀ t, K₀.rekey t = none
  root : K₀.root = K.root
  rootId : K₀.rootId = K.rootId
  drawn : w₀.drawn ⊆ w.drawn

namespace Twins

variable {w w₀ : World C} {K K₀ : KeyState C} {L : Custody C}

variable (h : Twins w w₀ K K₀ L)

include h

theorem rotation (t : TenantId) : K₀.rotation t = none := by
  rw [KeyState.rotation, h.idle]
  rfl

theorem union_drawn (d : Set C.Block) : w₀.drawn ∪ d ⊆ w.drawn ∪ d :=
  Set.union_subset_union_left d h.drawn

/-- **Every call answers as the book does**, but for claims of stranded keys. -/
theorem alike_iff (a : Access C) :
    Alike (a.run w.store) (a.run w₀.store) ↔ ¬ a.Stranded w.store := by
  have hrep := h.holds.represents
  have hrep₀ := h.holds₀.represents
  have hsame : SameBook w.store w₀.store := ⟨K, K₀, L, hrep, hrep₀⟩
  have hreach := h.holds.reachable
  have hclaim₀ (c : IdemClaim C) (hlive : (L.profiles c.tenant).isSome) :=
    hrep₀.claimEntry_of_idle hlive (h.rotation c.tenant)
  cases a with
  | begin => exact iff_of_true (hrep.commit_same hrep₀ _) not_false
  | claim c =>
    constructor
    · intro halike hstranded
      obtain ⟨hlive, -⟩ := hrep.claimEntry_of_stranded hstranded
      obtain ⟨id, hfails, -⟩ := hrep.claim_of_stranded hstranded
      obtain ⟨⟨r, hok⟩, -⟩ := hrep₀.claim_of_idle hlive (h.rotation c.tenant)
      have halike : Alike (w.store.claim c) (w₀.store.claim c) := halike
      rw [hfails, hok] at halike
      cases halike
    · intro hopen
      exact hrep.claim_same hrep₀ (fun hlive => hrep.claimEntry_of_not_stranded hlive hopen)
        (hclaim₀ c)
  | claimed c =>
    constructor
    · intro halike hstranded
      obtain ⟨hlive, -⟩ := hrep.claimEntry_of_stranded hstranded
      obtain ⟨id, -, hfails⟩ := hrep.claim_of_stranded hstranded
      obtain ⟨-, r, hok⟩ := hrep₀.claim_of_idle hlive (h.rotation c.tenant)
      have halike : Alike ((w.store.claimed c).map (·, w.store))
        ((w₀.store.claimed c).map (·, w₀.store)) := halike
      rw [hfails, hok] at halike
      cases halike
    · intro hopen
      exact .of_read hsame (hrep.claimed_same hrep₀
        (fun hlive => hrep.claimEntry_of_not_stranded hlive hopen) (hclaim₀ c))
  | artifact =>
    exact iff_of_true (.of_read hsame (((hrep.commit_same hrep₀ _).map fun _ _ hr => hr.1).eq))
      not_false
  | readArtifact =>
    exact iff_of_true (.of_read hsame (((hrep.commit_same hrep₀ _).map fun _ _ hr => hr.1).eq))
      not_false
  | sessionArtifacts session after limit =>
    exact iff_of_true (.of_read hsame
      (hrep.sessionArtifacts_same hrep₀ hreach.filed session after limit)) not_false
  | auditRecords tenant after limit =>
    exact iff_of_true (.of_read hsame
      (hrep.auditRecords_same hrep₀ hreach.trail tenant after limit)) not_false
  | auditQuery query =>
    exact iff_of_true (.of_read hsame
      (hrep.auditQuery_same hrep₀ hreach.named hreach.trail query)) not_false

/-- What is done on the store that rotates can be done on the other, and they hold one book
again. -/
theorem operate (op : Operation C) (hop : op.Ordinary) {s : Store C}
    (hrun : op.run w.store = .ok s) (hfresh : ∀ d ∈ op.draw, d ∉ w.drawn) :
    ∃ s₀ K' K₀' L', op.run w₀.store = .ok s₀ ∧
      Twins ⟨s, w.drawn ∪ {d | d ∈ op.draw}⟩ ⟨s₀, w₀.drawn ∪ {d | d ∈ op.draw}⟩ K' K₀' L' := by
  have hrep := h.holds.represents
  have hrep₀ := h.holds₀.represents
  have hreach := h.holds.reachable
  have hkept (x) (hx : x ∈ K.issued) : K.dataKey x.1 x.2 ∈ w.drawn ∪ {d | d ∈ op.draw} :=
    .inl (h.holds.drawn x hx)
  have hkept₀ (x) (hx : x ∈ K₀.issued) : K₀.dataKey x.1 x.2 ∈ w₀.drawn ∪ {d | d ∈ op.draw} :=
    .inl (h.holds₀.drawn x hx)
  cases op with
  | transact t =>
    obtain ⟨⟨reply, s⟩, hcommit, rfl⟩ := map_eq_ok.mp hrun
    obtain ⟨L', hL', hrep'⟩ := hrep.commit_ok hcommit
    obtain ⟨s₀, hcommit₀, hrep₀'⟩ := hrep₀.commit_of_run hL'
    have hreach' := hreach.next (.transact t hL')
    exact ⟨s₀, K, K₀, L', map_eq_ok.mpr ⟨_, hcommit₀, rfl⟩, ⟨hrep', hreach', hkept⟩,
      ⟨hrep₀', hreach', hkept₀⟩, h.idle, h.root, h.rootId, h.union_drawn _⟩
  | registerTenant registration draw =>
    have hnew₀ : draw ∉ w₀.drawn := fun hmem => hfresh draw rfl (h.drawn hmem)
    rcases hrep.registerTenant_ok (h.holds.fresh (hfresh draw rfl)) hrun with
      ⟨rfl, p, hp, hidentity⟩ | ⟨hnew, hstone, hparent, hlen, hrep'⟩
    · -- The identity of a registered tenant does not depend on its data key.
      have hidentity₀ : sameIdentity (p.withKey (K₀.active registration.id)) registration :=
        hidentity
      refine ⟨w₀.store, K, K₀, L, ?_, ⟨hrep, hreach, hkept⟩, ⟨hrep₀, hreach, hkept₀⟩, h.idle,
        h.root, h.rootId, h.union_drawn _⟩
      simp only [Operation.run, Store.registerTenant, hrep₀.tenantRecord_eq, hp, ok_bind,
        Option.map_some, ensure_of_true hidentity₀]
      rfl
    · obtain ⟨s₀, hrun₀, hrep₀'⟩ := hrep₀.registerTenant_new hnew hstone hparent
        (h.holds₀.fresh hnew₀) hlen
      have hreach' := hreach.next (.register (registration.profile (L.clock 0))
        (⟨initialDataKeyId, draw⟩ : TenantDataKey C).address hnew hstone hparent)
      exact ⟨s₀, _, _, _, hrun₀, ⟨hrep', hreach', h.holds.drawn_issue _ _ draw⟩,
        ⟨hrep₀', hreach', h.holds₀.drawn_issue _ _ draw⟩, h.idle, h.root, h.rootId,
        h.union_drawn _⟩
  | claim c =>
    obtain ⟨⟨reply, s⟩, hclaim, rfl⟩ := map_eq_ok.mp hrun
    obtain ⟨hlive, ⟨r, hr, -, rfl⟩ | ⟨hnew, -, hrep'⟩⟩ := hrep.claim_ok hclaim
    · obtain ⟨⟨⟨reply₀, s₀⟩, hclaim₀⟩, -⟩ := hrep₀.claim_of_idle hlive (h.rotation c.tenant)
      obtain ⟨-, ⟨_, -, -, rfl⟩ | ⟨hnew, -⟩⟩ := hrep₀.claim_ok hclaim₀
      · exact ⟨_, K, K₀, L, map_eq_ok.mpr ⟨_, hclaim₀, rfl⟩, ⟨hrep, hreach, hkept⟩,
          ⟨hrep₀, hreach, hkept₀⟩, h.idle, h.root, h.rootId, h.union_drawn _⟩
      · rw [hr] at hnew
        cases hnew
    · obtain ⟨s₀, hclaim₀, hrep₀'⟩ := hrep₀.claim_free hlive hnew
      have hreach' := hreach.next (.bind c hlive hnew)
      exact ⟨s₀, K, K₀, _, map_eq_ok.mpr ⟨_, hclaim₀, rfl⟩, ⟨hrep', hreach', hkept⟩,
        ⟨hrep₀', hreach', hkept₀⟩, h.idle, h.root, h.rootId, h.union_drawn _⟩
  | beginRekey => exact hop.elim
  | rekeyBatch => exact hop.elim
  | shredTenant tenant =>
    rcases hrep.shredTenant_ok hreach.named hrun with
      ⟨rfl, hstone⟩ | ⟨hstone, hlive, hclosed, hrep'⟩
    · refine ⟨w₀.store, K, K₀, L, ?_, ⟨hrep, hreach, hkept⟩, ⟨hrep₀, hreach, hkept₀⟩, h.idle,
        h.root, h.rootId, h.union_drawn _⟩
      obtain ⟨stone, hstone⟩ := Option.isSome_iff_exists.mp hstone
      simp only [Operation.run, Store.shredTenant, hrep₀.tombstone_eq, hstone, ok_bind]
      rfl
    · obtain ⟨s₀, hrun₀, hrep₀'⟩ := hrep₀.shredTenant_new hreach.named hlive hstone hclosed
      have hreach' := hreach.next (.shred tenant hlive hclosed)
      refine ⟨s₀, _, _, _, hrun₀, ⟨hrep', hreach', hkept⟩, ⟨hrep₀', hreach', hkept₀⟩, fun t => ?_,
        h.root, h.rootId, h.union_drawn _⟩
      rcases eq_or_ne t tenant with rfl | ht
      · exact KeyState.forget_rekey_self
      · rw [KeyState.forget_rekey_of_ne ht, h.idle]
  | rotateRoot _ next salt =>
    obtain ⟨⟨id, s⟩, hrotate, rfl⟩ := map_eq_ok.mp hrun
    have howned := hreach.owned.ledgers
    obtain ⟨rfl, rfl, hids, hrep'⟩ := hrep.rotateRoot_ok hreach.named howned hrotate
    obtain ⟨s₀, hrotate₀, hrep₀'⟩ := hrep₀.rotateRoot_new hreach.named howned next salt
      (by rw [h.rootId]; exact hids)
    rw [h.root] at hrotate₀
    rw [h.rootId] at hrep₀'
    exact ⟨s₀, _, _, L, map_eq_ok.mpr ⟨_, hrotate₀, rfl⟩, ⟨hrep', hreach, hkept⟩,
      ⟨hrep₀', hreach, hkept₀⟩, h.idle, rfl, rfl, h.union_drawn _⟩
  | reopen =>
    obtain ⟨rfl, rfl⟩ := hrep.reopen_eq_ok.mp hrun
    exact ⟨w₀.store, K, K₀, L, hrep₀.reopen_eq_ok.mpr ⟨h.root.symm, rfl⟩, ⟨hrep, hreach, hkept⟩,
      ⟨hrep₀, hreach, hkept₀⟩, h.idle, h.root, h.rootId, h.union_drawn _⟩
  | compact =>
    cases hrun
    rw [w.store.compact_eq]
    exact ⟨w₀.store, K, K₀, L, congrArg _ w₀.store.compact_eq, ⟨hrep, hreach, hkept⟩,
      ⟨hrep₀, hreach, hkept₀⟩, h.idle, h.root, h.rootId, h.union_drawn _⟩

/-- A part of a rotation changes the keys of its tenant and reads the clock. -/
theorem rotate (op : Operation C) (hop : ¬ op.Ordinary) {s : Store C}
    (hrun : op.run w.store = .ok s) (hfresh : ∀ d ∈ op.draw, d ∉ w.drawn) :
    ∃ K' L', Twins ⟨s, w.drawn ∪ {d | d ∈ op.draw}⟩
      ⟨{ w₀.store with clock := s.clock }, w₀.drawn⟩ K' K₀ L' := by
  have hrep := h.holds.represents
  have hreach := h.holds.reachable
  have hdrawn : w₀.drawn ⊆ w.drawn ∪ {d | d ∈ op.draw} :=
    h.drawn.trans Set.subset_union_left
  have hkept (x) (hx : x ∈ K.issued) : K.dataKey x.1 x.2 ∈ w.drawn ∪ {d | d ∈ op.draw} :=
    .inl (h.holds.drawn x hx)
  have hfollow {K' : KeyState C} {L' : Custody C} (hrep' : Represents K' L' s)
      (hclock : L' = { L with clock := s.clock }) :
      World.Holds ⟨{ w₀.store with clock := s.clock }, w₀.drawn⟩ K₀ L' := by
    subst hclock
    exact ⟨h.holds₀.represents.setClock s.clock, hreach.next (.clock _), h.holds₀.drawn⟩
  have htick {K' : KeyState C} (hrep' : Represents K' L.tick s) :
      L.tick = { L with clock := s.clock } := by
    rw [hrep'.clock]
    rfl
  cases op with
  | beginRekey _ draw =>
    obtain ⟨⟨status, s⟩, hbegin, rfl⟩ := map_eq_ok.mp hrun
    obtain ⟨-, -, total, hrep', -⟩ := hrep.beginRekey_ok (h.holds.fresh (hfresh draw rfl)) hbegin
    exact ⟨_, _, ⟨hrep', hreach.next (.clock _), h.holds.drawn_issue _ _ draw⟩,
      hfollow hrep' (htick hrep'), h.idle, h.root, h.rootId, hdrawn⟩
  | rekeyBatch =>
    obtain ⟨⟨status, s⟩, hbatch, rfl⟩ := map_eq_ok.mp hrun
    obtain ⟨r, -, next, -, ⟨-, hrep'⟩ | ⟨-, -, hrep'⟩⟩ := hrep.rekeyBatch_ok hbatch
    · exact ⟨_, L, ⟨hrep', hreach, hkept⟩, hfollow hrep' (by rw [hrep'.clock]), h.idle, h.root,
        h.rootId, hdrawn⟩
    · exact ⟨_, _, ⟨hrep', hreach.next (.clock _), hkept⟩, hfollow hrep' (htick hrep'), h.idle,
        h.root, h.rootId, hdrawn⟩
  | transact | registerTenant | claim | shredTenant | rotateRoot | reopen | compact =>
    exact (hop trivial).elim

theorem environment (nonce nonce₀ : Keyspace → Str C.Block → C.Nonce) (clock : Nat → Timestamp) :
    Twins ⟨{ w.store with nonce := nonce, clock := clock }, w.drawn⟩
      ⟨{ w₀.store with nonce := nonce₀, clock := clock }, w₀.drawn⟩ K K₀
        { L with clock := clock } where
  holds := ⟨(h.holds.represents.setNonce nonce).setClock clock,
    h.holds.reachable.next (.clock clock),
    h.holds.drawn⟩
  holds₀ := ⟨(h.holds₀.represents.setNonce nonce₀).setClock clock,
    h.holds.reachable.next (.clock clock), h.holds₀.drawn⟩
  idle := h.idle
  root := h.root
  rootId := h.rootId
  drawn := h.drawn

end Twins

namespace Unrotated

variable {w w₀ : World C}

theorem twins (h : Unrotated w w₀) : ∃ K K₀ L, Twins w w₀ K K₀ L := by
  induction h with
  | create h =>
    obtain ⟨root, salt, nonce, clock, rfl⟩ := h
    have hholds : World.Holds ⟨Store.create root salt nonce clock, ∅⟩ (KeyState.initial root salt)
        (Custody.empty (⟨initialDataKeyId, root⟩ : TenantDataKey C).address clock) :=
      ⟨.create root salt nonce _ clock, ⟨_, ⟨_, clock, rfl⟩, .refl⟩, fun x hx => hx.elim⟩
    exact ⟨_, _, _, hholds, hholds, fun _ => rfl, rfl, rfl, subset_rfl⟩
  | operate _ op hop hrun hrun₀ hfresh ih =>
    obtain ⟨K, K₀, L, h⟩ := ih
    obtain ⟨s₀, K', K₀', L', hs₀, h'⟩ := h.operate op hop hrun hfresh
    rw [hs₀] at hrun₀
    cases hrun₀
    exact ⟨K', K₀', L', h'⟩
  | rotate _ op hop hrun hfresh ih =>
    obtain ⟨K, K₀, L, h⟩ := ih
    obtain ⟨K', L', h'⟩ := h.rotate op hop hrun hfresh
    exact ⟨K', K₀, L', h'⟩
  | environment _ nonce nonce₀ clock ih =>
    obtain ⟨K, K₀, L, h⟩ := ih
    exact ⟨K, K₀, _, h.environment nonce nonce₀ clock⟩

/-- The run of the store, step by step, without its rotations. -/
theorem exists_step {w' : World C} (h : Unrotated w w₀) (hstep : World.Step w w') :
    ∃ w₀', Unrotated w' w₀' := by
  cases hstep with
  | environment nonce clock => exact ⟨_, h.environment nonce nonce clock⟩
  | operate op hrun hfresh =>
    by_cases hop : op.Ordinary
    · obtain ⟨K, K₀, L, htwins⟩ := h.twins
      obtain ⟨s₀, -, -, -, hrun₀, -⟩ := htwins.operate op hop hrun hfresh
      exact ⟨_, h.operate op hop hrun hrun₀ hfresh⟩
    · exact ⟨_, h.rotate op hop hrun hfresh⟩

theorem exists_of_reachable (h : w.Reachable) : ∃ w₀, Unrotated w w₀ := by
  refine @Dioptron.Reachable.invariant _ _ _ (fun w : World C => ∃ w₀, Unrotated w w₀) _ h
    (fun w hinit => ⟨w, .create hinit⟩) fun w w' _ hpair hstep => ?_
  obtain ⟨w₀, hpair⟩ := hpair
  exact hpair.exists_step hstep

end Unrotated

/-- **Rotations and the calls around them.**  Next to every store there is the one that
never rotated, and a call answers and writes alike on both exactly when it is not a claim
of a key whose entry is under a data key that is being retired. -/
theorem rotation_invisible_unless_stranded {w : World C} (hw : w.Reachable) :
    (∃ w₀, Unrotated w w₀) ∧
      ∀ w₀, Unrotated w w₀ → ∀ a : Access C,
        Alike (a.run w.store) (a.run w₀.store) ↔ ¬ a.Stranded w.store := by
  refine ⟨Unrotated.exists_of_reachable hw, fun w₀ hpair a => ?_⟩
  obtain ⟨K, K₀, L, htwins⟩ := hpair.twins
  exact htwins.alike_iff a

/-! ## A claim in the middle of a rotation -/

namespace World.Holds

variable {w : World C} {K : KeyState C} {L : Custody C}

/-- Claiming a free key. -/
theorem claim (h : w.Holds K L) {c : IdemClaim C} (hlive : (L.profiles c.tenant).isSome)
    (hfree : L.idem (c.tenant, c.capability, c.key) = none) :
    ∃ w', World.Step w w' ∧ w'.drawn = w.drawn ∧ w'.Holds K
      (L.putSealed c.tenant (.idem c.capability c.key ⟨c.invocation, c.binding⟩)) := by
  obtain ⟨s', hs', hrep⟩ := h.represents.claim_free hlive hfree
  have hop : (Operation.claim c).run w.store = .ok s' := by
    rw [Operation.run, hs']
    rfl
  refine ⟨_, .operate (.claim c) hop fun _ hd => (by cases hd), ?_, hrep,
    h.reachable.next (.bind c hlive hfree), fun x hx => .inl (h.drawn x hx)⟩
  exact (congrArg _ (Set.eq_empty_of_forall_notMem fun d hd => by cases hd)).trans
    (Set.union_empty _)

end World.Holds

theorem KeyState.ring_active_keyId (K : KeyState C) (L : Custody C) (t : TenantId) :
    (K.ring L t).active.keyId = K.active t := rfl

namespace Sample

/-- The agent binds a key to the opening of a session. -/
def opening : IdemClaim Crypto.ideal where
  tenant := agent
  grant := ⟨2⟩
  capability := .sessionCreate
  key := intent.idempotencyKey
  requestDigest := ([0] : List ℕ)
  invocation := ⟨12⟩

/-- A store in which the agent bound a key and then began to rotate its data key. -/
theorem exists_rotating : ∃ (w : World Crypto.ideal) (r : RekeyRecord (List ℕ)), w.Reachable ∧
    w.store.Stranded opening ∧ w.store.rekeyRecord agent = .ok (some r) ∧ r.done = false := by
  obtain ⟨w, K, hreach, h, hidle, -, hdrawn⟩ := exists_registered
  obtain ⟨w₁, hstep₁, hdrawn₁, h₁⟩ := h.claim (c := opening) rfl rfl
  have hrotation : K.rotation agent = none := by rw [KeyState.rotation, hidle]; rfl
  have hlive : ((registered.putSealed opening.tenant (.idem opening.capability opening.key
      ⟨opening.invocation, opening.binding⟩)).profiles agent).isSome := rfl
  have hactive : K.active agent = initialDataKeyId :=
    ((h₁.represents.tenants agent).initial hlive (hidle agent)).1
  have hdraw : ([3] : List ℕ) ∉ w₁.drawn := by
    rw [hdrawn₁, hdrawn]
    rintro (hmem | hmem) <;> cases hmem
  obtain ⟨total, w₂, hstep₂, h₂, hget, r, hr⟩ :=
    h₁.beginRekey (t := agent) _ hlive hrotation (by rw [hactive]; decide) hdraw
  refine ⟨w₂, r, (hreach.next hstep₁).next hstep₂, ⟨_, K.active agent,
    h₂.represents.tenantKeys_of_live hlive, ?_, ?_⟩, hr⟩
  · have hbound : (registered.putSealed opening.tenant (.idem opening.capability opening.key
        ⟨opening.invocation, opening.binding⟩)).idem
        (opening.tenant, opening.capability, opening.key) =
          some ⟨opening.invocation, opening.binding⟩ := by
      simp [Custody.putSealed, Book.setIdem]
    obtain ⟨id, hid, -⟩ := h₁.represents.claimEntry_of_bound hbound
    obtain ⟨v, hv, -⟩ := Option.bind_eq_some_iff.mp hid
    refine Option.bind_eq_some_iff.mpr ⟨v, (hget _).trans hv, ?_⟩
    exact h₁.represents.sealedKeyId_of_idle (n := Represents.claimName opening) hlive hrotation hv
  · rw [KeyState.ring_active_keyId]
    exact fun heq => succ_ne (heq.trans KeyState.beginRekey_active_self)

end Sample

/-- **A claim in the middle of a rotation.**  The agent bound a key and began to rotate its
data key; asked again, the store cannot open the entry, and without the rotation it would
answer that the key is bound to the same call. -/
theorem rotation_strands_claim : ∃ w w₀ : World Crypto.ideal, w.Reachable ∧ Unrotated w w₀ ∧
    (∃ id, w.store.claim Sample.opening = .error (.unknownKeyId id)) ∧
    (∃ r, w₀.store.claim Sample.opening = .ok r) ∧
    ¬ Alike ((Access.claim Sample.opening).run w.store)
      ((Access.claim Sample.opening).run w₀.store) := by
  obtain ⟨w, -, hreach, hstranded, -⟩ := Sample.exists_rotating
  obtain ⟨w₀, hpair⟩ := Unrotated.exists_of_reachable hreach
  obtain ⟨K, K₀, L, htwins⟩ := hpair.twins
  obtain ⟨hlive, -⟩ := htwins.holds.represents.claimEntry_of_stranded hstranded
  obtain ⟨id, hfails, -⟩ := htwins.holds.represents.claim_of_stranded hstranded
  refine ⟨w, w₀, hreach, hpair, ⟨id, hfails⟩,
    (htwins.holds₀.represents.claim_of_idle hlive (htwins.rotation _)).1, fun halike => ?_⟩
  exact (htwins.alike_iff (.claim Sample.opening)).mp halike hstranded

/-- In the middle of the agent's rotation its audit trail reads as if there were none. -/
theorem rotation_invisible_unless_stranded_of_rotating : ∃ w w₀ : World Crypto.ideal,
    w.Reachable ∧ w.store.Stranded Sample.opening ∧ Unrotated w w₀ ∧
      Alike ((Access.auditRecords Sample.agent none 10).run w.store)
        ((Access.auditRecords Sample.agent none 10).run w₀.store) := by
  obtain ⟨w, -, hreach, hstranded, -⟩ := Sample.exists_rotating
  obtain ⟨⟨w₀, hpair⟩, halike⟩ := rotation_invisible_unless_stranded hreach
  exact ⟨w, w₀, hreach, hstranded, hpair, (halike w₀ hpair _).mpr not_false⟩

end Dioptron
