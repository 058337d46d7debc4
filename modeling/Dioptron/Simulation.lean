import Dioptron.Represents

/-! # The store simulates the book

Every record primitive answers on the store as it answers on the book, and leaves a
store that represents the book it leaves.  By the simulation rule for programs the same
holds of every transaction.
-/
namespace Dioptron

variable {C : Crypto}

/-- Two states with the same tenants and addressing keys. -/
structure SameTenants (L L' : Custody C) : Prop where
  profiles : L'.profiles = L.profiles
  tombstones : L'.tombstones = L.tombstones
  address : L'.address = L.address

namespace SameTenants

variable {K : KeyState C} {L L' : Custody C} (h : SameTenants L L')

include h

theorem key_eq : K.key L' = K.key L := by
  funext n
  cases n with
  | sealed => simp only [KeyState.key, KeyState.index, h.address]
  | tenant t | tombstone t | rekey t | global n => rfl

theorem sealedUnder_eq : K.SealedUnder L' = K.SealedUnder L := by
  funext n key
  cases n with
  | sealed => simp only [KeyState.SealedUnder, KeyState.Allowed, h.address, h.profiles]
  | tenant t | tombstone t | rekey t | global n => rfl

theorem wrapped_eq : K.Wrapped L' = K.Wrapped L := by
  funext w
  cases w with
  | dataKey => simp only [KeyState.Wrapped, KeyState.Held, h.profiles]
  | addressKeys => simp only [KeyState.Wrapped, h.profiles]

theorem wrap_eq : K.wrap L' = K.wrap L := by
  funext nonce w
  cases w with
  | dataKey => rfl
  | addressKeys => simp only [KeyState.wrap, h.address]

theorem tenantOk {t : TenantId} (ht : K.TenantOk L t) : K.TenantOk L' t :=
  ht.congr (by rw [h.profiles]) (by rw [h.address]) rfl rfl rfl subset_rfl

end SameTenants

/-! ## Content after a write -/

theorem Custody.global_put (L : Custody C) (e : GlobalEntry) (n : GlobalName) :
    (L.put e).global n = if n = e.name then some e.plain else L.global n := by
  cases e <;> cases n <;>
    simp only [Custody.put, Custody.global, GlobalEntry.name, GlobalEntry.plain,
      Book.setGrant, Book.setRevocation, Book.setSession, Book.setInvocation, Book.setLedger,
      Function.update_apply, reduceCtorEq, if_false, GlobalName.grant.injEq,
      GlobalName.revocation.injEq, GlobalName.session.injEq, GlobalName.invocation.injEq,
      GlobalName.ledger.injEq, GlobalName.locator.injEq, GlobalName.auditStub.injEq] <;>
    split_ifs <;> rfl

theorem Custody.sealed_put (L : Custody C) (e : GlobalEntry) (t : TenantId)
    (n : TenantName C.Block) : (L.put e).sealed t n = L.sealed t n := by
  cases e <;> cases n <;> rfl

theorem Custody.global_putSealed (L : Custody C) (t : TenantId) (e : TenantEntry C.Block)
    (n : GlobalName) : (L.putSealed t e).global n = L.global n := by
  cases e <;> cases n <;> rfl

theorem Custody.sealed_putSealed (L : Custody C) (t : TenantId) (e : TenantEntry C.Block)
    (t' : TenantId) (n : TenantName C.Block) :
    (L.putSealed t e).sealed t' n =
      if t' = t ∧ n = e.name then some e.plain else L.sealed t' n := by
  cases e <;> cases n <;>
    simp only [Custody.putSealed, Custody.sealed, TenantEntry.name, TenantEntry.plain,
      Book.setIdem, Function.update_apply, Prod.mk.injEq, reduceCtorEq, and_false, if_false,
      TenantName.idem.injEq, TenantName.artifact.injEq, TenantName.pending.injEq,
      TenantName.blob.injEq, TenantName.sessionIndex.injEq, TenantName.audit.injEq] <;>
    split_ifs <;> rfl

theorem Custody.global_removeSealed (L : Custody C) (t : TenantId) (m : TenantName C.Block)
    (n : GlobalName) : (L.removeSealed t m).global n = L.global n := by
  cases m <;> cases n <;> rfl

theorem Custody.sealed_removeSealed (L : Custody C) (t : TenantId) (m : TenantName C.Block)
    (t' : TenantId) (n : TenantName C.Block) :
    (L.removeSealed t m).sealed t' n = if t' = t ∧ n = m then none else L.sealed t' n := by
  cases m <;> cases n <;>
    simp only [Custody.removeSealed, Custody.sealed, Function.update_apply, Prod.mk.injEq,
      reduceCtorEq, and_false, if_false, TenantName.idem.injEq, TenantName.artifact.injEq,
      TenantName.pending.injEq, TenantName.blob.injEq, TenantName.sessionIndex.injEq,
      TenantName.audit.injEq] <;>
    split_ifs <;> rfl

theorem SameTenants.put (L : Custody C) (e : GlobalEntry) : SameTenants L (L.put e) := by
  cases e <;> exact ⟨rfl, rfl, rfl⟩

theorem SameTenants.putSealed (L : Custody C) (t : TenantId) (e : TenantEntry C.Block) :
    SameTenants L (L.putSealed t e) := by
  cases e <;> exact ⟨rfl, rfl, rfl⟩

theorem SameTenants.removeSealed (L : Custody C) (t : TenantId) (n : TenantName C.Block) :
    SameTenants L (L.removeSealed t n) := by
  cases n <;> exact ⟨rfl, rfl, rfl⟩

theorem SameTenants.setClock (L : Custody C) (clock : Nat → Timestamp) :
    SameTenants L { L with clock := clock } := ⟨rfl, rfl, rfl⟩

theorem KeyState.content_put (K : KeyState C) (L : Custody C) (e : GlobalEntry) :
    K.content (L.put e) = Function.update (K.content L) (.global e.name) (some e.plain) := by
  have hsame := SameTenants.put L e
  funext m
  rw [Function.update_apply]
  cases m with
  | global => simp only [KeyState.content, Custody.global_put, Name.global.injEq]
  | sealed => simp only [KeyState.content, Custody.sealed_put, reduceCtorEq, if_false]
  | tenant => simp only [KeyState.content, hsame.profiles, reduceCtorEq, if_false]
  | tombstone => simp only [KeyState.content, hsame.tombstones, reduceCtorEq, if_false]
  | rekey => simp only [KeyState.content, reduceCtorEq, if_false]

/-- A write to one record of a tenant. -/
theorem SameTenants.content_eq {L L' : Custody C} (h : SameTenants L L') (K : KeyState C)
    {t : TenantId} {n : TenantName C.Block} {v : Option (Plain C.Block)}
    (hglobal : ∀ m, L'.global m = L.global m)
    (hsealed : ∀ t' m, L'.sealed t' m = if t' = t ∧ m = n then v else L.sealed t' m) :
    K.content L' = Function.update (K.content L) (.sealed t n) v := by
  funext m
  rw [Function.update_apply]
  cases m with
  | global => simp only [KeyState.content, hglobal, reduceCtorEq, if_false]
  | sealed => simp only [KeyState.content, hsealed, Name.sealed.injEq]
  | tenant => simp only [KeyState.content, h.profiles, reduceCtorEq, if_false]
  | tombstone => simp only [KeyState.content, h.tombstones, reduceCtorEq, if_false]
  | rekey => simp only [KeyState.content, reduceCtorEq, if_false]

theorem KeyState.content_putSealed (K : KeyState C) (L : Custody C) (t : TenantId)
    (e : TenantEntry C.Block) :
    K.content (L.putSealed t e) =
      Function.update (K.content L) (.sealed t e.name) (some e.plain) :=
  (SameTenants.putSealed L t e).content_eq K (L.global_putSealed t e) (L.sealed_putSealed t e)

theorem KeyState.content_removeSealed (K : KeyState C) (L : Custody C) (t : TenantId)
    (n : TenantName C.Block) :
    K.content (L.removeSealed t n) = Function.update (K.content L) (.sealed t n) none :=
  (SameTenants.removeSealed L t n).content_eq K (L.global_removeSealed t n)
    (L.sealed_removeSealed t n)

/-! ## Writes -/

/-- A write of one record leads from a book to another that a store can hold. -/
structure Custody.Follows (L L' : Custody C) : Prop extends SameTenants L L' where
  clock : L'.clock = L.clock
  stub_le : ∀ seq, (L'.stubs seq).isSome → seq.toNat ≤ L'.lastSeq
  last_stub : L'.lastSeq ≠ 0 → ∃ seq : AuditSeq, seq.toNat = L'.lastSeq ∧ (L'.stubs seq).isSome
  owned : ∀ t m, (L'.sealed t m).isSome → (L.profiles t).isSome ∨ (L.tombstones t).isSome

namespace Represents

variable {K : KeyState C} {L L' : Custody C} {s : Store C}

variable (h : Represents K L s)

include h

/-- Writing records of the book and of the database alike keeps the representation. -/
theorem write (hnext : L.Follows L') {db : Database C}
    (hrecords : Records (K.key L) (K.SealedUnder L) (K.content L') db)
    (hget : ∀ keyspace k, keyspace = .metadata ∨ keyspace = .keys →
      db.get keyspace k = s.db.get keyspace k)
    (hsized : ∀ n p, K.content L' n = some p → C.encodedLen p ≤ maxPlaintextLen) :
    Represents K L' { s with db := db } where
  toRecords := by rw [hnext.key_eq, hnext.sealedUnder_eq]; exact hrecords
  toWraps := by
    rw [hnext.wrapped_eq, hnext.wrap_eq]
    exact h.toWraps.of_get fun k => hget _ k (.inr rfl)
  metadata := by
    intro f hf
    rw [hget _ _ (.inl rfl)]
    exact h.metadata f hf
  keys := h.keys
  clock := h.clock.trans hnext.clock.symm
  sized := hsized
  tenants := fun t => hnext.tenantOk (h.tenants t)
  distinct := h.distinct
  stub_le := hnext.stub_le
  last_stub := hnext.last_stub
  owned := by rw [hnext.profiles, hnext.tombstones]; exact hnext.owned

/-- Inserting a sealed record represents the book with the record set. -/
theorem insert (hnext : L.Follows L') {n : Name C.Block} {p : Plain C.Block} {key : SealingKey C}
    (nonce : C.Nonce) (hcontent : K.content L' = Function.update (K.content L) n (some p))
    (hkey : K.SealedUnder L n key) (hsize : C.encodedLen p ≤ maxPlaintextLen) :
    Represents K L' { s with
      db := s.db.insert n.slot.keyspace (K.key L n)
        (sealedValue key n.slot (K.key L n) nonce p) } := by
  refine h.write hnext ?_ ?_ ?_
  · rw [hcontent]
    exact h.toRecords.insert nonce (fun _ _ _ _ hk => hk) hkey
  · intro keyspace k hspace
    refine Keyspaces.get_insert_of_ne (.inl ?_)
    rcases hspace with rfl | rfl
    · exact n.slot_ne.1
    · exact n.slot_ne.2
  · intro m q hq
    rw [hcontent, Function.update_apply] at hq
    split_ifs at hq with hm
    · cases hq
      exact hsize
    · exact h.sized m q hq

/-- Removing a record represents the book without it. -/
theorem erase (hnext : L.Follows L') {n : Name C.Block}
    (hcontent : K.content L' = Function.update (K.content L) n none) :
    Represents K L' { s with db := s.db.remove n.slot.keyspace (K.key L n) } := by
  refine h.write hnext ?_ ?_ ?_
  · rw [hcontent]
    exact h.toRecords.remove
  · intro keyspace k hspace
    refine Keyspaces.get_remove_of_ne (.inl ?_)
    rcases hspace with rfl | rfl
    · exact n.slot_ne.1
    · exact n.slot_ne.2
  · intro m q hq
    rw [hcontent, Function.update_apply] at hq
    split_ifs at hq with hm
    exact h.sized m q hq

/-- The clock is the environment's: any readings may come next. -/
theorem setClock (clock : Nat → Timestamp) :
    Represents K { L with clock := clock } { s with clock := clock } where
  toRecords := h.toRecords
  toWraps := h.toWraps
  metadata := h.metadata
  keys := h.keys
  clock := rfl
  sized := h.sized
  tenants := fun t => (SameTenants.setClock L clock).tenantOk (h.tenants t)
  distinct := h.distinct
  stub_le := h.stub_le
  last_stub := h.last_stub
  owned := h.owned

/-- So are the nonces. -/
theorem setNonce (nonce : Keyspace → Str C.Block → C.Nonce) :
    Represents K L { s with nonce := nonce } :=
  { h with }

/-- Moving the clock on. -/
theorem tick : Represents K L.tick s.now.2 := by
  have hclock : L.tick = { L with clock := fun i => s.clock (i + 1) } := by
    rw [h.clock]
    rfl
  rw [hclock]
  exact h.setClock _

end Represents

namespace Represents

variable {K : KeyState C} {L : Custody C} {s : Store C}

/-- The last sequence number stays the greatest one when a stub is added. -/
theorem stubs_put (h : Represents K L s) (e : GlobalEntry) :
    (∀ seq, ((L.put e).stubs seq).isSome → seq.toNat ≤ (L.put e).lastSeq) ∧
      ((L.put e).lastSeq ≠ 0 →
        ∃ seq : AuditSeq, seq.toNat = (L.put e).lastSeq ∧ ((L.put e).stubs seq).isSome) := by
  cases e with
  | auditStub r =>
    refine ⟨?_, ?_⟩
    · intro seq hseq
      simp only [Custody.put, Function.update_apply] at hseq ⊢
      split_ifs at hseq with hhere
      · rw [hhere]
        exact Nat.le_max_right _ _
      · exact (h.stub_le seq hseq).trans (Nat.le_max_left _ _)
    · intro hne
      simp only [Custody.put] at hne ⊢
      by_cases hle : L.lastSeq ≤ r.seq.toNat
      · exact ⟨r.seq, by omega, by simp⟩
      · obtain ⟨seq, hseq, hsome⟩ := h.last_stub (by omega)
        refine ⟨seq, by omega, ?_⟩
        rw [Function.update_apply]
        split_ifs
        · rfl
        · exact hsome
  | grant r | revocation r | session r | invocation r | ledger id r | locator r =>
    exact ⟨h.stub_le, h.last_stub⟩

end Represents

/-- `s` with `p` sealed under the store keys as the record `n`. -/
def Store.placed (s : Store C) (n : Name C.Block) (p : Plain C.Block) : Store C :=
  { s with
    db := s.db.insert n.slot.keyspace (s.globalKey n) (sealedValue s.keys.metaKey n.slot
      (s.globalKey n) (s.nonce n.slot.keyspace (s.globalKey n)) p) }

theorem Store.putGlobal_eq (s : Store C) (n : Name C.Block) (p : Plain C.Block) :
    s.putGlobal n p = (Custody.checkLen p).map fun _ => s.placed n p := by
  have hkey : (s.globalKey n).len < 2 ^ 16 := RecordKey.ofName_len_lt _ n
  unfold Store.putGlobal Store.put
  by_cases hlen : C.encodedLen p ≤ maxPlaintextLen
  · rw [sealBytes_eq_ok hkey hlen, Custody.checkLen, ensure_of_true hlen]
    rfl
  · rw [sealBytes_too_large hlen, Custody.checkLen, ensure, if_neg hlen]
    rfl

theorem Store.putGlobal_eq_ok {s s' : Store C} {n : Name C.Block} {p : Plain C.Block} :
    s.putGlobal n p = .ok s' ↔ C.encodedLen p ≤ maxPlaintextLen ∧ s' = s.placed n p := by
  rw [Store.putGlobal_eq, map_eq_ok]
  constructor
  · rintro ⟨u, hlen, rfl⟩
    exact ⟨ensure_eq_ok.mp hlen, rfl⟩
  · rintro ⟨hlen, rfl⟩
    exact ⟨(), ensure_eq_ok.mpr hlen, rfl⟩

namespace Represents

variable {K : KeyState C} {L : Custody C} {s : Store C}

/-- Writing a record under the store keys simulates setting it in the book. -/
theorem putGlobal_related (h : Represents K L s) (e : GlobalEntry) :
    Related (fun s' L' => Represents K L' s') (s.putGlobal (.global e.name) e.plain)
      ((Custody.checkLen (C := C) e.plain).map fun _ => L.put e) := by
  have hscoped : (Name.global e.name : Name C.Block).StoreScoped := Name.storeScoped_global _
  rw [Store.putGlobal_eq, Custody.checkLen]
  by_cases hlen : C.encodedLen (e.plain : Plain C.Block) ≤ maxPlaintextLen
  · rw [ensure_of_true hlen]
    refine .ok ?_
    rw [Store.placed, h.globalKey_eq hscoped]
    refine h.insert ⟨SameTenants.put L e, by cases e <;> rfl, (h.stubs_put e).1, (h.stubs_put e).2,
      ?_⟩ _ (K.content_put L e)
      ((KeyState.sealedUnder_of_storeScoped hscoped).mpr (by rw [h.keys])) hlen
    intro t m hm
    rw [Custody.sealed_put] at hm
    exact h.owned t m hm
  · rw [ensure, if_neg hlen]
    exact .error _

/-- Writing a record of a live tenant simulates setting it in the book. -/
theorem putSealed_related (h : Represents K L s) {t : TenantId} (hlive : (L.profiles t).isSome)
    (e : TenantEntry C.Block) :
    Related (fun s' L' => Represents K L' s') (s.putSealed (K.ring L t) t e.name e.plain)
      ((Custody.checkLen e.plain).map fun _ => L.putSealed t e) := by
  unfold Store.putSealed Store.put
  show Related _ (do
    let sealed ← sealBytes (e.name.sealer (K.sealing t (K.active t))) e.name.slot
      (K.key L (.sealed t e.name)) (s.nonce e.name.slot.keyspace (K.key L (.sealed t e.name)))
        e.plain
    return { s with db := s.db.insert e.name.slot.keyspace (K.key L (.sealed t e.name)) sealed }) _
  by_cases hlen : C.encodedLen e.plain ≤ maxPlaintextLen
  · rw [sealBytes_eq_ok (KeyState.key_len_lt _) hlen, Custody.checkLen, ensure_of_true hlen]
    refine .ok (h.insert (n := .sealed t e.name) ⟨SameTenants.putSealed L t e, by cases e <;> rfl,
      by cases e <;> exact h.stub_le, by cases e <;> exact h.last_stub, ?_⟩ _
      (K.content_putSealed L t e)
      ⟨K.active t, (h.tenants t).active_issued hlive, fun _ => .inl rfl, rfl⟩ hlen)
    intro t' m hm
    rw [Custody.sealed_putSealed] at hm
    split_ifs at hm with hhere
    · rw [hhere.1]
      exact .inl hlive
    · exact h.owned t' m hm
  · rw [sealBytes_too_large hlen, Custody.checkLen, ensure, if_neg hlen]
    exact .error _

/-- A record that fits is written. -/
theorem putSealed_ok (h : Represents K L s) {t : TenantId} (hlive : (L.profiles t).isSome)
    {e : TenantEntry C.Block} (hlen : C.encodedLen e.plain ≤ maxPlaintextLen) :
    ∃ s', s.putSealed (K.ring L t) t e.name e.plain = .ok s' ∧
      Represents K (L.putSealed t e) s' := by
  have hput := h.putSealed_related hlive e
  rw [Custody.checkLen, ensure_of_true hlen] at hput
  exact hput.exists_of_ok_right

theorem removeSealed (h : Represents K L s) (t : TenantId) (n : TenantName C.Block) :
    Represents K (L.removeSealed t n)
      (s.remove n.slot.keyspace (Store.sealedKey (K.ring L t) t n)) := by
  refine h.erase (n := .sealed t n) ⟨SameTenants.removeSealed L t n, by cases n <;> rfl,
    by cases n <;> exact h.stub_le, by cases n <;> exact h.last_stub, ?_⟩
    (K.content_removeSealed L t n)
  intro t' m hm
  rw [Custody.sealed_removeSealed] at hm
  split_ifs at hm with hhere
  · cases hm
  · exact h.owned t' m hm

/-! ## Every primitive, every transaction -/

/-- What goes on with a tenant's keyring goes on with a live tenant. -/
theorem bind_tenantKeys_related {α β : Type} {R : α → β → Prop} (h : Represents K L s)
    (t : TenantId) {f : TenantKeyring C → Except Error α} {g : Unit → Except Error β}
    (hfg : (L.profiles t).isSome → Related R (f (K.ring L t)) (g ())) :
    Related R (s.tenantKeys t >>= f) (L.checkLive t >>= g) := by
  rw [h.tenantKeys_eq]
  cases hlive : L.checkLive t with
  | error e => exact .error e
  | ok => exact hfg ((Custody.checkLive_eq_ok L).mp hlive)

theorem liveTenantKeys_eq (h : Represents K L s) (t : TenantId) :
    s.liveTenantKeys t =
      match L.checkLive t with
      | .ok _ => .ok (some (K.ring L t))
      | .error (.tenantShredded _) => .ok none
      | .error e => .error e := by
  unfold Store.liveTenantKeys
  rw [h.tenantKeys_eq]
  cases L.checkLive t with
  | ok => rfl
  | error e => cases e <;> rfl

/-- The answers agree, and the store left represents the book left. -/
abbrev Simulates (K : KeyState C) {α : Type} (x : α × Store C) (y : α × Custody C) : Prop :=
  x.1 = y.1 ∧ Represents K y.2 x.2

theorem handler_related (h : Represents K L s) (β : Type) (p : Prim C β) :
    Related (Simulates K) (Store.handler β p s) (Custody.handler β p L) := by
  cases p with
  | now => exact .ok ⟨congrFun h.clock 0, h.tick⟩
  | view => exact .ok ⟨h.view_eq, h⟩
  | profile =>
    simp only [Store.handler, h.profile_eq, ok_bind]
    exact .ok ⟨rfl, h⟩
  | tombstone =>
    simp only [Store.handler, h.tombstone_eq, ok_bind]
    exact .ok ⟨rfl, h⟩
  | get n =>
    simp only [Store.handler, h.getGlobal_eq (Name.storeScoped_global n), ok_bind]
    exact .ok ⟨rfl, h⟩
  | contains n =>
    have hkey : s.globalKey (.global n) = K.key L (.global n) :=
      h.globalKey_eq (Name.storeScoped_global n)
    simp only [Store.handler, hkey]
    exact .ok ⟨h.toRecords.get_isSome (.global n), h⟩
  | put entry =>
    have hput := h.putGlobal_related entry
    simp only [Store.handler, Custody.handler]
    cases hlen : Custody.checkLen (C := C) entry.plain with
    | error e =>
      rw [hlen] at hput
      rw [hput.error_of_error]
      exact .error e
    | ok =>
      rw [hlen] at hput
      obtain ⟨s', hs', hrep⟩ := hput.exists_of_ok_right
      rw [hs']
      exact .ok ⟨rfl, hrep⟩
  | nextAuditSeq =>
    simp only [Store.handler, Custody.handler, h.lastAuditSeq_eq, ok_bind]
    exact .bind_same fun seq _ => .ok ⟨rfl, h⟩
  | tenantKeys t => exact h.bind_tenantKeys_related t fun _ => .ok ⟨rfl, h⟩
  | liveTenantKeys t =>
    simp only [Store.handler, Custody.handler, h.liveTenantKeys_eq]
    cases L.checkLive t with
    | ok => exact .ok ⟨rfl, h⟩
    | error e => cases e <;> first | exact .ok ⟨rfl, h⟩ | exact .error _
  | blobAddress keys =>
    exact h.bind_tenantKeys_related keys.tenant fun _ => .ok ⟨rfl, h⟩
  | getSealed keys =>
    refine h.bind_tenantKeys_related keys.tenant fun hlive => ?_
    rw [h.getSealed_eq hlive]
    exact .ok ⟨rfl, h⟩
  | containsSealed keys n =>
    exact h.bind_tenantKeys_related keys.tenant fun _ =>
      .ok ⟨h.toRecords.get_isSome (.sealed keys.tenant n), h⟩
  | putSealed keys entry =>
    refine h.bind_tenantKeys_related keys.tenant fun hlive => ?_
    have hput := h.putSealed_related hlive entry
    cases hlen : Custody.checkLen (C := C) entry.plain with
    | error e =>
      rw [hlen] at hput
      rw [hput.error_of_error]
      exact .error e
    | ok =>
      rw [hlen] at hput
      obtain ⟨s', hs', hrep⟩ := hput.exists_of_ok_right
      rw [hs']
      exact .ok ⟨rfl, hrep⟩
  | removeSealed keys n =>
    exact h.bind_tenantKeys_related keys.tenant fun _ =>
      .ok ⟨rfl, h.removeSealed keys.tenant n⟩

/-- Every transaction does on the store what it does on the book. -/
theorem commit_related {α : Type} (h : Represents K L s) (tx : Tx C α) :
    Related (Simulates K) (s.commit tx) (L.run tx) :=
  Program.run_related (R := fun s L => Represents K L s)
    (fun β p _ _ hR => handler_related hR β p) tx h

/-- A committed transaction took the book where it took the store. -/
theorem commit_ok {α : Type} (h : Represents K L s) {tx : Tx C α} {a : α} {s' : Store C}
    (hs : s.commit tx = .ok (a, s')) : ∃ L', L.run tx = .ok (a, L') ∧ Represents K L' s' := by
  have hrel := h.commit_related tx
  rw [hs] at hrel
  obtain ⟨⟨a', L'⟩, hL, rfl, hrep⟩ := hrel.exists_of_ok
  exact ⟨L', hL, hrep⟩

/-- A transaction that goes through on the book commits on the store. -/
theorem commit_of_run {α : Type} (h : Represents K L s) {tx : Tx C α} {a : α} {L' : Custody C}
    (hL : L.run tx = .ok (a, L')) : ∃ s', s.commit tx = .ok (a, s') ∧ Represents K L' s' := by
  have hrel := h.commit_related tx
  rw [hL] at hrel
  obtain ⟨⟨a', s'⟩, hs, rfl, hrep⟩ := hrel.exists_of_ok_right
  exact ⟨s', hs, hrep⟩

end Represents
end Dioptron
