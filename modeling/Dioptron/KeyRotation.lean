import Dioptron.Registration

/-! # Rotating a data key

A rotation changes which keys records are under and nothing in the book.  Beginning one
makes the old key the one being retired; each batch re-seals a stretch of one keyspace
and moves the cursor past it; when the walk is over no record is left under the old key
and it is deleted.
-/
namespace Dioptron

variable {C : Crypto}

/-- The keys after the rekey record of `t` was set to `r`. -/
def KeyState.setRekey (K : KeyState C) (t : TenantId) (r : RekeyRecord C.Block) : KeyState C :=
  { K with rekey := Function.update K.rekey t (some r) }

namespace KeyState

variable {K : KeyState C} {L : Custody C} {t t' : TenantId} {r : RekeyRecord C.Block}

@[simp] theorem setRekey_rekey_self : (K.setRekey t r).rekey t = some r := by
  simp [setRekey]

theorem setRekey_rekey_of_ne (h : t' ≠ t) : (K.setRekey t r).rekey t' = K.rekey t' := by
  simp [setRekey, h]

theorem setRekey_rotation_self : (K.setRekey t r).rotation t = if r.done then none else some r := by
  rw [rotation, setRekey_rekey_self, Option.filter_some]
  cases r.done <;> rfl

theorem setRekey_rotation_of_ne (h : t' ≠ t) : (K.setRekey t r).rotation t' = K.rotation t' := by
  rw [rotation, rotation, setRekey_rekey_of_ne h]

/-- The rekey record is the only record of the new key state that changed. -/
theorem content_setRekey (K : KeyState C) (L : Custody C) (t : TenantId) (r : RekeyRecord C.Block) :
    (K.setRekey t r).content L = Function.update (K.content L) (.rekey t) (some (.rekey r)) := by
  funext n
  rw [Function.update_apply]
  cases n with
  | rekey t' =>
    rcases eq_or_ne t' t with rfl | ht
    · simp [content]
    · simp [content, ht, setRekey_rekey_of_ne ht]
  | tenant t | tombstone t | global n | sealed t n => rfl

/-- A rotation in progress is the rekey record while it is not done. -/
theorem mem_rotation : r ∈ K.rotation t ↔ K.rekey t = some r ∧ r.done = false := by
  rw [rotation, Option.mem_def, Option.filter_eq_some_iff]
  simp

/-- The record a name stands for in the active tenant record. -/
theorem content_issue (K : KeyState C) (L : Custody C) {p : TenantProfile} {id : KeyId}
    (draw : C.Block) (hp : L.profiles t = some p) :
    (K.issue t id draw).content L =
      Function.update (K.content L) (.tenant t) (some (.tenant (p.withKey id))) := by
  funext n
  rw [Function.update_apply]
  cases n with
  | tenant t' =>
    rcases eq_or_ne t' t with rfl | ht
    · simp [content, hp]
    · simp [content, ht, issue_active_of_ne ht]
  | tombstone t | rekey t | global n | sealed t n => rfl

end KeyState

/-- A progress record always fits. -/
theorem Store.putRekey_eq {s : Store C} {r : RekeyRecord C.Block}
    (hcursor : ∀ c, r.cursor = some c → c.len ≤ 64) :
    s.putRekey r = .ok (s.placed (.rekey r.tenant) (.rekey r)) :=
  Store.putGlobal_eq_ok.mpr ⟨C.encodedLen_rekey r hcursor, rfl⟩

/-! ## Beginning a rotation -/

/-- The id after `id`, when there is one. -/
theorem succ_ne {id : KeyId} : id ≠ id + 1 := by
  intro h
  have := congrArg (· - id) h
  simp at this

/-- The keys after a rotation of `t` began with the new key `draw`. -/
def KeyState.beginRekey (K : KeyState C) (t : TenantId) (draw : C.Block)
    (r : RekeyRecord C.Block) : KeyState C :=
  (K.issue t (K.active t + 1) draw).setRekey t r

namespace KeyState

variable {K : KeyState C} {t t' : TenantId} {draw : C.Block} {r : RekeyRecord C.Block}

theorem beginRekey_active_self : (K.beginRekey t draw r).active t = K.active t + 1 := by
  simp [beginRekey, setRekey, issue]

theorem beginRekey_active_of_ne (h : t' ≠ t) : (K.beginRekey t draw r).active t' = K.active t' := by
  simp [beginRekey, setRekey, issue, h]

theorem beginRekey_rekey_self : (K.beginRekey t draw r).rekey t = some r := setRekey_rekey_self

theorem beginRekey_rekey_of_ne (h : t' ≠ t) : (K.beginRekey t draw r).rekey t' = K.rekey t' :=
  setRekey_rekey_of_ne h

theorem beginRekey_wrap_self (L : Custody C) (nonce : C.Nonce) :
    (K.beginRekey t draw r).wrap L nonce (.dataKey t (K.active t + 1)) =
      K.storeKeys.wrapTenantKey t nonce ⟨K.active t + 1, draw⟩ := by
  simp [wrap, beginRekey, setRekey, issue, storeKeys]

theorem beginRekey_wrap_of_ne (L : Custody C) (nonce : C.Nonce) {w : WrapName}
    (h : w ≠ .dataKey t (K.active t + 1)) :
    (K.beginRekey t draw r).wrap L nonce w = K.wrap L nonce w := by
  cases w with
  | addressKeys => rfl
  | dataKey t' id =>
    have hne : t' ≠ t ∨ id ≠ K.active t + 1 := by
      by_contra hboth
      rw [not_or, not_not, not_not] at hboth
      exact h (by rw [hboth.1, hboth.2])
    have hdata : (K.beginRekey t draw r).dataKey t' id = K.dataKey t' id :=
      issue_dataKey_of_ne hne
    show (K.beginRekey t draw r).storeKeys.wrapTenantKey t' nonce ⟨id, _⟩ = _
    rw [hdata]
    rfl

end KeyState

namespace Represents

variable {K : KeyState C} {L : Custody C} {s s' : Store C} {t : TenantId} {draw : C.Block}

section Begin

variable (h : Represents K L s) {p : TenantProfile} (hp : L.profiles t = some p)
  (hidle : K.rotation t = none) {total : UInt64} {now : Timestamp} {r : RekeyRecord C.Block}
  (hr : r = Store.freshRekey t (K.active t) (K.active t + 1) total now)

include h hp hidle hr

/-- Right after a rotation began every record is under the key being retired. -/
theorem beginRekey_records :
    Records ((K.beginRekey t draw r).key L) ((K.beginRekey t draw r).SealedUnder L)
      (K.content L) s.db := by
  refine h.toRecords.change (fun _ _ => KeyState.key_inj) ?_ ?_ fun _ _ _ => rfl
  · intro n _
    cases n <;> rfl
  · intro n key _ hkey
    cases n with
    | sealed t' n =>
      obtain ⟨id, hissued, hallowed, rfl⟩ := hkey
      rcases eq_or_ne t' t with rfl | ht
      · -- Without a rotation the record was under the key that was active until now.
        have hid : id = K.active t' := by
          rcases hallowed (by rw [hp]; rfl) with hid | ⟨r', hr', -⟩
          · exact hid
          · rw [hidle] at hr'
            cases hr'
        subst hid
        refine ⟨K.active t', Set.mem_insert_of_mem _ hissued, ?_, ?_⟩
        · refine fun _ => .inr ⟨r, KeyState.mem_rotation.mpr ⟨KeyState.setRekey_rekey_self, ?_⟩,
            ?_, ?_⟩
          · rw [hr]; rfl
          · rw [hr]; rfl
          · rw [hr]
            rintro ⟨i, -, hi | ⟨-, c, hc, -⟩⟩
            · exact absurd hi (Nat.not_lt_zero i)
            · cases hc
        · exact congrArg n.sealer (KeyState.issue_sealing_of_ne (.inr succ_ne)).symm
      · refine ⟨id, Set.mem_insert_of_mem _ hissued, ?_, ?_⟩
        · intro hlive
          rw [KeyState.beginRekey_active_of_ne ht, KeyState.beginRekey,
            KeyState.setRekey_rotation_of_ne ht]
          exact hallowed hlive
        · exact congrArg n.sealer (KeyState.issue_sealing_of_ne (.inl ht)).symm
    | tenant t | tombstone t | rekey t | global n => exact hkey

omit hidle in
theorem beginRekey_tenantOk (t' : TenantId) : (K.beginRekey t draw r).TenantOk L.tick t' := by
  have hok := h.tenants t'
  rcases eq_or_ne t' t with rfl | ht
  · have hlive : (L.profiles t').isSome := by rw [hp]; rfl
    refine ⟨?_, ?_, ?_, ?_, ?_, ?_, ?_, ?_⟩
    · intro _ hnone
      rw [KeyState.beginRekey_rekey_self] at hnone
      cases hnone
    · intro _
      rw [KeyState.beginRekey_active_self]
      exact Set.mem_insert _ _
    all_goals
      intro r' hr'
      rw [KeyState.beginRekey_rekey_self] at hr'
      cases hr'
      subst hr
    · exact hlive
    · rfl
    · exact KeyState.beginRekey_active_self.symm
    · rw [KeyState.beginRekey_active_self]
      exact succ_ne
    · exact Set.mem_insert_of_mem _ (hok.active_issued hlive)
    · exact nofun
  · exact hok.congr rfl rfl (KeyState.beginRekey_active_of_ne ht)
      (KeyState.beginRekey_rekey_of_ne ht) (Function.update_of_ne ht _ _) (Set.subset_insert _ _)

omit h in
/-- The wrapped keys of a tenant that rotates: both data keys and the addressing keys. -/
theorem mem_beginRekey_wrapped (w : WrapName) :
    w ∈ (K.beginRekey t draw r).Wrapped L ↔
      w = .addressKeys t ∨ w = .dataKey t (K.active t + 1) ∨ w ∈ K.Wrapped L := by
  have hlive : (L.profiles t).isSome := by rw [hp]; rfl
  cases w with
  | dataKey t' =>
    rcases eq_or_ne t' t with rfl | ht
    · have hrotation : (K.beginRekey t' draw r).rotation t' = some r := by
        rw [KeyState.beginRekey, KeyState.setRekey_rotation_self, hr]
        rfl
      have hfrom : r.fromKeyId = K.active t' := by rw [hr]; rfl
      simp [KeyState.mem_wrapped_dataKey, KeyState.beginRekey_active_self, hrotation, hidle, hlive,
        hfrom]
    · have hrotation : (K.beginRekey t draw r).rotation t' = K.rotation t' :=
        KeyState.setRekey_rotation_of_ne ht
      simp [KeyState.mem_wrapped_dataKey, KeyState.beginRekey_active_of_ne ht, hrotation, ht]
  | addressKeys t' =>
    rcases eq_or_ne t' t with rfl | ht
    · simp [KeyState.mem_wrapped_addressKeys, KeyState.beginRekey_rekey_self, hlive]
    · simp [KeyState.mem_wrapped_addressKeys, KeyState.beginRekey_rekey_of_ne ht, ht]

end Begin

variable (h : Represents K L s)

include h

/-- The keys a rotation stores before it names the new one. -/
theorem stageNewKey_ok {p : TenantProfile} (hp : L.profiles t = some p)
    (hidle : K.rotation t = none) (draw : C.Block) :
    ∃ db, s.stageNewKey t (K.active t + 1) (K.ring L t) draw = .ok { s with db := db } ∧
      (∀ total now r, r = Store.freshRekey t (K.active t) (K.active t + 1) total now →
        Wraps K.wrapKey ((K.beginRekey t draw r).Wrapped L) ((K.beginRekey t draw r).wrap L) db) ∧
      ∀ keyspace k, keyspace ≠ .keys → db.get keyspace k = s.db.get keyspace k := by
  have hlive : (L.profiles t).isSome := by rw [hp]; rfl
  obtain ⟨db, keys, nonce, clock⟩ := s
  obtain rfl := h.keys
  -- The new data key, wrapped.
  have hdata (r : RekeyRecord C.Block) :
      Wraps K.wrapKey (Insert.insert (.dataKey t (K.active t + 1)) (K.Wrapped L))
        ((K.beginRekey t draw r).wrap L)
        (Store.storeDataKey ⟨db, K.storeKeys, nonce, clock⟩ t ⟨K.active t + 1, draw⟩).db := by
    refine h.toWraps.insert (nonce .keys (K.wrapKey (.dataKey t (K.active t + 1))))
      (fun _ => Set.mem_insert_iff) ?_ ?_
    · intro nonce w _ hne
      exact KeyState.beginRekey_wrap_of_ne L nonce hne
    · rw [KeyState.beginRekey_wrap_self]
      rfl
  unfold Store.stageNewKey
  rw [h.storedAddressKeys_eq hlive, ok_bind]
  by_cases hrekey : (K.rekey t).isSome
  · rw [if_pos hrekey]
    refine ⟨_, rfl, ?_, ?_⟩
    · intro total now r hr
      refine (hdata r).change ?_ (fun _ _ _ => rfl) (fun _ => rfl)
      intro w
      rw [mem_beginRekey_wrapped hp hidle hr w, Set.mem_insert_iff]
      refine ⟨?_, .inr⟩
      rintro (rfl | hw)
      · exact .inr ⟨hlive, hrekey⟩
      · exact hw
    · intro keyspace k hne
      exact Keyspaces.get_insert_of_ne (.inl hne.symm)
  · rw [if_neg hrekey]
    refine ⟨_, rfl, ?_, ?_⟩
    · intro total now r hr
      refine (hdata r).insert (w := .addressKeys t) (nonce .keys (K.wrapKey (.addressKeys t))) ?_
        (fun _ _ _ _ => rfl) rfl
      intro w
      rw [mem_beginRekey_wrapped hp hidle hr w, Set.mem_insert_iff]
    · intro keyspace k hne
      exact (Keyspaces.get_insert_of_ne (.inl hne.symm)).trans
        (Keyspaces.get_insert_of_ne (.inl hne.symm))

theorem ensureNoRotation_eq_ok {u : Unit} : s.ensureNoRotation t = .ok u ↔ K.rotation t = none := by
  unfold Store.ensureNoRotation
  rw [h.rekeyRecord_eq, ok_bind, KeyState.rotation]
  cases K.rekey t with
  | none => simp [pure, Except.pure]
  | some => simp [ensure_eq_ok]

/-- A rotation written to the database changes keys and nothing in the book. -/
theorem beginRekey {p : TenantProfile} (hp : L.profiles t = some p)
    (hidle : K.rotation t = none) (hfresh : ∀ x ∈ K.issued, K.dataKey x.1 x.2 ≠ draw)
    (hrecord : C.encodedLen (.tenant (p.withKey (K.active t + 1))) ≤ maxPlaintextLen)
    {total : UInt64} {now : Timestamp} {r : RekeyRecord C.Block}
    (hr : r = Store.freshRekey t (K.active t) (K.active t + 1) total now) {db : Database C}
    (hwraps : Wraps K.wrapKey ((K.beginRekey t draw r).Wrapped L)
      ((K.beginRekey t draw r).wrap L) db)
    (hget : ∀ keyspace k, keyspace ≠ .keys → db.get keyspace k = s.db.get keyspace k)
    (nonce nonce' : C.Nonce) :
    Represents (K.beginRekey t draw r) L.tick
      { s.now.2 with
        db := (db.insert .tenants (K.key L (.tenant t)) (sealedValue K.storeKeys.metaKey .tenant
            (K.key L (.tenant t)) nonce (.tenant (p.withKey (K.active t + 1))))).insert .rekey
          (K.key L (.rekey t)) (sealedValue K.storeKeys.metaKey .rekey (K.key L (.rekey t)) nonce'
            (.rekey r)) } := by
  have hcontent : (K.beginRekey t draw r).content L = Function.update (Function.update (K.content L)
      (.tenant t) (some (.tenant (p.withKey (K.active t + 1))))) (.rekey t) (some (.rekey r)) := by
    rw [KeyState.beginRekey, KeyState.content_setRekey, KeyState.content_issue K L draw hp]
  have htenants : Keyspace.tenants ≠ .metadata := nofun
  have hrekey : Keyspace.rekey ≠ .metadata := nofun
  refine ⟨?_, ?_, ?_, h.keys, ?_, ?_, h.beginRekey_tenantOk hp hr,
    KeyState.issue_distinct h.distinct hfresh, h.stub_le, h.last_stub, h.owned⟩
  · rw [show (K.beginRekey t draw r).content L.tick = _ from hcontent]
    have hrecords : Records ((K.beginRekey t draw r).key L) ((K.beginRekey t draw r).SealedUnder L)
        (K.content L) db :=
      (h.beginRekey_records hp hidle hr).of_get fun keyspace k hspace => hget keyspace k hspace.2
    exact (hrecords.insert (n := .tenant t) nonce (fun _ _ _ _ hk => hk) rfl).insert
      (n := .rekey t) nonce' (fun _ _ _ _ hk => hk) rfl
  · refine hwraps.of_get fun k => ?_
    have htenants : Keyspace.tenants ≠ .keys := nofun
    have hrekey : Keyspace.rekey ≠ .keys := nofun
    exact (Keyspaces.get_insert_of_ne (.inl hrekey)).trans
      (Keyspaces.get_insert_of_ne (.inl htenants))
  · have hkeys : Keyspace.metadata ≠ .keys := nofun
    have hmeta : K.Unlocks db := fun f hf => (hget _ _ hkeys).trans (h.metadata f hf)
    exact (hmeta.insert htenants _ _).insert hrekey _ _
  · show (fun i => s.clock (i + 1)) = fun i => L.clock (i + 1)
    rw [h.clock]
  · intro n q hq
    rw [show (K.beginRekey t draw r).content L.tick = _ from hcontent, Function.update_apply,
      Function.update_apply] at hq
    split_ifs at hq
    · cases hq
      exact C.encodedLen_rekey r (by rw [hr]; exact nofun)
    · cases hq
      exact hrecord
    · exact h.sized n q hq

/-- A rotation of a live tenant without one begins. -/
theorem beginRekey_begun (hlive : (L.profiles t).isSome) (hidle : K.rotation t = none)
    (hids : (K.active t).toNat + 1 < 2 ^ 32) (hfresh : ∀ x ∈ K.issued, K.dataKey x.1 x.2 ≠ draw) :
    ∃ total s', s.beginRekey t draw = .ok (RekeyRecord.status (C := C)
        (Store.freshRekey t (K.active t) (K.active t + 1) total (L.clock 0)), s') ∧
      total = s.walkTotal ∧ Represents (K.beginRekey t draw
        (Store.freshRekey t (K.active t) (K.active t + 1) total (L.clock 0))) L.tick s' ∧
      ∀ keyspace k, keyspace ≠ .keys → (keyspace ≠ .tenants ∨ k ≠ K.key L (.tenant t)) →
        (keyspace ≠ .rekey ∨ k ≠ K.key L (.rekey t)) →
        s'.db.get keyspace k = s.db.get keyspace k := by
  obtain ⟨p, hp⟩ := Option.isSome_iff_exists.mp hlive
  obtain ⟨db, hstage, hwraps, hget⟩ := h.stageNewKey_ok hp hidle draw
  have hnorot : s.ensureNoRotation t = .ok () := h.ensureNoRotation_eq_ok.mpr hidle
  have hsucc : Store.succKeyId (K.active t) "tenant data key ids are exhausted" =
      .ok (K.active t + 1) := by
    rw [Store.succKeyId, ensure_of_true hids]
    rfl
  have hrecord : C.encodedLen (.tenant (p.withKey (K.active t + 1))) ≤ maxPlaintextLen := by
    have hsize := h.sized (.tenant t) (.tenant (p.withKey (K.active t))) (by
      simp [KeyState.content, hp])
    rw [← C.encodedLen_tenant _ (K.active t + 1)] at hsize
    exact hsize
  obtain ⟨old, keys, nonce, clock⟩ := s
  obtain rfl := h.keys
  obtain rfl := h.clock
  have hsource : (K.ring L t).active.keyId = K.active t := rfl
  generalize hnamed : Store.placed ⟨db, K.storeKeys, nonce, L.clock⟩ (.tenant t)
    (.tenant (p.withKey (K.active t + 1))) = named
  have hplace : Store.putGlobal ⟨db, K.storeKeys, nonce, L.clock⟩ (.tenant t)
      (.tenant (p.withKey (K.active t + 1))) = .ok named :=
    Store.putGlobal_eq_ok.mpr ⟨hrecord, hnamed.symm⟩
  have hrep := h.beginRekey hp hidle hfresh hrecord rfl
    (hwraps named.walkTotal (L.clock 0) _ rfl) hget
    (nonce .tenants (K.key L (.tenant t))) (nonce .rekey (K.key L (.rekey t)))
  refine ⟨_, _, ?_, ?_, hrep, fun keyspace k hkeys htenants hrekey => ?_⟩
  rotate_left
  · -- The walked keyspaces are as they were.
    have hwalked (keyspace : Keyspace) (hkeys : keyspace ≠ .keys) (htenants : keyspace ≠ .tenants) :
        named.db.entries keyspace = old.entries keyspace := by
      rw [← hnamed]
      refine (Keyspaces.entries_insert_of_ne (Ne.symm htenants)).trans ?_
      exact Keyspaces.entries_congr fun k => hget keyspace k hkeys
    simp only [Store.walkTotal, walk, List.map_cons, List.map_nil]
    rw [hwalked .idem (by decide) (by decide), hwalked .artifacts (by decide) (by decide),
      hwalked .blobs (by decide) (by decide), hwalked .sessionIndex (by decide) (by decide),
      hwalked .audit (by decide) (by decide)]
  · exact (Keyspaces.get_insert_of_ne (by tauto)).trans
      ((Keyspaces.get_insert_of_ne (by tauto)).trans (hget keyspace k hkeys))
  simp only [Store.beginRekey, h.tenantRecord_eq, hp, Option.map_some, ok_bind, hnorot,
    h.tenantKeys_of_live hlive, hsource, hsucc, hstage]
  show (Store.putGlobal _ _ (.tenant (p.withKey (K.active t + 1))) >>= _) = _
  rw [hplace, ok_bind]
  subst hnamed
  rw [Store.putRekey_eq]
  · rfl
  · intro c hc
    cases hc

/-- What beginning a rotation did. -/
theorem beginRekey_ok (hfresh : ∀ x ∈ K.issued, K.dataKey x.1 x.2 ≠ draw)
    {status : RekeyStatus} (hs : s.beginRekey t draw = .ok (status, s')) :
    (L.profiles t).isSome ∧ K.rotation t = none ∧ ∃ total,
      Represents (K.beginRekey t draw
        (Store.freshRekey t (K.active t) (K.active t + 1) total (L.clock 0))) L.tick s' ∧
      ∀ keyspace k, keyspace ≠ .keys → (keyspace ≠ .tenants ∨ k ≠ K.key L (.tenant t)) →
        (keyspace ≠ .rekey ∨ k ≠ K.key L (.rekey t)) →
        s'.db.get keyspace k = s.db.get keyspace k := by
  have hrun := hs
  cases hp : L.profiles t with
  | none =>
    simp only [Store.beginRekey, h.tenantRecord_eq, hp, Option.map_none, ok_bind] at hrun
    cases hrun
  | some =>
    have hlive : (L.profiles t).isSome := by rw [hp]; rfl
    simp only [Store.beginRekey, h.tenantRecord_eq, hp, Option.map_some, ok_bind] at hrun
    obtain ⟨_, hnorot, hrun⟩ := bind_eq_ok.mp hrun
    have hidle := h.ensureNoRotation_eq_ok.mp hnorot
    rw [h.tenantKeys_of_live hlive, ok_bind] at hrun
    obtain ⟨target, hsucc, -⟩ := bind_eq_ok.mp hrun
    obtain ⟨_, hids, -⟩ := bind_eq_ok.mp hsucc
    obtain ⟨total, s'', hs'', -, hrep, hget⟩ :=
      h.beginRekey_begun hlive hidle (ensure_eq_ok.mp hids) hfresh
    rw [hs''] at hs
    cases hs
    exact ⟨rfl, hidle, total, hrep, hget⟩

end Represents
end Dioptron
