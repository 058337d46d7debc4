import Dioptron.Rotations
import Dioptron.Rerooted

/-! # Retiring a data key

At every point of a rotation each record of the tenant is under one of its two keys, the
new one once the walk has passed it; so when the walk is over the old key is deleted with
nothing left under it.  A rotation moves no record, changes no plaintext and leaves the
records of other tenants alone.
-/
namespace Dioptron

variable {C : Crypto}

/-- From `s` to `s'` keys of tenant `t` changed, and no record moved or changed but the tenant's
own in the tenants keyspace. -/
structure Store.Rekeyed (t : TenantId) (s s' : Store C) : Prop where
  own : ∃ keys keys', s.tenantKeys t = .ok keys ∧ s'.tenantKeys t = .ok keys' ∧
    ∀ n, Store.sealedKey keys' t n = Store.sealedKey keys t n ∧
      ∃ content, s.getSealed keys t n = .ok content ∧ s'.getSealed keys' t n = .ok content
  others : ∀ t', t' ≠ t → s'.tenantKeys t' = s.tenantKeys t' ∧
    s'.rekeyRecord t' = s.rekeyRecord t' ∧ s'.tenantAt t' = s.tenantAt t'
  frame : ∀ keys, s.tenantKeys t = .ok keys → ∀ keyspace k, keyspace ∉ [Keyspace.keys, .rekey] →
    (keyspace ≠ .tenants ∨ k ≠ s.globalKey (.tenant t)) →
    (∀ n : TenantName C.Block, keyspace = n.slot.keyspace → k ≠ Store.sealedKey keys t n) →
    s'.db.get keyspace k = s.db.get keyspace k

/-- The record at `k` is sealed under `key` and not under `other`. -/
def SealedUnderOnly (key other : SealingKey C) (slot : Slot) (k : Str C.Block)
    (v : Value C) : Prop :=
  (∃ p, openBytes [key] slot k v = .ok p) ∧ ∀ p, openBytes [other] slot k v ≠ .ok p

theorem sealedUnderOnly_sealedValue {key other : SealingKey C} {slot : Slot} {k : Str C.Block}
    (hk : k.len < 2 ^ 16) (hid : other.id ≠ key.id) (nonce : C.Nonce) (p : Plain C.Block) :
    SealedUnderOnly key other slot k (sealedValue key slot k nonce p) := by
  have hother : (other.id == key.id) = false := by simpa using hid
  constructor
  · refine ⟨p, ?_⟩
    rw [openBytes_sealedValue _ _ _ _ hk]
    simp
  · intro q hopen
    rw [openBytes_sealedValue _ _ _ _ hk, List.find?_cons, hother] at hopen
    cases hopen

namespace Represents

variable {K K' : KeyState C} {L L' : Custody C} {s s' : Store C} {t : TenantId}

/-- New keys for one tenant, with the book and the other tenants' keys as they were. -/
theorem rekeyed (h : Represents K L s) (h' : Represents K' L' s') (hlive : (L.profiles t).isSome)
    (hbook : L' = { L with clock := L'.clock })
    (hring : ∀ t', t' ≠ t → K'.ring L t' = K.ring L t')
    (hrekey : ∀ t', t' ≠ t → K'.rekey t' = K.rekey t')
    (hget : ∀ keyspace k, keyspace ∉ [Keyspace.keys, .rekey] →
      (keyspace ≠ .tenants ∨ k ≠ K.key L (.tenant t)) →
      (∀ m, keyspace = m.slot.keyspace → k ≠ K.key L (.sealed t m)) →
      s'.db.get keyspace k = s.db.get keyspace k) : s.Rekeyed t s' := by
  have hprofiles : L'.profiles = L.profiles := by rw [hbook]
  have haddress : L'.address = L.address := by rw [hbook]
  have hlive' : (L'.profiles t).isSome := by rw [hprofiles]; exact hlive
  have hsealed : L'.sealed t = L.sealed t := by
    funext n
    rw [hbook]
    cases n <;> rfl
  refine ⟨⟨_, _, h.tenantKeys_of_live hlive, h'.tenantKeys_of_live hlive', fun n => ⟨?_, _,
    h.getSealed_eq hlive n, ?_⟩⟩, fun t' ht => ⟨?_, ?_, ?_⟩,
    fun keys hkeys keyspace k hspace htenant hk => ?_⟩
  · show RecordKey.ofName (L'.address t).index _ = RecordKey.ofName (L.address t).index _
    rw [haddress]
  · rw [h'.getSealed_eq hlive', hsealed]
  · have hcheck : L'.checkLive t' = L.checkLive t' := by
      rw [hbook]
      rfl
    have hsame : K'.ring L' t' = K.ring L t' := by
      rw [← hring t' ht, hbook]
      rfl
    rw [h'.tenantKeys_eq, h.tenantKeys_eq, hcheck, hsame]
  · rw [h'.rekeyRecord_eq, h.rekeyRecord_eq, hrekey t' ht]
  · have hactive : K'.active t' = K.active t' :=
      congrArg (fun keys => keys.active.keyId) (hring t' ht)
    rw [h'.tenantAt_eq, h.tenantAt_eq, hprofiles, hactive]
  · rw [h.tenantKeys_of_live hlive] at hkeys
    cases hkeys
    rw [h.globalKey_eq fun _ _ => by simp] at htenant
    exact hget keyspace k hspace htenant hk

/-- A record of a rotating tenant is under exactly one of its two keys, and under the new
one when the walk has passed it. -/
theorem sealed_under_one (h : Represents K L s) {r : RekeyRecord C.Block} (hr : r ∈ K.rotation t)
    {n : TenantName C.Block} {v : Value C}
    (hget : s.db.get n.slot.keyspace (K.key L (.sealed t n)) = some v) :
    SealedUnderOnly (n.sealer (K.sealing t (K.active t))) (n.sealer (K.sealing t r.fromKeyId))
        n.slot (K.key L (.sealed t n)) v ∨
      (SealedUnderOnly (n.sealer (K.sealing t r.fromKeyId)) (n.sealer (K.sealing t (K.active t)))
          n.slot (K.key L (.sealed t n)) v ∧
        ¬ Passed r n.slot.keyspace (K.key L (.sealed t n))) := by
  have hlive := h.live_of_rotation hr
  have hne := (h.tenants t).rekey_source r (KeyState.mem_rotation.mp hr).1
  obtain ⟨n', p, sk, nonce, hspace, hkey, -, hsk, rfl⟩ :=
    h.toRecords.sealed_of_get hget (Name.slot_ne (.sealed t n))
  obtain rfl : Name.sealed t n = n' := h.inj _ _ hspace.symm hkey
  obtain ⟨id, -, hallowed, rfl⟩ := hsk
  rcases hallowed hlive with rfl | ⟨r', hr', rfl, hnot⟩
  · refine .inl (sealedUnderOnly_sealedValue (KeyState.key_len_lt _) ?_ nonce p)
    rw [KeyState.sealer_id, KeyState.sealer_id]
    exact hne
  · obtain rfl : r' = r := Option.some.inj (hr'.symm.trans hr)
    refine .inr ⟨sealedUnderOnly_sealedValue (KeyState.key_len_lt _) ?_ nonce p, hnot⟩
    rw [KeyState.sealer_id, KeyState.sealer_id]
    exact hne.symm

/-- **One batch** of a rotation in progress: it goes through, moves no record and changes
none but in the key it is under.  A batch that ends the rotation deletes the old key, with
nothing left under it. -/
theorem rekeyBatch_rekeyed (h : Represents K L s) {r : RekeyRecord C.Block} (hr : r ∈ K.rotation t)
    (batch : ℕ+) :
    ∃ status s' next, s.rekeyBatch t batch = .ok (status, s') ∧ s.Rekeyed t s' ∧
      s'.rekeyRecord t = .ok (some next) ∧ next.toKeyId = r.toKeyId ∧
      (next.done = true → s'.dataKey t r.fromKeyId = .ok none ∧
        ∀ n v, s'.db.get n.slot.keyspace (K.key L (.sealed t n)) = some v →
          v.sealedKeyId = some r.toKeyId) := by
  obtain ⟨hrekey, -⟩ := KeyState.mem_rotation.mp hr
  have hlive := h.live_of_rotation hr
  have htarget := (h.tenants t).rekey_target r hrekey
  have hring {next : RekeyRecord C.Block} (t' : TenantId) (ht : t' ≠ t) :
      (K.setRekey t next).ring L t' = K.ring L t' := by
    simp only [KeyState.ring, KeyState.setRekey_rotation_of_ne ht]
    rfl
  have hothers {next : RekeyRecord C.Block} (t' : TenantId) (ht : t' ≠ t) :
      (K.setRekey t next).rekey t' = K.rekey t' := KeyState.setRekey_rekey_of_ne ht
  rw [h.rekeyBatch_eq hr]
  cases hwalk : (walk C)[r.keyspace.toNat]? with
  | some =>
    obtain ⟨next, s', hrun, hnext, hdone, hrep, hget⟩ := h.walkBatch_ok hr hwalk batch
    refine ⟨_, s', next, hrun, h.rekeyed hrep hlive rfl hring hothers ?_, ?_, hnext.target,
      fun hover => ?_⟩
    · intro keyspace k hspace _ hk
      exact hget keyspace k hk (by rintro rfl; exact hspace (by simp))
    · rw [hrep.rekeyRecord_eq, KeyState.setRekey_rekey_self]
    · rw [hdone] at hover
      cases hover
  | none =>
    obtain ⟨next, s', hrun, hnext, hdone, hrep, hget⟩ := h.retire_ok hr hwalk
    have hidle : (K.setRekey t next).rotation t = none := by
      rw [KeyState.setRekey_rotation_self, hdone]
      rfl
    refine ⟨_, s', next, hrun, h.rekeyed hrep hlive rfl hring hothers ?_, ?_, hnext.target,
      fun _ => ⟨?_, fun n v hv => ?_⟩⟩
    · intro keyspace k hspace _ _
      exact hget keyspace k (by rintro rfl; exact hspace (by simp))
        (by rintro rfl; exact hspace (by simp))
    · rw [hrep.rekeyRecord_eq, KeyState.setRekey_rekey_self]
    · -- The old key is neither active nor being retired.
      refine hrep.dataKey_of_not_held ?_
      rintro ⟨-, hactive | ⟨r', hr', -⟩⟩
      · exact (h.tenants t).rekey_source r hrekey hactive
      · rw [hidle] at hr'
        cases hr'
    · rw [htarget]
      exact hrep.sealedKeyId_of_idle hlive hidle hv

end Represents

/-- **No record is lost under a retired key.**  In every store, a rotation that begins
changes no record.  While one runs each record of the tenant is under exactly one of the
two keys, and under the new one when the walk has passed it; every batch changes nothing
but the key some records of the tenant are under, and when one deletes the old key no
record of the tenant is under it. -/
theorem rotation_loses_nothing {w : World C} (hw : w.Reachable) (t : TenantId) :
    (∀ draw status s', draw ∉ w.drawn → w.store.beginRekey t draw = .ok (status, s') →
      w.store.Rekeyed t s') ∧
    ∀ r, w.store.rekeyRecord t = .ok (some r) → r.done = false →
      ∃ keys old, w.store.tenantKeys t = .ok keys ∧ keys.retiring = some old ∧
        keys.active.keyId = r.toKeyId ∧ old.keyId = r.fromKeyId ∧
        (∀ n v, w.store.db.get n.slot.keyspace (Store.sealedKey keys t n) = some v →
          SealedUnderOnly (n.sealer keys.active) (n.sealer old) n.slot
              (Store.sealedKey keys t n) v ∨
            (SealedUnderOnly (n.sealer old) (n.sealer keys.active) n.slot
                (Store.sealedKey keys t n) v ∧
              ¬ Passed r n.slot.keyspace (Store.sealedKey keys t n))) ∧
        ∀ batch, ∃ status s' next, w.store.rekeyBatch t batch = .ok (status, s') ∧
          w.store.Rekeyed t s' ∧ s'.rekeyRecord t = .ok (some next) ∧
          next.toKeyId = r.toKeyId ∧
          (next.done = true → s'.dataKey t r.fromKeyId = .ok none ∧
            ∀ n v, s'.db.get n.slot.keyspace (Store.sealedKey keys t n) = some v →
              v.sealedKeyId = some r.toKeyId) := by
  obtain ⟨K, L, h⟩ := hw.holds
  have hrep := h.represents
  refine ⟨fun draw status s' hdraw hbegin => ?_, fun r hr hdone => ?_⟩
  · obtain ⟨hlive, -, total, hrep', hget⟩ := hrep.beginRekey_ok (h.fresh hdraw) hbegin
    refine hrep.rekeyed hrep' hlive rfl (fun t' ht => ?_)
      (fun t' ht => KeyState.beginRekey_rekey_of_ne ht) fun keyspace k hspace htenant _ => ?_
    · simp only [KeyState.ring, KeyState.beginRekey_active_of_ne ht, KeyState.rotation,
        KeyState.beginRekey_rekey_of_ne ht]
      simp only [KeyState.beginRekey, KeyState.setRekey, KeyState.sealing,
        KeyState.issue_dataKey_of_ne (Or.inl ht)]
    · simp only [List.mem_cons, List.not_mem_nil, or_false, not_or] at hspace
      exact hget keyspace k hspace.1 htenant (.inl hspace.2)
  · rw [hrep.rekeyRecord_eq] at hr
    have hrotation := KeyState.mem_rotation.mpr ⟨Except.ok.inj hr, hdone⟩
    have hlive := hrep.live_of_rotation hrotation
    refine ⟨K.ring L t, K.sealing t r.fromKeyId, hrep.tenantKeys_of_live hlive, ?_, ?_, rfl,
      fun n v hv => hrep.sealed_under_one hrotation hv, hrep.rekeyBatch_rekeyed hrotation⟩
    · show (K.rotation t).map _ = _
      rw [Option.mem_def.mp hrotation]
      rfl
    · exact ((hrep.tenants t).rekey_target r (Except.ok.inj hr)).symm

/-- The agent's rotation of the sample deployment goes on by a batch, with every record it
had. -/
theorem rotation_loses_nothing_of_rotating : ∃ (w : World Crypto.ideal)
    (s' : Store Crypto.ideal) (status : RekeyStatus), w.Reachable ∧
      w.store.Stranded Sample.opening ∧ w.store.rekeyBatch Sample.agent 1 = .ok (status, s') ∧
      w.store.Rekeyed Sample.agent s' := by
  obtain ⟨w, r, hreach, hstranded, hr, hdone⟩ := Sample.exists_rotating
  obtain ⟨keys, old, -, -, -, -, -, hbatches⟩ :=
    (rotation_loses_nothing hreach Sample.agent).2 r hr hdone
  obtain ⟨status, s', next, hrun, hrekeyed, -⟩ := hbatches 1
  exact ⟨w, s', status, hreach, hstranded, hrun, hrekeyed⟩

end Dioptron
