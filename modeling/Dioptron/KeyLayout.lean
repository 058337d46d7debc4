import Dioptron.Visibility

/-! # Record keys never collide

The keys of one keyspace all have one length, so none is a proper part of another, and two
of them are equal only for the same record.  A scan of the keys behind one hashed start
finds the records of that session or tenant alone.
-/
namespace Dioptron

variable {C : Crypto}

/-- A logical record of the store: a sealed record, or a wrapped key. -/
inductive Place (B : Type)
  | record (n : Name B)
  | wrapped (w : WrapName)

namespace Place

def keyspace {B : Type} : Place B → Keyspace
  | record n => n.slot.keyspace
  | wrapped _ => .keys

/-- The physical key under the index subkey of its scope. -/
def key (index : C.Block) : Place C.Block → Str C.Block
  | record n => RecordKey.ofName index n
  | wrapped w => RecordKey.ofWrap index w

end Place

/-- The length of every key of a keyspace that holds records. -/
def Keyspace.keyLen : Keyspace → Nat
  | sessionIndex => 48
  | audit => 40
  | auditStub => 8
  | _ => 32

namespace RecordKey

/-- A key is a hash, unless it is a stub's, and the unhashed end. -/
theorem keyLen_eq (n : Name C.Block) :
    n.slot.keyspace.keyLen = (if (domain n).isSome then 32 else 0) + (suffix n).length := by
  rcases n with id | id | id | (id | id | id | id | (id | id | id) | id | seq) |
      ⟨owner, (⟨cap, key⟩ | id | id | address | ⟨session, id⟩ | seq)⟩
  case global.auditStub =>
    rw [suffix, beBytes_length]
    rfl
  case sealed.sessionIndex =>
    rw [suffix, Ulid.toBytes_length]
    rfl
  case sealed.audit =>
    rw [suffix, beBytes_length]
    rfl
  all_goals rfl

theorem ofName_len (index : C.Block) (n : Name C.Block) :
    (ofName index n).len = n.slot.keyspace.keyLen := by
  rw [keyLen_eq, ofName]
  cases domain n with
  | none =>
    simp only [Str.len_ofBytes, Option.isSome_none, Bool.false_eq_true, if_false, Nat.zero_add]
  | some => simp only [Str.len_cons, Str.len_ofBytes, Sym.len, Option.isSome_some, if_true]

theorem ofWrap_len (index : C.Block) (w : WrapName) : (ofWrap index w).len = 32 := rfl

/-- The hashed start of a key is that of its own record. -/
theorem head_ofName {index index' : C.Block} {n : Name C.Block} {d : Domain}
    {ps : List (Str C.Block)} (hps : WellFormed ps)
    (h : (ofName index' n).head? = some (.block (keyed index d.label ps))) :
    index' = index ∧ domain n = some d ∧ parts n = ps := by
  unfold ofName at h
  cases hd : domain n with
  | none =>
    rw [hd] at h
    obtain ⟨b, -, hb⟩ := List.mem_map.mp (List.mem_of_mem_head? (Option.mem_def.mpr h))
    cases hb
  | some =>
    rw [hd] at h
    have hkeyed := Sym.block.inj (Option.some.inj h)
    obtain ⟨rfl, hparts⟩ := keyed_inj (parts_wellFormed hd) hps hkeyed
    exact ⟨(C.hmac_inj hkeyed).1, rfl, hparts⟩

/-- The keys behind a session's start are those of its index. -/
theorem eq_sessionIndex_of_head {index index' : C.Block} {n : Name C.Block} {owner : TenantId}
    {session : SessionId} (h : (ofName index' n).head? =
      some (.block (keyed index Domain.sessionIndex.label [idPart owner, idPart session]))) :
    index' = index ∧ ∃ ref, n = .sealed owner (.sessionIndex session ref) := by
  obtain ⟨hindex, hdomain, hparts⟩ := head_ofName (wellFormed_cons (idPart_len owner) (by simp)) h
  refine ⟨hindex, ?_⟩
  rcases n with id | id | id | (id | id | id | id | (id | id | id) | id | seq) |
      ⟨owner', (⟨cap, key⟩ | id | id | address | ⟨session', id⟩ | seq)⟩ <;> cases hdomain
  simp only [parts, List.cons.injEq, and_true] at hparts
  exact ⟨id, by rw [idPart_inj hparts.1, idPart_inj hparts.2]⟩

/-- The keys behind a tenant's start are those of its audit entries. -/
theorem eq_audit_of_head {index index' : C.Block} {n : Name C.Block} {tenant : TenantId}
    (h : (ofName index' n).head? =
      some (.block (keyed index Domain.audit.label [idPart tenant]))) :
    index' = index ∧ ∃ seq, n = .sealed tenant (.audit seq) := by
  obtain ⟨hindex, hdomain, hparts⟩ := head_ofName (wellFormed_cons (idPart_len tenant) (by simp)) h
  refine ⟨hindex, ?_⟩
  rcases n with id | id | id | (id | id | id | id | (id | id | id) | id | seq) |
      ⟨tenant', (⟨cap, key⟩ | id | id | address | ⟨session', id⟩ | seq)⟩ <;> cases hdomain
  simp only [parts, List.cons.injEq, and_true] at hparts
  exact ⟨seq, by rw [idPart_inj hparts]⟩

end RecordKey

namespace Place

theorem key_len (index : C.Block) (p : Place C.Block) : (p.key index).len = p.keyspace.keyLen := by
  cases p with
  | record n => exact RecordKey.ofName_len index n
  | wrapped w => exact RecordKey.ofWrap_len index w

theorem key_inj {index index' : C.Block} {p p' : Place C.Block} (hspace : p.keyspace = p'.keyspace)
    (h : p.key index = p'.key index') : p = p' := by
  cases p with
  | record n =>
    cases p' with
    | record => rw [RecordKey.ofName_inj hspace h]
    | wrapped => exact absurd hspace n.slot_ne.2
  | wrapped =>
    cases p' with
    | record n' => exact absurd hspace.symm n'.slot_ne.2
    | wrapped => rw [RecordKey.ofWrap_inj h]

end Place

/-- Strings of one length are no proper parts of each other. -/
theorem Str.eq_of_prefix {B : Type} {s t : Str B} (h : s <+: t) (hlen : s.len = t.len) : s = t := by
  obtain ⟨rest, rfl⟩ := h
  cases rest with
  | nil => exact (List.append_nil s).symm
  | cons x =>
    have hx := x.len_pos
    rw [Str.len_append, Str.len_cons] at hlen
    omega

namespace World.Holds

variable {w : World C} {K : KeyState C} {L : Custody C}

/-- Every key of a keyspace of records is the key of a record. -/
theorem exists_name (h : w.Holds K L) {keyspace : Keyspace} (hspace : keyspace.HoldsRecords)
    {e : Str C.Block × Value C} (he : e ∈ w.store.db.entries keyspace) :
    ∃ n index, n.slot.keyspace = keyspace ∧ e.1 = RecordKey.ofName index n := by
  obtain ⟨n, p, hn, hkey, -⟩ :=
    h.represents.named keyspace e.1 e.2 (Keyspaces.mem_entries.mp he) hspace
  exact ⟨n, K.index L n, hn, hkey⟩

end World.Holds

/-- The hashed start of a session's index entries. -/
def sessionStart (index : C.Block) (owner : TenantId) (session : SessionId) : C.Block :=
  keyed index RecordKey.Domain.sessionIndex.label
    [RecordKey.idPart owner, RecordKey.idPart session]

/-- **Record keys never collide.**  Under whatever index subkeys, the keys of two records of
one keyspace have one length and neither is the start of the other unless the records are
the same; in a reachable store, every entry a scan finds behind a session's start is in that
session's index, and every entry a scan of a tenant's audit range finds is an audit entry of
that tenant. -/
theorem record_keys_distinct {w : World C} (h : w.Reachable) :
    (∀ (index index' : C.Block) (p p' : Place C.Block), p.keyspace = p'.keyspace →
      (p.key index).len = (p'.key index').len ∧ (p.key index = p'.key index' → p = p') ∧
      (p.key index <+: p'.key index' → p = p')) ∧
    (∀ index owner session first, ∀ e ∈ w.store.rangeFrom .sessionIndex first,
      e.1.head? = some (.block (sessionStart index owner session)) →
        ∃ ref, e.1 = RecordKey.ofName index (.sealed owner (.sessionIndex session ref))) ∧
    ∀ keys tenant first, ∀ e ∈ w.store.auditRange keys tenant first,
      ∃ seq, e.1 = RecordKey.ofName keys.address.index (.sealed tenant (.audit seq)) := by
  obtain ⟨K, L, hw⟩ := h.holds
  refine ⟨fun index index' p p' hspace => ?_, ?_, ?_⟩
  · have hlen : (p.key index).len = (p'.key index').len := by
      rw [p.key_len, p'.key_len, hspace]
    exact ⟨hlen, Place.key_inj hspace, fun hstart =>
      Place.key_inj hspace (Str.eq_of_prefix hstart hlen)⟩
  · intro index owner session first e he hhead
    have hspace : Keyspace.sessionIndex.HoldsRecords := ⟨nofun, nofun⟩
    obtain ⟨n, index', -, hkey⟩ := hw.exists_name hspace (List.mem_filter.mp he).1
    rw [hkey] at hhead
    obtain ⟨rfl, ref, rfl⟩ := RecordKey.eq_sessionIndex_of_head hhead
    exact ⟨ref, hkey⟩
  · intro keys tenant first e he
    obtain ⟨hrange, hlast⟩ := List.mem_filter.mp he
    obtain ⟨hmem, hfirst⟩ := List.mem_filter.mp hrange
    -- Both ends of the range have the tenant's start, so what lies between them has it.
    have hhead : e.1.head? = some (.block (keyed keys.address.index RecordKey.Domain.audit.label
        [RecordKey.idPart tenant])) := by
      rcases Ordering.isLE_iff_eq_lt_or_eq_eq.mp hlast with hlt | heq
      · exact Store.head_of_between rfl hfirst hlt rfl
      · rw [Std.LawfulEqOrd.eq_of_compare heq]
        rfl
    have hspace : Keyspace.audit.HoldsRecords := ⟨nofun, nofun⟩
    obtain ⟨n, index', -, hkey⟩ := hw.exists_name hspace hmem
    rw [hkey] at hhead
    obtain ⟨rfl, seq, rfl⟩ := RecordKey.eq_audit_of_head hhead
    exact ⟨seq, hkey⟩

/-- In the small deployment: the ledgers of a session and of a tenant have different keys,
and the agent's audit range holds the agent's entries alone. -/
theorem record_keys_distinct_in_setUp :
    ∃ w : World Crypto.ideal, w.Reachable ∧
      (∀ index : Crypto.ideal.Block,
        RecordKey.ofName index (.global (.ledger (.session Sample.session))) ≠
          RecordKey.ofName index (.global (.ledger (.tenant Sample.agent)))) ∧
      ∀ keys first, ∀ e ∈ w.store.auditRange keys Sample.agent first, ∃ seq,
        e.1 = RecordKey.ofName keys.address.index (.sealed Sample.agent (.audit seq)) := by
  obtain ⟨w, K, hreach, -⟩ := Sample.exists_setUp
  obtain ⟨hkeys, -, haudit⟩ := record_keys_distinct hreach
  refine ⟨w, hreach, fun index heq => ?_, fun keys => haudit keys Sample.agent⟩
  have hsame := (hkeys index index (.record (.global (.ledger (.session Sample.session))))
    (.record (.global (.ledger (.tenant Sample.agent)))) rfl).2.1 heq
  cases hsame

end Dioptron
