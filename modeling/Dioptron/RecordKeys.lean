import Dioptron.Crypto

/-! # Physical record keys

Every place of the database that holds a record has a `Name`.  Its physical key is a
keyed hash of a domain label and length-prefixed parts, under the store's index
subkey or under the owner's; audit entries and session-index entries carry an
unhashed suffix after the hash, and an audit stub is kept at its bare sequence
number.  The keys of two different names in one keyspace differ, whatever subkeys
they are hashed under.
-/
namespace Dioptron

variable {C : Crypto}

/-- The hash input: the domain label, then each part behind its length. -/
def keyedInput (domain : Bytes) (parts : List (Str C.Block)) : Str C.Block :=
  Str.ofBytes (ascii "dioptron/v1/key/" ++ domain) ++ parts.flatMap (Str.lengthPrefixed 4)

def keyed (key : C.Block) (domain : Bytes) (parts : List (Str C.Block)) : C.Block :=
  C.hmac key (keyedInput domain parts)

theorem flatMap_lengthPrefixed_inj {B : Type} {ps qs : List (Str B)}
    (hp : ∀ p ∈ ps, p.len < 256 ^ 4) (hq : ∀ q ∈ qs, q.len < 256 ^ 4)
    (h : ps.flatMap (Str.lengthPrefixed 4) = qs.flatMap (Str.lengthPrefixed 4)) : ps = qs := by
  induction ps generalizing qs with
  | nil =>
    cases qs with
    | nil => rfl
    | cons =>
      have := congrArg List.length h
      simp [Str.lengthPrefixed, -List.length_flatMap] at this
      omega
  | cons p _ ih =>
    cases qs with
    | nil =>
      have := congrArg List.length h
      simp [Str.lengthPrefixed, -List.length_flatMap] at this
    | cons q =>
      simp only [List.flatMap_cons] at h
      obtain ⟨rfl, hrest⟩ := Str.lengthPrefixed_append_inj (hp p (by simp)) (hq q (by simp)) h
      rw [ih (fun p hmem => hp p (by simp [hmem])) (fun q hmem => hq q (by simp [hmem])) hrest]

/-- A domain label and a part list whose first part is an identifier.  The label has no
byte 16, so the length of that part ends it. -/
structure Keyable (domain : Bytes) (parts : List (Str C.Block)) : Prop where
  label : (16 : UInt8) ∉ domain
  first : ∃ p ps, parts = p :: ps ∧ p.len = 16
  short : ∀ p ∈ parts, p.len < 256 ^ 4

theorem keyedInput_inj {d d' : Bytes} {ps ps' : List (Str C.Block)} (hd : Keyable d ps)
    (hd' : Keyable d' ps') (h : keyedInput d ps = keyedInput d' ps') : d = d' ∧ ps = ps' := by
  obtain ⟨hlabel, ⟨p, rest, rfl, hp⟩, hshort⟩ := hd
  obtain ⟨hlabel', ⟨p', rest', rfl, hp'⟩, hshort'⟩ := hd'
  have hnot {d : Bytes} (hd : (16 : UInt8) ∉ d) : Sym.byte 16 ∉ (Str.ofBytes d : Str C.Block) := by
    simpa [Str.ofBytes] using hd
  have hprefix : leBytes 4 16 = [16, 0, 0, 0] := by decide
  simp only [keyedInput, Str.ofBytes_append, List.append_assoc] at h
  have hbody := List.append_cancel_left h
  simp only [List.flatMap_cons, Str.lengthPrefixed, hp, hp',
    show min 16 (256 ^ 4 - 1) = 16 by norm_num, hprefix] at hbody
  obtain ⟨hdom, hrest⟩ := Str.append_cons_inj (hnot hlabel) (hnot hlabel') hbody
  obtain rfl := Str.ofBytes_injective hdom
  refine ⟨rfl, flatMap_lengthPrefixed_inj hshort hshort' ?_⟩
  simpa using h

/-! ## Names -/

/-- A record sealed under the store keys that transactions read and write. -/
inductive GlobalName
  | grant (id : GrantId)
  | revocation (id : GrantId)
  | session (id : SessionId)
  | invocation (id : InvocationId)
  | ledger (id : LedgerRef)
  | locator (id : ArtifactRef)
  | auditStub (seq : AuditSeq)
  deriving DecidableEq

/-- A record sealed under the keys of one tenant. -/
inductive TenantName (B : Type)
  | idem (capability : Capability) (key : IdempotencyKey)
  | artifact (id : ArtifactRef)
  | pending (id : InvocationId)
  | blob (address : B)
  | sessionIndex (session : SessionId) (id : ArtifactRef)
  | audit (seq : AuditSeq)
  deriving DecidableEq

/-- A place of the database that holds a sealed record. -/
inductive Name (B : Type)
  | tenant (id : TenantId)
  | tombstone (id : TenantId)
  | rekey (id : TenantId)
  | global (n : GlobalName)
  | sealed (owner : TenantId) (n : TenantName B)
  deriving DecidableEq

/-- A place of the `keys` keyspace that holds a wrapped key. -/
inductive WrapName
  | dataKey (tenant : TenantId) (id : KeyId)
  | addressKeys (tenant : TenantId)
  deriving DecidableEq

def GlobalName.slot : GlobalName → Slot
  | grant _ => .grant
  | revocation _ => .revocation
  | session _ => .session
  | invocation _ => .invocation
  | ledger _ => .ledger
  | locator _ => .locator
  | auditStub _ => .auditStub

def TenantName.slot {B : Type} : TenantName B → Slot
  | idem .. => .idem
  | artifact _ => .artifact
  | pending _ => .pendingArtifact
  | blob _ => .blob
  | sessionIndex .. => .sessionIndex
  | audit _ => .audit

def Name.slot {B : Type} : Name B → Slot
  | tenant _ => .tenant
  | tombstone _ => .tombstone
  | rekey _ => .rekey
  | global n => n.slot
  | sealed _ n => n.slot

namespace RecordKey

/-- An identifier as a hash part. -/
def idPart {B : Type} {kind : IdKind} (id : Ulid kind) : Str B := Str.ofBytes id.toBytes

/-- What a hashed key stands for. -/
inductive Domain
  | tenant
  | dataKey
  | addressKeys
  | rekey
  | tombstone
  | grant
  | revocation
  | session
  | invocation
  | ledgerGrant
  | ledgerSession
  | ledgerTenant
  | locator
  | idem
  | artifact
  | pending
  | blob
  | sessionIndex
  | audit

def Domain.label : Domain → Bytes
  | tenant => ascii "tenant"
  | dataKey => ascii "data-key"
  | addressKeys => ascii "address-keys"
  | rekey => ascii "rekey"
  | tombstone => ascii "tombstone"
  | grant => ascii "grant"
  | revocation => ascii "revocation"
  | session => ascii "session"
  | invocation => ascii "invocation"
  | ledgerGrant => ascii "ledger/grant"
  | ledgerSession => ascii "ledger/session"
  | ledgerTenant => ascii "ledger/tenant"
  | locator => ascii "locator"
  | idem => ascii "idem"
  | artifact => ascii "artifact"
  | pending => ascii "pending"
  | blob => ascii "blob"
  | sessionIndex => ascii "session-index"
  | audit => ascii "audit"

def ledgerPart {B : Type} : LedgerRef → Str B
  | .grant id => idPart id
  | .session id => idPart id
  | .tenant id => idPart id

/-- The domain hashed for a name; a stub's key is not hashed. -/
def domain {B : Type} : Name B → Option Domain
  | .tenant _ => some .tenant
  | .tombstone _ => some .tombstone
  | .rekey _ => some .rekey
  | .global (.grant _) => some .grant
  | .global (.revocation _) => some .revocation
  | .global (.session _) => some .session
  | .global (.invocation _) => some .invocation
  | .global (.ledger (.grant _)) => some .ledgerGrant
  | .global (.ledger (.session _)) => some .ledgerSession
  | .global (.ledger (.tenant _)) => some .ledgerTenant
  | .global (.locator _) => some .locator
  | .global (.auditStub _) => none
  | .sealed _ (.idem ..) => some .idem
  | .sealed _ (.artifact _) => some .artifact
  | .sealed _ (.pending _) => some .pending
  | .sealed _ (.blob _) => some .blob
  | .sealed _ (.sessionIndex ..) => some .sessionIndex
  | .sealed _ (.audit _) => some .audit

/-- The parts hashed for a name. -/
def parts {B : Type} : Name B → List (Str B)
  | .tenant id | .tombstone id | .rekey id => [idPart id]
  | .global (.grant id) | .global (.revocation id) => [idPart id]
  | .global (.session id) => [idPart id]
  | .global (.invocation id) => [idPart id]
  | .global (.ledger l) => [ledgerPart l]
  | .global (.locator id) => [idPart id]
  | .global (.auditStub _) => []
  | .sealed owner (.idem capability key) =>
    [idPart owner, Str.ofBytes capability.name, Str.ofBytes key.bytes]
  | .sealed owner (.artifact id) => [idPart owner, idPart id]
  | .sealed owner (.pending id) => [idPart owner, idPart id]
  | .sealed owner (.blob address) => [idPart owner, [.block address]]
  | .sealed owner (.sessionIndex session _) => [idPart owner, idPart session]
  | .sealed owner (.audit _) => [idPart owner]

/-- The unhashed end of a name's key. -/
def suffix {B : Type} : Name B → Bytes
  | .sealed _ (.sessionIndex _ id) => id.toBytes
  | .sealed _ (.audit seq) | .global (.auditStub seq) => beBytes 8 seq.toNat
  | _ => []

/-- The physical key of a name under the index subkey of its scope. -/
def ofName (index : C.Block) (n : Name C.Block) : Str C.Block :=
  match domain n with
  | some d => .block (keyed index d.label (parts n)) :: Str.ofBytes (suffix n)
  | none => Str.ofBytes (suffix n)

def wrapDomain : WrapName → Domain
  | .dataKey .. => .dataKey
  | .addressKeys _ => .addressKeys

def wrapParts {B : Type} : WrapName → List (Str B)
  | .dataKey tenant id => [idPart tenant, Str.ofBytes (leBytes 4 id.toNat)]
  | .addressKeys tenant => [idPart tenant]

/-- The physical key of a wrapped key. -/
def ofWrap (index : C.Block) (w : WrapName) : Str C.Block :=
  [.block (keyed index (wrapDomain w).label (wrapParts w))]

/-! ## Different names have different keys -/

@[simp] theorem idPart_len {B : Type} {kind : IdKind} (id : Ulid kind) :
    (idPart id : Str B).len = 16 := by
  simp [idPart]

theorem idPart_inj {B : Type} {kind : IdKind} {a b : Ulid kind}
    (h : (idPart a : Str B) = idPart b) : a = b :=
  Ulid.toBytes_injective (Str.ofBytes_injective h)

theorem ledgerPart_len {B : Type} (l : LedgerRef) : (ledgerPart l : Str B).len = 16 := by
  cases l <;> exact idPart_len _

def Domain.all : List Domain :=
  [.tenant, .dataKey, .addressKeys, .rekey, .tombstone, .grant, .revocation, .session,
    .invocation, .ledgerGrant, .ledgerSession, .ledgerTenant, .locator, .idem, .artifact,
    .pending, .blob, .sessionIndex, .audit]

/-- A label names its domain. -/
theorem Domain.find_label (d : Domain) :
    Domain.all.find? (fun e => e.label == d.label) = some d := by
  cases d <;> rfl

theorem Domain.label_injective : Function.Injective Domain.label := by
  intro a b h
  have ha := Domain.find_label a
  rw [h, Domain.find_label b] at ha
  exact (Option.some.inj ha).symm

theorem Domain.label_clean (d : Domain) : (16 : UInt8) ∉ d.label := by
  cases d <;> decide

/-- What is hashed for a name starts with an identifier and has short parts. -/
structure WellFormed {B : Type} (parts : List (Str B)) : Prop where
  first : ∃ p ps, parts = p :: ps ∧ p.len = 16
  short : ∀ p ∈ parts, p.len < 256 ^ 4

theorem WellFormed.keyable {ps : List (Str C.Block)} (h : WellFormed ps) (d : Domain) :
    Keyable d.label ps :=
  ⟨d.label_clean, h.first, h.short⟩

theorem wellFormed_cons {B : Type} {p : Str B} {ps : List (Str B)} (hp : p.len = 16)
    (hps : ∀ q ∈ ps, q.len ≤ 256) : WellFormed (p :: ps) where
  first := ⟨p, ps, rfl, hp⟩
  short := by
    intro q hq
    rcases List.mem_cons.mp hq with rfl | hq
    · omega
    · have := hps q hq
      omega

variable {n : Name C.Block} {index' : C.Block}

theorem parts_wellFormed {d : Domain} (h : domain n = some d) : WellFormed (parts n) := by
  cases n with
  | tenant id => exact wellFormed_cons (idPart_len id) (by simp)
  | tombstone id => exact wellFormed_cons (idPart_len id) (by simp)
  | rekey id => exact wellFormed_cons (idPart_len id) (by simp)
  | global n =>
    cases n with
    | auditStub => cases h
    | ledger l => exact wellFormed_cons (ledgerPart_len l) (by simp)
    | grant id | revocation id | session id | invocation id | locator id =>
      exact wellFormed_cons (idPart_len id) (by simp)
  | sealed owner n =>
    cases n with
    | idem capability key =>
      have hname := capability.name_length_lt
      have hkey := key.max_len
      refine wellFormed_cons (idPart_len owner) ?_
      simp only [List.mem_cons, List.not_mem_nil, or_false, forall_eq_or_imp, forall_eq,
        Str.len_ofBytes]
      omega
    | blob => exact wellFormed_cons (idPart_len owner) (by simp [Sym.len])
    | artifact id | pending id | audit id | sessionIndex session id =>
      exact wellFormed_cons (idPart_len owner) (by simp)

theorem keyed_inj {index : C.Block} {d d' : Domain} {ps ps' : List (Str C.Block)}
    (hps : WellFormed ps) (hps' : WellFormed ps')
    (h : keyed index d.label ps = keyed index' d'.label ps') : d = d' ∧ ps = ps' := by
  obtain ⟨hd, hp⟩ := keyedInput_inj (hps.keyable d) (hps'.keyable d') (C.hmac_inj h).2
  exact ⟨Domain.label_injective hd, hp⟩

theorem eq_of_beBytes_seq {seq seq' : AuditSeq}
    (h : beBytes 8 seq.toNat = beBytes 8 seq'.toNat) : seq = seq' :=
  UInt64.toNat_inj.mp (beBytes_inj (by have := seq.toNat_lt; omega)
    (by have := seq'.toNat_lt; omega) h)

/-- A name is determined by what is hashed for it and by its suffix. -/
theorem eq_of_parts {n' : Name C.Block} (hd : domain n = domain n') (hp : parts n = parts n')
    (hs : suffix n = suffix n') : n = n' := by
  rcases n with id | id | id | (id | id | id | id | (id | id | id) | id | seq) |
      ⟨owner, (⟨cap, key⟩ | id | id | address | ⟨session, id⟩ | seq)⟩ <;>
    rcases n' with id' | id' | id' | (id' | id' | id' | id' | (id' | id' | id') | id' | seq') |
      ⟨owner', (⟨cap', key'⟩ | id' | id' | address' | ⟨session', id'⟩ | seq')⟩ <;>
    cases hd
  all_goals
    simp only [parts, ledgerPart, List.cons.injEq, and_true, Sym.block.injEq] at hp
    simp only [suffix] at hs
  -- Eleven store names are named by one identifier each.
  iterate 11 · rw [idPart_inj hp]
  · rw [eq_of_beBytes_seq hs]
  · obtain ⟨howner, hcap, hkey⟩ := hp
    obtain rfl := idPart_inj howner
    obtain rfl := Capability.name_injective (Str.ofBytes_injective hcap)
    cases key
    cases key'
    obtain rfl := Str.ofBytes_injective hkey
    rfl
  · rw [idPart_inj hp.1, idPart_inj hp.2]
  · rw [idPart_inj hp.1, idPart_inj hp.2]
  · rw [idPart_inj hp.1, hp.2]
  · rw [idPart_inj hp.1, idPart_inj hp.2, Ulid.toBytes_injective hs]
  · rw [idPart_inj hp, eq_of_beBytes_seq hs]

theorem eq_stub_of_domain_none (h : domain n = none) : ∃ seq, n = .global (.auditStub seq) := by
  rcases n with id | id | id | (id | id | id | id | (id | id | id) | id | seq) | ⟨owner, n⟩
  case global.auditStub => exact ⟨seq, rfl⟩
  case sealed => cases n <;> cases h
  all_goals cases h

theorem domain_eq_none_of_keyspace (h : n.slot.keyspace = .auditStub) : domain n = none := by
  rcases n with id | id | id | n | ⟨owner, n⟩
  case global => cases n <;> first | rfl | cases h
  case sealed => cases n <;> cases h
  all_goals cases h

theorem wrapParts_wellFormed (w : WrapName) : WellFormed (wrapParts w : List (Str C.Block)) := by
  cases w with
  | dataKey t => exact wellFormed_cons (idPart_len t) (by simp)
  | addressKeys t => exact wellFormed_cons (idPart_len t) (by simp)

theorem suffix_length_le (n : Name C.Block) : (suffix n).length ≤ 16 := by
  unfold suffix
  split <;> simp

/-- **Different names of one keyspace have different keys**, under any index subkeys. -/
theorem ofName_inj {index : C.Block} {n' : Name C.Block}
    (hspace : n.slot.keyspace = n'.slot.keyspace) (h : ofName index n = ofName index' n') :
    n = n' := by
  unfold ofName at h
  cases hd : domain n with
  | none =>
    cases hd' : domain n' with
    | none =>
      rw [hd, hd'] at h
      obtain ⟨seq, rfl⟩ := eq_stub_of_domain_none hd
      obtain ⟨seq', rfl⟩ := eq_stub_of_domain_none hd'
      exact eq_of_parts rfl rfl (Str.ofBytes_injective h)
    | some =>
      obtain ⟨seq, rfl⟩ := eq_stub_of_domain_none hd
      rw [domain_eq_none_of_keyspace hspace.symm] at hd'
      cases hd'
  | some =>
    cases hd' : domain n' with
    | none =>
      obtain ⟨seq', rfl⟩ := eq_stub_of_domain_none hd'
      rw [domain_eq_none_of_keyspace hspace] at hd
      cases hd
    | some =>
      rw [hd, hd'] at h
      obtain ⟨hblock, hsuffix⟩ := List.cons.inj h
      obtain ⟨rfl, hparts⟩ := keyed_inj (parts_wellFormed hd) (parts_wellFormed hd')
        (Sym.block.inj hblock)
      exact eq_of_parts (hd.trans hd'.symm) hparts (Str.ofBytes_injective hsuffix)

theorem ofWrap_inj {index : C.Block} {w w' : WrapName} (h : ofWrap index w = ofWrap index' w') :
    w = w' := by
  obtain ⟨hd, hp⟩ := keyed_inj (wrapParts_wellFormed w) (wrapParts_wellFormed w')
    (Sym.block.inj (List.cons.inj h).1)
  cases w with
  | dataKey t id =>
    cases w' with
    | dataKey _ id' =>
      simp only [wrapParts, List.cons.injEq, and_true] at hp
      have hid := leBytes_inj (by have := id.toNat_lt; omega) (by have := id'.toNat_lt; omega)
        (Str.ofBytes_injective hp.2)
      rw [idPart_inj hp.1, UInt32.toNat_inj.mp hid]
    | addressKeys => cases hd
  | addressKeys =>
    cases w' with
    | dataKey => cases hd
    | addressKeys =>
      simp only [wrapParts, List.cons.injEq, and_true] at hp
      rw [idPart_inj hp]

/-- Record keys are short. -/
theorem ofName_len_le (index : C.Block) (n : Name C.Block) : (ofName index n).len ≤ 64 := by
  have hsuffix := suffix_length_le n
  unfold ofName
  split
  · simp only [Str.len_cons, Sym.len, Str.len_ofBytes]
    omega
  · rw [Str.len_ofBytes]
    omega

/-- Record keys fit the length prefix of the additional data. -/
theorem ofName_len_lt (index : C.Block) (n : Name C.Block) : (ofName index n).len < 2 ^ 16 :=
  lt_of_le_of_lt (ofName_len_le index n) (by norm_num)

end RecordKey
end Dioptron
