import Dioptron.System

/-! # Building stores

The laws of `Crypto` can be met: in the ideal instance a hash spells its input
out and a ciphertext is the list of everything that went into it.  What the book
can do the store can do as well, so a store is built by a run of the book and need not
be computed byte by byte.
-/
namespace Dioptron

open Relation (ReflTransGen)

/-! ## Ideal primitives -/

namespace Crypto

/-- A symbol as numbers, such that the end of it can be told. -/
def spellSym : Sym (List ℕ) → List ℕ
  | .byte b => [0, b.toNat]
  | .block b => 1 :: b.length :: b

/-- A string as numbers. -/
def spell (m : Str (List ℕ)) : List ℕ := m.flatMap spellSym

theorem spellSym_append_inj {x y : Sym (List ℕ)} {r r' : List ℕ}
    (h : spellSym x ++ r = spellSym y ++ r') : x = y ∧ r = r' := by
  cases x with
  | byte =>
    cases y with
    | byte =>
      simp only [spellSym, List.cons_append, List.nil_append, List.cons.injEq, true_and] at h
      exact ⟨by rw [UInt8.toNat_inj.mp h.1], h.2⟩
    | block => cases h
  | block =>
    cases y with
    | byte => cases h
    | block =>
      simp only [spellSym, List.cons_append, List.cons.injEq, true_and] at h
      obtain ⟨rfl, rfl⟩ := List.append_inj h.2 h.1
      exact ⟨rfl, rfl⟩

theorem spell_injective : Function.Injective spell := by
  intro m
  induction m with
  | nil =>
    rintro (_ | ⟨y | y, m'⟩) h
    · rfl
    · cases h
    · cases h
  | cons x m ih =>
    rintro (_ | ⟨y, m'⟩) h
    · cases x <;> cases h
    · obtain ⟨rfl, hm⟩ := spellSym_append_inj h
      rw [ih hm]

/-- A key and a string as numbers. -/
def spellKeyed (key : List ℕ) (m : Str (List ℕ)) : List ℕ := spell (.block key :: m)

theorem spellKeyed_inj {key key' : List ℕ} {m m' : Str (List ℕ)}
    (h : spellKeyed key m = spellKeyed key' m') : key = key' ∧ m = m' := by
  obtain ⟨hkey, hm⟩ := List.cons.inj (spell_injective h)
  exact ⟨Sym.block.inj hkey, hm⟩

/-- The size of the plaintexts whose size is fixed by the format; the others may have any
and get none. -/
def idealLen : Plain (List ℕ) → ℕ
  | .blob bytes => bytes.length
  | .dataKey _ => 32
  | .addressKeys _ _ => 64
  | _ => 0

/-- Primitives that meet every law. -/
def ideal : Crypto where
  Block := List ℕ
  Nonce := Unit
  Cipher := List ℕ × Str (List ℕ) × Plain (List ℕ)
  hkdf _ key label := spellKeyed key (Str.ofBytes label)
  hmac := spellKeyed
  sha256 := spell
  encrypt key _ additional p := (key, additional, p)
  decrypt key _ additional c := if c.1 = key ∧ c.2.1 = additional then some c.2.2 else none
  encodedLen := idealLen
  cipherLen c := idealLen c.2.2 + 16
  hkdf_inj h := by
    obtain ⟨hkey, hlabel⟩ := spellKeyed_inj h
    exact ⟨hkey, Str.ofBytes_injective hlabel⟩
  hmac_inj := spellKeyed_inj
  sha256_inj h := spell_injective h
  decrypt_encrypt _ _ _ _ := if_pos ⟨rfl, rfl⟩
  decrypt_eq_some h := by
    obtain ⟨⟨hkey, hadditional⟩, hp⟩ := Option.ite_none_right_eq_some.mp h
    exact Prod.ext hkey (Prod.ext hadditional (Option.some.inj hp))
  encrypt_inj h := by
    simp only [Prod.mk.injEq] at h
    exact ⟨h.1, rfl, h.2⟩
  cipherLen_encrypt _ _ _ _ := rfl
  encodedLen_blob _ := rfl
  encodedLen_dataKey _ := rfl
  encodedLen_addressKeys _ _ := rfl
  encodedLen_tombstone _ := Nat.zero_le _
  encodedLen_revocation _ := Nat.zero_le _
  encodedLen_session _ := Nat.zero_le _
  encodedLen_idem _ := Nat.zero_le _
  encodedLen_ledger _ := Nat.zero_le _
  encodedLen_locator _ := Nat.zero_le _
  encodedLen_sessionIndex _ := Nat.zero_le _
  encodedLen_audit _ := Nat.zero_le _
  encodedLen_auditStub _ := Nat.zero_le _
  encodedLen_rekey _ _ := Nat.zero_le _
  encodedLen_tenant _ _ := rfl
  encodedLen_invocation _ _ _ _ := rfl
  encodedLen_artifact _ _ := rfl

end Crypto

/-! ## The store follows the book on -/

variable {C : Crypto}

/-- Runs transactions in order, up to the first that fails. -/
def Custody.runAll : List (Transaction C) → Custody C → Except Error (Custody C)
  | [], L => .ok L
  | t :: rest, L => do runAll rest (← L.run t.program).2

/-- No transaction changes a tenant. -/
theorem Custody.run_sameTenants {L : Custody C} {α : Type} {tx : Tx C α} {x : α × Custody C}
    (h : L.run tx = .ok x) : SameTenants L x.2 := by
  refine Program.run_keeps (R := SameTenants) (fun _ => ⟨rfl, rfl, rfl⟩)
    (fun _ _ _ h₁ h₂ => ⟨h₂.profiles.trans h₁.profiles, h₂.tombstones.trans h₁.tombstones,
      h₂.address.trans h₁.address⟩) ?_ h
  intro β p L r hprim
  rcases handler_effect hprim with hr | hr | ⟨e, hr⟩ | ⟨t, e, -, hr⟩ | ⟨t, n, -, hr⟩ <;> rw [hr]
  · exact ⟨rfl, rfl, rfl⟩
  · exact ⟨rfl, rfl, rfl⟩
  · exact .put L e
  · exact .putSealed L t e
  · exact .removeSealed L t n

theorem Custody.runAll_sameTenants {ts : List (Transaction C)} {L L' : Custody C}
    (h : runAll ts L = .ok L') : L'.profiles = L.profiles ∧ L'.tombstones = L.tombstones := by
  induction ts generalizing L with
  | nil =>
    cases h
    exact ⟨rfl, rfl⟩
  | cons _ _ ih =>
    obtain ⟨r, hr, hrest⟩ := bind_eq_ok.mp h
    rw [(ih hrest).1, (ih hrest).2]
    exact ⟨(run_sameTenants hr).profiles, (run_sameTenants hr).tombstones⟩

/-- A run that gives this reply. -/
theorem Custody.exists_of_reply {α : Type} {x : Except Error (α × Custody C)} {a : α}
    (h : x.toOption.map Prod.fst = some a) : ∃ L', x = .ok (a, L') := by
  cases x with
  | error => cases h
  | ok r => exact ⟨r.2, by rw [← Option.some.inj h]⟩

namespace World.Holds

variable {w : World C} {K : KeyState C} {L L' : Custody C}

/-- A transaction the book takes, the store takes. -/
theorem transact (h : w.Holds K L) (t : Transaction C) {r : t.Reply × Custody C}
    (hr : L.run t.program = .ok r) : ∃ w', World.Step w w' ∧ w'.Holds K r.2 := by
  obtain ⟨s', hs', hrep⟩ := h.represents.commit_of_run hr
  have hop : (Operation.transact t).run w.store = .ok s' := by
    rw [Operation.run, hs']
    rfl
  exact ⟨_, .operate (.transact t) hop fun _ hd => (by cases hd),
    hrep, h.reachable.next (.transact t hr), fun x hx => .inl (h.drawn x hx)⟩

/-- A run of transactions the book takes, the store takes. -/
theorem transactAll {ts : List (Transaction C)} (h : w.Holds K L)
    (hts : Custody.runAll ts L = .ok L') : ∃ w', ReflTransGen World.Step w w' ∧ w'.Holds K L' := by
  induction ts generalizing w L with
  | nil =>
    cases hts
    exact ⟨w, .refl, h⟩
  | cons t _ ih =>
    obtain ⟨r, hr, hrest⟩ := bind_eq_ok.mp hts
    obtain ⟨w₁, hstep, h₁⟩ := h.transact t hr
    obtain ⟨w', hrun, h'⟩ := ih h₁ hrest
    exact ⟨w', .head hstep hrun, h'⟩

/-- Registering a tenant the book does not know, with a key not drawn before. -/
theorem register (h : w.Holds K L) (registration : TenantRegistration) (draw : C.Block)
    (hnew : L.profiles registration.id = none) (hstone : L.tombstones registration.id = none)
    (hparent : ∀ q ∈ registration.parent, (L.profiles q).isSome) (hdraw : draw ∉ w.drawn)
    (hlen : C.encodedLen (.tenant ((registration.profile (L.clock 0)).withKey initialDataKeyId)) ≤
      maxPlaintextLen) :
    ∃ s', (Operation.registerTenant registration draw).run w.store = .ok s' ∧
      (∀ d ∈ (Operation.registerTenant registration draw).draw, d ∉ w.drawn) ∧
      World.Holds ⟨s', w.drawn ∪ {d | d ∈ (Operation.registerTenant registration draw).draw}⟩
        (K.issue registration.id initialDataKeyId draw)
        (L.register (registration.profile (L.clock 0))
          (⟨initialDataKeyId, draw⟩ : TenantDataKey C).address) := by
  obtain ⟨s', hs', hrep⟩ :=
    h.represents.registerTenant_new hnew hstone hparent (h.fresh hdraw) hlen
  refine ⟨s', hs', ?_, hrep, h.reachable.next (.register _ _ hnew hstone hparent),
    h.drawn_issue _ _ draw⟩
  rintro d hd
  cases hd
  exact hdraw

/-- Beginning a rotation of a tenant without one, with a key not drawn before. -/
theorem beginRekey (h : w.Holds K L) {t : TenantId} (draw : C.Block)
    (hlive : (L.profiles t).isSome) (hidle : K.rotation t = none)
    (hids : (K.active t).toNat + 1 < 2 ^ 32) (hdraw : draw ∉ w.drawn) :
    ∃ total w', World.Step w w' ∧ w'.Holds (K.beginRekey t draw
        (Store.freshRekey t (K.active t) (K.active t + 1) total (L.clock 0))) L.tick ∧
      (∀ k, w'.store.db.get .idem k = w.store.db.get .idem k) ∧
      ∃ r, w'.store.rekeyRecord t = .ok (some r) ∧ r.done = false := by
  obtain ⟨total, s', hs', -, hrep, hget⟩ :=
    h.represents.beginRekey_begun hlive hidle hids (h.fresh hdraw)
  have hop : (Operation.beginRekey t draw).run w.store = .ok s' := by
    rw [Operation.run, hs']
    rfl
  have hfresh : ∀ d ∈ (Operation.beginRekey t draw).draw, d ∉ w.drawn := by
    rintro d hd
    cases hd
    exact hdraw
  have hrekey := hrep.rekeyRecord_eq t
  rw [KeyState.beginRekey_rekey_self] at hrekey
  exact ⟨total, _, .operate (.beginRekey t draw) hop hfresh, ⟨hrep, h.reachable.next (.clock _),
    h.drawn_issue _ _ draw⟩, fun k => hget .idem k (by decide) (.inl (by decide))
      (.inl (by decide)), _, hrekey, rfl⟩

/-- Shredding a live tenant all of whose calls are closed. -/
theorem shred (h : w.Holds K L) {t : TenantId} (hlive : (L.profiles t).isSome)
    (hstone : L.tombstones t = none)
    (hclosed : ∀ id r, L.invocations id = some r → L.Involves t r → r.state.isTerminal) :
    ∃ w', World.Step w w' ∧ w'.Holds (K.forget t) (L.shred t) := by
  obtain ⟨s', hs', hrep⟩ :=
    h.represents.shredTenant_new h.reachable.named hlive hstone hclosed
  exact ⟨_, .operate (.shredTenant t) hs' fun _ hd => (by cases hd), hrep,
    h.reachable.next (.shred t hlive hclosed), fun x hx => .inl (h.drawn x hx)⟩

end World.Holds

/-! ## A small deployment

An operator and an agent under it; the operator holds a root grant, the agent a grant
below it and a session.  The claims about runs are shown on stores built from it. -/

namespace Sample

def operator : TenantId := ⟨1⟩

def agent : TenantId := ⟨2⟩

def session : SessionId := ⟨30⟩

def call : InvocationId := ⟨10⟩

def site : List Bytes := [ascii "https://example.org"]

def registration (id : TenantId) (parent : Option TenantId) : TenantRegistration :=
  ⟨id, .agent, [], [], parent, .default⟩

def operatorKey : TenantDataKey Crypto.ideal := ⟨initialDataKeyId, ([1] : List ℕ)⟩

def agentKey : TenantDataKey Crypto.ideal := ⟨initialDataKeyId, ([2] : List ℕ)⟩

/-- A book with the two tenants. -/
def registered : Custody Crypto.ideal :=
  ((Custody.empty operatorKey.address fun _ => 0).register
    ((registration operator none).profile 0) operatorKey.address).register
    ((registration agent (some operator)).profile 0) agentKey.address

def twoFetches : Ceilings := { Ceilings.default with fetches := some 2 }

def rootGrant : RootGrant :=
  ⟨⟨1⟩, operator, Capability.all.toFinset, .own, site, .all, twoFetches, 0, 100, 3⟩

def agentCeilings : Ceilings :=
  { twoFetches with bytesTransferred := some 1000, outputBytes := some 500 }

def agentGrant : GrantIssue :=
  ⟨⟨operator, ⟨1⟩, ⟨2⟩⟩, ⟨agent, [.capture], .own, site, agentCeilings, 0, 100, some 3⟩, ⟨20⟩⟩

/-- The grants and the session. -/
def setUp : List (Transaction Crypto.ideal) :=
  [.installRootGrant rootGrant, .issueGrant agentGrant,
    .createSession ⟨session, agent, .default, ⟨31⟩⟩]

def oneFetch : Cost := { Cost.zero with fetches := 1 }

def intent : Intent Crypto.ideal where
  invocation := call
  authz := ⟨agent, ⟨2⟩, .capture, some (ascii "https://example.org/a"), some session, oneFetch⟩
  idempotencyKey := ⟨List.replicate 16 0, by simp, by simp⟩
  requestDigest := ([0] : List ℕ)

/-- The status of the call once its intent is persisted. -/
def begun : InvocationStatus :=
  ⟨call, agent, .capture, some session, .intentPersisted, none, none, oneFetch, none, [⟨2⟩, ⟨1⟩],
    false⟩

def transfer : Transfer := ⟨[1, 2, 3], ⟨[], [], []⟩, none, false, 3, oneFetch, false⟩

/-- A capture from its intent to its settlement. -/
def capture : List (Transaction Crypto.ideal) :=
  [.begin intent, .dispatch call, .completeTransfer call transfer, .publish call,
    .settle call .success]

/-- The book after some transactions. -/
def book (ts : List (Transaction Crypto.ideal)) : Custody Crypto.ideal :=
  (Custody.runAll ts registered).toOption.getD registered

/-- A store holds the two tenants, whose data keys are the only ones drawn. -/
theorem exists_registered : ∃ (w : World Crypto.ideal) (K : KeyState Crypto.ideal),
    w.Reachable ∧ w.Holds K registered ∧ (∀ t, K.rekey t = none) ∧ K.rootId = 1 ∧
      w.drawn = {operatorKey.key, agentKey.key} := by
  have hinitial : World.Holds (C := Crypto.ideal)
      ⟨Store.create ([0] : List ℕ) ([9] : List ℕ) (fun _ _ => ()) (fun _ => 0), ∅⟩
      (KeyState.initial ([0] : List ℕ) ([9] : List ℕ))
      (Custody.empty operatorKey.address fun _ => 0) :=
    ⟨.create _ _ _ _ _, ⟨_, ⟨_, _, rfl⟩, .refl⟩, fun x hx => hx.elim⟩
  obtain ⟨s₁, hs₁, hfresh₁, h₁⟩ := hinitial.register (registration operator none)
    ([1] : List ℕ) rfl rfl (fun _ hq => by cases hq) (Set.notMem_empty _) (Nat.zero_le _)
  obtain ⟨s₂, hs₂, hfresh₂, h₂⟩ := h₁.register (registration agent (some operator))
    ([2] : List ℕ) rfl rfl (fun q hq => by cases hq; rfl)
    (by rintro (hmem | hmem) <;> cases hmem) (Nat.zero_le _)
  refine ⟨_, _, ⟨_, ⟨_, _, _, _, rfl⟩, .head (.operate _ hs₁ hfresh₁)
    (.single (.operate _ hs₂ hfresh₂))⟩, h₂, fun _ => rfl, rfl, ?_⟩
  ext d
  rw [Set.empty_union]
  exact or_congr (Option.mem_some_iff.trans eq_comm) (Option.mem_some_iff.trans eq_comm)

theorem runAll_book {ts : List (Transaction Crypto.ideal)}
    (hok : (Custody.runAll ts registered).toOption.isSome) :
    Custody.runAll ts registered = .ok (book ts) := by
  unfold book
  cases hts : Custody.runAll ts registered with
  | ok => rfl
  | error =>
    rw [hts] at hok
    cases hok

/-- A store holds the book after transactions that succeed. -/
theorem exists_world (ts : List (Transaction Crypto.ideal))
    (hok : (Custody.runAll ts registered).toOption.isSome) :
    ∃ (w : World Crypto.ideal) (K : KeyState Crypto.ideal), w.Reachable ∧ w.Holds K (book ts) := by
  obtain ⟨w, K, hreach, h, -⟩ := exists_registered
  obtain ⟨w', hsteps, h'⟩ := h.transactAll (runAll_book hok)
  exact ⟨w', K, hreach.trans hsteps, h'⟩

/-- A store of the small deployment. -/
theorem exists_setUp : ∃ (w : World Crypto.ideal) (K : KeyState Crypto.ideal),
    w.Reachable ∧ w.Holds K (book setUp) := exists_world setUp (by decide +kernel)

end Sample
end Dioptron
