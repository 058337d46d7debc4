import Dioptron.OpenCalls

/-! # Where a capture's records are

A transferred capture has a pending record and its envelope, a published one has a
locator, a side record, its envelope and an entry in its session's index, and no other
capture has any of them.  `Custody.Filed` says this of a whole book, and every step
keeps it.
-/
namespace Dioptron

open Relation (ReflTransGen)

variable {C : Crypto}

/-- Readers can see the capture: it is published, or was settled as a success. -/
def InvocationRecord.Visible (r : InvocationRecord) : Prop :=
  r.state = .published ∨ r.terminal = some (.settled none)

/-- `a` is a side record of the capture `r`. -/
structure ArtifactRecord.For {B : Type} (a : ArtifactRecord B) (r : InvocationRecord) : Prop where
  artifact : a.artifact = artifactRef r.id
  tenant : a.tenant = r.tenant
  session : a.session = r.session

@[simp] theorem artifactRef_cast (id : InvocationId) :
    ((artifactRef id).cast : InvocationId) = id :=
  rfl

theorem artifactRef_injective : Function.Injective artifactRef := Ulid.cast_injective

theorem AddressKeys.blobAddress_injective {keys : AddressKeys C} {a b : Bytes}
    (h : keys.blobAddress a = keys.blobAddress b) : a = b :=
  Str.ofBytes_injective (C.hmac_inj h).2

/-- An ending keeps what a capture consumed, or sets it. -/
theorem Transaction.Ends.actual_isSome {t : Transaction C} {r : InvocationRecord}
    {actual : Option Cost} {terminal : Terminal} {settlement : Settlement}
    (h : t.Ends r actual terminal settlement) (hold : r.actual.isSome) : actual.isSome := by
  cases t with
  | settle =>
    obtain ⟨amount, -, rfl, -⟩ := h
    rfl
  | release | markUnknownEffect =>
    obtain ⟨rfl, -⟩ := h
    exact hold
  | _ => exact h.elim

namespace Custody

/-- What a published capture has, with the time it was published at. -/
structure Shows (L : Custody C) (r : InvocationRecord) (a : ArtifactRecord C.Block)
    (published : Timestamp) : Prop where
  located : L.locators (artifactRef r.id) = some ⟨artifactRef r.id, r.tenant, r.session⟩
  side : L.artifacts (r.tenant, artifactRef r.id) = some a
  isFor : a.For r
  time : a.publishedAt = some published
  blob : (L.blobs (r.tenant, a.blobAddress)).isSome
  index : ∀ session ∈ r.session, ∃ sr, L.sessions session = some sr ∧
    L.sessionIndex (sr.owner, session, artifactRef r.id) =
      some ⟨artifactRef r.id, r.tenant, published⟩

/-- What a transferred capture has. -/
structure Stages (L : Custody C) (r : InvocationRecord) (a : ArtifactRecord C.Block) : Prop where
  pending : L.pending (r.tenant, r.id) = some a
  isFor : a.For r
  blob : (L.blobs (r.tenant, a.blobAddress)).isSome

/-- The records of an invocation are where its state says. -/
structure Files (L : Custody C) (r : InvocationRecord) : Prop where
  started : r.state ≠ .planned ∧ r.state ≠ .denied
  ended : r.terminal.map Terminal.state = if r.state.isTerminal then some r.state else none
  produced : r.state = .transferComplete ∨ r.Visible →
    r.actual.isSome ∧ r.artifact = some (artifactRef r.id)
  staged : r.state = .transferComplete → ∃ a, L.Stages r a
  visible : r.Visible → ∃ a published, L.Shows r a published

/-- The records of every invocation are where its state says, and there are no others. -/
structure Filed (L : Custody C) : Prop where
  records : ∀ id r, L.invocations id = some r → L.Files r
  located : ∀ ref l, L.locators ref = some l →
    ∃ r, L.invocations ref.cast = some r ∧ r.Visible
  indexed : ∀ t session ref e, L.sessionIndex (t, session, ref) = some e → e.artifact = ref ∧
    ∃ r sr, L.invocations ref.cast = some r ∧ r.Visible ∧ r.session = some session ∧
      L.sessions session = some sr ∧ sr.owner = t
  addressed : ∀ t address bytes, L.blobs (t, address) = some bytes →
    address = (L.address t).blobAddress bytes ∧
      ((L.profiles t).isSome ∨ (L.tombstones t).isSome)

/-- Nothing the records of `r` consist of is taken away from `L` to `L'`. -/
structure Keeps (L L' : Custody C) (r : InvocationRecord) : Prop where
  pending : L'.pending (r.tenant, r.id) = L.pending (r.tenant, r.id)
  locators : ∀ l, L.locators (artifactRef r.id) = some l → L'.locators (artifactRef r.id) = some l
  artifacts : ∀ a, L.artifacts (r.tenant, artifactRef r.id) = some a →
    L'.artifacts (r.tenant, artifactRef r.id) = some a
  blobs : ∀ address bytes, L.blobs (r.tenant, address) = some bytes →
    L'.blobs (r.tenant, address) = some bytes
  sessions : ∀ session sr, L.sessions session = some sr → L'.sessions session = some sr
  index : ∀ t session e, L.sessionIndex (t, session, artifactRef r.id) = some e →
    L'.sessionIndex (t, session, artifactRef r.id) = some e

namespace Keeps

variable {L L' : Custody C} {r : InvocationRecord}

theorem blob_isSome (h : L.Keeps L' r) {address : C.Block}
    (hblob : (L.blobs (r.tenant, address)).isSome) : (L'.blobs (r.tenant, address)).isSome := by
  obtain ⟨bytes, hbytes⟩ := Option.isSome_iff_exists.mp hblob
  rw [h.blobs address bytes hbytes]
  rfl

theorem shows (h : L.Keeps L' r) {a : ArtifactRecord C.Block} {published : Timestamp}
    (hshows : L.Shows r a published) : L'.Shows r a published where
  located := h.locators _ hshows.located
  side := h.artifacts a hshows.side
  isFor := hshows.isFor
  time := hshows.time
  blob := h.blob_isSome hshows.blob
  index := by
    intro session hsession
    obtain ⟨sr, hsr, hindex⟩ := hshows.index session hsession
    exact ⟨sr, h.sessions session sr hsr, h.index _ _ _ hindex⟩

theorem stages (h : L.Keeps L' r) {a : ArtifactRecord C.Block} (hstages : L.Stages r a) :
    L'.Stages r a where
  pending := h.pending.trans hstages.pending
  isFor := hstages.isFor
  blob := h.blob_isSome hstages.blob

theorem files (h : L.Keeps L' r) (hfiles : L.Files r) : L'.Files r where
  started := hfiles.started
  ended := hfiles.ended
  produced := hfiles.produced
  staged := by
    intro hstate
    obtain ⟨a, ha⟩ := hfiles.staged hstate
    exact ⟨a, h.stages ha⟩
  visible := by
    intro hvisible
    obtain ⟨a, published, ha⟩ := hfiles.visible hvisible
    exact ⟨a, published, h.shows ha⟩

end Keeps

/-- A step that writes none of the records a capture consists of. -/
structure SameFiles (L L' : Custody C) : Prop where
  locators : L'.locators = L.locators
  pending : L'.pending = L.pending
  artifacts : L'.artifacts = L.artifacts
  blobs : L'.blobs = L.blobs
  index : L'.sessionIndex = L.sessionIndex
  sessions : ∀ session sr, L.sessions session = some sr → L'.sessions session = some sr
  address : ∀ t, (L.profiles t).isSome ∨ (L.tombstones t).isSome → L'.address t = L.address t
  owners : ∀ t, (L.profiles t).isSome ∨ (L.tombstones t).isSome →
    (L'.profiles t).isSome ∨ (L'.tombstones t).isSome

theorem SameFiles.keeps {L L' : Custody C} (h : L.SameFiles L') (r : InvocationRecord) :
    L.Keeps L' r where
  pending := by rw [h.pending]
  locators := fun _ hl => by rwa [h.locators]
  artifacts := fun _ ha => by rwa [h.artifacts]
  blobs := fun _ _ hb => by rwa [h.blobs]
  sessions := h.sessions
  index := fun _ _ _ he => by rwa [h.index]

/-- What a step does to the book it reads off `Extends`. -/
theorem SameFiles.of_extends {L L' : Custody C} (hext : L.toBook.Extends L'.toBook)
    (hlocators : L'.locators = L.locators) (hpending : L'.pending = L.pending)
    (hartifacts : L'.artifacts = L.artifacts) (hblobs : L'.blobs = L.blobs)
    (hindex : L'.sessionIndex = L.sessionIndex)
    (haddress : ∀ t, (L.profiles t).isSome ∨ (L.tombstones t).isSome →
      L'.address t = L.address t) : L.SameFiles L' where
  locators := hlocators
  pending := hpending
  artifacts := hartifacts
  blobs := hblobs
  index := hindex
  sessions := hext.sessions
  address := haddress
  owners := fun t howner =>
    show L'.toBook.HasOwner (.tenant t) from hext.hasOwner howner

/-! ### The record a step writes -/

namespace Files

variable {L : Custody C} {r : InvocationRecord}

/-- An invocation that is not finished has no terminal record. -/
theorem terminal_eq_none (h : L.Files r) (hopen : r.state.isTerminal = false) :
    r.terminal = none := by
  have hended := h.ended
  rw [hopen] at hended
  exact Option.map_eq_none_iff.mp hended

/-- A record no reader sees, of an invocation whose transfer is not complete. -/
theorem of_hidden (hstarted : r.state ≠ .planned ∧ r.state ≠ .denied)
    (hended : r.terminal.map Terminal.state = if r.state.isTerminal then some r.state else none)
    (hstate : r.state ≠ .transferComplete) (hhidden : ¬r.Visible) : L.Files r where
  started := hstarted
  ended := hended
  produced := fun h => (h.elim hstate hhidden).elim
  staged := fun h => absurd h hstate
  visible := fun h => absurd h hhidden

theorem fresh (intent : Intent C) (chain : List GrantId) (ledgers : List LedgerRef)
    (reserved : Cost) (now : Timestamp) :
    L.Files (Tx.freshInvocation intent chain ledgers reserved now) := by
  refine of_hidden ⟨nofun, nofun⟩ rfl nofun ?_
  rintro (h | h) <;> cases h

theorem dispatched (h : L.Files r) (hstate : r.state = .intentPersisted) (now : Timestamp) :
    L.Files (r.moved .dispatched now) := by
  have hterminal : r.terminal = none := h.terminal_eq_none (by rw [hstate]; rfl)
  refine of_hidden ⟨nofun, nofun⟩ ?_ nofun ?_
  · show r.terminal.map Terminal.state = none
    rw [hterminal]
    rfl
  · rintro (hnow | hnow)
    · cases hnow
    · rw [show (r.moved .dispatched now).terminal = r.terminal from rfl, hterminal] at hnow
      cases hnow

/-- A finished capture is seen exactly when it was seen before. -/
theorem finished (h : L.Files r) {terminal : Terminal} {next : InvocationState}
    {actual debited : Option Cost} (now : Timestamp) (hterminal : terminal.state = next)
    (hsuccess : terminal = .settled none ↔ r.state = .published)
    (hactual : r.actual.isSome → actual.isSome) :
    L.Files (InvocationRecord.moved { r with
      actual := actual, terminal := some terminal, debited := debited } next now) := by
  have hnext : next.isTerminal = true := hterminal ▸ terminal.isTerminal_state
  have hsettled : next ≠ .transferComplete ∧ next ≠ .published ∧ next ≠ .planned := by
    refine ⟨?_, ?_, ?_⟩ <;> rintro rfl <;> cases hnext
  have hdenied : next ≠ .denied := by
    rw [← hterminal]
    cases terminal <;> exact nofun
  -- Only a success is visible, and a success was published.
  have hold (hvisible : (InvocationRecord.moved { r with
      actual := actual, terminal := some terminal, debited := debited } next now).Visible) :
      r.Visible := by
    rcases hvisible with hstate | hsettle
    · exact absurd hstate hsettled.2.1
    · exact .inl (hsuccess.mp (Option.some.inj hsettle))
  refine ⟨⟨hsettled.2.2, hdenied⟩, ?_, ?_, ?_, ?_⟩
  · show some terminal.state = if next.isTerminal then some next else none
    rw [if_pos hnext, hterminal]
  · rintro (hstate | hvisible)
    · exact absurd hstate hsettled.1
    · obtain ⟨hsome, hartifact⟩ := h.produced (.inr (hold hvisible))
      exact ⟨hactual hsome, hartifact⟩
  · exact fun hstate => absurd hstate hsettled.1
  · intro hvisible
    obtain ⟨a, published, hshows⟩ := h.visible (hold hvisible)
    exact ⟨a, published, ⟨hshows.located, hshows.side,
      ⟨hshows.isFor.artifact, hshows.isFor.tenant, hshows.isFor.session⟩, hshows.time, hshows.blob,
      hshows.index⟩⟩

end Files

/-! ### Envelopes and the session index -/

section

variable {L : Custody C}

/-- A transferred envelope is stored under its own address. -/
theorem withBlob_cases {tenant t : TenantId} {envelope bytes : Bytes} {address : C.Block}
    (h : L.withBlob tenant envelope (t, address) = some bytes) :
    L.blobs (t, address) = some bytes ∨
      t = tenant ∧ address = (L.address tenant).blobAddress envelope ∧ bytes = envelope := by
  unfold withBlob at h
  split_ifs at h with hfound
  · exact .inl h
  · rw [Function.update_apply] at h
    split_ifs at h with heq
    · cases heq
      cases h
      exact .inr ⟨rfl, rfl, rfl⟩
    · exact .inl h

theorem withBlob_kept {tenant t : TenantId} {envelope bytes : Bytes} {address : C.Block}
    (h : L.blobs (t, address) = some bytes) :
    L.withBlob tenant envelope (t, address) = some bytes := by
  unfold withBlob
  split_ifs with hfound
  · exact h
  · exact update_of_none (Option.not_isSome_iff_eq_none.mp hfound) _ _ _ h

theorem withBlob_self (tenant : TenantId) (envelope : Bytes) :
    (L.withBlob tenant envelope (tenant, (L.address tenant).blobAddress envelope)).isSome := by
  unfold withBlob
  split_ifs with hfound
  · exact hfound
  · rw [Function.update_self]
    rfl

theorem withIndex_of_session {r : InvocationRecord} {session : SessionId} {sr : SessionRecord}
    (hsession : r.session = some session) (hsr : L.sessions session = some sr)
    (artifact : ArtifactRef) (now : Timestamp) :
    L.withIndex r artifact now = Function.update L.sessionIndex (sr.owner, session, artifact)
      (some ⟨artifact, r.tenant, now⟩) := by
  unfold withIndex
  rw [hsession]
  dsimp only
  rw [hsr]

theorem withIndex_cases {r : InvocationRecord} {artifact ref : ArtifactRef} {now : Timestamp}
    {t : TenantId} {session : SessionId} {e : SessionIndexRecord}
    (h : L.withIndex r artifact now (t, session, ref) = some e) :
    L.sessionIndex (t, session, ref) = some e ∨ ref = artifact ∧ e.artifact = ref ∧
      r.session = some session ∧ ∃ sr, L.sessions session = some sr ∧ sr.owner = t := by
  cases hsession : r.session with
  | none =>
    rw [withIndex, hsession] at h
    exact .inl h
  | some session' =>
    cases hsr : L.sessions session' with
    | none =>
      rw [withIndex, hsession] at h
      dsimp only at h
      rw [hsr] at h
      exact .inl h
    | some sr =>
      rw [withIndex_of_session hsession hsr, Function.update_apply] at h
      split_ifs at h with heq
      · cases heq
        cases h
        exact .inr ⟨rfl, rfl, rfl, sr, hsr, rfl⟩
      · exact .inl h

/-! ### Other captures -/

variable {L' : Custody C} {r q : InvocationRecord}

/-- A transfer keeps the records of every other capture. -/
theorem keeps_of_transfer (hext : L.toBook.Extends L'.toBook) (hne : q.id ≠ r.id)
    {a : ArtifactRecord C.Block} {envelope : Bytes}
    (hpending : L'.pending = Function.update L.pending (r.tenant, r.id) (some a))
    (hlocators : L'.locators = L.locators) (hartifacts : L'.artifacts = L.artifacts)
    (hindex : L'.sessionIndex = L.sessionIndex) (hblobs : L'.blobs = L.withBlob r.tenant envelope) :
    L.Keeps L' q := by
  refine ⟨?_, fun _ hl => by rwa [hlocators], fun _ ha => by rwa [hartifacts], ?_, hext.sessions,
    fun _ _ _ he => by rwa [hindex]⟩
  · rw [hpending, Function.update_of_ne]
    exact fun heq => hne (Prod.mk.inj heq).2
  · intro address bytes hbytes
    rw [hblobs]
    exact withBlob_kept hbytes

/-- A publication keeps the records of every other capture. -/
theorem keeps_of_publish (hext : L.toBook.Extends L'.toBook) (hne : q.id ≠ r.id)
    {a a' : ArtifactRecord C.Block} {published : Timestamp}
    (hartifact : a.artifact = artifactRef r.id)
    (howner : ∀ session ∈ r.session, ∃ sr, L.sessions session = some sr)
    (hpending : L'.pending = Function.update L.pending (r.tenant, r.id) none)
    (hlocators : L'.locators = Function.update L.locators a.artifact
      (some ⟨a.artifact, r.tenant, r.session⟩))
    (hartifacts : L'.artifacts = Function.update L.artifacts (r.tenant, a.artifact) (some a'))
    (hindex : L'.sessionIndex = L.withIndex r a.artifact published) (hblobs : L'.blobs = L.blobs) :
    L.Keeps L' q := by
  have hother : artifactRef q.id ≠ a.artifact := by
    rw [hartifact]
    exact fun heq => hne (artifactRef_injective heq)
  refine ⟨?_, fun l hl => ?_, fun b hb => ?_, fun _ _ hb => by rwa [hblobs], hext.sessions, ?_⟩
  · rw [hpending, Function.update_of_ne]
    exact fun heq => hne (Prod.mk.inj heq).2
  · rwa [hlocators, Function.update_of_ne hother]
  · rw [hartifacts, Function.update_of_ne, hb]
    exact fun heq => hother (Prod.mk.inj heq).2
  · intro t session e he
    rw [hindex]
    cases hsession : r.session with
    | none => rwa [withIndex, hsession]
    | some session' =>
      obtain ⟨sr, hsr⟩ := howner session' hsession
      rw [withIndex_of_session hsession hsr, Function.update_of_ne, he]
      exact fun heq => hother (Prod.mk.inj (Prod.mk.inj heq).2).2

/-- Every step adds to the book. -/
theorem Step.extends (h : Custody.Step L L') (hnamed : L.InvocationsNamed) :
    L.toBook.Extends L'.toBook := by
  rcases (Relation.reflGen_iff _ _ _).mp h.book with heq | hbook
  · rw [heq]
    exact .refl _
  · exact hbook.extends hnamed

end

namespace Filed

variable {L L' : Custody C}

theorem empty (address : AddressKeys C) (clock : Nat → Timestamp) :
    (Custody.empty address clock).Filed where
  records := fun _ _ h => by cases h
  located := fun _ _ h => by cases h
  indexed := fun _ _ _ _ h => by cases h
  addressed := fun _ _ _ h => by cases h

variable (h : L.Filed)

include h

/-- Envelopes stay at the addresses of their bytes. -/
theorem addressed_of_same (hsame : L.SameFiles L') :
    ∀ t address bytes, L'.blobs (t, address) = some bytes →
      address = (L'.address t).blobAddress bytes ∧
        ((L'.profiles t).isSome ∨ (L'.tombstones t).isSome) := by
  intro t address bytes hbytes
  rw [hsame.blobs] at hbytes
  obtain ⟨haddress, howner⟩ := h.addressed t address bytes hbytes
  rw [hsame.address t howner]
  exact ⟨haddress, hsame.owners t howner⟩

/-- A step that touches no invocation and none of its records. -/
theorem of_same (hsame : L.SameFiles L') (hset : L'.invocations = L.invocations) :
    L'.Filed where
  records := by
    intro id r hr
    rw [hset] at hr
    exact (hsame.keeps r).files (h.records id r hr)
  located := by
    intro ref l hl
    rw [hsame.locators] at hl
    rw [hset]
    exact h.located ref l hl
  indexed := by
    intro t session ref e he
    rw [hsame.index] at he
    obtain ⟨heq, r, sr, hr, hvisible, hsession, hsr, howner⟩ := h.indexed t session ref e he
    rw [hset]
    exact ⟨heq, r, sr, hr, hvisible, hsession, hsame.sessions session sr hsr, howner⟩
  addressed := h.addressed_of_same hsame

/-- A step that writes one invocation record `r'` and its records, and keeps those of the
others. -/
theorem of_moved (hnamed : L.InvocationsNamed) {r' : InvocationRecord}
    (hset : L'.invocations = Function.update L.invocations r'.id (some r'))
    (hsessions : ∀ session sr, L.sessions session = some sr → L'.sessions session = some sr)
    (hothers : ∀ r : InvocationRecord, r.id ≠ r'.id → L.Keeps L' r) (hfiles : L'.Files r')
    (hvisible : ∀ r, L.invocations r'.id = some r → r.Visible →
      r'.Visible ∧ r'.session = r.session) (hlocated : ∀ ref l, L'.locators ref = some l →
      L.locators ref = some l ∨ ref = artifactRef r'.id ∧ r'.Visible)
    (hindexed : ∀ t session ref e, L'.sessionIndex (t, session, ref) = some e →
      L.sessionIndex (t, session, ref) = some e ∨ ref = artifactRef r'.id ∧ e.artifact = ref ∧
        r'.Visible ∧ r'.session = some session ∧ ∃ sr, L'.sessions session = some sr ∧ sr.owner = t)
    (haddressed : ∀ t address bytes, L'.blobs (t, address) = some bytes →
      address = (L'.address t).blobAddress bytes ∧
        ((L'.profiles t).isSome ∨ (L'.tombstones t).isSome)) :
    L'.Filed where
  records := by
    intro id r hr
    rw [hset, Function.update_apply] at hr
    split_ifs at hr with heq
    · cases hr
      exact hfiles
    · refine (hothers r ?_).files (h.records id r hr)
      rwa [hnamed id r hr]
  located := by
    intro ref l hl
    rw [hset]
    rcases hlocated ref l hl with hl | ⟨rfl, hnow⟩
    · obtain ⟨r, hr, hold⟩ := h.located ref l hl
      by_cases heq : (ref.cast : InvocationId) = r'.id
      · rw [heq] at hr ⊢
        exact ⟨r', Function.update_self .., (hvisible r hr hold).1⟩
      · exact ⟨r, by rwa [Function.update_of_ne heq], hold⟩
    · exact ⟨r', Function.update_self .., hnow⟩
  indexed := by
    intro t session ref e he
    rw [hset]
    rcases hindexed t session ref e he with he | ⟨rfl, hartifact, hnow, hsession, sr, hsr, howner⟩
    · obtain ⟨hartifact, r, sr, hr, hold, hsession, hsr, howner⟩ := h.indexed t session ref e he
      have hsr := hsessions session sr hsr
      by_cases heq : (ref.cast : InvocationId) = r'.id
      · rw [heq] at hr ⊢
        obtain ⟨hnow, hsame⟩ := hvisible r hr hold
        exact ⟨hartifact, r', sr, Function.update_self .., hnow, hsame.trans hsession, hsr, howner⟩
      · exact ⟨hartifact, r, sr, by rwa [Function.update_of_ne heq], hold, hsession, hsr, howner⟩
    · exact ⟨hartifact, r', sr, Function.update_self .., hnow, hsession, hsr, howner⟩
  addressed := haddressed

/-- A step that writes one invocation record and none of its other records. -/
theorem of_set (hnamed : L.InvocationsNamed) (hsame : L.SameFiles L') {r' : InvocationRecord}
    (hset : L'.invocations = Function.update L.invocations r'.id (some r')) (hfiles : L.Files r')
    (hvisible : ∀ r, L.invocations r'.id = some r → r.Visible →
      r'.Visible ∧ r'.session = r.session) : L'.Filed := by
  refine h.of_moved hnamed hset hsame.sessions (fun r _ => hsame.keeps r)
    ((hsame.keeps r').files hfiles) hvisible (fun ref l hl => .inl ?_)
    (fun t session ref e he => .inl ?_) (h.addressed_of_same hsame)
  · rwa [hsame.locators] at hl
  · rwa [hsame.index] at he

/-- A complete transfer files the pending record and its envelope. -/
theorem transfer (hnamed : L.InvocationsNamed) (hext : L.toBook.Extends L'.toBook)
    {r : InvocationRecord} {transfer : Transfer} {now : Timestamp}
    (hr : L.invocations r.id = some r) (hstate : r.state = .dispatched)
    (hlive : (L.profiles r.tenant).isSome)
    (hset : L'.invocations = Function.update L.invocations r.id
      (some (r.delivered transfer now)))
    (hpending : L'.pending = Function.update L.pending (r.tenant, r.id)
      (some (Tx.pendingArtifact r transfer ((L.address r.tenant).blobAddress transfer.envelope))))
    (hlocators : L'.locators = L.locators) (hartifacts : L'.artifacts = L.artifacts)
    (hindex : L'.sessionIndex = L.sessionIndex)
    (hblobs : L'.blobs = L.withBlob r.tenant transfer.envelope)
    (haddress : L'.address = L.address) : L'.Filed := by
  have hterminal : r.terminal = none := (h.records _ r hr).terminal_eq_none (by rw [hstate]; rfl)
  have hhidden : ¬r.Visible := by
    rintro (hnow | hnow)
    · rw [hstate] at hnow
      cases hnow
    · rw [hterminal] at hnow
      cases hnow
  have howner (t : TenantId) (ht : (L.profiles t).isSome ∨ (L.tombstones t).isSome) :
      (L'.profiles t).isSome ∨ (L'.tombstones t).isSome :=
    show L'.toBook.HasOwner (.tenant t) from hext.hasOwner ht
  have hfiles : L'.Files (r.delivered transfer now) := by
    refine ⟨⟨nofun, nofun⟩, ?_, fun _ => ⟨rfl, rfl⟩, ?_, ?_⟩
    · show r.terminal.map Terminal.state = none
      rw [hterminal]
      rfl
    · refine fun _ => ⟨_, ⟨(congrFun hpending _).trans (Function.update_self ..),
        ⟨rfl, rfl, rfl⟩, ?_⟩⟩
      rw [hblobs]
      exact withBlob_self ..
    · rintro (hnow | hnow)
      · cases hnow
      · exact absurd (.inr hnow) hhidden
  refine h.of_moved hnamed hset hext.sessions ?_ hfiles ?_ (fun ref l hl => .inl ?_)
    (fun t session ref e he => .inl ?_) ?_
  · exact fun q hne => keeps_of_transfer hext hne hpending hlocators hartifacts hindex hblobs
  · intro q hq hold
    obtain rfl := Option.some.inj (hr.symm.trans hq)
    exact absurd hold hhidden
  · rwa [hlocators] at hl
  · rwa [hindex] at he
  · intro t address bytes hbytes
    rw [hblobs] at hbytes
    rw [haddress]
    rcases withBlob_cases hbytes with hold | ⟨rfl, rfl, rfl⟩
    · obtain ⟨haddressed, hold⟩ := h.addressed t address bytes hold
      exact ⟨haddressed, howner t hold⟩
    · exact ⟨rfl, howner _ (.inl hlive)⟩

/-- A publication turns the pending record into a locator, a side record and an index
entry. -/
theorem publish (hnamed : L.InvocationsNamed) (hext : L.toBook.Extends L'.toBook)
    {r : InvocationRecord} {a : ArtifactRecord C.Block} {published now : Timestamp}
    (hr : L.invocations r.id = some r) (hstate : r.state = .transferComplete)
    (ha : L.pending (r.tenant, r.id) = some a)
    (howner : ∀ session ∈ r.session, ∃ sr, L.sessions session = some sr)
    (hset : L'.invocations = Function.update L.invocations r.id (some (r.moved .published now)))
    (hpending : L'.pending = Function.update L.pending (r.tenant, r.id) none)
    (hlocators : L'.locators = Function.update L.locators a.artifact
      (some ⟨a.artifact, r.tenant, r.session⟩))
    (hartifacts : L'.artifacts = Function.update L.artifacts (r.tenant, a.artifact)
      (some { a with publishedAt := some published }))
    (hindex : L'.sessionIndex = L.withIndex r a.artifact published) (hblobs : L'.blobs = L.blobs)
    (haddress : L'.address = L.address) : L'.Filed := by
  have hold := h.records _ r hr
  have hterminal : r.terminal = none := hold.terminal_eq_none (by rw [hstate]; rfl)
  obtain ⟨a', hstages⟩ := hold.staged hstate
  obtain rfl := Option.some.inj (ha.symm.trans hstages.pending)
  have hartifact := hstages.isFor.artifact
  have hvisible : (r.moved .published now).Visible := .inl rfl
  have hshows : L'.Shows (r.moved .published now) { a with publishedAt := some published }
      published := by
    refine ⟨?_, ?_, ⟨hartifact, hstages.isFor.tenant, hstages.isFor.session⟩, rfl, ?_, ?_⟩
    · rw [hlocators, hartifact]
      exact Function.update_self ..
    · rw [hartifacts, hartifact]
      exact Function.update_self ..
    · rw [hblobs]
      exact hstages.blob
    · intro session hsession
      have hsession : r.session = some session := hsession
      obtain ⟨sr, hsr⟩ := howner session hsession
      refine ⟨sr, hext.sessions session sr hsr, ?_⟩
      rw [hindex, withIndex_of_session hsession hsr, hartifact]
      exact Function.update_self ..
  have hfiles : L'.Files (r.moved .published now) := by
    refine ⟨⟨nofun, nofun⟩, ?_, ?_, nofun, fun _ => ⟨_, _, hshows⟩⟩
    · show r.terminal.map Terminal.state = none
      rw [hterminal]
      rfl
    · exact fun _ => hold.produced (.inl hstate)
  refine h.of_moved hnamed hset hext.sessions ?_ hfiles ?_ ?_ ?_ ?_
  · exact fun q hne => keeps_of_publish hext hne hartifact howner hpending hlocators hartifacts
      hindex hblobs
  · intro q hq hseen
    obtain rfl := Option.some.inj (hr.symm.trans hq)
    exact ⟨hvisible, rfl⟩
  · intro ref l hl
    rw [hlocators, Function.update_apply] at hl
    split_ifs at hl with heq
    · exact .inr ⟨heq.trans hartifact, hvisible⟩
    · exact .inl hl
  · intro t session ref e he
    rw [hindex] at he
    rcases withIndex_cases he with he | ⟨heq, he, hsession, sr, hsr, hsrowner⟩
    · exact .inl he
    · exact .inr ⟨heq.trans hartifact, he, hvisible, hsession, sr, hext.sessions _ _ hsr, hsrowner⟩
  · intro t address bytes hbytes
    rw [hblobs] at hbytes
    rw [haddress]
    obtain ⟨haddressed, hold⟩ := h.addressed t address bytes hbytes
    exact ⟨haddressed, show L'.toBook.HasOwner (.tenant t) from hext.hasOwner hold⟩

/-- A step that leaves the records of captures alone. -/
theorem of_frame (hext : L.toBook.Extends L'.toBook)
    (hinvocations : L'.invocations = L.invocations) (hlocators : L'.locators = L.locators)
    (hpending : L'.pending = L.pending) (hartifacts : L'.artifacts = L.artifacts)
    (hblobs : L'.blobs = L.blobs) (hindex : L'.sessionIndex = L.sessionIndex)
    (haddress : L'.address = L.address) : L'.Filed :=
  h.of_same (.of_extends hext hlocators hpending hartifacts hblobs hindex
    fun t _ => congrFun haddress t) hinvocations

/-- **What a transaction writes keeps every capture filed.** -/
theorem write (hnamed : L.InvocationsNamed) {t : Transaction C}
    (hext : L.toBook.Extends L'.toBook) (hwrite : L.Write t L') : L'.Filed := by
  cases hwrite with
  | quiet | refuse | recordAudit | installRootGrant | issueGrant | revokeGrant | openSession =>
    exact h.of_frame hext rfl rfl rfl rfl rfl rfl rfl
  | begin intent chain plan _ now _ hadmits =>
    obtain ⟨f, rfl, -⟩ := Book.moveLedgers_frame hadmits.debit
    refine h.of_set hnamed (.of_extends hext rfl rfl rfl rfl rfl fun _ _ => rfl) rfl
      (.fresh intent chain _ _ now) fun r hr _ => ?_
    rw [show (Tx.freshInvocation intent chain _ plan.cost now).id = intent.invocation from rfl,
      hadmits.new] at hr
    cases hr
  | dispatch id r now _ hr hstate =>
    have hfiles := h.records id r hr
    obtain rfl := hnamed id r hr
    refine h.of_set hnamed (.of_extends hext rfl rfl rfl rfl rfl fun _ _ => rfl) rfl
      (hfiles.dispatched hstate now) fun q hq hseen => ?_
    obtain rfl := Option.some.inj (hr.symm.trans hq)
    rcases hseen with hseen | hseen
    · rw [hstate] at hseen
      cases hseen
    · rw [hfiles.terminal_eq_none (by rw [hstate]; rfl)] at hseen
      cases hseen
  | completeTransfer id r _ _ _ hr hstate hlive =>
    obtain rfl := hnamed id r hr
    exact h.transfer hnamed hext hr hstate hlive rfl rfl rfl rfl rfl rfl rfl
  | publish id r _ _ _ _ hr hstate ha _ _ howner =>
    obtain rfl := hnamed id r hr
    refine h.publish hnamed hext hr hstate ha (fun session hsession => ?_) rfl rfl rfl rfl rfl rfl
      rfl
    obtain ⟨sr, hsr, -⟩ := howner session hsession
    exact ⟨sr, hsr⟩
  | finish id r _ _ _ _ _ now _ _ ht hr hnext hterminal hends hpaid =>
    obtain ⟨f, rfl, -⟩ := Book.moveLedgers_frame hpaid
    have hfiles := h.records id r hr
    obtain rfl := hnamed id r hr
    have hsuccess := hends.success ht hnext
    refine h.of_set hnamed (.of_extends hext rfl rfl rfl rfl rfl fun _ _ => rfl) rfl
      (hfiles.finished now hterminal hsuccess hends.actual_isSome) fun q hq hseen => ?_
    obtain rfl := Option.some.inj (hr.symm.trans hq)
    refine ⟨.inr (congrArg some (hsuccess.mpr ?_)), rfl⟩
    refine hseen.resolve_right fun hold => ?_
    rw [hfiles.terminal_eq_none (not_isTerminal_of_nextState hnext)] at hold
    cases hold

/-- **One step keeps every capture filed.** -/
theorem step (hnamed : L.InvocationsNamed) (hstep : Custody.Step L L') : L'.Filed := by
  have hext := hstep.extends hnamed
  cases hstep with
  | transact t hrun => exact h.write hnamed hext (transact_write t hrun)
  | register _ _ hnew hstone =>
    refine h.of_same (.of_extends hext rfl rfl rfl rfl rfl fun t howner => ?_) rfl
    -- A tenant with an envelope is registered or shredded, so it is not the new one.
    refine Function.update_of_ne ?_ _ _
    rintro rfl
    rw [hnew, hstone] at howner
    exact howner.elim nofun nofun
  | bind | shred | clock => exact h.of_frame hext rfl rfl rfl rfl rfl rfl rfl

end Filed

theorem Reachable.filed {L : Custody C} (h : L.Reachable) : L.Filed := by
  refine @Dioptron.Reachable.invariant _ _ _ (fun L : Custody C => L.Filed) _ h
    (fun L₀ h₀ => ?_) fun L L' hreach hfiled hstep =>
      hfiled.step (Custody.Reachable.named hreach).invocations hstep
  obtain ⟨address, clock, rfl⟩ := h₀
  exact .empty address clock

/-! ## Captures stay as they are -/

section

variable {L L' : Custody C} {id : InvocationId} {r : InvocationRecord}

/-- Envelopes stay. -/
theorem Step.blobs_kept (h : Custody.Step L L') {x : TenantId × C.Block} {bytes : Bytes}
    (hbytes : L.blobs x = some bytes) : L'.blobs x = some bytes := by
  cases h with
  | register | bind | shred | clock => exact hbytes
  | transact t hrun =>
    have hwrite := transact_write t hrun
    generalize Prod.snd _ = L' at hwrite
    cases hwrite with
    | completeTransfer => exact withBlob_kept hbytes
    | _ => exact hbytes

/-- A visible capture is published or settled. -/
theorem Files.state_of_visible (h : L.Files r) (hvisible : r.Visible) :
    r.state = .published ∨ r.state = .settled := by
  refine hvisible.imp_right fun hterminal => ?_
  have hended := h.ended
  rw [hterminal] at hended
  split_ifs at hended
  · exact (Option.some.inj hended).symm
  · cases hended

/-- What one step does to a stored invocation. -/
inductive Fate (L L' : Custody C) (r : InvocationRecord) : Prop
  | idle (hr' : L'.invocations r.id = some r) (hkeeps : L.Keeps L' r)
  | dispatch (now : Timestamp) (hstate : r.state = .intentPersisted)
      (hr' : L'.invocations r.id = some (r.moved .dispatched now)) (hkeeps : L.Keeps L' r)
  | transfer (transfer : Transfer) (now : Timestamp) (hstate : r.state = .dispatched)
      (hr' : L'.invocations r.id = some (r.delivered transfer now))
      (hpending : L'.pending (r.tenant, r.id) = some (Tx.pendingArtifact r transfer
        ((L.address r.tenant).blobAddress transfer.envelope)))
      (hblob : L'.blobs (r.tenant, (L.address r.tenant).blobAddress transfer.envelope) =
        some transfer.envelope)
  | publish (a : ArtifactRecord C.Block) (published now : Timestamp)
      (hstate : r.state = .transferComplete) (ha : L.pending (r.tenant, r.id) = some a)
      (hr' : L'.invocations r.id = some (r.moved .published now))
      (hside : L'.artifacts (r.tenant, artifactRef r.id) =
        some { a with publishedAt := some published })
  | finish (step : Dioptron.Step) (next : InvocationState) (terminal : Terminal)
      (actual debited : Option Cost) (now : Timestamp) (hnext : nextState r.state step = .ok next)
      (hterminal : terminal.state = next)
      (hsuccess : terminal = .settled none ↔ r.state = .published)
      (hr' : L'.invocations r.id = some (InvocationRecord.moved { r with
        actual := actual, terminal := some terminal, debited := debited } next now))
      (hkeeps : L.Keeps L' r)

/-- The fate of an invocation that a step does not write. -/
theorem Fate.of_update {r₀ : InvocationRecord}
    (hset : L'.invocations = Function.update L.invocations r₀.id (some r₀)) (hne : r.id ≠ r₀.id)
    (hr : L.invocations r.id = some r) (hkeeps : L.Keeps L' r) : L.Fate L' r := by
  refine .idle ?_ hkeeps
  rw [hset, Function.update_of_ne hne, hr]

theorem withBlob_eq (haddressed : ∀ t address bytes, L.blobs (t, address) = some bytes →
      address = (L.address t).blobAddress bytes ∧
        ((L.profiles t).isSome ∨ (L.tombstones t).isSome)) (tenant : TenantId) (envelope : Bytes) :
    L.withBlob tenant envelope (tenant, (L.address tenant).blobAddress envelope) =
      some envelope := by
  obtain ⟨bytes, hbytes⟩ := Option.isSome_iff_exists.mp (withBlob_self (L := L) tenant envelope)
  rw [hbytes]
  rcases withBlob_cases hbytes with hold | ⟨-, -, rfl⟩
  · -- An envelope that is there already has the same address, so it is the same.
    have heq := (haddressed _ _ _ hold).1
    rw [AddressKeys.blobAddress_injective heq]
  · rfl

/-- **What a transaction does to a stored invocation.** -/
theorem Filed.fate_of_write (h : L.Filed) (hnamed : L.InvocationsNamed) {t : Transaction C}
    (hext : L.toBook.Extends L'.toBook) (hwrite : L.Write t L')
    (hr : L.invocations r.id = some r) : L.Fate L' r := by
  cases hwrite with
  | quiet | refuse | recordAudit | installRootGrant | issueGrant | revokeGrant | openSession =>
    exact .idle hr (SameFiles.keeps (.of_extends hext rfl rfl rfl rfl rfl fun _ _ => rfl) r)
  | begin intent _ _ _ _ _ hadmits =>
    obtain ⟨f, rfl, -⟩ := Book.moveLedgers_frame hadmits.debit
    refine .of_update rfl ?_ hr
      (SameFiles.keeps (.of_extends hext rfl rfl rfl rfl rfl fun _ _ => rfl) r)
    rintro (heq : r.id = intent.invocation)
    rw [heq, hadmits.new] at hr
    cases hr
  | dispatch id r₀ now _ hr₀ hstate =>
    obtain rfl := hnamed id r₀ hr₀
    have hkeeps := SameFiles.keeps (.of_extends hext rfl rfl rfl rfl rfl fun _ _ => rfl) r
    by_cases heq : r.id = r₀.id
    · rw [heq, hr₀] at hr
      cases hr
      exact .dispatch now hstate (Function.update_self ..) hkeeps
    · exact .of_update rfl heq hr hkeeps
  | completeTransfer id r₀ transfer now _ hr₀ hstate =>
    obtain rfl := hnamed id r₀ hr₀
    by_cases heq : r.id = r₀.id
    · rw [heq, hr₀] at hr
      cases hr
      exact .transfer transfer now hstate (Function.update_self ..) (Function.update_self ..)
        (withBlob_eq h.addressed _ _)
    · exact .of_update rfl heq hr (keeps_of_transfer hext heq rfl rfl rfl rfl rfl)
  | publish id r₀ a published now _ hr₀ hstate ha _ _ howner =>
    obtain rfl := hnamed id r₀ hr₀
    obtain ⟨a', hstages⟩ := (h.records _ r₀ hr₀).staged hstate
    obtain rfl := Option.some.inj (ha.symm.trans hstages.pending)
    have hartifact := hstages.isFor.artifact
    by_cases heq : r.id = r₀.id
    · rw [heq, hr₀] at hr
      cases hr
      refine .publish a published now hstate ha (Function.update_self ..) ?_
      rw [← hartifact]
      exact Function.update_self ..
    · refine .of_update rfl heq hr (keeps_of_publish hext heq hartifact (fun session hsession => ?_)
        rfl rfl rfl rfl rfl)
      obtain ⟨sr, hsr, -⟩ := howner session hsession
      exact ⟨sr, hsr⟩
  | finish id r₀ step next terminal settlement actual now _ _ ht hr₀ hnext hterminal hends hpaid =>
    obtain ⟨f, rfl, -⟩ := Book.moveLedgers_frame hpaid
    obtain rfl := hnamed id r₀ hr₀
    have hkeeps := SameFiles.keeps (.of_extends hext rfl rfl rfl rfl rfl fun _ _ => rfl) r
    by_cases heq : r.id = r₀.id
    · rw [heq, hr₀] at hr
      cases hr
      exact .finish step next terminal actual (some settlement.debit) now hnext hterminal
        (hends.success ht hnext) (Function.update_self ..) hkeeps
    · exact .of_update rfl heq hr hkeeps

/-- **What a step does to a stored invocation.** -/
theorem Filed.fate (h : L.Filed) (hnamed : L.InvocationsNamed) (hstep : Custody.Step L L')
    (hr : L.invocations r.id = some r) : L.Fate L' r := by
  have hext := hstep.extends hnamed
  cases hstep with
  | transact t hrun => exact h.fate_of_write hnamed hext (transact_write t hrun) hr
  | register =>
    exact .idle hr ⟨rfl, fun _ h => h, fun _ h => h, fun _ _ h => h, fun _ _ h => h,
      fun _ _ _ h => h⟩
  | bind | shred | clock =>
    exact .idle hr (SameFiles.keeps (.of_extends hext rfl rfl rfl rfl rfl fun _ _ => rfl) r)

/-- **A visible capture stays visible**, and its records stay as they are. -/
theorem Filed.visible_step (h : L.Filed) (hnamed : L.InvocationsNamed)
    (hstep : Custody.Step L L') (hr : L.invocations r.id = some r) (hvisible : r.Visible) :
    ∃ r', L'.invocations r.id = some r' ∧ r.SameCall r' ∧ r'.Visible ∧ L.Keeps L' r := by
  have hstate := (h.records _ r hr).state_of_visible hvisible
  cases h.fate hnamed hstep hr with
  | idle hr' hkeeps => exact ⟨r, hr', .refl r, hvisible, hkeeps⟩
  | dispatch _ hopen =>
    rw [hopen] at hstate
    exact hstate.elim nofun nofun
  | transfer _ _ hopen =>
    rw [hopen] at hstate
    exact hstate.elim nofun nofun
  | publish _ _ _ hopen =>
    rw [hopen] at hstate
    exact hstate.elim nofun nofun
  | finish _ _ _ _ _ _ hnext _ hsuccess hr' hkeeps =>
    refine ⟨_, hr', ⟨rfl, rfl, rfl, rfl, rfl, rfl, rfl, rfl⟩, .inr ?_, hkeeps⟩
    refine congrArg some (hsuccess.mpr (hstate.resolve_right fun hsettled => ?_))
    have hopen := not_isTerminal_of_nextState hnext
    rw [hsettled] at hopen
    cases hopen

end

end Custody
end Dioptron
