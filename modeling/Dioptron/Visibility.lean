import Dioptron.Publications
import Dioptron.Pages

/-! # What readers see of a capture

`artifact`, `read_artifact` and the pages of a session's index show a capture when it is
published or was settled as a success, and not before: a visible capture has all the
records the three of them read, any other has no locator and no index entry.
-/
namespace Dioptron

open Relation (ReflTransGen)

variable {C : Crypto} {K : KeyState C} {L : Custody C} {w w' : World C} {sr : SessionRecord}
  {r : InvocationRecord}

/-- The first `limit` of some references, and whether there are more. -/
def QueryPage.first (refs : List ArtifactRef) (limit : UInt32) : QueryPage :=
  ⟨refs.take limit.toNat, decide (limit.toNat < refs.length)⟩

namespace Store

/-- The metadata of a published artifact. -/
def artifact (s : Store C) (id : ArtifactRef) : Except Error (Option ArtifactInfo) :=
  (s.commit (Tx.artifact id)).map Prod.fst

/-- A slice of a published artifact's envelope. -/
def readArtifact (s : Store C) (id : ArtifactRef) (offset : UInt64) (len : UInt32) :
    Except Error (Option ReadChunk) :=
  (s.commit (Tx.readArtifact id offset len)).map Prod.fst

/-- `refs` is the listing of a session: any page of it is a stretch of `refs`. -/
structure Lists (s : Store C) (session : SessionId) (refs : List ArtifactRef) : Prop where
  sorted : refs.Pairwise fun a b => a.bits.toNat < b.bits.toNat
  pages : ∀ after limit, s.sessionArtifacts session after limit =
    .ok (some (.first (refs.filter fun ref => ∀ a ∈ after, a.bits.toNat < ref.bits.toNat) limit))

end Store

/-- A read of the store answers what it answers on the book. -/
theorem Represents.read_eq {L' : Custody C} {s : Store C} (h : Represents K L s) {α : Type}
    {tx : Tx C α} {a : α} (hL : L.run tx = .ok (a, L')) : (s.commit tx).map Prod.fst = .ok a := by
  obtain ⟨s', hs', -⟩ := h.commit_of_run hL
  rw [hs']
  rfl

namespace Custody

variable {L : Custody C} {r : InvocationRecord} {a : ArtifactRecord C.Block} {published : Timestamp}
  {ref : ArtifactRef}

/-! ## One artifact -/

theorem run_liveTenantKeys {t : TenantId} (h : (L.profiles t).isSome) :
    L.run (Tx.liveTenantKeys t) = .ok (some ⟨t⟩, L) := by
  rw [Tx.liveTenantKeys, run_perform]
  simp only [handler, (checkLive_eq_ok (u := ()) L).mpr h]

theorem run_published_of_none (h : L.locators ref = none) :
    L.run (Tx.published ref) = .ok (none, L) := by
  rw [Tx.published, run_bind_of_ok (run_locatorRecord L ref), h]
  rfl

theorem Shows.run_published (h : L.Shows r a published) (hlive : (L.profiles r.tenant).isSome) :
    L.run (Tx.published (artifactRef r.id)) = .ok (some (a, ⟨r.tenant⟩), L) := by
  have hside : L.run (Tx.sealedRecord (ArtifactRecord C.Block) ⟨r.tenant⟩
      (.artifact (artifactRef r.id))) = .ok (some a, L) :=
    (run_sealedRecord_ok L (x := L.artifacts (r.tenant, artifactRef r.id)) rfl).mpr
      ⟨hlive, by rw [h.side]⟩
  rw [Tx.published, run_bind_of_ok (run_locatorRecord L _), h.located]
  dsimp only
  rw [run_bind_of_ok (run_liveTenantKeys hlive)]
  dsimp only
  rw [run_bind_of_ok hside]
  rfl

/-- A visible capture's metadata can be read. -/
theorem Shows.run_artifact (h : L.Shows r a published) (hlive : (L.profiles r.tenant).isSome) :
    L.run (Tx.artifact (artifactRef r.id)) = .ok (some (a.info published), L) := by
  rw [Tx.artifact, run_bind_of_ok (h.run_published hlive)]
  dsimp only
  rw [h.time]
  rfl

/-- Nothing is read of a capture whose tenant is shredded. -/
theorem Shows.run_artifact_of_shredded (h : L.Shows r a published)
    (hgone : L.profiles r.tenant = none) (hstone : (L.tombstones r.tenant).isSome) :
    L.run (Tx.artifact (artifactRef r.id)) = .ok (none, L) := by
  obtain ⟨stone, hstone⟩ := Option.isSome_iff_exists.mp hstone
  have hkeys : L.run (Tx.liveTenantKeys r.tenant) = .ok (none, L) := by
    rw [Tx.liveTenantKeys, run_perform]
    simp only [handler, checkLive, hgone, hstone]
  have hpublished : L.run (Tx.published (artifactRef r.id)) = .ok (none, L) := by
    rw [Tx.published, run_bind_of_ok (run_locatorRecord L _), h.located]
    dsimp only
    rw [run_bind_of_ok hkeys]
    rfl
  rw [Tx.artifact, run_bind_of_ok hpublished]
  rfl

/-- A visible capture's envelope can be read. -/
theorem Shows.run_readArtifact (h : L.Shows r a published) (hlive : (L.profiles r.tenant).isSome)
    {bytes : Bytes} (hbytes : L.blobs (r.tenant, a.blobAddress) = some bytes) (offset : UInt64)
    (len : UInt32) :
    L.run (Tx.readArtifact (artifactRef r.id) offset len) =
      .ok (some (Tx.chunkOf bytes offset len), L) := by
  have hblob : L.run (.perform (.getSealed ⟨r.tenant⟩ (.blob a.blobAddress))) =
      .ok (some (.blob bytes), L) := by
    rw [run_perform]
    simp only [handler, (checkLive_eq_ok (u := ()) L).mpr hlive, ok_bind, sealed, hbytes]
    rfl
  rw [Tx.readArtifact, run_bind_of_ok (h.run_published hlive)]
  dsimp only
  rw [run_bind_of_ok hblob]
  rfl

/-- Nothing is read of an artifact without a locator. -/
theorem run_artifact_of_none (h : L.locators ref = none) :
    L.run (Tx.artifact ref) = .ok (none, L) := by
  rw [Tx.artifact, run_bind_of_ok (run_published_of_none h)]
  rfl

theorem run_readArtifact_of_none (h : L.locators ref = none) (offset : UInt64) (len : UInt32) :
    L.run (Tx.readArtifact ref offset len) = .ok (none, L) := by
  rw [Tx.readArtifact, run_bind_of_ok (run_published_of_none h)]
  rfl

/-- A capture no reader may see has no locator. -/
theorem Filed.locator_eq_none (h : L.Filed) {id : InvocationId} (hr : L.invocations id = some r)
    (hhidden : ¬r.Visible) : L.locators (artifactRef id) = none := by
  cases hl : L.locators (artifactRef id) with
  | none => rfl
  | some l =>
    obtain ⟨r', hr', hvisible⟩ := h.located _ l hl
    rw [artifactRef_cast, hr] at hr'
    cases hr'
    exact absurd hvisible hhidden

/-! ## What was transferred is what is read -/

/-- The capture `id` of `t` keeps its envelope and its side record `a`, pending or
published. -/
structure Carries (L : Custody C) (id : InvocationId) (t : TenantId) (a : ArtifactRecord C.Block)
    (envelope : Bytes) : Prop where
  blob : L.blobs (t, a.blobAddress) = some envelope
  record : ∃ r, L.invocations id = some r ∧ r.tenant = t ∧
    (r.state = .transferComplete ∧ L.pending (t, id) = some a ∨
      r.Visible ∧ ∃ published, L.artifacts (t, artifactRef id) =
        some { a with publishedAt := some published })

namespace Carries

variable {L' : Custody C} {id : InvocationId} {t : TenantId} {envelope : Bytes}

/-- **One step** leaves the envelope and the side record of a transferred capture. -/
theorem step (h : L.Carries id t a envelope) (hfiled : L.Filed) (hnamed : L.InvocationsNamed)
    (hstep : Custody.Step L L') : L'.Carries id t a envelope := by
  obtain ⟨hblob, r, hr, rfl, hrecord⟩ := h
  obtain rfl := hnamed id r hr
  refine ⟨hstep.blobs_kept hblob, ?_⟩
  rcases hrecord with ⟨hstate, hpending⟩ | ⟨hvisible, published, hside⟩
  · cases hfiled.fate hnamed hstep hr with
    | idle hr' hkeeps =>
      exact ⟨r, hr', rfl, .inl ⟨hstate, hkeeps.pending.trans hpending⟩⟩
    | publish _ published _ _ ha hr' hside =>
      obtain rfl := Option.some.inj (hpending.symm.trans ha)
      exact ⟨_, hr', rfl, .inr ⟨.inl rfl, published, hside⟩⟩
    | dispatch now hopen | transfer transfer now hopen =>
      rw [hstate] at hopen
      cases hopen
    | finish step _ terminal _ _ _ hnext hterminal =>
      -- The only step from here is a publication, which finishes nothing.
      have htarget := nextState_eq_ok.mp hnext
      have hclosed := terminal.isTerminal_state
      rw [hstate] at htarget
      rw [hterminal] at hclosed
      cases step <;> cases htarget
      cases hclosed
  · obtain ⟨r', hr', hsame, hvisible', hkeeps⟩ := hfiled.visible_step hnamed hstep hr hvisible
    exact ⟨r', hr', hsame.tenant, .inr ⟨hvisible', published, hkeeps.artifacts _ hside⟩⟩

/-- **A run** leaves the envelope and the side record of a transferred capture. -/
theorem run (h : L.Carries id t a envelope) (hreach : L.Reachable)
    (hrun : ReflTransGen Custody.Step L L') : L'.Carries id t a envelope := by
  induction hrun with
  | refl => exact h
  | tail hrun hlast ih =>
    have hmid : Custody.Reachable _ := hreach.trans hrun
    exact ih.step hmid.filed hmid.named.invocations hlast

/-- A transferred capture carries what was transferred. -/
theorem of_transfer (hfiled : L.Filed) (hnamed : L.InvocationsNamed) {transfer : Transfer}
    {status : InvocationStatus}
    (hrun : L.run (Tx.completeTransfer id transfer) = .ok (status, L')) :
    ∃ r, L.invocations id = some r ∧ L'.Carries id r.tenant
      (Tx.pendingArtifact r transfer ((L.address r.tenant).blobAddress transfer.envelope))
      transfer.envelope := by
  have hwrite : L.Write (.completeTransfer id transfer) L' :=
    transact_write (.completeTransfer ..) hrun
  cases hwrite with
  | quiet ht => cases ht
  | refuse _ _ _ _ hentry => cases hentry
  | openSession _ _ _ _ _ ht => cases ht
  | finish _ _ _ _ _ _ _ _ _ _ ht => cases ht
  | completeTransfer id r _ _ _ hr =>
    obtain rfl := hnamed id r hr
    exact ⟨r, hr, withBlob_eq hfiled.addressed _ _, _, Function.update_self .., rfl,
      .inl ⟨rfl, Function.update_self ..⟩⟩

end Carries

/-- A produced capture was transferred by this transaction or produced before it. -/
theorem Write.produced_cases {L' : Custody C} {t : Transaction C} (h : L.Write t L')
    (hnamed : L.InvocationsNamed) {id : InvocationId} {r' : InvocationRecord}
    (hr' : L'.invocations id = some r') (hproduced : r'.state = .transferComplete ∨ r'.Visible) :
    (∃ transfer, t = .completeTransfer id transfer) ∨
      ∃ r, L.invocations id = some r ∧ (r.state = .transferComplete ∨ r.Visible) := by
  cases h with
  | quiet | refuse | recordAudit | installRootGrant | issueGrant | revokeGrant | openSession =>
    exact .inr ⟨r', hr', hproduced⟩
  | begin _ _ _ _ _ _ hadmits =>
    obtain ⟨f, rfl, -⟩ := Book.moveLedgers_frame hadmits.debit
    rcases update_eq_some hr' with ⟨-, rfl⟩ | ⟨-, hr'⟩
    · rcases hproduced with hstate | hstate | hterminal
      · cases hstate
      · cases hstate
      · cases hterminal
    · exact .inr ⟨r', hr', hproduced⟩
  | dispatch id₀ r₀ _ _ hr₀ =>
    obtain rfl := hnamed id₀ r₀ hr₀
    rcases update_eq_some hr' with ⟨heq, rfl⟩ | ⟨-, hr'⟩
    · obtain rfl : id = r₀.id := heq
      rcases hproduced with hnow | hnow | hterminal
      · cases hnow
      · cases hnow
      · exact .inr ⟨r₀, hr₀, .inr (.inr hterminal)⟩
    · exact .inr ⟨r', hr', hproduced⟩
  | completeTransfer id₀ r₀ transfer _ _ hr₀ =>
    obtain rfl := hnamed id₀ r₀ hr₀
    rcases update_eq_some hr' with ⟨heq, -⟩ | ⟨-, hr'⟩
    · exact .inl ⟨transfer, congrArg (Transaction.completeTransfer · transfer) (Eq.symm heq)⟩
    · exact .inr ⟨r', hr', hproduced⟩
  | publish id₀ r₀ _ _ _ _ hr₀ hstate =>
    obtain rfl := hnamed id₀ r₀ hr₀
    rcases update_eq_some hr' with ⟨heq, -⟩ | ⟨-, hr'⟩
    · obtain rfl : id = r₀.id := heq
      exact .inr ⟨r₀, hr₀, .inl hstate⟩
    · exact .inr ⟨r', hr', hproduced⟩
  | finish id₀ r₀ _ next terminal _ _ _ _ _ ht hr₀ hnext hterminal hends hpaid =>
    obtain ⟨f, rfl, -⟩ := Book.moveLedgers_frame hpaid
    obtain rfl := hnamed id₀ r₀ hr₀
    rcases update_eq_some hr' with ⟨heq, rfl⟩ | ⟨-, hr'⟩
    · obtain rfl : id = r₀.id := heq
      have hclosed : next.isTerminal = true := hterminal ▸ terminal.isTerminal_state
      rcases hproduced with hnow | hnow | hsettled
      · obtain rfl : next = .transferComplete := hnow
        cases hclosed
      · obtain rfl : next = .published := hnow
        cases hclosed
      · have hpublished := (hends.success ht hnext).mp (Option.some.inj hsettled)
        exact .inr ⟨r₀, hr₀, .inr (.inl hpublished)⟩
    · exact .inr ⟨r', hr', hproduced⟩

/-- **A run** leaves a visible capture visible, with the records it had. -/
theorem Reachable.shows_run {L' : Custody C} (h : L.Reachable)
    (hrun : ReflTransGen Custody.Step L L') (hr : L.invocations r.id = some r)
    (hvisible : r.Visible) (hshows : L.Shows r a published) :
    ∃ r', L'.invocations r.id = some r' ∧ r.SameCall r' ∧ r'.Visible ∧
      L'.Shows r' a published := by
  induction hrun with
  | refl => exact ⟨r, hr, .refl r, hvisible, hshows⟩
  | tail hrun hlast ih =>
    obtain ⟨q, hq, hsame, hq_visible, hq_shows⟩ := ih
    have hmid : Custody.Reachable _ := h.trans hrun
    rw [← hsame.id] at hq
    obtain ⟨q', hq', hsame', hq'_visible, hkeeps⟩ :=
      hmid.filed.visible_step hmid.named.invocations hlast hq hq_visible
    have hkept := hkeeps.shows hq_shows
    refine ⟨q', hsame.id ▸ hq', hsame.trans hsame', hq'_visible, ?_⟩
    exact ⟨by rw [hsame'.id, hsame'.tenant, hsame'.session]; exact hkept.located,
      by rw [hsame'.id, hsame'.tenant]; exact hkept.side,
      ⟨by rw [hsame'.id]; exact hkept.isFor.artifact,
        by rw [hsame'.tenant]; exact hkept.isFor.tenant,
        by rw [hsame'.session]; exact hkept.isFor.session⟩,
      hkept.time, by rw [hsame'.tenant]; exact hkept.blob,
      by rw [hsame'.session, hsame'.id, hsame'.tenant]; exact hkept.index⟩

end Custody

/-! ## Runs of the store -/

/-- In the past of `w`, the capture `id` was transferred. -/
def World.Transferred (w : World C) (id : InvocationId) (transfer : Transfer) : Prop :=
  ∃ (w₀ w₁ : World C) (status : InvocationStatus), w₀.Reachable ∧ w₁.drawn = w₀.drawn ∧
    w₀.store.commit (Tx.completeTransfer id transfer) = .ok (status, w₁.store) ∧
    ReflTransGen World.Step w₁ w

theorem World.Transferred.next {id : InvocationId} {transfer : Transfer}
    (h : w.Transferred id transfer) (hstep : World.Step w w') : w'.Transferred id transfer := by
  obtain ⟨w₀, w₁, status, hreach, hdrawn, hcommit, hrun⟩ := h
  exact ⟨w₀, w₁, status, hreach, hdrawn, hcommit, hrun.tail hstep⟩

/-- **Every produced capture was transferred.** -/
theorem World.Reachable.exists_transferred (h : w.Reachable) :
    ∀ id r, w.store.invocationAt id = some r → r.state = .transferComplete ∨ r.Visible →
      ∃ transfer, w.Transferred id transfer := by
  refine @Dioptron.Reachable.invariant _ _ _ (fun w : World C => ∀ id r,
    w.store.invocationAt id = some r → r.state = .transferComplete ∨ r.Visible →
      ∃ transfer, w.Transferred id transfer) _ h ?_ ?_
  · rintro w₀ ⟨root, salt, nonce, clock, rfl⟩ id r hr
    have hrep := Represents.create root salt nonce
      (⟨initialDataKeyId, root⟩ : TenantDataKey C).address clock
    rw [hrep.invocationAt_eq] at hr
    cases hr
  · intro w w' hreach ih hstep id r' hr' hproduced
    obtain ⟨K, L, h⟩ := World.Reachable.holds hreach
    -- An invocation that was produced before has its transfer before.
    have hold {r : InvocationRecord} (hr : L.invocations id = some r)
        (hproduced : r.state = .transferComplete ∨ r.Visible) :
        ∃ transfer, w'.Transferred id transfer := by
      rw [← h.represents.invocationAt_eq] at hr
      obtain ⟨transfer, htransferred⟩ := ih id r hr hproduced
      exact ⟨transfer, htransferred.next hstep⟩
    cases hstep with
    | environment nonce clock =>
      rw [((h.represents.setNonce nonce).setClock clock).invocationAt_eq] at hr'
      exact hold hr' hproduced
    | operate op hrun hfresh =>
      obtain ⟨K', L', h', -, hsame | ⟨t, reply, rfl, hL'⟩⟩ := h.operate op hrun hfresh
      · rw [h'.represents.invocationAt_eq, hsame] at hr'
        exact hold hr' hproduced
      · rw [h'.represents.invocationAt_eq] at hr'
        have hwrite := Custody.transact_write t hL'
        rcases hwrite.produced_cases h.reachable.named.invocations hr' hproduced with
          ⟨transfer, rfl⟩ | ⟨r, hr, hproduced⟩
        · obtain ⟨⟨status, s⟩, hcommit, rfl⟩ := map_eq_ok.mp hrun
          have hdrawn : w.drawn ∪ {d | d ∈ (Operation.transact (C := C)
              (.completeTransfer id transfer)).draw} = w.drawn :=
            Set.union_eq_self_of_subset_right fun d hd => by cases hd
          exact ⟨transfer, w, ⟨s, _⟩, status, hreach, hdrawn, hcommit, .refl⟩
        · exact hold hr hproduced

/-! ## The listing of a session -/

/-- The index of a session with a live owner is its listing. -/
theorem Represents.exists_lists {s : Store C} (h : Represents K L s) {session : SessionId}
    (hsr : L.sessions session = some sr) (hlive : (L.profiles sr.owner).isSome)
    (hnames : ∀ ref e, L.sessionIndex (sr.owner, session, ref) = some e → e.artifact = ref) :
    ∃ refs, s.Lists session refs ∧
      ∀ ref, ref ∈ refs ↔ (L.sessionIndex (sr.owner, session, ref)).isSome := by
  obtain ⟨refs, hrefs, -⟩ := h.sessionArtifacts_eq hsr hlive hnames none 0
  refine ⟨refs, ⟨hrefs.sorted, fun after limit => ?_⟩, fun ref => ?_⟩
  · obtain ⟨rest, hrest, hpage⟩ := h.sessionArtifacts_eq hsr hlive hnames after limit
    have heq : rest = refs.filter fun ref => ∀ a ∈ after, a.bits.toNat < ref.bits.toNat := by
      refine hrest.sorted.eq_of_mem_iff (hrefs.sorted.filter _) fun ref => ?_
      rw [hrest.mem, List.mem_filter, hrefs.mem]
      simp
    rw [hpage, heq]
    rfl
  · rw [hrefs.mem]
    simp

/-- What a transfer delivered is what the metadata of its artifact says. -/
structure ArtifactInfo.Of (info : ArtifactInfo) (transfer : Transfer) : Prop where
  source : info.source = transfer.source
  textView : info.textView = transfer.textView
  truncated : info.truncated = transfer.truncated
  outputBytes : info.outputBytes = transfer.outputBytes
  revokedAfterEffect : info.revokedAfterEffect = transfer.revokedAfterEffect

/-- A tenant that is not shredded was not before. -/
theorem World.Reachable.unshredded (h : w.Reachable) (hrun : ReflTransGen World.Step w w')
    {t : TenantId} (hnone : w'.store.tombstoneAt t = none) : w.store.tombstoneAt t = none := by
  obtain ⟨K, L, hw⟩ := h.holds
  obtain ⟨K', L', hw', hsteps⟩ := hw.run hrun
  rw [hw'.represents.tombstoneAt_eq] at hnone
  rw [hw.represents.tombstoneAt_eq]
  by_contra hsome
  have hkept := (hw.reachable.extends hsteps).tombstones t (Option.isSome_iff_ne_none.mpr hsome)
  rw [hnone] at hkept
  cases hkept

theorem World.Reachable.sessionAt_kept (h : w.Reachable) (hrun : ReflTransGen World.Step w w')
    {session : SessionId} {r : SessionRecord} (hr : w.store.sessionAt session = some r) :
    w'.store.sessionAt session = some r := by
  obtain ⟨K, L, hw⟩ := h.holds
  obtain ⟨K', L', hw', hsteps⟩ := hw.run hrun
  rw [hw.represents.sessionAt_eq] at hr
  rw [hw'.represents.sessionAt_eq]
  exact (hw.reachable.extends hsteps).sessions session r hr

/-- A visible capture of a tenant that is not shredded is read. -/
theorem World.Holds.reads_visible (h : w.Holds K L) {a : ArtifactRecord C.Block}
    {published : Timestamp} {envelope : Bytes} (hshows : L.Shows r a published)
    (hblob : L.blobs (r.tenant, a.blobAddress) = some envelope)
    (hstone : w.store.tombstoneAt r.tenant = none) :
    w.store.artifact (artifactRef r.id) = .ok (some (a.info published)) ∧
      ∀ offset len, w.store.readArtifact (artifactRef r.id) offset len =
        .ok (some (Tx.chunkOf envelope offset len)) := by
  rw [h.represents.tombstoneAt_eq] at hstone
  -- Who has an envelope was registered.
  have hlive : (L.profiles r.tenant).isSome := by
    refine ((h.reachable.filed.addressed _ _ _ hblob).2).resolve_right ?_
    rw [hstone]
    exact nofun
  exact ⟨h.represents.read_eq (hshows.run_artifact hlive),
    fun offset len => h.represents.read_eq (hshows.run_readArtifact hlive hblob offset len)⟩

/-- The listing of a session shows its visible captures and nothing else. -/
theorem World.Holds.exists_listing_iff (h : w.Holds K L) {session : SessionId}
    (hsr : L.sessions session = some sr) (hstone : w.store.tombstoneAt sr.owner = none) :
    ∃ refs, w.store.Lists session refs ∧ ∀ ref, ref ∈ refs ↔
      ∃ id r, ref = artifactRef id ∧ w.store.invocationAt id = some r ∧
        r.session = some session ∧ r.Visible := by
  rw [h.represents.tombstoneAt_eq] at hstone
  have hfiled := h.reachable.filed
  have hlive : (L.profiles sr.owner).isSome := by
    refine (h.reachable.attended.owners session sr hsr).resolve_right ?_
    rw [hstone]
    exact nofun
  obtain ⟨refs, hlists, hmem⟩ := h.represents.exists_lists hsr hlive
    fun ref e he => (hfiled.indexed _ _ ref e he).1
  refine ⟨refs, hlists, fun ref => ?_⟩
  rw [hmem, h.represents.invocationAt_eq]
  constructor
  · intro hindexed
    obtain ⟨e, he⟩ := Option.isSome_iff_exists.mp hindexed
    obtain ⟨-, r, -, hr, hvisible, hsession, -⟩ := hfiled.indexed _ _ _ e he
    exact ⟨ref.cast, r, rfl, hr, hsession, hvisible⟩
  · rintro ⟨id, r, rfl, hr, hsession, hvisible⟩
    obtain rfl := h.reachable.named.invocations id r hr
    obtain ⟨a, published, hshows⟩ := (hfiled.records _ r hr).visible hvisible
    obtain ⟨sr', hsr', hindex⟩ := hshows.index session hsession
    obtain rfl := Option.some.inj (hsr.symm.trans hsr')
    rw [hindex]
    rfl

/-- So a capture in the session is listed when it is visible. -/
theorem World.Holds.exists_listing (h : w.Holds K L) {session : SessionId}
    (hsr : L.sessions session = some sr) (hstone : w.store.tombstoneAt sr.owner = none) :
    ∃ refs, w.store.Lists session refs ∧ ∀ id r, w.store.invocationAt id = some r →
      r.session = some session → (artifactRef id ∈ refs ↔ r.Visible) := by
  obtain ⟨refs, hlists, hmem⟩ := h.exists_listing_iff hsr hstone
  refine ⟨refs, hlists, fun id r hr hsession => ?_⟩
  rw [hmem]
  constructor
  · rintro ⟨id', r', heq, hr', -, hvisible⟩
    obtain rfl := artifactRef_injective heq
    cases hr.symm.trans hr'
    exact hvisible
  · exact fun hvisible => ⟨id, r, rfl, hr, hsession, hvisible⟩

/-- A visible capture stays visible and reads as it was transferred, after any run. -/
theorem World.Transferred.shown {id : InvocationId} {transfer : Transfer}
    (h : w.Transferred id transfer) (hr : w.store.invocationAt id = some r) (hvisible : r.Visible) :
    transfer.envelope.length ≤ maxPlaintextLen ∧
    ∃ info, info.Of transfer ∧ info.session = r.session ∧
      ∀ w', ReflTransGen World.Step w w' →
        (∃ r', w'.store.invocationAt id = some r' ∧ r'.session = r.session ∧ r'.Visible) ∧
        (w'.store.tombstoneAt r.tenant = none →
          w'.store.artifact (artifactRef id) = .ok (some info) ∧
          ∀ offset len, w'.store.readArtifact (artifactRef id) offset len =
            .ok (some (Tx.chunkOf transfer.envelope offset len))) := by
  obtain ⟨w₀, w₁, status, hreach₀, hdrawn, hcommit, hrun⟩ := h
  -- Follow the book from the transfer on.
  obtain ⟨K₀, L₀, hw₀⟩ := hreach₀.holds
  obtain ⟨L₁, hL₁, hrep₁⟩ := hw₀.represents.commit_ok hcommit
  have hw₁ : w₁.Holds K₀ L₁ :=
    ⟨hrep₁, hw₀.reachable.next (.transact (.completeTransfer id transfer) hL₁), by
      rw [hdrawn]
      exact hw₀.drawn⟩
  obtain ⟨r₀, -, hcarries⟩ := Custody.Carries.of_transfer hw₀.reachable.filed
    hw₀.reachable.named.invocations hL₁
  obtain ⟨K', L', hw', hsteps⟩ := hw₁.run hrun
  have hnow := hcarries.run hw₁.reachable hsteps
  obtain ⟨r', hr', htenant', hrecord⟩ := hnow.record
  rw [hw'.represents.invocationAt_eq, hr'] at hr
  cases hr
  obtain rfl := hw'.reachable.named.invocations id r hr'
  have hfiles := hw'.reachable.filed.records _ r hr'
  obtain ⟨a, published, hshows⟩ := hfiles.visible hvisible
  have hside : ∃ published', a = { Tx.pendingArtifact r₀ transfer
      ((L₀.address r₀.tenant).blobAddress transfer.envelope) with
        publishedAt := some published' } := by
    rcases hrecord with ⟨hstate, -⟩ | ⟨-, published', hside⟩
    · rcases hfiles.state_of_visible hvisible with hstate' | hstate' <;>
        rw [hstate] at hstate' <;> cases hstate'
    · refine ⟨published', Option.some.inj (hshows.side.symm.trans ?_)⟩
      rw [htenant']
      exact hside
  obtain ⟨published', rfl⟩ := hside
  obtain rfl : published' = published := Option.some.inj hshows.time
  have hsize : C.encodedLen (.blob transfer.envelope) ≤ maxPlaintextLen :=
    hw'.represents.sized (.sealed r₀.tenant (.blob _)) _
      (congrArg (Option.map Plain.blob) hnow.blob)
  rw [C.encodedLen_blob] at hsize
  refine ⟨hsize, ArtifactRecord.info { Tx.pendingArtifact r₀ transfer
      ((L₀.address r₀.tenant).blobAddress transfer.envelope) with
        publishedAt := some published' } published', ⟨rfl, rfl, rfl, rfl, rfl⟩,
    hshows.isFor.session, fun w'' hrun' => ?_⟩
  obtain ⟨K'', L'', hw'', hsteps'⟩ := hw'.run hrun'
  obtain ⟨r'', hr'', hsame, hvisible'', hshows''⟩ :=
    hw'.reachable.shows_run hsteps' hr' hvisible hshows
  refine ⟨⟨r'', ?_, hsame.session, hvisible''⟩, fun hstone => ?_⟩
  · rw [hw''.represents.invocationAt_eq]
    exact hr''
  · have hblob : L''.blobs (r''.tenant, (L₀.address r₀.tenant).blobAddress transfer.envelope) =
        some transfer.envelope := by
      rw [hsame.tenant, htenant']
      exact (hnow.run hw'.reachable hsteps').blob
    rw [← hsame.tenant] at hstone
    obtain ⟨hartifact, hread⟩ := hw''.reads_visible hshows'' hblob hstone
    rw [hsame.id] at hartifact hread
    exact ⟨hartifact, hread⟩

/-- **Atomic and immutable publication.**  In every reachable store, for an invocation in
a session whose tenant and session owner are not shredded: the session's listing,
`artifact` and `readArtifact` all show it when it is published or was settled as a success,
and none of them does otherwise.  What they show is what was transferred, byte for byte and
field for field, and after any further run that does not shred the tenant they show the
same. -/
theorem publication_atomic {w : World C} (h : w.Reachable) {id : InvocationId}
    {r : InvocationRecord} (hr : w.store.invocationAt id = some r) {session : SessionId}
    (hsession : r.session = some session) (htenant : w.store.tombstoneAt r.tenant = none)
    (howner : ∀ sr ∈ w.store.sessionAt session, w.store.tombstoneAt sr.owner = none) :
    (∃ refs, w.store.Lists session refs ∧ (artifactRef id ∈ refs ↔ r.Visible)) ∧
    ((∃ info, w.store.artifact (artifactRef id) = .ok (some info)) ↔ r.Visible) ∧
    (∀ offset len, (∃ chunk, w.store.readArtifact (artifactRef id) offset len =
      .ok (some chunk)) ↔ r.Visible) ∧
    (¬r.Visible → w.store.artifact (artifactRef id) = .ok none ∧
      ∀ offset len, w.store.readArtifact (artifactRef id) offset len = .ok none) ∧
    (r.Visible → (∃ transfer, w.Transferred id transfer) ∧
      ∀ transfer, w.Transferred id transfer → ∃ info, info.Of transfer ∧
        ∀ w', ReflTransGen World.Step w w' → w'.store.tombstoneAt r.tenant = none →
          w'.store.artifact (artifactRef id) = .ok (some info) ∧
          (∀ offset len, w'.store.readArtifact (artifactRef id) offset len =
            .ok (some (Tx.chunkOf transfer.envelope offset len))) ∧
          ∀ sr ∈ w'.store.sessionAt session, w'.store.tombstoneAt sr.owner = none →
            ∃ refs, w'.store.Lists session refs ∧ artifactRef id ∈ refs) := by
  have htransferred (hvisible : r.Visible) := h.exists_transferred id r hr (.inr hvisible)
  obtain ⟨K, L, hw⟩ := h.holds
  have hrL := hr
  rw [hw.represents.invocationAt_eq] at hrL
  have hhidden (hhidden : ¬r.Visible) : w.store.artifact (artifactRef id) = .ok none ∧
      ∀ offset len, w.store.readArtifact (artifactRef id) offset len = .ok none := by
    have hnone := hw.reachable.filed.locator_eq_none hrL hhidden
    exact ⟨hw.represents.read_eq (Custody.run_artifact_of_none hnone),
      fun offset len => hw.represents.read_eq (Custody.run_readArtifact_of_none hnone offset len)⟩
  refine ⟨?_, ⟨?_, ?_⟩, fun offset len => ⟨?_, ?_⟩, hhidden, ?_⟩
  · obtain ⟨sr, hsr⟩ := Option.isSome_iff_exists.mp
      (hw.reachable.attended.sessions id r hrL session hsession)
    obtain ⟨refs, hlists, hmem⟩ := hw.exists_listing hsr (howner sr (by
      rw [hw.represents.sessionAt_eq]
      exact hsr))
    exact ⟨refs, hlists, hmem id r hr hsession⟩
  · rintro ⟨info, hinfo⟩
    by_contra hnot
    rw [(hhidden hnot).1] at hinfo
    cases hinfo
  · intro hvisible
    obtain ⟨transfer, ht⟩ := htransferred hvisible
    obtain ⟨-, info, -, -, hshown⟩ := ht.shown hr hvisible
    exact ⟨info, ((hshown w .refl).2 htenant).1⟩
  · rintro ⟨chunk, hchunk⟩
    by_contra hnot
    rw [(hhidden hnot).2] at hchunk
    cases hchunk
  · intro hvisible
    obtain ⟨transfer, ht⟩ := htransferred hvisible
    obtain ⟨-, info, -, -, hshown⟩ := ht.shown hr hvisible
    exact ⟨_, ((hshown w .refl).2 htenant).2 offset len⟩
  · refine fun hvisible => ⟨htransferred hvisible, fun transfer ht => ?_⟩
    obtain ⟨-, info, hinfo, -, hshown⟩ := ht.shown hr hvisible
    refine ⟨info, hinfo, fun w' hrun hstone => ?_⟩
    obtain ⟨⟨r', hr', hsession', hvisible'⟩, hreads⟩ := hshown w' hrun
    obtain ⟨hartifact, hread⟩ := hreads hstone
    refine ⟨hartifact, hread, fun sr hsr hsrstone => ?_⟩
    have hreach : w'.Reachable := h.trans hrun
    obtain ⟨K', L', hw'⟩ := hreach.holds
    rw [hw'.represents.sessionAt_eq] at hsr
    obtain ⟨refs, hlists, hmem⟩ := hw'.exists_listing hsr hsrstone
    exact ⟨refs, hlists, (hmem id r' hr' (hsession'.trans hsession)).mpr hvisible'⟩

/-- The call of the small deployment, once `ts` brought it to `state`. -/
theorem Sample.exists_call (ts : List (Transaction Crypto.ideal)) (state : InvocationState)
    (terminal : Option Terminal) (hok : (Custody.runAll ts registered).toOption.isSome)
    (hcall : ((book ts).invocations call).map
      (fun r => (r.tenant, r.session, r.state, r.terminal)) =
      some (agent, some session, state, terminal))
    (hsession : ((book ts).sessions session).map SessionRecord.owner = some agent)
    (hstone : (book ts).tombstones agent = none) :
    ∃ (w : World Crypto.ideal) (r : InvocationRecord), w.Reachable ∧
      w.store.invocationAt call = some r ∧ r.session = some session ∧ r.state = state ∧
      r.terminal = terminal ∧ w.store.tombstoneAt r.tenant = none ∧
      ∀ sr ∈ w.store.sessionAt session, w.store.tombstoneAt sr.owner = none := by
  obtain ⟨w, K, hreach, h⟩ := exists_world ts hok
  obtain ⟨r, hr, heq⟩ := Option.map_eq_some_iff.mp hcall
  simp only [Prod.mk.injEq] at heq
  obtain ⟨htenant, hrsession, hstate, hterminal⟩ := heq
  refine ⟨w, r, ?_⟩
  rw [h.represents.tombstoneAt_eq, h.represents.invocationAt_eq, h.represents.sessionAt_eq]
  refine ⟨hreach, hr, hrsession, hstate, hterminal, htenant ▸ hstone, fun sr hsr => ?_⟩
  rw [Option.mem_def.mp hsr] at hsession
  rw [Option.some.inj hsession]
  exact hstone

/-- A capture of the small deployment, read before and after its publication. -/
theorem publication_atomic_of_capture :
    (∃ w : World Crypto.ideal, w.Reachable ∧
      w.store.artifact (artifactRef Sample.call) = .ok none) ∧
    ∃ (w : World Crypto.ideal) (refs : List ArtifactRef), w.Reachable ∧
      w.store.Lists Sample.session refs ∧ artifactRef Sample.call ∈ refs ∧
      ∃ chunk, w.store.readArtifact (artifactRef Sample.call) 0 3 = .ok (some chunk) := by
  refine ⟨?_, ?_⟩
  · obtain ⟨w, r, hreach, hr, hsession, hstate, hterminal, htenant, howner⟩ :=
      Sample.exists_call (Sample.setUp ++ Sample.capture.take 3) .transferComplete none
        (by decide +kernel) (by decide +kernel) (by decide +kernel) (by decide +kernel)
    have hhidden : ¬r.Visible := by
      rintro (hnow | hnow)
      · rw [hstate] at hnow
        cases hnow
      · rw [hterminal] at hnow
        cases hnow
    obtain ⟨-, -, -, hnone, -⟩ := publication_atomic hreach hr hsession htenant howner
    exact ⟨w, hreach, (hnone hhidden).1⟩
  · obtain ⟨w, r, hreach, hr, hsession, -, hterminal, htenant, howner⟩ :=
      Sample.exists_call (Sample.setUp ++ Sample.capture) .settled (some (.settled none))
        (by decide +kernel) (by decide +kernel) (by decide +kernel) (by decide +kernel)
    obtain ⟨⟨refs, hlists, hlisted⟩, -, hread, -⟩ :=
      publication_atomic hreach hr hsession htenant howner
    exact ⟨w, refs, hreach, hlists, hlisted.mpr (.inr hterminal), (hread 0 3).mpr (.inr hterminal)⟩

end Dioptron
