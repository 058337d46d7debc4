import Dioptron.Progress
import Dioptron.Readings

/-! # The artifacts of a session

A session's listing is read page by page, each page from the last artifact of the one
before.  A query is answered from the listing: the artifacts whose text view contains the
predicate, as many as asked for and as the frame has room for.  It reads the listing in one
page of the largest limit there is.
-/
namespace Dioptron

open Relation (ReflTransGen)

variable {C : Crypto} {refs : List ArtifactRef}

/-- `refs` are the artifacts published in a session, in the order of their ids. -/
structure Store.Published (s : Store C) (session : SessionId) (refs : List ArtifactRef) : Prop where
  sorted : refs.Pairwise fun a b => a.bits.toNat < b.bits.toNat
  mem : ∀ ref, ref ∈ refs ↔ ∃ id r, ref = artifactRef id ∧ s.invocationAt id = some r ∧
    r.session = some session ∧ r.Visible

/-- The artifacts after the cursor. -/
def later (after : Option ArtifactRef) (refs : List ArtifactRef) : List ArtifactRef :=
  refs.filter fun ref => after.all fun a => a.bits.toNat < ref.bits.toNat

theorem later_none (refs : List ArtifactRef) : later none refs = refs :=
  List.filter_eq_self.mpr fun _ _ => rfl

theorem mem_later {after : Option ArtifactRef} {ref : ArtifactRef} :
    ref ∈ later after refs ↔ ref ∈ refs ∧ ∀ a ∈ after, a.bits.toNat < ref.bits.toNat := by
  rw [later, List.mem_filter]
  cases after <;> simp

theorem Store.Lists.page_eq {s : Store C} {session : SessionId} (h : s.Lists session refs)
    (after : Option ArtifactRef) (limit : UInt32) :
    s.sessionArtifacts session after limit = .ok (some (.first (later after refs) limit)) := by
  rw [h.pages, later]
  congr 3
  refine List.filter_congr fun ref _ => ?_
  cases after <;> simp

/-- A page's last artifact as the next cursor goes on where the page ended. -/
theorem exists_cursor (hsorted : refs.Pairwise fun a b => a.bits.toNat < b.bits.toNat)
    {after : Option ArtifactRef} {n : Nat} (hpos : 1 ≤ n) (hlt : n < (later after refs).length) :
    ∃ a, ((later after refs).take n).getLast? = some a ∧
      later (some a) refs = (later after refs).drop n := by
  have hrest : (later after refs).Pairwise fun a b => a.bits.toNat < b.bits.toNat :=
    hsorted.filter _
  obtain hnil | ⟨front, a, hfront⟩ := List.eq_nil_or_concat ((later after refs).take n)
  · have hlen := congrArg List.length hnil
    rw [List.length_take, List.length_nil] at hlen
    omega
  rw [List.concat_eq_append] at hfront
  refine ⟨a, by rw [hfront, List.getLast?_concat], ?_⟩
  have hsplit : later after refs = front ++ a :: (later after refs).drop n := by
    conv_lhs => rw [← List.take_append_drop n (later after refs), hfront]
    rw [List.append_assoc, List.singleton_append]
  rw [hsplit] at hrest
  obtain ⟨-, htail, hbefore⟩ := List.pairwise_append.mp hrest
  obtain ⟨hhead, htail⟩ := List.pairwise_cons.mp htail
  have hcursor : a ∈ later after refs := by
    rw [hsplit]
    exact List.mem_append_right _ List.mem_cons_self
  obtain ⟨-, hcursor⟩ := mem_later.mp hcursor
  refine (hsorted.filter _).eq_of_mem_iff htail fun ref => ?_
  refine mem_later.trans ⟨fun ⟨href, hgt⟩ => ?_, fun href => ⟨?_, fun b hb => ?_⟩⟩
  · have hgt := hgt a rfl
    have hmem : ref ∈ later after refs := mem_later.mpr ⟨href, fun b hb => (hcursor b hb).trans hgt⟩
    rw [hsplit, List.mem_append, List.mem_cons] at hmem
    rcases hmem with hmem | rfl | hmem
    · exact absurd hgt (Nat.lt_asymm (hbefore ref hmem a List.mem_cons_self))
    · exact absurd hgt (Nat.lt_irrefl _)
    · exact hmem
  · exact (mem_later.mp (List.mem_of_mem_drop href)).1
  · cases hb
    exact hhead ref href

namespace Store

/-- A client reads a session's listing: from the cursor it gets `refs`, page by page, each
page from the last artifact of the one before, until there are no more. -/
inductive Paged (s : Store C) (session : SessionId) (limit : UInt32) :
    Option ArtifactRef → List ArtifactRef → Prop
  | last {after : Option ArtifactRef} {page : QueryPage}
      (hpage : s.sessionArtifacts session after limit = .ok (some page))
        (hmore : page.more = false) :
      Paged s session limit after page.resultRefs
  | more {after : Option ArtifactRef} {page : QueryPage} {a : ArtifactRef} {rest : List ArtifactRef}
      (hpage : s.sessionArtifacts session after limit = .ok (some page)) (hmore : page.more = true)
      (ha : page.resultRefs.getLast? = some a) (hrest : Paged s session limit (some a) rest) :
      Paged s session limit after (page.resultRefs ++ rest)

variable {s : Store C} {session : SessionId} {refs : List ArtifactRef}

/-- **Paging through a listing** ends, with the listing from the cursor on. -/
theorem Lists.paged_iff (h : s.Lists session refs) {limit : UInt32} (hlimit : 1 ≤ limit.toNat)
    {after : Option ArtifactRef} {xs : List ArtifactRef} :
    s.Paged session limit after xs ↔ xs = later after refs := by
  constructor
  · intro hpaged
    induction hpaged with
    | @last after _ hpage hmore =>
      cases (h.page_eq after limit).symm.trans hpage
      exact List.take_of_length_le (Nat.le_of_not_lt (of_decide_eq_false hmore))
    | @more after _ _ _ hpage hmore ha _ ih =>
      cases (h.page_eq after limit).symm.trans hpage
      obtain ⟨a', ha', hnext⟩ := exists_cursor h.sorted hlimit (of_decide_eq_true hmore)
      cases ha.symm.trans ha'
      rw [ih, hnext]
      exact List.take_append_drop _ _
  · rintro rfl
    -- Each page leaves less to read.
    induction hn : (later after refs).length using Nat.strong_induction_on generalizing after with
    | _ n ih =>
      by_cases hlt : limit.toNat < (later after refs).length
      · obtain ⟨a, ha, hnext⟩ := exists_cursor h.sorted hlimit hlt
        have hless : (later (some a) refs).length < n := by
          rw [hnext, List.length_drop]
          omega
        have hrest := Paged.more (h.page_eq after limit) (decide_eq_true hlt) ha (ih _ hless rfl)
        rw [hnext] at hrest
        rwa [show (QueryPage.first (later after refs) limit).resultRefs =
          (later after refs).take limit.toNat from rfl, List.take_append_drop] at hrest
      · have hlast := Paged.last (h.page_eq after limit) (decide_eq_false hlt)
        rwa [show (QueryPage.first (later after refs) limit).resultRefs =
          (later after refs).take limit.toNat from rfl,
          List.take_of_length_le (Nat.le_of_not_lt hlt)] at hlast

/-- Whether the text view the store answers for an artifact contains the predicate. -/
def textHit (s : Store C) (predicate : Bytes) (ref : ArtifactRef) : Bool :=
  decide (predicate = []) ||
    match s.artifact ref with
    | .ok (some info) => info.textView.any fun text => decide (predicate <:+: text)
    | _ => false

end Store

/-- As many results as a query asks for and the frame has room for. -/
def Orchestrator.queryLimit (call : Call C) (request : QueryRequest) : UInt32 :=
  min request.limit (call.payloadBudget / queryRefBytes)

/-- What a query does once it is allowed. -/
def Orchestrator.answerQuery (call : Call C) (request : QueryRequest) (session : SessionId) :
    Orchestrator C Reply := do
  match ← store (.sessionArtifacts session none 4294967295) with
  | none => return .failed .notFoundOrDenied
  | some page => do
    let hits ← matching request.predicate page.resultRefs
    return ⟨none, .queryPage (.first hits (queryLimit call request))⟩

/-- A query is decided first. -/
theorem Orchestrator.query_eq {call : Call C} {request : QueryRequest} {session : SessionId}
    (h : request.sessionScope = some session) :
    query call request = (do
      match (← decide (call.authz .query none (some session) Cost.zero)).refusal with
      | some failure => deny call .query (some session) failure
      | none => answerQuery call request session) := by
  unfold query
  rw [h]
  rfl

/-- A page of the matches in a part of a listing is the page of all matches exactly when the
part fills it or has them all. -/
theorem QueryPage.first_append_iff {xs ys : List ArtifactRef} {limit : UInt32} :
    QueryPage.first xs limit = .first (xs ++ ys) limit ↔ limit.toNat < xs.length ∨ ys = [] := by
  constructor
  · intro heq
    simp only [QueryPage.first, QueryPage.mk.injEq, decide_eq_decide, List.length_append] at heq
    obtain ⟨hrefs, hmore⟩ := heq
    by_contra! hnot
    have hall : xs.length + ys.length ≤ limit.toNat := by omega
    rw [List.take_of_length_le hnot.1, List.take_of_length_le (by rwa [List.length_append]),
      List.self_eq_append_right] at hrefs
    exact hnot.2 hrefs
  · rintro (hlt | rfl)
    · have hmore : limit.toNat < (xs ++ ys).length := by
        rw [List.length_append]
        omega
      rw [first, first, List.take_append_of_le_length (Nat.le_of_lt hlt), decide_eq_true hlt,
        decide_eq_true hmore]
    · rw [List.append_nil]

/-! ## Metadata while no tenant is shredded -/

/-- No tenant was shredded from one moment to the other. -/
def Daemon.Unshredded (d d' : Daemon C) : Prop :=
  ∀ t, d.store.tombstoneAt t = none → d'.store.tombstoneAt t = none

/-- Nothing is answered for an artifact of a shredded tenant. -/
theorem World.Holds.artifact_of_shredded {w : World C} {K : KeyState C} {L : Custody C}
    (h : w.Holds K L) {r : InvocationRecord} {a : ArtifactRecord C.Block} {published : Timestamp}
    (hshows : L.Shows r a published) (hstone : (w.store.tombstoneAt r.tenant).isSome) :
    w.store.artifact (artifactRef r.id) = .ok none := by
  rw [h.represents.tombstoneAt_eq] at hstone
  have hgone : L.profiles r.tenant = none := by
    rw [← Option.not_isSome_iff_eq_none]
    intro hlive
    rw [h.reachable.owned.live _ hlive] at hstone
    cases hstone
  exact h.represents.read_eq (hshows.run_artifact_of_shredded hgone hstone)

/-- The metadata of a published artifact is answered, and stays as it is while its tenant is
not shredded. -/
theorem World.Reachable.artifact_kept {w : World C} (h : w.Reachable) {id : InvocationId}
    {r : InvocationRecord} (hr : w.store.invocationAt id = some r) (hvisible : r.Visible) :
    ∃ info, w.store.artifact (artifactRef id) = .ok info ∧ ∀ w', ReflTransGen World.Step w w' →
      (w.store.tombstoneAt r.tenant = none → w'.store.tombstoneAt r.tenant = none) →
        w'.store.artifact (artifactRef id) = .ok info := by
  cases hstone : w.store.tombstoneAt r.tenant with
  | none =>
    obtain ⟨transfer, htransfer⟩ := h.exists_transferred id r hr (.inr hvisible)
    obtain ⟨-, info, -, -, hshown⟩ := htransfer.shown hr hvisible
    exact ⟨some info, ((hshown w .refl).2 hstone).1, fun w' hrun hlive =>
      ((hshown w' hrun).2 (hlive rfl)).1⟩
  | some =>
    have hshredded : (w.store.tombstoneAt r.tenant).isSome := by
      rw [hstone]
      rfl
    obtain ⟨K, L, hw⟩ := h.holds
    rw [hw.represents.invocationAt_eq] at hr
    obtain rfl := hw.reachable.named.invocations id r hr
    obtain ⟨a, published, hshows⟩ := (hw.reachable.filed.records _ r hr).visible hvisible
    refine ⟨none, hw.artifact_of_shredded hshows hshredded, fun w' hrun _ => ?_⟩
    obtain ⟨K', L', hw', hsteps⟩ := hw.run hrun
    obtain ⟨r', hr', hsame, hvisible', hshows'⟩ :=
      hw.reachable.shows_run hsteps hr hvisible hshows
    rw [← hsame.id]
    refine hw'.artifact_of_shredded hshows' ?_
    rw [hsame.tenant, Option.isSome_iff_ne_none]
    intro hnone
    rw [h.unshredded hrun hnone] at hstone
    cases hstone

/-- The artifacts published in a session whose owner is not shredded are its listing. -/
theorem World.Reachable.exists_published {w : World C} (h : w.Reachable) {session : SessionId}
    {sr : SessionRecord} (hsr : w.store.sessionAt session = some sr)
    (howner : w.store.tombstoneAt sr.owner = none) :
    ∃ refs, w.store.Published session refs ∧ w.store.Lists session refs := by
  obtain ⟨K, L, hw⟩ := h.holds
  rw [hw.represents.sessionAt_eq] at hsr
  obtain ⟨refs, hlists, hmem⟩ := hw.exists_listing_iff hsr howner
  exact ⟨refs, ⟨hlists.sorted, hmem⟩, hlists⟩

namespace Orchestrator.Finishes

variable {d d' : Daemon C} {refs : List ArtifactRef}

/-- An artifact matches as its metadata says, while that stays as it is. -/
theorem textMatches {ref : ArtifactRef} {predicate : Bytes} {r : Except CallError Bool}
    {s : Store C} {info : Option ArtifactInfo}
    (h : Finishes (Orchestrator.textMatches ref predicate) d r d')
    (hinfo : s.artifact ref = .ok info) (hkept : ∀ d₁ : Daemon C, d.Meanwhile d₁ →
      d₁.Meanwhile d' → d₁.store.artifact ref = .ok info) : r = .ok (s.textHit predicate ref) := by
  unfold Orchestrator.textMatches at h
  unfold Store.textHit
  by_cases hempty : predicate = []
  · rw [if_pos hempty] at h
    rw [decide_eq_true hempty, Bool.true_or]
    exact h.1
  · rw [if_neg hempty] at h
    rw [decide_eq_false hempty, Bool.false_or, hinfo]
    have hread {r : Except CallError (Option ArtifactInfo)} {d₁ : Daemon C}
        (h : Finishes (Orchestrator.store (.artifact ref)) d r d₁) (hafter : d₁.Meanwhile d') :
        r = .ok info := by
      obtain ⟨d₂, hbefore, hanswer, hmore⟩ := h.store_result (f := fun s => s.artifact ref) rfl
      rw [hanswer, hkept d₂ hbefore (hmore.trans hafter)]
      rfl
    obtain ⟨info', d₁, hstore, h⟩ | ⟨e, -, hstore⟩ := h.bind
    · cases hread hstore h.meanwhile
      cases info with
      | none => exact h.1
      | some info =>
        dsimp only [Option.bind_some] at h ⊢
        cases htext : info.textView with
        | none | some text =>
          rw [htext] at h
          exact h.1
    · cases hread hstore .refl

/-- The artifacts that match, while their metadata stays as it is. -/
theorem matching {predicate : Bytes} {r : Except CallError (List ArtifactRef)} {s : Store C}
    (h : Finishes (Orchestrator.matching predicate refs) d r d')
    (hkept : ∀ ref ∈ refs, ∃ info, s.artifact ref = .ok info ∧ ∀ d₁ : Daemon C, d.Meanwhile d₁ →
      d₁.Meanwhile d' → d₁.store.artifact ref = .ok info) :
    r = .ok (refs.filter (s.textHit predicate)) := by
  induction refs generalizing d d' r with
  | nil => exact h.1
  | cons ref refs ih =>
    obtain ⟨info, hinfo, hsame⟩ := hkept ref List.mem_cons_self
    obtain ⟨hit, d₁, hhit, h⟩ | ⟨e, -, hhit⟩ := h.bind
    · cases textMatches hhit hinfo fun d₂ hbefore hafter =>
        hsame d₂ hbefore (hafter.trans h.meanwhile)
      have hrest {r : Except CallError (List ArtifactRef)} {d₂ : Daemon C}
          (hhits : Finishes (Orchestrator.matching predicate refs) d₁ r d₂)
          (hafter : d₂.Meanwhile d') : r = .ok (refs.filter (s.textHit predicate)) := by
        refine ih hhits fun ref' href' => ?_
        obtain ⟨info', hinfo', hsame'⟩ := hkept ref' (List.mem_cons_of_mem _ href')
        exact ⟨info', hinfo', fun d₃ hbefore hmore =>
          hsame' d₃ (hhit.meanwhile.trans hbefore) (hmore.trans hafter)⟩
      obtain ⟨hits, d₂, hhits, h⟩ | ⟨e, -, hhits⟩ := h.bind
      · cases hrest hhits h.meanwhile
        rw [List.filter_cons]
        exact h.1
      · cases hrest hhits .refl
    · cases textMatches hhit hinfo hsame

/-- The listing of a session whose owner is not shredded. -/
theorem sessionArtifacts_result {session : SessionId} {sr : SessionRecord} {limit : UInt32}
    {r : Except CallError (Option QueryPage)}
    (h : Finishes (Orchestrator.store (.sessionArtifacts session none limit)) d r d')
    (hd : d.world.Reachable) (hsr : d.store.sessionAt session = some sr)
    (howner : d'.store.tombstoneAt sr.owner = none) :
    ∃ d₁ refs, d.Meanwhile d₁ ∧ d₁.Meanwhile d' ∧ d₁.store.Published session refs ∧
      r = .ok (some (.first refs limit)) := by
  obtain ⟨d₁, hbefore, hanswer, hafter⟩ :=
    h.store_result (f := fun s => s.sessionArtifacts session none limit) rfl
  have hreach : d₁.world.Reachable := hd.trans hbefore
  obtain ⟨refs, hpublished, hlists⟩ := hreach.exists_published (hd.sessionAt_kept hbefore hsr)
    (hreach.unshredded hafter howner)
  have hpage : d₁.store.sessionArtifacts session none limit =
      .ok (some (.first (later none refs) limit)) := hlists.page_eq none limit
  rw [hpage, later_none] at hanswer
  exact ⟨d₁, refs, hbefore, hafter, hpublished, hanswer⟩

/-- What an allowed query reads and answers, while no tenant is shredded. -/
theorem answerQuery_result {call : Call C} {request : QueryRequest} {r : Except CallError Reply}
    {session : SessionId} {sr : SessionRecord}
    (h : Finishes (answerQuery call request session) d r d') (hd : d.world.Reachable)
    (hsr : d.store.sessionAt session = some sr) (howner : d.store.tombstoneAt sr.owner = none)
    (hquiet : d.Unshredded d') :
    ∃ d₁ refs, d.Meanwhile d₁ ∧ d₁.Meanwhile d' ∧ d₁.store.Published session refs ∧
      r = .ok ⟨none, .queryPage (.first
        ((refs.take 4294967295).filter (d₁.store.textHit request.predicate))
        (queryLimit call request))⟩ := by
  obtain ⟨page, d₁, hpage, h⟩ | ⟨e, -, hpage⟩ := h.bind
  · have hreach₁ : d₁.world.Reachable := hd.trans hpage.meanwhile
    obtain ⟨d₂, refs, hbefore, hafter, hpublished, hfirst⟩ := hpage.sessionArtifacts_result hd hsr
      (hreach₁.unshredded h.meanwhile (hquiet _ howner))
    cases hfirst
    have hreach₂ : d₂.world.Reachable := hd.trans hbefore
    refine ⟨d₂, refs, hbefore, hafter.trans h.meanwhile, hpublished, ?_⟩
    -- The artifacts of the page are published, so that their metadata stays.
    have hmatching {r : Except CallError (List ArtifactRef)} {d₃ : Daemon C}
        (hhits : Finishes (Orchestrator.matching request.predicate (refs.take 4294967295)) d₁ r d₃)
        (hlast : d₃.Meanwhile d') :
        r = .ok ((refs.take 4294967295).filter (d₂.store.textHit request.predicate)) := by
      refine matching hhits fun ref href => ?_
      obtain ⟨id, record, rfl, hrecord, -, hvisible⟩ :=
        (hpublished.mem ref).mp (List.mem_of_mem_take href)
      obtain ⟨info, hinfo, hsame⟩ := hreach₂.artifact_kept hrecord hvisible
      refine ⟨info, hinfo, fun d₄ hd₄ hd₄' => hsame d₄.world (hafter.trans hd₄) fun hlive => ?_⟩
      have hlive₀ := hd.unshredded hbefore hlive
      have hreach₄ : d₄.world.Reachable := hreach₁.trans hd₄
      exact hreach₄.unshredded (hd₄'.trans hlast) (hquiet _ hlive₀)
    obtain ⟨hits, d₃, hhits, h⟩ | ⟨e, -, hhits⟩ := h.bind
    · cases hmatching hhits h.meanwhile
      exact h.1
    · cases hmatching hhits .refl
  · obtain ⟨_, _, _, _, _, hfirst⟩ := hpage.sessionArtifacts_result hd hsr (hquiet _ howner)
    cases hfirst

/-! ### Queries that are not disturbed -/

theorem textMatches_run {ref : ArtifactRef} {info : Option ArtifactInfo}
    (hinfo : d.store.artifact ref = .ok info) (predicate : Bytes) :
    Finishes (Orchestrator.textMatches ref predicate) d
      (.ok (d.store.textHit predicate ref)) d := by
  unfold Orchestrator.textMatches Store.textHit
  by_cases hempty : predicate = []
  · rw [if_pos hempty, decide_eq_true hempty, Bool.true_or]
    exact Finishes.pure true d
  · have hread : Finishes (Orchestrator.store (.artifact ref)) d (.ok info) d := by
      refine Finishes.store ?_
      rw [← hinfo]
      exact .artifact
    rw [if_neg hempty, decide_eq_false hempty, Bool.false_or, hinfo]
    refine hread.andThen ?_
    cases info with
    | none => exact Finishes.pure false d
    | some info =>
      dsimp only [Option.bind_some]
      cases info.textView with
      | none => exact Finishes.pure false d
      | some => exact Finishes.pure _ d

theorem matching_run (hinfo : ∀ ref ∈ refs, ∃ info, d.store.artifact ref = .ok info)
    (predicate : Bytes) :
    Finishes (Orchestrator.matching predicate refs) d
      (.ok (refs.filter (d.store.textHit predicate))) d := by
  induction refs with
  | nil => exact Finishes.pure [] d
  | cons ref _ ih =>
    obtain ⟨info, hfirst⟩ := hinfo ref List.mem_cons_self
    refine (textMatches_run hfirst predicate).andThen ((ih fun ref' href' =>
      hinfo ref' (List.mem_cons_of_mem _ href')).andThen ?_)
    rw [List.filter_cons]
    exact Finishes.pure _ d

/-- An allowed query ends. -/
theorem answerQuery_run {request : QueryRequest} {session : SessionId} (call : Call C)
    (hlists : d.store.Lists session refs)
    (hinfo : ∀ ref ∈ refs, ∃ info, d.store.artifact ref = .ok info) :
    Finishes (answerQuery call request session) d (.ok ⟨none, .queryPage (.first
      ((refs.take 4294967295).filter (d.store.textHit request.predicate))
      (queryLimit call request))⟩) d := by
  have hpage : Finishes (Orchestrator.store (.sessionArtifacts session none 4294967295)) d
      (.ok (some (.first refs 4294967295))) d := by
    have hanswer := hlists.page_eq none 4294967295
    rw [later_none] at hanswer
    refine Finishes.store ?_
    rw [← hanswer]
    exact .sessionArtifacts
  have hhits : Finishes (Orchestrator.matching request.predicate (refs.take 4294967295)) d
      (.ok ((refs.take 4294967295).filter (d.store.textHit request.predicate))) d :=
    matching_run (fun ref href => hinfo ref (List.mem_of_mem_take href)) request.predicate
  exact hpage.andThen (hhits.andThen (Finishes.pure _ d))

end Orchestrator.Finishes

/-- **Session listings page exactly**, and queries answer from them up to the size of one
page.  In every reachable store, for a session whose owner is not shredded: the artifacts
published in the session, in the order of their ids, are what a client gets that goes from
page to page with any limit, and `more` says that another entry follows.  A query of the
session is decided, and once it is allowed every run of it that shreds no tenant answers with
the first matches of the listing of some moment of the run, and says whether there are more,
exactly when the first 4294967295 artifacts of the listing have more matches than asked for
or have them all. -/
theorem session_listings_exact_iff {d : Daemon C} (hd : d.world.Reachable) {session : SessionId}
    {sr : SessionRecord} (hsr : d.store.sessionAt session = some sr)
    (howner : d.store.tombstoneAt sr.owner = none) :
    (∃ refs, d.store.Published session refs ∧
      (∀ after limit, d.store.sessionArtifacts session after limit =
        .ok (some (.first (later after refs) limit))) ∧
      ∀ limit : UInt32, 1 ≤ limit → ∀ xs, d.store.Paged session limit none xs ↔ xs = refs) ∧
    ∀ (call : Call C) (request : QueryRequest), request.sessionScope = some session →
      Orchestrator.query call request = (do
        match (← Orchestrator.decide (call.authz .query none (some session) Cost.zero)).refusal with
        | some failure => Orchestrator.deny call .query (some session) failure
        | none => Orchestrator.answerQuery call request session) ∧
      ∀ r (d' : Daemon C), Orchestrator.Finishes (.answerQuery call request session) d r d' →
        d.Unshredded d' → ∃ d₁ refs, d.Meanwhile d₁ ∧ d₁.Meanwhile d' ∧
          d₁.store.Published session refs ∧
          (r = .ok ⟨none, .queryPage (.first (refs.filter (d₁.store.textHit request.predicate))
              (Orchestrator.queryLimit call request))⟩ ↔
            (Orchestrator.queryLimit call request).toNat <
                ((refs.take 4294967295).filter (d₁.store.textHit request.predicate)).length ∨
              (refs.drop 4294967295).filter (d₁.store.textHit request.predicate) = []) := by
  constructor
  · obtain ⟨refs, hpublished, hlists⟩ := hd.exists_published hsr howner
    refine ⟨refs, hpublished, hlists.page_eq, fun limit hlimit xs => ?_⟩
    have hpaged : d.store.Paged session limit none xs ↔ xs = later none refs :=
      hlists.paged_iff (UInt32.le_iff_toNat_le.mp hlimit)
    rwa [later_none] at hpaged
  · intro call request hsession
    refine ⟨Orchestrator.query_eq hsession, fun r d' hrun hquiet => ?_⟩
    obtain ⟨d₁, refs, hbefore, hafter, hpublished, hr⟩ :=
      hrun.answerQuery_result hd hsr howner hquiet
    refine ⟨d₁, refs, hbefore, hafter, hpublished, ?_⟩
    generalize d₁.store.textHit request.predicate = hit at hr ⊢
    have hparts : refs.filter hit =
        (refs.take 4294967295).filter hit ++ (refs.drop 4294967295).filter hit := by
      rw [← List.filter_append, List.take_append_drop]
    rw [hr, hparts, ← QueryPage.first_append_iff]
    simp only [Except.ok.injEq, Reply.mk.injEq, ResponseBody.queryPage.injEq, true_and]

/-! ## A session of many artifacts -/

/-- A reservation of nothing can always be made and charges nothing. -/
theorem Book.exists_reserve_zero (ids : List LedgerRef) (b : Book C) :
    ∃ b', b.moveLedgers (fun used => reserve used Cost.zero) ids = .ok b' ∧
      ∀ id, b'.used id = b.used id := by
  induction ids generalizing b with
  | nil => exact ⟨b, rfl, fun _ => rfl⟩
  | cons id _ ih =>
    have hsame : reserve (b.used id) Cost.zero = .ok (b.used id) :=
      reserve_eq_ok.mpr fun d => by cases d <;> rfl
    obtain ⟨b', hb', hused⟩ := ih (b.setLedger id (b.used id))
    refine ⟨b', ?_, fun id' => (hused id').trans ?_⟩
    · rw [moveLedgers, hsame]
      exact hb'
    · by_cases heq : id' = id
      · rw [heq, used_setLedger_self]
      · rw [used_setLedger_of_ne heq]

namespace Sample

/-- The invocation number `i` of many. -/
def nth (i : Nat) : InvocationId := ⟨BitVec.ofNat 128 i⟩

/-- Its intent: a capture of the agent that costs nothing. -/
def nthIntent (i : Nat) : Intent Crypto.ideal where
  invocation := nth i
  authz := ⟨agent, ⟨2⟩, .capture, some (ascii "https://example.org/a"), some session, Cost.zero⟩
  idempotencyKey := ⟨beBytes 16 i, by simp, by simp⟩
  requestDigest := ([0] : List ℕ)

def noted (text : Option Bytes) : Transfer :=
  ⟨[1, 2, 3], ⟨[], [], []⟩, text, false, 0, Cost.zero, false⟩

/-- The session has the captures up to number `n`, with the text views `text`, and nothing
else has happened since it was opened. -/
structure Crowded (text : Nat → Option Bytes) (n : Nat) (L : Custody Crypto.ideal) : Prop where
  view : L.toBook.view = (book setUp).toBook.view
  live : (L.profiles agent).isSome
  stone : L.tombstones agent = none
  session : L.sessions session = (book setUp).sessions session
  free : ∀ i, n ≤ i → i < 2 ^ 64 → L.idem (agent, .capture, (nthIntent i).idempotencyKey) = none
  only : ∀ id r, L.invocations id = some r → ∃ i < n, id = nth i
  filed : ∀ i < n, ∃ r a, L.invocations (nth i) = some r ∧ r.session = some Sample.session ∧
    r.tenant = agent ∧ r.state = .published ∧
    L.artifacts (agent, artifactRef (nth i)) = some a ∧ a.textView = text i

theorem nth_inj {i j : Nat} (hi : i < 2 ^ 64) (hj : j < 2 ^ 64) (h : nth i = nth j) : i = j := by
  have hbits : (BitVec.ofNat 128 i).toNat = (BitVec.ofNat 128 j).toNat :=
    congrArg (fun id : InvocationId => id.bits.toNat) h
  rw [BitVec.toNat_ofNat, BitVec.toNat_ofNat, Nat.mod_eq_of_lt (by omega),
    Nat.mod_eq_of_lt (by omega)] at hbits
  exact hbits

theorem crowded_zero (text : Nat → Option Bytes) : Crowded text 0 (book setUp) where
  view := rfl
  live := by decide +kernel
  stone := by decide +kernel
  session := rfl
  free _ _ _ := rfl
  only id r h := by
    change none = some r at h
    cases h
  filed := nofun

/-- Whether a call is allowed at no cost. -/
def allowedFree : Decision → Bool
  | .allowed _ plan => decide (plan.cost = Cost.zero)
  | _ => false

/-- The agent's grant allows a capture that costs nothing. -/
theorem exists_free_plan (n : Nat) : ∃ chain plan, authorize (book setUp).toBook.view
    (nthIntent n).authz 0 = .ok (.allowed chain plan) ∧ plan.cost = Cost.zero := by
  have hplan : (authorize (book setUp).toBook.view (nthIntent n).authz 0).toOption.map
      allowedFree = some true := by
    change (authorize (book setUp).toBook.view (nthIntent 0).authz 0).toOption.map _ = _
    decide +kernel
  obtain ⟨decision, hdecision, hfree⟩ := exists_of_toOption_map hplan
  cases decision with
  | allowed chain plan => exact ⟨chain, plan, hdecision, of_decide_eq_true hfree⟩
  | denied | budgetExceeded | notFoundOrDenied => cases hfree

variable {text : Nat → Option Bytes} {n : Nat} {L : Custody Crypto.ideal} {w : World Crypto.ideal}
  {K : KeyState Crypto.ideal}

/-- One more capture in the book. -/
theorem crowded_of_progressed {L' : Custody Crypto.ideal} {r : InvocationRecord}
    {a : ArtifactRecord Crypto.ideal.Block} {charged : Book Crypto.ideal} (h : Crowded text n L)
    (hn : n < 2 ^ 64) (hused : ∀ id, charged.used id = L.used id)
    (hprogress : L.Progressed (nthIntent n) r charged L') (hstate : r.state = .published)
    (htext : a.textView = text n) (hartifacts : L'.artifacts = Function.update L.artifacts
      (agent, artifactRef (nth n)) (some a)) : Crowded text (n + 1) L' where
  view := by
    have hused' : L'.used = L.used := funext fun id => by
      rw [← hused id, Book.used, Book.used, hprogress.ledgers]
    rw [← h.view, Book.view, Book.view, hprogress.grants, hprogress.revocations,
      hprogress.sessions, hprogress.profiles, hused']
  live := by rw [hprogress.profiles]; exact h.live
  stone := by rw [hprogress.tombstones, h.stone]
  session := by rw [hprogress.sessions, h.session]
  free i hi hlt := by
    rw [hprogress.idem, Function.update_of_ne, h.free i (by omega) hlt]
    intro heq
    simp only [nthIntent, Prod.mk.injEq, IdempotencyKey.mk.injEq, true_and] at heq
    have hsame := @beBytes_inj 16 i n (by omega) (by omega) heq
    omega
  only id r' hr' := by
    rw [hprogress.invocations] at hr'
    rcases update_eq_some hr' with ⟨heq, -⟩ | ⟨-, hr'⟩
    · exact ⟨n, Nat.lt_succ_self n, heq⟩
    · obtain ⟨i, hi, heq⟩ := h.only id r' hr'
      exact ⟨i, by omega, heq⟩
  filed i hi := by
    by_cases heq : i = n
    · rw [heq, hprogress.invocations, hartifacts]
      exact ⟨r, a, Function.update_self .., hprogress.session, hprogress.tenant, hstate,
        Function.update_self .., htext⟩
    · obtain ⟨r', a', hr', hsession, htenant, hstate', ha', htext'⟩ := h.filed i (by omega)
      have hne : nth i ≠ nth n := fun hsame => heq (nth_inj (by omega) hn hsame)
      refine ⟨r', a', ?_, hsession, htenant, hstate', ?_, htext'⟩
      · rw [hprogress.invocations]
        exact (Function.update_of_ne hne ..).trans hr'
      · rw [hartifacts, Function.update_of_ne, ha']
        exact fun hsame => hne (artifactRef_injective (Prod.mk.inj hsame).2)

/-- **One more capture.** -/
theorem crowded_next (h : Crowded text n L) (hn : n < 2 ^ 64) (hw : w.Holds K L) :
    ∃ w' L', ReflTransGen World.Step w w' ∧ w'.Holds K L' ∧ Crowded text (n + 1) L' := by
  obtain ⟨chain, plan, hauth, hfree⟩ := exists_free_plan n
  obtain ⟨charged, hcharged, hused⟩ :=
    Book.exists_reserve_zero (plan.ledgers.map LedgerRef.fromLedgerId) L.toBook
  have howner : ((book setUp).sessions session).map SessionRecord.owner = some agent := by
    decide +kernel
  -- The clock is set back, so that the grants have not expired.
  have hw₁ : World.Holds (C := Crypto.ideal)
      ⟨{ w.store with nonce := w.store.nonce, clock := fun _ => 0 }, w.drawn⟩ K
      { L with clock := fun _ => 0 } :=
    ⟨hw.represents.setClock _, hw.reachable.next (.clock _), hw.drawn⟩
  have hnew : L.invocations (nth n) = none := by
    rw [← Option.not_isSome_iff_eq_none, Option.isSome_iff_exists]
    rintro ⟨r, hr⟩
    obtain ⟨i, hi, heq⟩ := h.only _ r hr
    have hsame := nth_inj hn (by omega) heq
    omega
  have hopen : ∀ s ∈ (nthIntent n).authz.session, ∀ r ∈ L.sessions s,
    L.tombstones r.owner = none := by
    rintro _ ⟨⟩ r hr
    rw [h.session] at hr
    rw [hr] at howner
    rw [Option.some.inj howner, h.stone]
  have hadmits : L.Admits (nthIntent n) chain plan 0 charged :=
    ⟨h.live, h.free n le_rfl hn, hnew, by rw [h.view, hauth], hopen, by rw [hfree, hcharged]⟩
  have henvelope : ([1, 2, 3] : Bytes).length ≤ maxPlaintextLen := by decide
  obtain ⟨L', r, a, hrun, hprogress, hstate, htext, hartifacts⟩ :=
    @Custody.exists_captured Crypto.ideal { L with clock := fun _ => 0 } (nthIntent n)
      (noted (text n)) chain plan charged hadmits (fun r _ _ => Nat.zero_le _) henvelope
      (fun r address => Nat.zero_le _) hw₁.reachable
  obtain ⟨w', hsteps, hw'⟩ := hw₁.transactAll hrun
  refine ⟨w', L', .head (.environment _ _) hsteps, hw', ?_⟩
  exact crowded_of_progressed h hn hused ⟨hprogress.tenant, hprogress.session,
    hprogress.invocations, hprogress.idem, hprogress.ledgers, hprogress.profiles,
    hprogress.tombstones, hprogress.grants, hprogress.revocations, hprogress.sessions⟩ hstate htext
    hartifacts

/-- Captures one after the other, with the keys as they were. -/
theorem crowded_run (text : Nat → Option Bytes) (hw : w.Holds K (book setUp)) (n : Nat)
    (hn : n ≤ 2 ^ 64) :
    ∃ (w' : World Crypto.ideal) (L : Custody Crypto.ideal),
      ReflTransGen World.Step w w' ∧ w'.Holds K L ∧ Crowded text n L := by
  induction n with
  | zero => exact ⟨w, _, .refl, hw, crowded_zero text⟩
  | succ n ih =>
    obtain ⟨w₁, L, hrun, hw₁, hcrowded⟩ := ih (by omega)
    obtain ⟨w', L', hsteps, hw', hnext⟩ := crowded_next hcrowded (by omega) hw₁
    exact ⟨w', L', hrun.trans hsteps, hw', hnext⟩

theorem exists_crowded (text : Nat → Option Bytes) (n : Nat) (hn : n ≤ 2 ^ 64) :
    ∃ (w : World Crypto.ideal) (K : KeyState Crypto.ideal) (L : Custody Crypto.ideal),
      w.Reachable ∧ w.Holds K L ∧ Crowded text n L := by
  obtain ⟨w, K, hreach, hw⟩ := exists_setUp
  obtain ⟨w', L, hrun, hw', hcrowded⟩ := crowded_run text hw n hn
  exact ⟨w', K, L, hreach.trans hrun, hw', hcrowded⟩

/-- The listing of the session: its captures in the order of their numbers. -/
theorem published_crowded (hw : w.Holds K L) (h : Crowded text n L) (hn : n ≤ 2 ^ 64)
    (hrefs : w.store.Published session refs) :
    refs = (List.range n).map fun i => artifactRef (nth i) := by
  have hsorted : ((List.range n).map fun i => artifactRef (nth i)).Pairwise
      fun a b => a.bits.toNat < b.bits.toNat := by
    rw [List.pairwise_map]
    refine List.pairwise_lt_range.imp_of_mem fun {i j} hi hj hlt => ?_
    rw [List.mem_range] at hi hj
    change (BitVec.ofNat 128 i).toNat < (BitVec.ofNat 128 j).toNat
    rw [BitVec.toNat_ofNat, BitVec.toNat_ofNat, Nat.mod_eq_of_lt (by omega),
      Nat.mod_eq_of_lt (by omega)]
    exact hlt
  refine hrefs.sorted.eq_of_mem_iff hsorted fun ref => ?_
  rw [hrefs.mem, List.mem_map]
  constructor
  · rintro ⟨id, r, rfl, hr, -⟩
    rw [hw.represents.invocationAt_eq] at hr
    obtain ⟨i, hi, rfl⟩ := h.only id r hr
    exact ⟨i, List.mem_range.mpr hi, rfl⟩
  · rintro ⟨i, hi, rfl⟩
    obtain ⟨r, a, hr, hsession, -, hstate, -⟩ := h.filed i (List.mem_range.mp hi)
    rw [← hw.represents.invocationAt_eq] at hr
    exact ⟨nth i, r, rfl, hr, hsession, .inl hstate⟩

/-- The metadata of the captures. -/
theorem artifact_crowded (hw : w.Holds K L) (h : Crowded text n L) {i : Nat} (hi : i < n) :
    ∃ info, w.store.artifact (artifactRef (nth i)) = .ok (some info) ∧ info.textView = text i := by
  obtain ⟨r, a, hr, hsession, htenant, hstate, ha, htext⟩ := h.filed i hi
  have hid : r.id = nth i := hw.reachable.named.invocations _ r hr
  obtain ⟨a', published, hshows⟩ := (hw.reachable.filed.records _ r hr).visible (.inl hstate)
  have hside := hshows.side
  rw [htenant, hid, ha] at hside
  obtain rfl := Option.some.inj hside
  refine ⟨a.info published, ?_, htext⟩
  rw [← hid]
  exact hw.represents.read_eq (hshows.run_artifact (htenant ▸ h.live))

/-- Only the last capture has a text. -/
def lastText (n i : Nat) : Option Bytes := if i = n then some (ascii "x") else none

theorem textHit_crowded {m : Nat} (hw : w.Holds K L) (h : Crowded (lastText n) m L) {i : Nat}
    (hi : i < m) : w.store.textHit (ascii "x") (artifactRef (nth i)) = decide (i = n) := by
  obtain ⟨info, hinfo, htext⟩ := artifact_crowded hw h hi
  have hne : decide (ascii "x" = []) = false := by decide
  rw [Store.textHit, hinfo, hne, Bool.false_or]
  dsimp only
  rw [htext, lastText]
  by_cases heq : i = n
  · rw [if_pos heq, decide_eq_true heq]
    decide
  · rw [if_neg heq, decide_eq_false heq]
    rfl

/-- The match is behind the others. -/
theorem hits_crowded (hw : w.Holds K L) (h : Crowded (lastText n) (n + 1) L) (hn : n < 2 ^ 64)
    (hrefs : w.store.Published session refs) :
    (refs.take n).filter (w.store.textHit (ascii "x")) = [] ∧ artifactRef (nth n) ∈ refs ∧
      w.store.textHit (ascii "x") (artifactRef (nth n)) = true := by
  rw [published_crowded hw h hn hrefs]
  refine ⟨?_, List.mem_map.mpr ⟨n, List.mem_range.mpr (Nat.lt_succ_self n), rfl⟩, ?_⟩
  · rw [← List.map_take, List.take_range, Nat.min_eq_left (Nat.le_succ n), List.filter_eq_nil_iff]
    intro ref href
    obtain ⟨i, hi, rfl⟩ := List.mem_map.mp href
    rw [List.mem_range] at hi
    rw [textHit_crowded hw h (by omega), decide_eq_true_eq]
    exact Nat.ne_of_lt hi
  · rw [textHit_crowded hw h (Nat.lt_succ_self n), decide_eq_true_eq]

/-- The operator may query the session, and the query is answered. -/
theorem exists_crowded_query (text : Nat → Option Bytes) (n : Nat) (hn : n ≤ 2 ^ 64) :
    ∃ (d : Daemon Crypto.ideal) (K : KeyState Crypto.ideal) (L : Custody Crypto.ideal)
      (sr : SessionRecord) (plan : Plan), d.world.Reachable ∧ d.world.Holds K L ∧
      Crowded text n L ∧ d.store.sessionAt session = some sr ∧
      d.store.tombstoneAt sr.owner = none ∧ plan.refusal = none ∧
      Orchestrator.Finishes (.decide (operatorCall.authz .query none (some session) Cost.zero)) d
        (.ok plan) d ∧
      ∀ request refs, d.store.Published session refs →
        Orchestrator.Finishes (.answerQuery operatorCall request session) d
          (.ok ⟨none, .queryPage (.first
            ((refs.take 4294967295).filter (d.world.store.textHit request.predicate))
            (Orchestrator.queryLimit operatorCall request))⟩) d := by
  obtain ⟨w, K, L, hreach, hw, hcrowded⟩ := exists_crowded text n hn
  have howner : ((book setUp).sessions session).map SessionRecord.owner = some agent := by
    decide +kernel
  have hplan : (planCall (book setUp).toBook.view
      (operatorCall.authz .query none (some session) Cost.zero) 0).toOption.map Plan.refusal =
        some none := by
    decide +kernel
  obtain ⟨plan, hplan, hallowed⟩ := exists_of_toOption_map hplan
  rw [← hcrowded.view] at hplan
  rw [← hcrowded.session] at howner
  obtain ⟨sr, hsr, hagent⟩ := Option.map_eq_some_iff.mp howner
  -- The clock stands still.
  let s : Store Crypto.ideal := { w.store with nonce := w.store.nonce, clock := fun _ => 0 }
  let d : Daemon Crypto.ideal := ⟨⟨s, w.drawn⟩, fun _ => none, ∅⟩
  have hd : d.world.Reachable := hreach.trans (.single (.environment _ _))
  have hholds : d.world.Holds K { L with clock := fun _ => 0 } :=
    ⟨hw.represents.setClock _, hw.reachable.next (.clock _), hw.drawn⟩
  have hview : d.store.view = L.toBook.view := hholds.represents.view_eq
  rw [← hview] at hplan
  have hsr' : d.store.sessionAt session = some sr := by
    rw [← hsr]
    exact congrFun hholds.represents.sessionAt_eq _
  have hstone : d.store.tombstoneAt sr.owner = none := by
    rw [hagent, ← hcrowded.stone]
    exact congrFun hholds.represents.tombstoneAt_eq _
  refine ⟨d, K, _, sr, plan, hd, hholds, ⟨hcrowded.view, hcrowded.live, hcrowded.stone,
    hcrowded.session, hcrowded.free, hcrowded.only, hcrowded.filed⟩, hsr', hstone, hallowed,
    Orchestrator.Finishes.decide hplan, fun request refs hpublished => ?_⟩
  obtain ⟨refs', hpublished', hlists⟩ := hd.exists_published hsr' hstone
  obtain rfl : refs = refs' := hpublished.sorted.eq_of_mem_iff hpublished'.sorted fun ref =>
    (hpublished.mem ref).trans (hpublished'.mem ref).symm
  refine Orchestrator.Finishes.answerQuery_run operatorCall hlists fun ref href => ?_
  obtain ⟨id, r, rfl, hr, -, hvisible⟩ := (hpublished.mem ref).mp href
  obtain ⟨info, hinfo, -⟩ := hd.artifact_kept hr hvisible
  exact ⟨info, hinfo⟩

def pattern : QueryRequest := ⟨some session, ascii "x", 8⟩

end Sample

/-- A query misses the only match of a session: it is the last of 4294967296 artifacts. -/
theorem query_misses_last_match :
    ∃ (d : Daemon Crypto.ideal) (refs : List ArtifactRef) (ref : ArtifactRef),
      d.world.Reachable ∧ d.store.Published Sample.session refs ∧ ref ∈ refs ∧
      d.store.textHit Sample.pattern.predicate ref = true ∧
      Orchestrator.Finishes (.query Sample.operatorCall Sample.pattern) d
        (.ok ⟨none, .queryPage ⟨[], false⟩⟩) d := by
  obtain ⟨d, K, L, sr, plan, hd, hw, hcrowded, hsr, hstone, hallowed, hdecide, hanswer⟩ :=
    Sample.exists_crowded_query (Sample.lastText 4294967295) (4294967295 + 1) (by decide)
  obtain ⟨refs, hpublished, -⟩ := hd.exists_published hsr hstone
  obtain ⟨hmissed, hmem, hhit⟩ := Sample.hits_crowded hw hcrowded (by decide) hpublished
  have hrun := hanswer Sample.pattern refs hpublished
  rw [show (refs.take 4294967295).filter (d.world.store.textHit Sample.pattern.predicate) = []
    from hmissed] at hrun
  refine ⟨d, refs, _, hd, hpublished, hmem, hhit, ?_⟩
  rw [Orchestrator.query_eq rfl]
  refine hdecide.andThen ?_
  rw [hallowed]
  exact hrun

/-- In a session of two captures: the client gets both with pages of one, and a query with
the empty predicate that asks for nothing says that there is more. -/
theorem session_listings_exact_iff_of_two :
    ∃ d : Daemon Crypto.ideal, d.world.Reachable ∧
      d.store.Paged Sample.session 1 none [artifactRef (Sample.nth 0), artifactRef (Sample.nth 1)] ∧
      Orchestrator.Finishes (.answerQuery Sample.operatorCall ⟨some Sample.session, [], 0⟩
        Sample.session) d (.ok ⟨none, .queryPage ⟨[], true⟩⟩) d := by
  obtain ⟨d, K, L, sr, plan, hd, hw, hcrowded, hsr, hstone, -, -, hanswer⟩ :=
    Sample.exists_crowded_query (fun _ => none) 2 (by decide)
  obtain ⟨⟨refs, hpublished, -, hpaged⟩, hqueries⟩ := session_listings_exact_iff hd hsr hstone
  have hrefs := Sample.published_crowded hw hcrowded (by decide) hpublished
  refine ⟨d, hd, (hpaged 1 (by decide) _).mpr hrefs.symm, ?_⟩
  have hrun := hanswer ⟨some Sample.session, [], 0⟩ refs hpublished
  obtain ⟨d₁, refs₁, hbefore, hafter, hpublished₁, hiff⟩ :=
    (hqueries Sample.operatorCall ⟨some Sample.session, [], 0⟩ rfl).2 _ _ hrun fun _ => id
  -- The captures are published at that moment too.
  obtain ⟨r, a, hr, hsession, -, hstate, -⟩ := hcrowded.filed 0 (by decide)
  rw [← hw.represents.invocationAt_eq] at hr
  obtain ⟨transfer, htransfer⟩ := hd.exists_transferred _ r hr (.inr (.inl hstate))
  obtain ⟨-, info, -, -, hshown⟩ := htransfer.shown hr (.inl hstate)
  obtain ⟨r₁, hr₁, hsession₁, hvisible₁⟩ := (hshown d₁.world hbefore).1
  have hmem : artifactRef (Sample.nth 0) ∈ refs₁ :=
    (hpublished₁.mem _).mpr ⟨_, r₁, rfl, hr₁, hsession₁.trans hsession, hvisible₁⟩
  have hall (xs : List ArtifactRef) : xs.filter (d₁.store.textHit []) = xs :=
    List.filter_eq_self.mpr fun _ _ => rfl
  have hlimit : Orchestrator.queryLimit Sample.operatorCall ⟨some Sample.session, [], 0⟩ = 0 := by
    decide
  have hpos : 0 < (refs₁.take 4294967295).length := by
    rw [List.length_take]
    have := List.length_pos_of_mem hmem
    omega
  rw [hlimit, hall, hall] at hiff
  have hmore : decide (0 < refs₁.length) = true := decide_eq_true (List.length_pos_of_mem hmem)
  rw [hlimit, hiff.mpr (.inl hpos), QueryPage.first, UInt32.toNat_zero,
    List.take_zero, hmore] at hrun
  exact hrun

end Dioptron
