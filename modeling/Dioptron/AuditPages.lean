import Dioptron.Audits
import Dioptron.Readings

/-! # Audit pages

An audit query answers a page of the records in its scope, with the number to go on from
when there are more.  A client that goes on until there is no such number has seen every
record that was in its scope when it began, unless it asked for empty pages: an empty page
names no record to go on from.  The log behind the pages has no gaps and only grows.
-/
namespace Dioptron

open Relation (ReflTransGen)

variable {C : Crypto} {L : Custody C} {t : TenantId} {seq : AuditSeq} {e : AuditEntryRecord}

/-! ## What stays in scope -/

/-- Entries of the trail stay. -/
theorem Custody.Step.audits_kept {L' : Custody C} (h : Custody.Step L L') (htrail : L.Trail)
    (he : L.audits (t, seq) = some e) : L'.audits (t, seq) = some e := by
  rcases h.trail with hsame | ⟨entry, time, haudit, hsame⟩
  · rw [hsame.audits]
    exact he
  · rw [hsame.audits]
    refine Trail.recorded_audits.mpr (.inr ⟨fun heq => ?_, he⟩)
    rw [heq, htrail.audit_nextSeq haudit] at he
    cases he

theorem Custody.Reachable.audits_kept {L' : Custody C} (h : L.Reachable)
    (hrun : ReflTransGen Custody.Step L L') (he : L.audits (t, seq) = some e) :
    L'.audits (t, seq) = some e := by
  induction hrun with
  | refl => exact he
  | tail hsteps hlast ih => exact hlast.audits_kept (Custody.Reachable.trail (h.trans hsteps)) ih

namespace World.Reachable

variable {w w' : World C}

/-- The records of a tenant that is not shredded stay. -/
theorem auditAt_kept (h : w.Reachable) (hrun : ReflTransGen World.Step w w')
    (he : w.store.auditAt t seq = some e) (hstone : w'.store.tombstoneAt t = none) :
    w'.store.auditAt t seq = some e := by
  obtain ⟨K, L, hw⟩ := h.holds
  obtain ⟨K', L', hw', hsteps⟩ := hw.run hrun
  obtain ⟨hlive, he⟩ := hw.represents.auditAt_eq_some.mp he
  rw [hw'.represents.tombstoneAt_eq] at hstone
  obtain ⟨p, hp⟩ := Option.isSome_iff_exists.mp hlive
  refine hw'.represents.auditAt_eq_some.mpr ⟨?_, hw.reachable.audits_kept hsteps he⟩
  rcases (hw.reachable.extends hsteps).profiles t p hp with hkept | ⟨-, hdead⟩
  · rw [hkept]
    rfl
  · rw [hstone] at hdead
    cases hdead

/-- A query asks on for what it asked for. -/
theorem selects_kept (h : w.Reachable) (hrun : ReflTransGen World.Step w w') {query : AuditQuery}
    (he : w.store.Selects query e) : w'.store.Selects query e := by
  refine ⟨he.1, he.2.imp_right (Or.imp_right ?_)⟩
  rintro ⟨session, hsession, howner⟩
  obtain ⟨r, hr, hsame⟩ := Option.map_eq_some_iff.mp howner
  refine ⟨session, hsession, ?_⟩
  rw [h.sessionAt_kept hrun hr, Option.map_some, hsame]

/-- A grant stays as it was issued. -/
theorem grant_kept (h : w.Reachable) (hrun : ReflTransGen World.Step w w') {id : GrantId}
    {g : Grant} (hg : w.store.view.grant id = .ok (some g)) :
    w'.store.view.grant id = .ok (some g) := by
  obtain ⟨K, L, hw⟩ := h.holds
  obtain ⟨K', L', hw', hsteps⟩ := hw.run hrun
  rw [hw.represents.view_eq] at hg
  rw [hw'.represents.view_eq]
  cases hr : L.grants id with
  | none =>
    change Store.grantOf (L.grants id) = _ at hg
    rw [hr] at hg
    cases hg
  | some r =>
    change Store.grantOf (L.grants id) = _ at hg
    change Store.grantOf (L'.grants id) = _
    rw [(hw.reachable.extends hsteps).grants id r hr, ← hr]
    exact hg

end World.Reachable

/-! ## One page -/

/-- A stored entry as it goes over the wire. -/
def AuditEntryRecord.record (e : AuditEntryRecord) : AuditRecord :=
  ⟨e.seq, e.time, e.tenant, e.session, e.invocation, e.capability, e.state, e.outcome⟩

/-- The most records a query may be answered with: what it asks for, and what a frame of the
connection holds. -/
def pageLimit (call : Call C) (request : AuditQueryRequest) : Nat :=
  (min request.limit (call.payloadBudget / Orchestrator.auditRecordBytes)).toNat

/-- What a call asks the store for, under the scope it is answered with. -/
def asked (call : Call C) (request : AuditQueryRequest) (scope : AuditScope) : AuditQuery :=
  ⟨call.tenant, scope, request.session, request.after, 0⟩

/-- An allowed call has its designated grant. -/
theorem exists_grant_of_plan {view : Snapshot} {request : AuthzRequest} {now : Timestamp}
    {plan : Plan} (hplan : planCall view request now = .ok plan) (hallowed : plan.refusal = none) :
    ∃ g, view.grant request.grant = .ok (some g) := by
  obtain ⟨decision, hdecision, hrest⟩ := bind_eq_ok.mp hplan
  cases hrest
  cases decision with
  | allowed =>
    obtain ⟨chain, session, h⟩ := authorize_allowed hdecision
    obtain ⟨leaf, hleaf, -⟩ := h.designated.exists_leaf
    exact ⟨leaf, hleaf⟩
  | denied code | budgetExceeded dimension | notFoundOrDenied => cases hallowed

/-- The page is the answer to a call, cut from `all` records in its scope. -/
structure AuditPage.CutFrom (page : AuditPage) (call : Call C) (request : AuditQueryRequest)
    (s : Store C) (all : List AuditEvent) : Prop where
  scope : ∃ g, s.view.grant call.grant = .ok (some g) ∧
    page.scopeApplied = appliedAuditScope request.auditScope g.auditScope
  inScope : s.Matches (asked call request page.scopeApplied) all
  records : page.records = (all.take (pageLimit call request)).map AuditEntryRecord.record
  nextAfter : page.nextAfter = if pageLimit call request < all.length then
    page.records.getLast?.map AuditRecord.seq else none

/-- The page answers a call that began at `d`, read the store at `d₁` and returned at `d'`. -/
structure AuditPage.ReadAt (page : AuditPage) (call : Call C) (request : AuditQueryRequest)
    (d d₁ d' : Daemon C) (all : List AuditEvent) : Prop where
  answered : ∃ invocation, Orchestrator.Finishes (.auditQuery call request) d
    (.ok (.of invocation (.auditPage page))) d'
  before : d.Meanwhile d₁
  after : d₁.Meanwhile d'
  cut : page.CutFrom call request d₁.store all

/-- One more than a page may hold is asked for. -/
theorem oneMore_toNat (call : Call C) (request : AuditQueryRequest) :
    (Orchestrator.oneMore (min request.limit
      (call.payloadBudget / Orchestrator.auditRecordBytes))).toNat =
        pageLimit call request + 1 := by
  have hcap : (call.payloadBudget / Orchestrator.auditRecordBytes).toNat < 2 ^ 31 := by
    have hbudget := call.payloadBudget.toNat_lt
    rw [UInt32.toNat_div, show Orchestrator.auditRecordBytes.toNat = 160 from rfl]
    omega
  have hlimit : pageLimit call request < 2 ^ 31 := by
    unfold pageLimit
    rw [UInt32.min_def]
    split
    · rename_i hle
      exact Nat.lt_of_le_of_lt (UInt32.le_iff_toNat_le.mp hle) hcap
    · exact hcap
  unfold Orchestrator.oneMore
  unfold pageLimit at hlimit ⊢
  generalize min request.limit (call.payloadBudget / Orchestrator.auditRecordBytes) =
    limit at hlimit ⊢
  have hlt : limit < 4294967295 := by
    rw [UInt32.lt_iff_toNat_lt]
    exact Nat.lt_trans hlimit (by decide)
  rw [if_pos hlt, UInt32.toNat_add, UInt32.toNat_one]
  omega

/-- **A page is cut from all records in scope** as the store has them at some moment. -/
theorem Orchestrator.Finishes.auditQuery_page {call : Call C} {request : AuditQueryRequest}
    {invocation : InvocationId} {page : AuditPage} {d d' : Daemon C} (hd : d.world.Reachable)
    (h : Finishes (.auditQuery call request) d (.ok (.of invocation (.auditPage page))) d') :
    ∃ d₁ all, page.ReadAt call request d d₁ d' all := by
  have hanswered := h
  obtain ⟨plan, d₁, hplan, h⟩ := h.bind_ok
  obtain ⟨d₂, now, hbefore, hdecided, hafter⟩ := hplan.decide_ok
  cases hrefusal : plan.refusal with
  | some =>
    rw [hrefusal] at h
    cases h.deny_ok
  | none =>
    rw [hrefusal] at h
    obtain ⟨g, hg⟩ := exists_grant_of_plan hdecided hrefusal
    obtain ⟨scope, d₃, hscope, h⟩ := h.bind_ok
    obtain ⟨events, d₄, hevents, h⟩ := h.bind_ok
    obtain ⟨invocation', d₅, hfresh, h⟩ := h.bind_ok
    obtain ⟨seq, d₆, haudit, h⟩ := h.bind_ok
    obtain ⟨heq, hlast⟩ := h.pure_ok
    cases heq
    -- The scope comes from the grant the decision found.
    obtain ⟨view, d₇, hview, hscope⟩ := hscope.bind_ok
    obtain ⟨d₈, hbefore₈, rfl, hafter₈⟩ := hview.perform_read rfl
    obtain ⟨grant, d₉, hgrant, hscope⟩ := hscope.bind_ok
    obtain ⟨hgrant, hafter₉⟩ := hgrant.authz_ok
    obtain ⟨rfl, hscoped⟩ := hscope.pure_ok
    have hmoment : d.Meanwhile d₂ := hbefore
    have hreach₂ : d₂.world.Reachable := hd.trans hmoment
    obtain rfl : grant = some g :=
      Except.ok.inj (hgrant.symm.trans (hreach₂.grant_kept (hafter.trans hbefore₈) hg))
    obtain ⟨d₁₀, hbefore₁₀, hquery, hafter₁₀⟩ := hevents.store_read rfl
    have hmeanwhile : d₂.Meanwhile d₁₀ :=
      ((((hafter.trans hbefore₈).trans hafter₈).trans hafter₉).trans hscoped).trans hbefore₁₀
    have hreach₁₀ : d₁₀.world.Reachable := hreach₂.trans hmeanwhile
    obtain ⟨K, L, hw⟩ := hreach₁₀.holds
    obtain ⟨all, hall, heq⟩ := hw.represents.auditQuery_eq hw.reachable.named hw.reachable.trail
      ⟨call.tenant, appliedAuditScope request.auditScope g.auditScope, request.session,
        request.after, oneMore (min request.limit (call.payloadBudget / auditRecordBytes))⟩
    obtain rfl := Except.ok.inj (hquery.symm.trans heq)
    refine ⟨d₁₀, all, ⟨invocation, hanswered⟩, hmoment.trans hmeanwhile,
      ((hafter₁₀.trans hfresh.meanwhile).trans haudit.meanwhile).trans hlast,
      ⟨g, hreach₂.grant_kept hmeanwhile hg, rfl⟩, ⟨hall.ascending, hall.mem⟩, ?_, ?_⟩
    · change ((all.take (oneMore _).toNat).map AuditEntryRecord.record).take _ = _
      rw [oneMore_toNat, ← List.map_take, List.take_take]
      exact congrArg (fun n => (all.take n).map _) (Nat.min_eq_left (Nat.le_succ _))
    · have hmore : pageLimit call request <
          ((all.take (oneMore (min request.limit
            (call.payloadBudget / auditRecordBytes))).toNat).map
            AuditEntryRecord.record).length ↔ pageLimit call request < all.length := by
        rw [List.length_map, List.length_take, oneMore_toNat]
        omega
      exact if_congr hmore rfl rfl

namespace AuditPage.CutFrom

variable {page : AuditPage} {call : Call C} {request : AuditQueryRequest} {s : Store C}
  {all : List AuditEvent}

variable (h : page.CutFrom call request s all)

include h

/-- A page that may hold records and is not the last names its last record. -/
theorem exists_last (hlimit : pageLimit call request ≠ 0)
    (hmore : pageLimit call request < all.length) :
    ∃ e, (all.take (pageLimit call request)).getLast? = some e ∧ page.nextAfter = some e.seq := by
  have hne : all.take (pageLimit call request) ≠ [] := by
    intro hnil
    have hlength := congrArg List.length hnil
    rw [List.length_take, List.length_nil] at hlength
    omega
  obtain ⟨e, he⟩ := Option.ne_none_iff_exists'.mp (mt List.getLast?_eq_none_iff.mp hne)
  refine ⟨e, he, ?_⟩
  rw [h.nextAfter, if_pos hmore, h.records, List.getLast?_map, he]
  rfl

/-- **No number to go on from means no more records, exactly if the page may hold any** or
there are none. -/
theorem nextAfter_iff :
    (page.nextAfter = none ↔ all.drop (pageLimit call request) = []) ↔
      pageLimit call request ≠ 0 ∨ all = [] := by
  rw [List.drop_eq_nil_iff]
  by_cases hmore : pageLimit call request < all.length
  · by_cases hlimit : pageLimit call request = 0
    · have hnone : page.nextAfter = none := by
        rw [h.nextAfter, if_pos hmore, h.records, hlimit, List.take_zero]
        rfl
      have hne : all ≠ [] := List.length_pos_iff.mp (by omega)
      exact ⟨fun hiff => absurd (hiff.mp hnone) (by omega),
        fun hor => absurd hor (by simp [hlimit, hne])⟩
    · obtain ⟨e, -, hnext⟩ := h.exists_last hlimit hmore
      rw [hnext]
      exact ⟨fun _ => .inl hlimit, fun _ => ⟨nofun, fun hle => absurd hle (by omega)⟩⟩
  · have hnone : page.nextAfter = none := by rw [h.nextAfter, if_neg hmore]
    refine ⟨fun _ => ?_, fun _ => ⟨fun _ => by omega, fun _ => hnone⟩⟩
    by_cases hempty : all = []
    · exact .inr hempty
    · have hpos := List.length_pos_iff.mpr hempty
      exact .inl (by omega)

/-- Whatever is in scope up to where the next page begins is on the page. -/
theorem mem_of_le
    (hroom : pageLimit call request ≠ 0 ∨ all = []) {e : AuditEvent} (he : e ∈ all)
    (hle : ∀ c ∈ page.nextAfter, e.seq.toNat ≤ c.toNat) : e.record ∈ page.records := by
  have hlimit := hroom.resolve_right (List.ne_nil_of_mem he)
  rw [h.records]
  refine List.mem_map_of_mem ?_
  by_cases hmore : pageLimit call request < all.length
  · obtain ⟨last, hlast, hnext⟩ := h.exists_last hlimit hmore
    rw [← List.take_append_drop (pageLimit call request) all, List.mem_append] at he
    refine he.resolve_right fun hrest => ?_
    -- What is not on the page comes after its last record.
    have hascending := h.inScope.ascending
    rw [← List.take_append_drop (pageLimit call request) all] at hascending
    have hlt := (List.pairwise_append.mp hascending).2.2 last (List.mem_of_getLast? hlast) e hrest
    exact absurd (hle last.seq hnext) (Nat.not_le.mpr hlt)
  · rwa [List.take_of_length_le (Nat.not_lt.mp hmore)]

end AuditPage.CutFrom

/-! ## The client -/

/-- A client asks for the records after `after`, in pages that may hold a record unless none
is left, and goes on from where each page says until one says nothing. -/
inductive Auditing (tenant : TenantId) (grant : GrantId) (scope : AuditScope)
    (session : Option SessionId) (after : Option AuditSeq) (d : Daemon C) :
    Option AuditSeq → List AuditPage → Daemon C → Prop
  | start : Auditing tenant grant scope session after d after [] d
  | ask {cursor : Option AuditSeq} {pages : List AuditPage} {d₁ d₂ d₃ d₄ : Daemon C}
      {call : Call C} {limit : UInt32} {page : AuditPage} {all : List AuditEvent}
      (h : Auditing tenant grant scope session after d cursor pages d₁)
      (hmore : ∀ last ∈ pages.getLast?, last.nextAfter ≠ none) (hmeanwhile : d₁.Meanwhile d₂)
      (htenant : call.tenant = tenant) (hgrant : call.grant = grant)
      (hread : page.ReadAt call ⟨scope, session, cursor, limit⟩ d₂ d₃ d₄ all)
      (hroom : pageLimit call ⟨scope, session, cursor, limit⟩ ≠ 0 ∨ all = []) :
      Auditing tenant grant scope session after d page.nextAfter (pages ++ [page]) d₄

/-- An entry is in its own tenant's partition. -/
theorem World.Reachable.auditAt_tenant {w : World C} (h : w.Reachable)
    (he : w.store.auditAt t seq = some e) : e.tenant = t := by
  obtain ⟨K, L, hw⟩ := h.holds
  exact (hw.reachable.trail.named t seq e (hw.represents.auditAt_eq_some.mp he).2).1

/-- What is in scope stays in scope, until its tenant is shredded. -/
theorem Store.Matches.mem_later {w w' : World C} (h : w.Reachable)
    (hrun : ReflTransGen World.Step w w') {query query' : AuditQuery} {all all' : List AuditEvent}
    (hall : w.store.Matches query all) (hall' : w'.store.Matches query' all')
    (hsame : query' = { query with after := query'.after, limit := query'.limit })
    {e : AuditEvent} (he : e ∈ all) (hstone : w'.store.tombstoneAt e.tenant = none)
    (hafter : ∀ a ∈ query'.after, a.toNat < e.seq.toNat) : e ∈ all' := by
  obtain ⟨⟨t, seq, hentry⟩, -, hselects⟩ := (hall.mem e).mp he
  obtain rfl := h.auditAt_tenant hentry
  refine (hall'.mem e).mpr ⟨⟨e.tenant, seq, h.auditAt_kept hrun hentry hstone⟩, hafter, ?_⟩
  rw [hsame]
  exact h.selects_kept hrun hselects

namespace Auditing

variable {tenant : TenantId} {grant : GrantId} {scope : AuditScope} {session : Option SessionId}
  {after cursor : Option AuditSeq} {pages : List AuditPage} {d d' : Daemon C}

/-- **What the client has seen**: of everything in scope at its first read, all up to where
it goes on, if it is still there. -/
theorem seen (h : Auditing tenant grant scope session after d cursor pages d')
    (hd : d.world.Reachable) :
    d.Meanwhile d' ∧ (pages = [] → cursor = after) ∧ ∀ first ∈ pages.head?,
      ∃ (d₁ : Daemon C) (call : Call C) (limit : UInt32) (all : List AuditEvent),
        d.Meanwhile d₁ ∧ d₁.Meanwhile d' ∧ call.tenant = tenant ∧ call.grant = grant ∧
        first.CutFrom call ⟨scope, session, after, limit⟩ d₁.store all ∧
        (∀ page ∈ pages, page.scopeApplied = first.scopeApplied) ∧
        ∀ e ∈ all, ∀ d'' : Daemon C, d'.Meanwhile d'' → d''.store.tombstoneAt e.tenant = none →
          (∀ c ∈ cursor, e.seq.toNat ≤ c.toNat) → e.record ∈ pages.flatMap AuditPage.records := by
  induction h with
  | start => exact ⟨.refl, fun _ => rfl, nofun⟩
  | @ask cursor pages _ d₂ d₄ _ call limit page all _ _ hmeanwhile htenant hgrant hread hroom ih =>
    obtain ⟨hbefore, hcursor, hseen⟩ := ih
    have hd₂ : d.Meanwhile d₂ := hbefore.trans hmeanwhile
    obtain ⟨-, hbefore₄, hafter₄, hcut⟩ := hread
    refine ⟨(hd₂.trans hbefore₄).trans hafter₄, fun hnil => absurd hnil (by simp), ?_⟩
    cases pages with
    | nil =>
      rintro first hfirst
      obtain rfl : page = first := Option.some.inj hfirst
      obtain rfl := hcursor rfl
      refine ⟨d₄, call, limit, all, hd₂.trans hbefore₄, hafter₄, htenant, hgrant, hcut, ?_, ?_⟩
      · intro page' hpage'
        rw [List.mem_singleton.mp hpage']
      · intro e he d'' _ _ hle
        rw [List.nil_append, List.flatMap_singleton]
        exact hcut.mem_of_le hroom he hle
    | cons =>
      rintro first hfirst
      obtain ⟨d₅, call₁, limit₁, all₁, hbefore₅, hafter₅, htenant₁, hgrant₁, hcut₁, hscopes,
        hold⟩ := hseen first hfirst
      have hreach₅ : d₅.world.Reachable := hd.trans hbefore₅
      have hlater : d₅.Meanwhile d₄ := (hafter₅.trans hmeanwhile).trans hbefore₄
      -- The grant is still the same, and so is the scope.
      have hscope : page.scopeApplied = first.scopeApplied := by
        obtain ⟨g, hg, hpage⟩ := hcut.scope
        obtain ⟨g₁, hg₁, hfirst⟩ := hcut₁.scope
        rw [hgrant] at hg
        rw [hgrant₁] at hg₁
        obtain rfl : g = g₁ := Option.some.inj (Except.ok.inj
          (hg.symm.trans (hreach₅.grant_kept hlater hg₁)))
        rw [hpage, hfirst]
      refine ⟨d₅, call₁, limit₁, all₁, hbefore₅, hlater.trans hafter₄, htenant₁, hgrant₁, hcut₁,
        ?_, ?_⟩
      · intro page' hpage'
        rcases List.mem_append.mp hpage' with hpage' | hpage'
        · exact hscopes page' hpage'
        · rw [List.mem_singleton.mp hpage']
          exact hscope
      · intro e he d'' hrest hstone hle
        rw [List.flatMap_append, List.mem_append, List.flatMap_singleton]
        by_cases hpast : ∀ c ∈ cursor, e.seq.toNat ≤ c.toNat
        · exact .inl (hold e he d'' (((hmeanwhile.trans hbefore₄).trans hafter₄).trans hrest) hstone
            hpast)
        · refine .inr (hcut.mem_of_le hroom ?_ hle)
          push Not at hpast
          obtain ⟨c, hc, hlt⟩ := hpast
          refine hcut₁.inScope.mem_later hreach₅ hlater hcut.inScope ?_ he ?_ ?_
          · rw [asked, asked, hscope, htenant, htenant₁]
          · have hreach₄ : d₄.world.Reachable := hreach₅.trans hlater
            exact hreach₄.unshredded (hafter₄.trans hrest) hstone
          · intro a ha
            obtain rfl : c = a := Option.some.inj ((Option.mem_def.mp hc).symm.trans ha)
            exact hlt

end Auditing

/-- **Audit pages.**  Every answered query has the first records in its scope, which is the one
it asks for within its grant's, as the store has them at some moment of it and in their order,
as many as it asks for and a frame holds; and it has no number to go on from exactly when there
are no more records, if and only if it may hold a record or there is none.  A client whose
pages all meet this condition, and that goes on until a page has no such number, has seen every
record that was in its scope at its first read and whose tenant is not shredded. -/
theorem audit_pages_exact_iff {d : Daemon C} (hd : d.world.Reachable) :
    (∀ call request invocation page (d' : Daemon C),
      Orchestrator.Finishes (.auditQuery call request) d
        (.ok (.of invocation (.auditPage page))) d' →
      ∃ (d₁ : Daemon C) (all : List AuditEvent), page.ReadAt call request d d₁ d' all ∧
        (∃ g, d₁.store.view.grant call.grant = .ok (some g) ∧
          page.scopeApplied = appliedAuditScope request.auditScope g.auditScope) ∧
        d₁.store.Matches (asked call request page.scopeApplied) all ∧
        page.records = (all.take (pageLimit call request)).map AuditEntryRecord.record ∧
        ((page.nextAfter = none ↔ all.drop (pageLimit call request) = []) ↔
          pageLimit call request ≠ 0 ∨ all = [])) ∧
    ∀ tenant grant scope session after cursor pages (d' : Daemon C),
      Auditing tenant grant scope session after d cursor pages d' →
      (∀ last ∈ pages.getLast?, last.nextAfter = none) → ∀ first ∈ pages.head?,
      ∃ (d₁ : Daemon C) (call : Call C) (limit : UInt32) (all : List AuditEvent),
        d.Meanwhile d₁ ∧ d₁.Meanwhile d' ∧ call.tenant = tenant ∧ call.grant = grant ∧
        first.CutFrom call ⟨scope, session, after, limit⟩ d₁.store all ∧
        ∀ e ∈ all, d'.store.tombstoneAt e.tenant = none →
          e.record ∈ pages.flatMap AuditPage.records := by
  refine ⟨?_, ?_⟩
  · intro call request invocation page d' h
    obtain ⟨d₁, all, hread⟩ := h.auditQuery_page hd
    exact ⟨d₁, all, hread, hread.cut.scope, hread.cut.inScope, hread.cut.records,
      hread.cut.nextAfter_iff⟩
  · intro tenant grant scope session after cursor pages d' h hend first hfirst
    obtain ⟨-, -, hseen⟩ := h.seen hd
    obtain ⟨d₁, call, limit, all, hbefore, hafter, htenant, hgrant, hcut, -, hall⟩ :=
      hseen first hfirst
    refine ⟨d₁, call, limit, all, hbefore, hafter, htenant, hgrant, hcut, fun e he hstone => ?_⟩
    refine hall e he d' .refl hstone ?_
    cases h with
    | start => cases hfirst
    | ask =>
      rw [hend _ List.getLast?_concat]
      exact nofun

/-- An allowed query whose note is taken answers with its page. -/
theorem Orchestrator.Finishes.auditQuery (call : Call C) (request : AuditQueryRequest)
    (invocation : InvocationId) {d : Daemon C} {plan : Plan} {g : Grant}
    {events : List AuditEvent} {s : Store C} {scope : AuditScope}
    (hplan : planCall d.store.view (call.authz .auditQuery none request.session Cost.zero)
      d.store.now.1 = .ok plan) (hallowed : plan.refusal = none)
    (hgrant : d.store.now.2.view.grant call.grant = .ok (some g))
    (hscope : scope = appliedAuditScope request.auditScope g.auditScope)
    (hevents : d.store.now.2.auditQuery ⟨call.tenant, scope, request.session, request.after,
      oneMore (min request.limit (call.payloadBudget / auditRecordBytes))⟩ = .ok events)
    (haudit : d.store.now.2.commit (Tx.recordAudit ⟨call.tenant, invocation, .auditQuery,
      request.session, .completed none, some call.grant, some scope⟩) = .ok (seq, s)) :
    Finishes (.auditQuery call request) d (.ok (.of invocation (.auditPage ⟨scope,
      (events.map AuditEntryRecord.record).take (pageLimit call request),
      if pageLimit call request < (events.map AuditEntryRecord.record).length then
        ((events.map AuditEntryRecord.record).take (pageLimit call request)).getLast?.map
          AuditRecord.seq
      else none⟩))) (d.setStore s) := by
  have hread : Finishes (Orchestrator.store (.auditQuery ⟨call.tenant, scope, request.session,
      request.after, oneMore (min request.limit (call.payloadBudget / auditRecordBytes))⟩))
      (d.setStore d.store.now.2) (.ok events) (d.setStore d.store.now.2) := by
    refine Finishes.store ?_
    rw [← hevents]
    exact .auditQuery
  have hscoped : Finishes (auditScope call request.auditScope) (d.setStore d.store.now.2)
      (.ok scope) (d.setStore d.store.now.2) := by
    refine andThen (Finishes.perform .snapshot) ?_
    rw [show (d.setStore d.store.now.2).store.view.grant call.grant = .ok (some g) from hgrant,
      hscope]
    exact andThen (Finishes.pure (some g) _) (Finishes.pure _ _)
  have hfresh : Finishes freshInvocation (d.setStore d.store.now.2) (.ok invocation)
      (d.setStore d.store.now.2) :=
    andThen (Finishes.perform (.freshInvocation (some invocation))) (Finishes.pure _ _)
  have hnoted : Finishes (Orchestrator.store (.transact (.recordAudit ⟨call.tenant, invocation,
      .auditQuery, request.session, .completed none, some call.grant, some scope⟩)))
      (d.setStore d.store.now.2) (.ok seq) (d.setStore s) := Finishes.store (.transact haudit)
  refine andThen (Finishes.decide hplan) ?_
  rw [hallowed]
  exact hscoped.andThen (hread.andThen (hfresh.andThen (hnoted.andThen (Finishes.pure _ _))))

namespace Sample

/-- What the operator notes of an audit query of its own. -/
def auditNote : AuditNote :=
  ⟨operator, ⟨40⟩, .auditQuery, none, .completed none, some ⟨1⟩, some .all⟩

/-- The operator asks for all records of the small deployment, in pages of any size. -/
theorem operator_audits (limit : UInt32) : ∃ (d d' : Daemon Crypto.ideal) (page : AuditPage)
    (e : AuditEntryRecord), d.world.Reachable ∧
      Orchestrator.Finishes (.auditQuery operatorCall ⟨.all, none, none, limit⟩) d
        (.ok (.of ⟨40⟩ (.auditPage page))) d' ∧ page.scopeApplied = .all ∧
      d.store.auditAt agent 2 = some e := by
  obtain ⟨w, K, hreach, h⟩ := exists_setUp
  have hplan : (planCall (book setUp).toBook.view (operatorCall.authz .auditQuery none none
      Cost.zero) 0).toOption.map Plan.refusal = some none := by decide +kernel
  have hgrant : ((book setUp).toBook.view.grant ⟨1⟩).toOption.map
    (fun g => g.map Grant.auditScope) =
      some (some .all) := by decide +kernel
  have hclock : (book setUp).clock 0 = 0 := by decide +kernel
  have hagent : ((book setUp).profiles agent).isSome := by decide +kernel
  have hopened : ((book setUp).audits (agent, 2)).isSome := by decide +kernel
  obtain ⟨L', hnote⟩ := Custody.exists_of_reply (a := 3)
    (x := (book setUp).tick.run (Tx.recordAudit auditNote)) (by decide +kernel)
  generalize book setUp = L at *
  obtain ⟨plan, hplan, hallowed⟩ := exists_of_toOption_map hplan
  obtain ⟨grant, hgrant, hscope⟩ := exists_of_toOption_map hgrant
  obtain ⟨g, rfl, hall⟩ := Option.map_eq_some_iff.mp hscope
  obtain ⟨e, he⟩ := Option.isSome_iff_exists.mp hopened
  obtain ⟨s, hcommit, -⟩ := h.represents.tick.commit_of_run hnote
  rw [← h.represents.view_eq] at hplan hgrant
  rw [← h.represents.clock] at hclock
  have hreach' : World.Reachable ⟨w.store.now.2, w.drawn⟩ :=
    hreach.next (.environment w.store.nonce w.store.now.2.clock)
  obtain ⟨K', L'', h'⟩ := hreach'.holds
  obtain ⟨all, -, hquery⟩ := h'.represents.auditQuery_eq h'.reachable.named h'.reachable.trail
    ⟨operator, .all, none, none, Orchestrator.oneMore (min limit
      (operatorCall.payloadBudget / Orchestrator.auditRecordBytes))⟩
  let d : Daemon Crypto.ideal := ⟨w, fun _ => none, ∅⟩
  have hdecided : planCall d.store.view (operatorCall.authz .auditQuery none none Cost.zero)
      d.store.now.1 = .ok plan := by
    rw [show d.store.now.1 = 0 from hclock]
    exact hplan
  have happlied : AuditScope.all = appliedAuditScope .all g.auditScope := by
    rw [hall]
    rfl
  have hrun := Orchestrator.Finishes.auditQuery operatorCall ⟨.all, none, none, limit⟩ ⟨40⟩ hdecided
    hallowed hgrant happlied hquery hcommit
  exact ⟨d, _, _, e, hreach, hrun, rfl, h.represents.auditAt_eq_some.mpr ⟨hagent, he⟩⟩

end Sample

/-- The operator asks for a page of one record of the small deployment, which has some. -/
theorem audit_pages_exact_iff_of_operator : ∃ (d d' : Daemon Crypto.ideal) (page : AuditPage)
    (all : List AuditEvent), d.world.Reachable ∧
      Auditing Sample.operator ⟨1⟩ .all none none d page.nextAfter [page] d' ∧
      page.records = (all.take 1).map AuditEntryRecord.record ∧
      (page.nextAfter = none ↔ all.drop 1 = []) := by
  obtain ⟨d, d', page, e, hreach, hrun, -⟩ := Sample.operator_audits 1
  have hlimit : pageLimit Sample.operatorCall ⟨.all, none, none, 1⟩ = 1 := by decide +kernel
  have hone : pageLimit Sample.operatorCall ⟨.all, none, none, 1⟩ ≠ 0 := by
    rw [hlimit]
    exact Nat.one_ne_zero
  obtain ⟨d₁, all, hread, -, -, hrecords, hnext⟩ := (audit_pages_exact_iff hreach).1 _ _ _ _ _ hrun
  have hexact := hnext.mpr (.inl hone)
  rw [hlimit] at hrecords hexact
  exact ⟨d, d', page, all, hreach, .ask .start nofun .refl rfl rfl hread (.inl hone), hrecords,
    hexact⟩

/-- A query for no records is told that there are none, although there is one. -/
theorem audit_page_ends_early : ∃ (d d' : Daemon Crypto.ideal) (page : AuditPage)
    (e : AuditEntryRecord), d.world.Reachable ∧
      Orchestrator.Finishes (.auditQuery Sample.operatorCall ⟨.all, none, none, 0⟩) d
        (.ok (.of ⟨40⟩ (.auditPage page))) d' ∧
      d.store.auditAt Sample.agent 2 = some e ∧
      d.store.Selects (asked Sample.operatorCall ⟨.all, none, none, 0⟩ page.scopeApplied) e ∧
      page.records = [] ∧ page.nextAfter = none := by
  obtain ⟨d, d', page, e, hreach, hrun, hscope, he⟩ := Sample.operator_audits 0
  have hlimit : pageLimit Sample.operatorCall ⟨.all, none, none, 0⟩ = 0 := by decide +kernel
  obtain ⟨d₁, all, -, -, -, hcut⟩ := hrun.auditQuery_page hreach
  have hrecords : page.records = [] := by
    rw [hcut.records, hlimit]
    rfl
  refine ⟨d, d', page, e, hreach, hrun, he, ⟨nofun, .inl hscope⟩, hrecords, ?_⟩
  rw [hcut.nextAfter, hrecords]
  exact ite_self _

/-! ## The whole log -/

def Store.stubAt (s : Store C) (seq : AuditSeq) : Option AuditStubRecord :=
  s.found AuditStubRecord (.global (.auditStub seq))

/-- The stubs are numbered from 1 to `n`, and every number stands in the partition of one
tenant, in an entry that says what its stub says.  What a shredded tenant had there cannot
be read. -/
structure Store.Logs (s : Store C) (n : Nat) : Prop where
  numbered : ∀ seq, (s.stubAt seq).isSome ↔ 1 ≤ seq.toNat ∧ seq.toNat ≤ n
  partitioned : ∀ seq stub, s.stubAt seq = some stub →
    ∃ t, ((∃ e, s.auditAt t seq = some e ∧ e.stub = stub) ∨ (s.tombstoneAt t).isSome) ∧
      ∀ t', (s.auditAt t' seq).isSome → t' = t
  entry : ∀ t seq e, s.auditAt t seq = some e →
    e.tenant = t ∧ e.seq = seq ∧ s.stubAt seq = some e.stub

theorem Represents.stubAt_eq {K : KeyState C} {s : Store C} (h : Represents K L s) :
    s.stubAt = L.stubs :=
  funext fun _ => h.found_eq (Name.storeScoped_global _) rfl

namespace Custody

variable {L : Custody C} {t : TenantId} {seq : AuditSeq}

/-- The stub of a number is the one of its entry. -/
theorem Trail.stub_of_audit (h : L.Trail) (he : L.audits (t, seq) = some e) :
    L.stubs seq = some e.stub := by
  obtain ⟨stub, hstub⟩ := Option.isSome_iff_exists.mp (h.named t seq e he).2.2
  obtain ⟨t', e', he', rfl⟩ := h.entry seq stub hstub
  obtain rfl := h.single t t' seq (by rw [he]; rfl) (by rw [he']; rfl)
  cases he.symm.trans he'
  exact hstub

/-- A tenant with an entry was registered. -/
theorem Reachable.audit_owner (h : L.Reachable) (he : (L.audits (t, seq)).isSome) :
    L.toBook.HasOwner (.tenant t) := by
  refine @Reachable.invariant _ _ _ (fun L : Custody C => ∀ t seq,
    (L.audits (t, seq)).isSome → L.toBook.HasOwner (.tenant t)) _ h ?_ ?_ t seq he
  · rintro L ⟨address, clock, rfl⟩ t seq he
    cases he
  · intro L L' hL ih hstep t seq he
    have hext := Custody.Reachable.extends hL (.single hstep)
    rcases hstep.trail with hsame | ⟨entry, time, haudit, hsame⟩
    · rw [hsame.audits] at he
      exact hext.hasOwner (ih t seq he)
    · -- A new entry is of a tenant that is live.
      rw [hsame.audits] at he
      obtain ⟨e, he⟩ := Option.isSome_iff_exists.mp he
      rcases Trail.recorded_audits.mp he with ⟨rfl, -, -⟩ | ⟨-, he⟩
      · exact hext.hasOwner (.inl haudit.live)
      · exact hext.hasOwner (ih t seq (by rw [he]; rfl))

end Custody

theorem World.Holds.logs {w : World C} {K : KeyState C} (h : w.Holds K L) :
    w.store.Logs L.lastSeq := by
  have htrail := h.reachable.trail
  refine ⟨?_, ?_, ?_⟩ <;> rw [h.represents.stubAt_eq]
  · exact htrail.numbered
  · intro seq stub hstub
    obtain ⟨t, e, he, hsame⟩ := htrail.entry seq stub hstub
    have hsome : (L.audits (t, seq)).isSome := by rw [he]; rfl
    refine ⟨t, ?_, fun t' ht' => ?_⟩
    · rw [h.represents.tombstoneAt_eq]
      refine (h.reachable.audit_owner hsome).imp_left fun hlive => ?_
      exact ⟨e, h.represents.auditAt_eq_some.mpr ⟨hlive, he⟩, hsame⟩
    · obtain ⟨e', he'⟩ := Option.isSome_iff_exists.mp ht'
      have hother := (h.represents.auditAt_eq_some.mp he').2
      exact htrail.single t' t seq (by rw [hother]; rfl) hsome
  · intro t seq e he
    have he := (h.represents.auditAt_eq_some.mp he).2
    exact ⟨(htrail.named t seq e he).1, (htrail.named t seq e he).2.1, htrail.stub_of_audit he⟩

/-- **The audit log has no gaps and only grows.**  In every store that some run ends in the
log is numbered without a gap and each number stands in one partition; whatever happens from
then on, no stub changes and no entry of an unshredded tenant does. -/
theorem audit_log_append_only {w w' : World C} (hw : w.Reachable)
    (hrun : ReflTransGen World.Step w w') :
    (∃ n, w.store.Logs n) ∧
      (∀ seq stub, w.store.stubAt seq = some stub → w'.store.stubAt seq = some stub) ∧
      ∀ t seq e, w.store.auditAt t seq = some e →
        w'.store.auditAt t seq = some e ∨ (w'.store.tombstoneAt t).isSome := by
  obtain ⟨K, L, h⟩ := hw.holds
  obtain ⟨K', L', h', hsteps⟩ := h.run hrun
  refine ⟨⟨L.lastSeq, h.logs⟩, fun seq stub hstub => ?_, fun t seq e he => ?_⟩
  · rw [h.represents.stubAt_eq] at hstub
    rw [h'.represents.stubAt_eq]
    obtain ⟨t, e, he, rfl⟩ := h.reachable.trail.entry seq stub hstub
    exact h'.reachable.trail.stub_of_audit (h.reachable.audits_kept hsteps he)
  · cases hstone : w'.store.tombstoneAt t with
    | none => exact .inl (hw.auditAt_kept hrun he hstone)
    | some => exact .inr rfl

/-- The operator's note comes after the entries of the small deployment, which stay. -/
theorem audit_log_append_only_of_note : ∃ (w w' : World Crypto.ideal) (stub : AuditStubRecord),
    w.Reachable ∧ World.Step w w' ∧ (∃ n, w.store.Logs n) ∧ w.store.stubAt 2 = some stub ∧
      w'.store.stubAt 2 = some stub := by
  obtain ⟨w, K, hreach, h⟩ := Sample.exists_setUp
  obtain ⟨L', hL'⟩ := Custody.exists_of_reply (a := 3)
    (x := (Sample.book Sample.setUp).run (Tx.recordAudit Sample.operatorNote)) (by decide +kernel)
  obtain ⟨w', hstep, -⟩ := h.transact (.recordAudit Sample.operatorNote) hL'
  have hsecond : ((Sample.book Sample.setUp).stubs 2).isSome := by decide +kernel
  obtain ⟨stub, hstub⟩ := Option.isSome_iff_exists.mp hsecond
  rw [← h.represents.stubAt_eq] at hstub
  obtain ⟨hlogs, hkept, -⟩ := audit_log_append_only hreach (.single hstep)
  exact ⟨w, w', stub, hreach, hstep, hlogs, hstub, hkept 2 stub hstub⟩

end Dioptron
