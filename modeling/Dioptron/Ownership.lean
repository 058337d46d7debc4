import Dioptron.Daemon

/-! # Who moves an invocation

Only the handler that persisted the intent of an invocation moves it, registers it or calls
the producer for it, so beside a handler nothing touches the invocations it began
(`Daemon.respects`).  Every guarantee that a handler gives beside such steps then holds in
every run of the daemon, with any number of requests, operations of the operator, crashes
and recoveries.
-/
namespace Dioptron

open Relation (ReflGen ReflTransGen)

variable {C : Crypto}

/-- The invocation an access moves, registers or calls the producer for. -/
def Act.touched : {β : Type} → Act C β → Option InvocationId
  | _, .transact t => t.moves
  | _, .register id _ | _, .deregister id => some id
  | _, .produce request => some request.invocation
  | _, _ => none

/-- The intent a transaction persists. -/
def Transaction.begins : Transaction C → Option (Intent C)
  | begin intent => some intent
  | _ => none

/-- The intent an access asks to persist. -/
def Act.begins : {β : Type} → Act C β → Option (Intent C)
  | _, .transact t => t.begins
  | _, _ => none

/-- The grant whose running invocations an access cancels. -/
def Act.cancels : {β : Type} → Act C β → Option GrantId
  | _, .cancelRevoked grant => some grant
  | _, _ => none

/-- What the producer is asked for. -/
def Act.request : {β : Type} → Act C β → Option AcquireRequest
  | _, .produce request => some request
  | _, _ => none

/-- The same of what is logged. -/
def Event.touched : Event C → Option InvocationId
  | .transacted t _ => t.moves
  | .registered id _ | .deregistered id => some id
  | .produced request _ => some request.invocation
  | _ => none

/-- An access that touches an invocation is logged. -/
theorem Act.exists_event {β : Type} {p : Act C β} {id : InvocationId} (h : p.touched = some id)
    (b : β) : ∃ e ∈ p.event β b, e.touched = some id := by
  cases p with
  | transact | register | deregister | produce => exact ⟨_, List.mem_singleton_self _, h⟩
  | _ => cases h

theorem Event.touched_of_mem {β : Type} {p : Act C β} {b : β} {e : Event C}
    (he : e ∈ p.event β b) : e.touched = p.touched := by
  have hlogged : e.touched = e.access.2.touched := by cases e <;> rfl
  rw [hlogged, Event.access_of_mem he]

/-! ## Handlers that touch no invocation -/

/-- The access begins and touches no invocation, and cancels those under `revoked` at most. -/
structure Act.Only (revoked : Option GrantId) (β : Type) (p : Act C β) : Prop where
  begins : p.begins = none
  touched : p.touched = none
  cancels : p.cancels = none ∨ p.cancels = revoked

/-- The access touches no invocation but `id`, begins none, calls no producer and cancels
nothing. -/
structure Act.Settles (id : InvocationId) (β : Type) (p : Act C β) : Prop where
  begins : p.begins = none
  touched : p.touched = none ∨ p.touched = some id
  request : p.request = none
  cancels : p.cancels = none

/-- What touches no invocation calls no producer. -/
theorem Act.Only.quiet {β : Type} {p : Act C β} {revoked : Option GrantId} (h : p.Only revoked) :
    p.request = none := by
  have htouched := h.touched
  cases p with
  | produce => cases htouched
  | _ => rfl

theorem Act.Only.settles {β : Type} {p : Act C β} (h : p.Only none) (id : InvocationId) :
    p.Settles id := ⟨h.begins, .inl h.touched, h.quiet, h.cancels.elim (fun h => h) fun h => h⟩

theorem Act.Settles.touches {β : Type} {p : Act C β} {id : InvocationId} (h : p.Settles id)
    {S : Set InvocationId} (hid : id ∈ S) : ∀ i ∈ p.touched, i ∈ S := by
  intro i hi
  rcases h.touched with hnone | hsome
  · rw [hnone] at hi
    cases hi
  · rw [hsome] at hi
    cases hi
    exact hid

namespace Orchestrator

open Program

variable {revoked : Option GrantId} (call : Call C)

theorem look_only {β : Type} {p : Act C β} (hbegins : p.begins = none) (htouched : p.touched = none)
    (hcancels : p.cancels = none) : (perform p : Orchestrator C β).Performs (Act.Only revoked) :=
  .perform ⟨hbegins, htouched, .inl hcancels⟩

theorem store_only {α : Type} {p : Act C (Except Error α)} (hbegins : p.begins = none)
    (htouched : p.touched = none) (hcancels : p.cancels = none) :
    (store p).Performs (Act.Only revoked) :=
  .bind (look_only hbegins htouched hcancels) fun _ => .ofExcept _

theorem authz_only {α : Type} (x : Except AuthzError α) :
    (authz x : Orchestrator C α).Performs (Act.Only revoked) := .ofExcept _

/-- What cancels nothing cancels nothing else. -/
theorem only_of_none {α : Type} {x : Orchestrator C α} (hx : x.Performs (Act.Only none)) :
    x.Performs (Act.Only revoked) :=
  hx.mono fun _ _ h => ⟨h.begins, h.touched, .inl (h.cancels.elim (fun h => h) fun h => h)⟩

theorem freshInvocation_only : (freshInvocation : Orchestrator C _).Performs (Act.Only none) :=
  .bind (look_only rfl rfl rfl) fun _ => .expect _ _

theorem decide_only (request : AuthzRequest) :
    (decide request : Orchestrator C _).Performs (Act.Only none) :=
  .bind (look_only rfl rfl rfl) fun _ => .bind (look_only rfl rfl rfl) fun _ => .ofExcept _

theorem deny_only (capability : Capability) (session : Option SessionId) (failure : Failure) :
    (deny call capability session failure).Performs (Act.Only none) :=
  .bind freshInvocation_only fun _ => .bind (store_only rfl rfl rfl) fun _ => trivial

theorem replayRefusal_only (capability : Capability) :
    (replayRefusal call capability).Performs (Act.Only none) := by
  refine .bind (look_only rfl rfl rfl) fun _ => .bind (look_only rfl rfl rfl) fun _ =>
    .bind (authz_only _) fun x => ?_
  cases x <;> trivial

theorem chainRefusal_only (grant : GrantId) :
    (chainRefusal grant : Orchestrator C _).Performs (Act.Only none) := by
  refine .bind (look_only rfl rfl rfl) fun _ => .bind (authz_only _) fun leaf => ?_
  cases leaf with
  | none => trivial
  | some =>
    refine .bind (look_only rfl rfl rfl) fun _ => .bind (authz_only _) fun verdict => ?_
    cases verdict <;> trivial

theorem captureLimits_only (session : SessionId) (requested : CaptureLimits) :
    (captureLimits call session requested).Performs (Act.Only none) :=
  .bind (look_only rfl rfl rfl) fun _ => .bind (look_only rfl rfl rfl) fun _ => authz_only _

theorem prior_only (capability : Capability) (key : IdempotencyKey) :
    (prior call capability key).Performs (Act.Only none) := by
  refine .bind (store_only rfl rfl rfl) fun claimed => ?_
  split <;> trivial

theorem bind_only (capability : Capability) (key : IdempotencyKey) :
    (bind call capability key).Performs (Act.Only none) := by
  refine .bind freshInvocation_only fun _ => .bind (store_only rfl rfl rfl) fun claimed => ?_
  split <;> trivial

theorem storedSession_only (invocation : InvocationId) (parent : Option SessionId) :
    (storedSession call invocation parent).Performs (Act.Only none) := by
  refine .bind (look_only rfl rfl rfl) fun _ => .bind (authz_only _) fun owner => ?_
  split <;> trivial

theorem writeSession_only (new : NewSession) (parent : Option SessionId) :
    (writeSession new parent : Orchestrator C _).Performs (Act.Only none) := by
  cases parent with
  | none => exact .bind (store_only rfl rfl rfl) fun _ => trivial
  | some => exact store_only rfl rfl rfl

theorem openNewSession_only (capability : Capability) (key : IdempotencyKey)
    (parent : Option SessionId) :
    (openNewSession call capability key parent).Performs (Act.Only none) := by
  refine .bind (decide_only _) fun plan => ?_
  split
  · exact deny_only call ..
  · refine .bind (bind_only call ..) fun bound => ?_
    split
    · trivial
    · refine .bind (writeSession_only ..) fun opened => ?_
      split <;> trivial

theorem openSession_only (parent : Option SessionId) :
    (openSession call parent).Performs (Act.Only none) := by
  unfold openSession
  extract_lets capability
  split
  · trivial
  · refine .bind (prior_only call ..) fun prior => ?_
    split
    · trivial
    · exact openNewSession_only call ..
    · refine .bind (replayRefusal_only call _) fun refusal => ?_
      split
      · exact deny_only call ..
      · refine .bind (storedSession_only call ..) fun stored => ?_
        split
        · trivial
        · exact openNewSession_only call ..

theorem issueRefusal_only (request : GrantIssueRequest) (child : GrantId) :
    (issueRefusal call request child).Performs (Act.Only none) :=
  .bind (look_only rfl rfl rfl) fun _ => .bind (look_only rfl rfl rfl) fun _ =>
    .bind (authz_only _) fun _ => trivial

theorem issueNewGrant_only (key : IdempotencyKey) (request : GrantIssueRequest) :
    (issueNewGrant call key request).Performs (Act.Only none) := by
  refine .bind (issueRefusal_only call ..) fun refusal => ?_
  split
  · exact deny_only call ..
  · refine .bind (bind_only call ..) fun bound => ?_
    split
    · trivial
    · refine .bind (store_only rfl rfl rfl) fun outcome => ?_
      split <;> trivial

theorem grantIssue_only (request : GrantIssueRequest) :
    (grantIssue call request).Performs (Act.Only none) := by
  unfold grantIssue
  split
  · trivial
  · refine .bind (prior_only call ..) fun prior => ?_
    split
    · trivial
    · exact issueNewGrant_only call ..
    · refine .bind (replayRefusal_only call _) fun refusal => ?_
      split
      · exact deny_only call ..
      · refine .bind (look_only rfl rfl rfl) fun _ => .bind (authz_only _) fun grant => ?_
        split
        · trivial
        · exact issueNewGrant_only call ..

theorem revokeDecision_only (target : GrantId) :
    (revokeDecision call target).Performs (Act.Only none) :=
  .bind (look_only rfl rfl rfl) fun _ => .bind (look_only rfl rfl rfl) fun _ => authz_only _

theorem revokeNewGrant_only (key : IdempotencyKey) (target : GrantId) :
    (revokeNewGrant call key target).Performs (Act.Only (some target)) := by
  refine .bind (only_of_none (revokeDecision_only call _)) fun decision => ?_
  split
  · exact only_of_none (deny_only call ..)
  · refine .bind (only_of_none (bind_only call ..)) fun bound => ?_
    split
    · trivial
    · have hsome (invocation : InvocationId) (record : Revocation) :
          (do perform (.cancelRevoked target); return Orchestrator.revoked invocation record :
            Orchestrator C Reply).Performs (Act.Only (some target)) :=
        .bind (.perform ⟨rfl, rfl, .inr rfl⟩) fun _ => trivial
      split
      · exact hsome ..
      · refine .bind (store_only rfl rfl rfl) fun record => ?_
        cases record with
        | none => trivial
        | some => exact hsome ..

theorem grantRevoke_only (target : GrantId) :
    (grantRevoke call target).Performs (Act.Only (some target)) := by
  unfold grantRevoke
  split
  · trivial
  · refine .bind (only_of_none (prior_only call ..)) fun prior => ?_
    split
    · trivial
    · exact revokeNewGrant_only call ..
    · refine .bind (only_of_none (replayRefusal_only call _)) fun refusal => ?_
      split
      · exact only_of_none (deny_only call ..)
      · refine .bind (look_only rfl rfl rfl) fun _ => .bind (authz_only _) fun record => ?_
        split
        · trivial
        · exact revokeNewGrant_only call ..

theorem artifactPlan_only (capability : Capability) (artifact : ArtifactRef) :
    (artifactPlan call capability artifact).Performs (Act.Only none) := by
  refine .bind (store_only rfl rfl rfl) fun info => .bind (decide_only _) fun plan => ?_
  split <;> trivial

theorem read_only (request : ReadRequest) : (read call request).Performs (Act.Only none) := by
  refine .bind (artifactPlan_only call ..) fun plan => ?_
  split
  · exact deny_only call ..
  · refine .bind (store_only rfl rfl rfl) fun chunk => ?_
    split <;> trivial

theorem textMatches_only (artifact : ArtifactRef) (predicate : Bytes) :
    (textMatches artifact predicate : Orchestrator C Bool).Performs (Act.Only none) := by
  unfold textMatches
  split
  · trivial
  · refine .bind (store_only rfl rfl rfl) fun info => ?_
    split <;> trivial

theorem matching_only (predicate : Bytes) (refs : List ArtifactRef) :
    (matching predicate refs : Orchestrator C _).Performs (Act.Only none) := by
  induction refs with
  | nil => trivial
  | cons _ _ ih => exact .bind (textMatches_only ..) fun _ => .bind ih fun _ => trivial

theorem query_only (request : QueryRequest) : (query call request).Performs (Act.Only none) := by
  refine .bind (decide_only _) fun plan => ?_
  split
  · exact deny_only call ..
  · split
    · trivial
    · refine .bind (store_only rfl rfl rfl) fun page => ?_
      split
      · trivial
      · exact .bind (matching_only ..) fun _ => trivial

theorem auditScope_only (requested : AuditScope) :
    (auditScope call requested).Performs (Act.Only none) :=
  .bind (look_only rfl rfl rfl) fun _ => .bind (authz_only _) fun _ => trivial

theorem auditQuery_only (request : AuditQueryRequest) :
    (auditQuery call request).Performs (Act.Only none) := by
  refine .bind (decide_only _) fun plan => ?_
  split
  · exact deny_only call ..
  · exact .bind (auditScope_only call _) fun _ => .bind (store_only rfl rfl rfl) fun _ =>
      .bind freshInvocation_only fun _ => .bind (store_only rfl rfl rfl) fun _ => trivial

theorem ingestPlan_only : (ingestPlan call).Performs (Act.Only none) := by
  refine .bind (decide_only _) fun plan => ?_
  split <;> trivial

theorem ingest_only : (ingest call).Performs (Act.Only none) :=
  .bind (ingestPlan_only call) fun _ => deny_only call ..

theorem withRefusal_only (capability : Capability) (refusal : Option Failure) :
    (withRefusal call capability refusal).Performs (Act.Only none) := by
  cases refusal with
  | some => trivial
  | none => exact .bind (decide_only _) fun _ => trivial

theorem planOf_only (body : RequestBody) : (planOf call body).Performs (Act.Only none) := by
  cases body with
  | capture => exact .bind (captureLimits_only call ..) fun _ => decide_only _
  | sessionCreate | sessionFork | query | auditQuery => exact decide_only _
  | read => exact artifactPlan_only call ..
  | ingest => exact ingestPlan_only call
  | grantIssue =>
    exact .bind (issueRefusal_only call ..) fun _ => withRefusal_only call ..
  | grantRevoke =>
    exact .bind (revokeDecision_only call _) fun _ => withRefusal_only call ..

/-! ## Captures -/

theorem captured_only (status : InvocationStatus) :
    (captured status : Orchestrator C _).Performs (Act.Only none) := by
  unfold captured
  split
  · trivial
  · exact .bind (store_only rfl rfl rfl) fun _ => trivial

theorem replay_only (status : InvocationStatus) :
    (replay status : Orchestrator C _).Performs (Act.Only none) := by
  unfold replay
  split
  · trivial
  · refine .bind (captured_only _) fun outcome => ?_
    split <;> trivial
  · trivial

theorem replayCapture_only (status : InvocationStatus) :
    (replayCapture call status).Performs (Act.Only none) := by
  refine .bind (replayRefusal_only call _) fun refusal => ?_
  split
  · exact deny_only call ..
  · exact replay_only _

section Running

variable (invocation : InvocationId)

theorem store_settles {α : Type} {p : Act C (Except Error α)} (h : p.Settles invocation) :
    (store p).Performs (Act.Settles invocation) :=
  .bind (.perform h) fun _ => .ofExcept _

/-- What touches no invocation does nothing else either. -/
theorem settles_of_only {α : Type} {x : Orchestrator C α} (hx : x.Performs (Act.Only none)) :
    x.Performs (Act.Settles invocation) := hx.mono fun _ _ h => h.settles invocation

theorem release_settles (reason : ReleaseReason) :
    (release invocation reason : Orchestrator C _).Performs (Act.Settles invocation) :=
  .bind (store_settles _ ⟨rfl, .inr rfl, rfl, rfl⟩) fun _ => trivial

theorem settleFailed_settles (failure : Failure) (actual : Cost) :
    (settleFailed invocation failure actual : Orchestrator C _).Performs
      (Act.Settles invocation) :=
  .bind (store_settles _ ⟨rfl, .inr rfl, rfl, rfl⟩) fun _ => trivial

theorem markUnknownEffect_settles :
    (markUnknownEffect invocation : Orchestrator C _).Performs (Act.Settles invocation) :=
  .bind (store_settles _ ⟨rfl, .inr rfl, rfl, rfl⟩) fun _ => trivial

theorem preDispatch_only (grant : GrantId) (cancelled : Bool) :
    (preDispatch grant cancelled : Orchestrator C _).Performs (Act.Only none) := by
  refine .bind (chainRefusal_only _) fun refusal => ?_
  split
  · trivial
  · split
    · trivial
    · refine .bind (look_only rfl rfl rfl) fun past => ?_
      split <;> trivial

theorem stopReason_only (grant : GrantId) :
    (stopReason grant : Orchestrator C _).Performs (Act.Only none) := by
  refine .bind (chainRefusal_only _) fun refusal => ?_
  split
  · trivial
  · refine .bind (look_only rfl rfl rfl) fun past => ?_
    split <;> trivial

theorem publish_settles (limits : CaptureLimits) (output : ProducerOutput) (elapsed : UInt64) :
    (publish call limits invocation output elapsed).Performs (Act.Settles invocation) :=
  .bind (settles_of_only _ (chainRefusal_only _)) fun _ =>
    .bind (store_settles _ ⟨rfl, .inr rfl, rfl, rfl⟩) fun _ =>
    .bind (store_settles _ ⟨rfl, .inr rfl, rfl, rfl⟩) fun _ =>
    .bind (store_settles _ ⟨rfl, .inr rfl, rfl, rfl⟩) fun _ => trivial

theorem finish_settles (limits : CaptureLimits) (output : ProducerOutput) (elapsed : UInt64) :
    (finish call limits invocation output elapsed).Performs (Act.Settles invocation) := by
  unfold finish
  split
  · exact settleFailed_settles ..
  · exact publish_settles call ..

theorem fail_settles (grant : GrantId) (elapsed : UInt64) (error : ProducerError) :
    (fail grant invocation elapsed error : Orchestrator C _).Performs
      (Act.Settles invocation) := by
  unfold fail
  split
  · exact release_settles ..
  · exact .bind (settles_of_only _ (stopReason_only _)) fun _ => release_settles ..
  · exact settleFailed_settles ..
  · exact settleFailed_settles ..
  · exact markUnknownEffect_settles _
  · refine .bind (settles_of_only _ (look_only rfl rfl rfl)) fun _ => ?_
    exact settleFailed_settles ..

theorem afterError_settles :
    (afterError invocation : Orchestrator C _).Performs (Act.Settles invocation) := by
  refine .bind (settles_of_only _ (store_only rfl rfl rfl)) fun status => ?_
  split
  · trivial
  · extract_lets reply
    -- Whatever the status is by then, it is answered from or reported as unknown.
    have hreply (status : InvocationStatus) : (reply status).Performs (Act.Settles invocation) := by
      unfold reply
      split
      · exact settles_of_only _ (replay_only _)
      · trivial
    split
    · exact .bind (store_settles _ ⟨rfl, .inr rfl, rfl, rfl⟩) hreply
    · exact .bind (store_settles _ ⟨rfl, .inr rfl, rfl, rfl⟩) hreply
    · exact Performs.bind (x := pure _) trivial hreply

end Running

theorem runBlocking_only {x : Orchestrator C Reply} (hx : x.Performs (Act.Only revoked)) :
    (runBlocking x).Performs (Act.Only revoked) := by
  refine .bind hx.attempt fun result => ?_
  split <;> trivial

/-- The grant a request revokes. -/
def revokes : RequestBody → Option GrantId
  | .grantRevoke target => some target
  | _ => none

/-- An executed call other than a capture touches no invocation. -/
theorem execute_only (body : RequestBody) :
    (execute call body).Performs (Act.Only (revokes body)) := by
  cases body with
  | sessionCreate | sessionFork => exact openSession_only call _
  | grantIssue => exact grantIssue_only call _
  | grantRevoke => exact grantRevoke_only call _
  | read => exact read_only call _
  | query => exact query_only call _
  | auditQuery => exact auditQuery_only call _
  | ingest => exact ingest_only call
  | capture => trivial

end Orchestrator

/-! ## Owners -/

/-- The entry of an intent that was persisted. -/
abbrev Event.persisted (intent : Intent C) (status : InvocationStatus) : Event C :=
  .transacted (.begin intent) (.ok (Begin.persisted status))

/-- The invocations whose intent a handler persisted. -/
def begun (l : List (Event C)) : Set InvocationId :=
  {id | ∃ intent status, .persisted intent status ∈ l ∧ status.id = id}

theorem begun_append {l m : List (Event C)} {id : InvocationId} :
    id ∈ begun (l ++ m) ↔ id ∈ begun l ∨ id ∈ begun m := by
  constructor
  · rintro ⟨intent, status, hmem, rfl⟩
    exact (List.mem_append.mp hmem).imp (fun h => ⟨_, _, h, rfl⟩) fun h => ⟨_, _, h, rfl⟩
  · rintro (⟨intent, status, hmem, rfl⟩ | ⟨intent, status, hmem, rfl⟩)
    · exact ⟨intent, status, List.mem_append_left _ hmem, rfl⟩
    · exact ⟨intent, status, List.mem_append_right _ hmem, rfl⟩

/-- A handler touched only what it began. -/
def Owning (l : List (Event C)) : Prop := ∀ e ∈ l, ∀ id, e.touched = some id → id ∈ begun l

theorem Owning.append {l : List (Event C)} (h : Owning l) {β : Type} {p : Act C β}
    (hp : ∀ id ∈ p.touched, id ∈ begun l) (b : β) : Owning (l ++ p.event β b) := by
  intro e he i hi
  rw [begun_append]
  rcases List.mem_append.mp he with he | he
  · exact .inl (h e he i hi)
  · exact .inl (hp i (by rw [← Event.touched_of_mem he, hi]; rfl))

open Program in
/-- One access of the store, from a log with `J`. -/
theorem Orchestrator.keepsLog_store {α : Type} {E : Daemon C → List (Event C) → Daemon C → Prop}
    {I : Daemon C × List (Event C) → Prop} (hI : Stable (Server.beside E) I)
    {p : Act C (Except Error α)} {J : List (Event C) → Prop}
    {Q : Except CallError α → List (Event C) → Prop} {y : Daemon C × List (Event C)}
    (hact : ∀ d l b d', I (d, l) → J l → p.Answered _ d b d' →
      I (d', l ++ p.event _ b) ∧ Q (b.mapError CallError.store) (l ++ p.event _ b))
    (hy : I y) (hJ : J y.2) : Daemon.server.KeepsLog E I Q (store p) y := by
  have hperform : Daemon.server.KeepsLog E I
      (fun r l => ∃ b, r = .ok b ∧ Q (b.mapError CallError.store) l) (perform p) y := by
    refine .perform hI (J := J) (fun d l b d' hd hl hanswer => ?_) hy hJ
    have hdone := hact d l b d' hd hl hanswer
    exact ⟨hdone.1, b, rfl, hdone.2⟩
  refine hperform.bind ?_ (by simp)
  rintro b y ⟨_, ⟨⟩, hQ⟩ hy
  exact .ofExcept hI hy hQ

end Dioptron
