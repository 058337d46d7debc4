import Dioptron.Rotations

/-! # Repeating a directory call

A call on the directory that is made again finds what the first one stored before it
decides anything, so that nothing that changed since (the parent's budget, its expiry or
revocation, the clock, the keys) matters.  `Done` says what a successful call leaves in
the book; it stays along every run, and where it holds a repeat only reads.
-/
namespace Dioptron

open Relation (ReflTransGen)

variable {C : Crypto} {s : Store C} {K : KeyState C} {L : Custody C}

/-! ## Transactions that only read -/

/-- A primitive that changes nothing, not even the clock. -/
def Prim.IsRead : (β : Type) → Prim C β → Prop
  | _, .now | _, .put _ | _, .putSealed .. | _, .removeSealed .. => False
  | _, _ => True

theorem Store.handler_read {β : Type} {p : Prim C β} {r : β × Store C} (hp : Prim.IsRead β p)
    (h : Store.handler β p s = .ok r) : r.2 = s := by
  cases p with
  | now | put | putSealed | removeSealed => exact hp.elim
  | view | contains =>
    cases h
    rfl
  | profile | tombstone | get | tenantKeys | liveTenantKeys | blobAddress | containsSealed =>
    obtain ⟨_, -, h⟩ := bind_eq_ok.mp h
    cases h
    rfl
  | nextAuditSeq | getSealed =>
    obtain ⟨_, -, h⟩ := bind_eq_ok.mp h
    obtain ⟨_, -, h⟩ := bind_eq_ok.mp h
    cases h
    rfl

/-- On this book the transaction only reads, and answers `a`. -/
def Custody.Observes {α : Type} (L : Custody C) (tx : Tx C α) (a : α) : Prop :=
  Program.Observes Custody.handler Prim.IsRead L tx a

/-- Where a transaction only reads the book, it leaves the store as it is. -/
theorem Represents.commit_of_observes {α : Type} {tx : Tx C α} {a : α} (h : Represents K L s)
    (htx : L.Observes tx a) : s.commit tx = .ok (a, s) :=
  Program.Observes.run_of_related (R := fun s L => Represents K L s)
    (fun β p _ _ hR => handler_related hR β p) (fun _ _ _ _ hp hr => Store.handler_read hp hr) htx h

namespace Custody.Observes

variable {L : Custody C} {α β : Type}

theorem bind {x : Tx C α} {f : α → Tx C β} {a : α} {b : β} (hx : L.Observes x a)
    (hf : L.Observes (f a) b) : L.Observes (x >>= f) b := Program.Observes.bind hx hf

theorem pure (a : α) : L.Observes (pure a) a := .done a

theorem decide {x : Except AuthzError α} {a : α} (hx : x = .ok a) : L.Observes (Tx.decide x) a :=
  .ofExcept (by rw [hx]; rfl)

theorem profile (t : TenantId) : L.Observes (Tx.profile t) (L.profiles t) := .perform trivial rfl

theorem record {T : Type} [Stored C.Block T] {n : GlobalName} {x : Option T}
    (hx : L.global n = x.map Stored.encode) : L.Observes (Tx.record T n) x := by
  refine .bind (.perform trivial rfl) ?_
  rw [hx]
  cases x with
  | none => exact .done none
  | some r =>
    refine .bind (.ofExcept (decodeAs_encode _ r)) (.done (some r))

theorem grantRecord (id : GrantId) : L.Observes (Tx.grantRecord id) (L.grants id) := record rfl

theorem revocationRecord (id : GrantId) :
    L.Observes (Tx.revocationRecord id) (L.revocations id) := record rfl

theorem sessionRecord (id : SessionId) : L.Observes (Tx.sessionRecord id) (L.sessions id) :=
  record rfl

/-- The book's run of a transaction that only reads. -/
theorem run_eq {tx : Tx C α} {a : α} (h : L.Observes tx a) : L.run tx = .ok (a, L) := by
  induction h with
  | done => rfl
  | call _ hb _ ih =>
    rw [Custody.run, Program.run, hb]
    exact ih

end Custody.Observes

/-! ## Directory calls -/

/-- A write to the directory. -/
inductive DirectoryCall
  | registerTenant (registration : TenantRegistration)
  | installRootGrant (root : RootGrant)
  | issueGrant (issue : GrantIssue)
  | revokeGrant (revoke : RevokeGrant)
  | createSession (new : NewSession)
  | forkSession (new : NewSession) (parent : SessionId)

namespace DirectoryCall

def Reply : DirectoryCall → Type
  | registerTenant _ | installRootGrant _ => Unit
  | issueGrant _ => IssueOutcome
  | revokeGrant _ => Option Revocation
  | createSession _ => SessionOpened
  | forkSession .. => Option SessionOpened

/-- The call on a store; `draw` is the data key a new tenant gets. -/
def run (s : Store C) (draw : C.Block) : (call : DirectoryCall) →
    Except Error (call.Reply × Store C)
  | registerTenant registration => (s.registerTenant registration draw).map fun s' => ((), s')
  | installRootGrant root => s.commit (Tx.installRootGrant root)
  | issueGrant issue => s.commit (Tx.issueGrant issue)
  | revokeGrant revoke => s.commit (Tx.revokeGrant revoke)
  | createSession new => s.commit (Tx.createSession new)
  | forkSession new parent => s.commit (Tx.forkSession new parent)

/-- The call as a step of the store's life. -/
def operation (draw : C.Block) : DirectoryCall → Operation C
  | registerTenant registration => .registerTenant registration draw
  | installRootGrant root => .transact (.installRootGrant root)
  | issueGrant issue => .transact (.issueGrant issue)
  | revokeGrant revoke => .transact (.revokeGrant revoke)
  | createSession new => .transact (.createSession new)
  | forkSession new parent => .transact (.forkSession new parent)

/-- The call did what it was asked for: a grant was not refused, and the grant to revoke
or the session to fork exists. -/
def Succeeded : (call : DirectoryCall) → call.Reply → Prop
  | issueGrant _, outcome => ∃ grant parent, outcome = .issued grant parent
  | revokeGrant _, revocation => revocation.isSome
  | forkSession .., opened => opened.isSome
  | registerTenant _, _ | installRootGrant _, _ | createSession _, _ => True

/-- The tenants whose records the call reads.  The records of an issuer, of the holder of
an issued grant and of an actor are not among them. -/
def tenants : DirectoryCall → List TenantId
  | registerTenant registration => [registration.id]
  | installRootGrant root => [root.holder]
  | issueGrant _ | revokeGrant _ => []
  | createSession new | forkSession new _ => [new.owner]

end DirectoryCall

/-! ## What a successful call leaves -/

namespace Book

variable (b : Book C)

/-- The depth limit `request` stands for under the parent of `r`. -/
def requestedMaxDepth (r : GrantRecord) (request : GrantIssueRequest) : Option UInt8 :=
  match request.maxDepth, r.parent with
  | some maxDepth, _ => some maxDepth
  | none, some parent => (b.grants parent).map GrantRecord.maxDepth
  | none, none => none

/-- `r` is what issuing `request` stores. -/
def IssuedFrom (r : GrantRecord) (request : GrantIssueRequest) : Prop :=
  r.holder = request.holder
    ∧ r.capabilities.toFinset = request.capabilities.toFinset
    ∧ r.sessionScope = request.sessionScope
    ∧ r.targetPatterns = request.targetScope
    ∧ r.ceilings = request.ceilings
    ∧ r.notBefore = request.notBefore
    ∧ r.expiresAt = request.expiresAt
    ∧ some r.maxDepth = b.requestedMaxDepth r request

instance (r : GrantRecord) (request : GrantIssueRequest) : Decidable (b.IssuedFrom r request) :=
  inferInstanceAs (Decidable (_ ∧ _))

/-- A session as `new` asks for it is open. -/
structure Opened (new : NewSession) (parent : Option SessionId) : Prop where
  owner : (b.profiles new.owner).isSome
  parentOpen : ∀ p ∈ parent, (b.sessions p).isSome
  session : ∃ r, b.sessions new.session = some r ∧
    r.owner = new.owner ∧ r.parent = parent ∧ r.ceilings = new.ceilings

/-- What a call that was answered `reply` leaves in the book. -/
def Done : (call : DirectoryCall) → call.Reply → Prop
  | .registerTenant registration, _ => ∃ p, b.profiles registration.id = some p ∧
      ∀ key, sameIdentity (p.withKey key) registration
  | .installRootGrant root, _ => ∃ grant, root.toGrant = .ok grant ∧
      (b.profiles root.holder).isSome ∧
      b.grants grant.id = some (.fromGrant grant root.targetScope)
  | .issueGrant issue, outcome => ∃ r, b.grants issue.context.child = some r ∧
      r.issuer = issue.context.issuer ∧ r.parent = some issue.context.designated ∧
      b.IssuedFrom r issue.request ∧ outcome = .issued r.id issue.context.designated
  | .revokeGrant revoke, revocation => (b.grants revoke.grant).isSome ∧
      ∃ r, b.revocations revoke.grant = some r ∧ revocation = some r.toRevocation
  | .createSession new, opened => b.Opened new none ∧ opened = Tx.sessionOpened new none
  | .forkSession new parent, opened =>
      b.Opened new (some parent) ∧ opened = some (Tx.sessionOpened new (some parent))

end Book

/-! ## A repeat only reads -/

namespace Custody

variable {L : Custody C}

theorem observes_issuedFrom (r : GrantRecord) (request : GrantIssueRequest) :
    L.Observes (Tx.issuedFrom r request) (decide (L.IssuedFrom r request)) := by
  have hdepth : L.Observes (Tx.requestedMaxDepth r request) (L.requestedMaxDepth r request) := by
    unfold Tx.requestedMaxDepth Book.requestedMaxDepth
    cases request.maxDepth with
    | some => exact .pure _
    | none =>
      cases r.parent with
      | some parent => exact .bind (.grantRecord parent) (.pure _)
      | none => exact .pure _
  exact hdepth.bind (.pure _)

theorem observes_putNewGrant {r : GrantRecord} (hr : L.grants r.id = some r) :
    L.Observes (Tx.putNewGrant r) false := by
  refine .bind (.grantRecord r.id) ?_
  rw [hr]
  exact .bind (.guard rfl) (.pure false)

theorem observes_openSession {new : NewSession} {parent : Option SessionId}
    (h : L.Opened new parent) :
    L.Observes (Tx.openSession new parent) (some (Tx.sessionOpened new parent)) := by
  obtain ⟨p, hp⟩ := Option.isSome_iff_exists.mp h.owner
  obtain ⟨r, hr, hsame⟩ := h.session
  have hparent : L.Observes (Tx.parentMissing parent) false := by
    cases parent with
    | none => exact .pure false
    | some q =>
      obtain ⟨sr, hsr⟩ := Option.isSome_iff_exists.mp (h.parentOpen q rfl)
      refine .bind (.sessionRecord q) ?_
      rw [hsr]
      exact .pure false
  refine .bind (.profile new.owner) (.bind (.expect hp) (.bind hparent ?_))
  refine .bind (.sessionRecord new.session) ?_
  rw [hr]
  exact .bind (.guard hsame) (.pure _)

theorem observes_issueGrant {issue : GrantIssue} {r : GrantRecord}
    (hr : L.grants issue.context.child = some r) (hissuer : r.issuer = issue.context.issuer)
    (hparent : r.parent = some issue.context.designated) (hfrom : L.IssuedFrom r issue.request) :
    L.Observes (Tx.issueGrant issue) (.issued r.id issue.context.designated) := by
  have hknown : L.Observes (Tx.alreadyIssued issue.context) (some r) := by
    refine .bind (.grantRecord _) ?_
    rw [hr, Option.filter_some, if_pos (decide_eq_true ⟨hissuer, hparent⟩)]
    exact .pure _
  refine .bind hknown (.bind (observes_issuedFrom r issue.request) ?_)
  exact .bind (.guard (decide_eq_true hfrom)) (.pure _)

end Custody

/-- **Where a call is done, repeating it answers the same and changes nothing.** -/
theorem Represents.repeat_eq (h : Represents K L s) {call : DirectoryCall} {reply : call.Reply}
    (hdone : L.Done call reply) (draw : C.Block) : call.run s draw = .ok (reply, s) := by
  cases call with
  | registerTenant registration =>
    obtain ⟨p, hp, hsame⟩ := hdone
    have hs : s.registerTenant registration draw = .ok s := by
      simp only [Store.registerTenant, h.tenantRecord_eq, hp, ok_bind, Option.map_some, hsame,
        ensure_of_true]
      rfl
    rw [DirectoryCall.run, hs]
    rfl
  | installRootGrant =>
    obtain ⟨grant, hgrant, hholder, hr⟩ := hdone
    obtain ⟨p, hp⟩ := Option.isSome_iff_exists.mp hholder
    refine h.commit_of_observes (.bind (.decide hgrant) ?_)
    exact .bind (.profile _)
      (.bind (.expect hp) (.bind (Custody.observes_putNewGrant hr) (.pure _)))
  | issueGrant =>
    obtain ⟨r, hr, hissuer, hparent, hfrom, rfl⟩ := hdone
    exact h.commit_of_observes (Custody.observes_issueGrant hr hissuer hparent hfrom)
  | revokeGrant =>
    obtain ⟨hgrant, r, hr, rfl⟩ := hdone
    obtain ⟨g, hg⟩ := Option.isSome_iff_exists.mp hgrant
    refine h.commit_of_observes (.bind (.grantRecord _) ?_)
    rw [hg]
    refine .bind (.revocationRecord _) ?_
    rw [hr]
    exact .pure _
  | createSession =>
    obtain ⟨hopened, rfl⟩ := hdone
    exact h.commit_of_observes (.bind (Custody.observes_openSession hopened) (.pure _))
  | forkSession =>
    obtain ⟨hopened, rfl⟩ := hdone
    exact h.commit_of_observes (Custody.observes_openSession hopened)

/-! ## A successful call is done -/

namespace Book

variable {b b' : Book C}

/-- **What a call left stays**, as long as the tenants whose records it reads are not
shredded. -/
theorem Done.extends {call : DirectoryCall} {reply : call.Reply} (h : b.Done call reply)
    (hext : b.Extends b') (hlive : ∀ t ∈ call.tenants, b'.tombstones t = none) :
    b'.Done call reply := by
  have hprofile {t : TenantId} {p : TenantProfile} (ht : t ∈ call.tenants)
      (hp : b.profiles t = some p) : b'.profiles t = some p := by
    rcases hext.profiles t p hp with hp' | ⟨-, hstone⟩
    · exact hp'
    · rw [hlive t ht] at hstone
      cases hstone
  have hopened {new : NewSession} {parent : Option SessionId} (ht : new.owner ∈ call.tenants)
      (ho : b.Opened new parent) : b'.Opened new parent := by
    obtain ⟨p, hp⟩ := Option.isSome_iff_exists.mp ho.owner
    obtain ⟨r, hr, hsame⟩ := ho.session
    refine ⟨by rw [hprofile ht hp]; rfl, fun q hq => ?_, r, hext.sessions _ r hr, hsame⟩
    obtain ⟨sr, hsr⟩ := Option.isSome_iff_exists.mp (ho.parentOpen q hq)
    rw [hext.sessions q sr hsr]
    rfl
  cases call with
  | registerTenant =>
    obtain ⟨p, hp, hsame⟩ := h
    exact ⟨p, hprofile (List.mem_singleton_self _) hp, hsame⟩
  | installRootGrant =>
    obtain ⟨grant, hgrant, hholder, hr⟩ := h
    obtain ⟨p, hp⟩ := Option.isSome_iff_exists.mp hholder
    refine ⟨grant, hgrant, ?_, hext.grants _ _ hr⟩
    rw [hprofile (List.mem_singleton_self _) hp]
    rfl
  | issueGrant issue =>
    obtain ⟨r, hr, hissuer, hparent, hfrom, houtcome⟩ := h
    refine ⟨r, hext.grants _ r hr, hissuer, hparent, ?_, houtcome⟩
    obtain ⟨h₁, h₂, h₃, h₄, h₅, h₆, h₇, hdepth⟩ := hfrom
    refine ⟨h₁, h₂, h₃, h₄, h₅, h₆, h₇, ?_⟩
    unfold requestedMaxDepth at hdepth ⊢
    rw [hparent] at hdepth ⊢
    cases hmax : issue.request.maxDepth with
    | some =>
      rw [hmax] at hdepth
      exact hdepth
    | none =>
      -- The parent's record is stored already, and it stays.
      rw [hmax] at hdepth
      obtain ⟨pr, hpr, hmaxDepth⟩ := Option.map_eq_some_iff.mp hdepth.symm
      simp only [hext.grants _ pr hpr, Option.map_some, hmaxDepth]
  | revokeGrant =>
    obtain ⟨hgrant, r, hr, hreply⟩ := h
    obtain ⟨g, hg⟩ := Option.isSome_iff_exists.mp hgrant
    refine ⟨?_, r, hext.revocations _ r hr, hreply⟩
    rw [hext.grants _ g hg]
    rfl
  | createSession => exact ⟨hopened (List.mem_singleton_self _) h.1, h.2⟩
  | forkSession => exact ⟨hopened (List.mem_singleton_self _) h.1, h.2⟩

end Book

namespace Custody

variable {L : Custody C}

theorem putNewGrant_stored {r : GrantRecord} {x : Bool × Custody C}
    (h : L.run (Tx.putNewGrant r) = .ok x) : x.2.grants r.id = some r := by
  rcases run_putNewGrant h with ⟨hr, rfl⟩ | ⟨-, rfl⟩
  · exact hr
  · exact Function.update_self _ _ _

theorem installRootGrant_done {root : RootGrant} {x : Unit × Custody C}
    (h : L.run (Tx.installRootGrant root) = .ok x) : x.2.Done (.installRootGrant root) x.1 := by
  simp only [Tx.installRootGrant, run_bind_decide, run_bind_profile, run_bind_expect] at h
  obtain ⟨grant, hgrant, p, hp, h⟩ := h
  obtain ⟨added, mid, hadd, h⟩ := run_bind_ok.mp h
  cases h
  refine ⟨grant, hgrant, ?_, putNewGrant_stored hadd⟩
  rcases run_putNewGrant hadd with ⟨-, hx⟩ | ⟨-, hx⟩
  · cases hx
    rw [hp]
    rfl
  · cases hx
    show (L.profiles root.holder).isSome
    rw [hp]
    rfl

/-- The grant that was decided on is what the request asks for. -/
theorem issuedFrom_of_checkIssue {b b' : Book C} {issue : GrantIssue} {now : Timestamp}
    {child : Grant} (hgrants : ∀ id r, b.grants id = some r → b'.grants id = some r)
    (h : checkIssue b.view issue.context issue.request now = .ok (.issued child)) :
    child.id = issue.context.child ∧ child.issuer = issue.context.issuer ∧
      child.parent = some issue.context.designated ∧
      b'.IssuedFrom (.fromGrant child issue.request.targetScope) issue.request := by
  obtain ⟨parent, chain, scope, hview, hid, -, -, -, -, hchild, -⟩ := checkIssue_issued h
  obtain ⟨pr, hpr, hgrant⟩ := (Book.view_grant_eq_some b).mp hview
  obtain ⟨_, -, rfl⟩ := GrantRecord.toGrant_eq_ok hgrant
  have hparent : child.parent = some issue.context.designated := by
    rw [hchild, ← hid]
    rfl
  refine ⟨by rw [hchild]; rfl, by rw [hchild]; rfl, hparent, ?_⟩
  have hcaps : child.capabilities = issue.request.capabilities.toFinset := by rw [hchild]; rfl
  refine ⟨by rw [hchild]; rfl, (GrantRecord.toFinset_fromGrant _ _).trans hcaps,
    by rw [hchild]; rfl, rfl, by rw [hchild]; rfl, by rw [hchild]; rfl, by rw [hchild]; rfl, ?_⟩
  have hdepth : child.maxDepth = issue.request.maxDepth.getD pr.maxDepth := by rw [hchild]; rfl
  show some child.maxDepth = b'.requestedMaxDepth _ _
  unfold Book.requestedMaxDepth
  rw [show (GrantRecord.fromGrant child issue.request.targetScope).parent = _ from hparent, hdepth]
  cases issue.request.maxDepth with
  | some => rfl
  | none => simp only [hgrants _ pr hpr, Option.map_some, Option.getD_none]

theorem issueGrant_done {issue : GrantIssue} {x : IssueOutcome × Custody C}
    (h : L.run (Tx.issueGrant issue) = .ok x) (hok : ∃ grant parent, x.1 = .issued grant parent) :
    x.2.Done (.issueGrant issue) x.1 := by
  unfold Tx.issueGrant at h
  obtain ⟨existing, mid, hread, h⟩ := run_bind_ok.mp h
  simp only [Tx.alreadyIssued, run_bind_grantRecord, run_pure] at hread
  cases hread
  cases hexisting : (L.grants issue.context.child).filter fun existing =>
      decide (existing.issuer = issue.context.issuer ∧
        existing.parent = some issue.context.designated) with
  | some r =>
    rw [hexisting] at h
    obtain ⟨hr, hsame⟩ := Option.filter_eq_some_iff.mp hexisting
    obtain ⟨hissuer, hparent⟩ := of_decide_eq_true hsame
    obtain ⟨same, mid, hfrom, h⟩ := run_bind_ok.mp h
    rw [(observes_issuedFrom r issue.request).run_eq] at hfrom
    cases hfrom
    simp only [run_bind_guard, run_pure, decide_eq_true_eq] at h
    obtain ⟨hfrom, h⟩ := h
    cases h
    exact ⟨r, hr, hissuer, hparent, hfrom, rfl⟩
  | none =>
    rw [hexisting] at h
    simp only [run_bind_view, run_bind_now, run_bind_decide] at h
    obtain ⟨decision, hdecision, h⟩ := h
    cases decision with
    | notFoundOrDenied | denied code | narrowing axis =>
      obtain ⟨grant, parent, hreply⟩ := hok
      simp only [Tx.refuseIssue, run_bind_appendAudit, run_pure] at h
      cases h.2
      cases hreply
    | issued child =>
      dsimp only [Tx.storeIssued] at h
      obtain ⟨added, mid, hadd, h⟩ := run_bind_ok.mp h
      have hstored := putNewGrant_stored hadd
      have hgrants : ∀ id r, L.grants id = some r → mid.grants id = some r := by
        rcases run_putNewGrant hadd with ⟨-, hx⟩ | ⟨hnew, hx⟩
        · cases hx
          exact fun _ _ hr => hr
        · cases hx
          exact update_of_none hnew _
      obtain ⟨hid, hissuer, hparent, hfrom⟩ := issuedFrom_of_checkIssue hgrants hdecision
      have hbook : x.2.toBook = mid.toBook ∧ x.1 = .issued child.id issue.context.designated := by
        cases added with
        | true =>
          simp only [if_true, run_bind_appendAudit, run_pure] at h
          cases h.2
          exact ⟨rfl, rfl⟩
        | false =>
          cases h
          exact ⟨rfl, rfl⟩
      show x.2.toBook.Done _ _
      rw [hbook.1, hbook.2]
      refine ⟨_, ?_, hissuer, hparent, hfrom, rfl⟩
      rw [← hid]
      exact hstored

theorem revokeGrant_done {revoke : RevokeGrant} {x : Option Revocation × Custody C}
    (h : L.run (Tx.revokeGrant revoke) = .ok x) (hok : x.1.isSome) :
    x.2.Done (.revokeGrant revoke) x.1 := by
  simp only [Tx.revokeGrant, run_bind_grantRecord] at h
  cases hgrant : L.grants revoke.grant with
  | none =>
    rw [hgrant] at h
    cases h
    cases hok
  | some =>
    have hsome : (L.grants revoke.grant).isSome := by rw [hgrant]; rfl
    simp only [hgrant, run_bind_revocationRecord] at h
    cases hrev : L.revocations revoke.grant with
    | some r =>
      rw [hrev] at h
      cases h
      exact ⟨hsome, r, hrev, rfl⟩
    | none =>
      simp only [hrev, run_bind_appendAudit, run_bind_now, run_bind_put, run_pure] at h
      cases h.2.2
      exact ⟨hsome, _, Function.update_self _ _ _, rfl⟩

theorem openSession_done {new : NewSession} {parent : Option SessionId}
    {x : Option SessionOpened × Custody C} (h : L.run (Tx.openSession new parent) = .ok x)
    (hok : x.1.isSome ∨ parent = none) :
    x.2.Opened new parent ∧ x.1 = some (Tx.sessionOpened new parent) := by
  simp only [Tx.openSession, run_bind_profile, run_bind_expect] at h
  obtain ⟨p, hp, h⟩ := h
  have howner : (L.profiles new.owner).isSome := by rw [hp]; rfl
  obtain ⟨missing, mid, hmissing, h⟩ := run_bind_ok.mp h
  obtain ⟨rfl, hparent⟩ := run_parentMissing hmissing
  cases missing with
  | true =>
    cases h
    rcases hok with hok | rfl
    · cases hok
    · cases hmissing
  | false =>
    simp only [Bool.false_eq_true, if_false, run_bind_sessionRecord] at h
    cases hsession : mid.sessions new.session with
    | some r =>
      simp only [hsession, run_bind_guard, run_pure] at h
      obtain ⟨hsame, h⟩ := h
      cases h
      exact ⟨⟨howner, hparent rfl, r, hsession, hsame⟩, rfl⟩
    | none =>
      simp only [hsession, run_bind_now, run_bind_put, run_bind_appendAudit, run_pure] at h
      cases h.2.2
      refine ⟨⟨howner, fun q hq => ?_, _, Function.update_self _ _ _, rfl, rfl, rfl⟩, rfl⟩
      obtain ⟨sr, hsr⟩ := Option.isSome_iff_exists.mp (hparent rfl q hq)
      show (Function.update mid.sessions _ _ q).isSome
      rw [update_of_none hsession _ q sr hsr]
      rfl

end Custody

/-! ## Directory calls in the life of a store -/

/-- Every tenant, grant, revocation and session of `s` is in `s'` as it was. -/
structure Store.Keeps (s s' : Store C) : Prop where
  tenants : ∀ id r, s.tenantAt id = some r → s'.tenantAt id = some r
  grants : ∀ id r, s.grantAt id = some r → s'.grantAt id = some r
  revocations : ∀ id r, s.revocationAt id = some r → s'.revocationAt id = some r
  sessions : ∀ id r, s.sessionAt id = some r → s'.sessionAt id = some r

theorem Represents.keeps {K' : KeyState C} {L' : Custody C} {s' : Store C} (h : Represents K L s)
    (h' : Represents K' L' s') (hext : L.toBook.Extends L'.toBook)
    (htenants : ∀ t p, L.profiles t = some p → L'.profiles t = some p ∧ K'.active t = K.active t) :
    s.Keeps s' where
  tenants := by
    intro t r hr
    rw [h.tenantAt_eq] at hr
    obtain ⟨p, hp, rfl⟩ := Option.map_eq_some_iff.mp hr
    obtain ⟨hp', hactive⟩ := htenants t p hp
    rw [h'.tenantAt_eq, hp', hactive]
    rfl
  grants := by
    rw [h.grantAt_eq, h'.grantAt_eq]
    exact hext.grants
  revocations := by
    rw [h.revocationAt_eq, h'.revocationAt_eq]
    exact hext.revocations
  sessions := by
    rw [h.sessionAt_eq, h'.sessionAt_eq]
    exact hext.sessions

namespace World.Holds

variable {w : World C} {K : KeyState C} {L : Custody C}

/-- A committed transaction keeps the directory and takes the book along. -/
theorem commit_keeps (h : w.Holds K L) (t : Transaction C) {reply : t.Reply} {s : Store C}
    {d : Set C.Block} (hs : w.store.commit t.program = .ok (reply, s)) :
    ∃ L', World.Holds ⟨s, w.drawn ∪ d⟩ K L' ∧ L.run t.program = .ok (reply, L') ∧
      w.store.Keeps s := by
  obtain ⟨L', hrun, hrep⟩ := h.represents.commit_ok hs
  have hstep : Custody.Step L L' := .transact t hrun
  refine ⟨L', ⟨hrep, h.reachable.next hstep, fun x hx => .inl (h.drawn x hx)⟩, hrun, ?_⟩
  refine h.represents.keeps hrep (h.reachable.extends (.single hstep)) fun t p hp => ⟨?_, rfl⟩
  rw [(Custody.run_sameTenants hrun).profiles]
  exact hp

/-- **What a directory call does**: every record stays, and if it succeeded it is done. -/
theorem directory (h : w.Holds K L) {call : DirectoryCall} {draw : C.Block} {reply : call.Reply}
    {s : Store C} (hrun : call.run w.store draw = .ok (reply, s))
    (hfresh : ∀ d ∈ (call.operation draw).draw, d ∉ w.drawn) :
    w.store.Keeps s ∧ (call.Succeeded reply → ∃ K' L',
      World.Holds ⟨s, w.drawn ∪ {d | d ∈ (call.operation draw).draw}⟩ K' L' ∧
        L'.Done call reply) := by
  cases call with
  | registerTenant registration =>
    obtain ⟨s, hs, heq⟩ := map_eq_ok.mp hrun
    cases heq
    have hrep := h.represents
    rcases hrep.registerTenant_ok (h.fresh (hfresh draw rfl)) hs with
      ⟨rfl, p, hp, hsame⟩ | ⟨hnew, hstone, hparent, -, hrep'⟩
    · refine ⟨⟨fun _ _ hr => hr, fun _ _ hr => hr, fun _ _ hr => hr, fun _ _ hr => hr⟩, fun _ =>
        ⟨K, L, ⟨hrep, h.reachable, fun x hx => .inl (h.drawn x hx)⟩, p, hp, fun _ => hsame⟩⟩
    · have hstep : Custody.Step L _ := .register (registration.profile (L.clock 0))
        (⟨initialDataKeyId, draw⟩ : TenantDataKey C).address hnew hstone hparent
      refine ⟨hrep.keeps hrep' (h.reachable.extends (.single hstep)) fun t p hp => ?_, fun _ =>
        ⟨_, _, ⟨hrep', h.reachable.next hstep, h.drawn_issue _ _ draw⟩, _,
          Function.update_self _ _ _, fun _ => ?_⟩⟩
      · have hne : t ≠ registration.id := by
          rintro rfl
          rw [hnew] at hp
          cases hp
        exact ⟨update_of_none hnew _ t p hp, KeyState.issue_active_of_ne hne⟩
      · simp [sameIdentity, TenantRegistration.profile, TenantProfile.withKey]
  | installRootGrant root =>
    obtain ⟨L', h', hL', hkeeps⟩ := h.commit_keeps (.installRootGrant root) hrun
    exact ⟨hkeeps, fun _ => ⟨K, L', h', Custody.installRootGrant_done hL'⟩⟩
  | issueGrant issue =>
    obtain ⟨L', h', hL', hkeeps⟩ := h.commit_keeps (.issueGrant issue) hrun
    exact ⟨hkeeps, fun hok => ⟨K, L', h', Custody.issueGrant_done hL' hok⟩⟩
  | revokeGrant revoke =>
    obtain ⟨L', h', hL', hkeeps⟩ := h.commit_keeps (.revokeGrant revoke) hrun
    exact ⟨hkeeps, fun hok => ⟨K, L', h', Custody.revokeGrant_done hL' hok⟩⟩
  | createSession new =>
    obtain ⟨L', h', hL', hkeeps⟩ := h.commit_keeps (.createSession new) hrun
    refine ⟨hkeeps, fun _ => ⟨K, L', h', ?_⟩⟩
    obtain ⟨opened, mid, hopen, hreply⟩ := Custody.run_bind_ok.mp hL'
    obtain ⟨hopened, rfl⟩ := Custody.openSession_done hopen (.inr rfl)
    cases hreply
    exact ⟨hopened, rfl⟩
  | forkSession new parent =>
    obtain ⟨L', h', hL', hkeeps⟩ := h.commit_keeps (.forkSession new parent) hrun
    exact ⟨hkeeps, fun hok => ⟨K, L', h', Custody.openSession_done hL' (.inl hok)⟩⟩

end World.Holds

/-- **Directory writes are idempotent at any later time.**  After a call that succeeded,
and however the store went on, the same call is answered the same and changes nothing,
unless a tenant whose record it reads was shredded; the store it is repeated on is left
equal, so that no record and no audit entry is written.  No call at all, whatever its
content, changes a tenant, grant, revocation or session that is stored. -/
theorem directory_writes_idempotent {w : World C} (hw : w.Reachable) (call : DirectoryCall)
    (draw : C.Block) (hfresh : ∀ d ∈ (call.operation draw).draw, d ∉ w.drawn)
    {reply : call.Reply} {s : Store C} (hrun : call.run w.store draw = .ok (reply, s)) :
    w.store.Keeps s ∧ (call.Succeeded reply →
      ∀ w', ReflTransGen World.Step ⟨s, w.drawn ∪ {d | d ∈ (call.operation draw).draw}⟩ w' →
        (∀ t ∈ call.tenants, w'.store.tombstoneAt t = none) →
        ∀ draw', call.run w'.store draw' = .ok (reply, w'.store)) := by
  obtain ⟨K, L, h⟩ := hw.holds
  obtain ⟨hkeeps, hdone⟩ := h.directory hrun hfresh
  refine ⟨hkeeps, fun hok w' hlater hlive draw' => ?_⟩
  obtain ⟨K₁, L₁, h₁, hdone⟩ := hdone hok
  obtain ⟨K', L', h', hsteps⟩ := h₁.run hlater
  rw [h'.represents.tombstoneAt_eq] at hlive
  exact h'.represents.repeat_eq (hdone.extends (h₁.reachable.extends hsteps) hlive) draw'

/-- The operator issues a grant, then revokes its own, and issues the same grant again. -/
theorem directory_writes_idempotent_of_revoked :
    ∃ (w w' : World Crypto.ideal) (s : Store Crypto.ideal), w.Reachable ∧
      w.store.commit (Tx.issueGrant Sample.agentGrant) = .ok (.issued ⟨2⟩ ⟨1⟩, s) ∧
      (w'.store.revocationAt ⟨1⟩).isSome ∧
      w'.store.commit (Tx.issueGrant Sample.agentGrant) = .ok (.issued ⟨2⟩ ⟨1⟩, w'.store) := by
  obtain ⟨w, K, hreach, h⟩ :=
    Sample.exists_world [.installRootGrant Sample.rootGrant] (by decide +kernel)
  have hissue : ((Sample.book [.installRootGrant Sample.rootGrant]).run
      (Tx.issueGrant Sample.agentGrant)).toOption.map Prod.fst = some (.issued ⟨2⟩ ⟨1⟩) := by
    decide +kernel
  have hrevoke : ((Sample.book [.installRootGrant Sample.rootGrant]).run
      (Tx.issueGrant Sample.agentGrant) >>= fun r =>
        r.2.run (Tx.revokeGrant ⟨Sample.operator, ⟨1⟩, ⟨40⟩⟩)).toOption.map Prod.fst =
      some (some ⟨⟨1⟩, 2, 0⟩) := by
    decide +kernel
  generalize Sample.book [.installRootGrant Sample.rootGrant] = L at h hissue hrevoke
  obtain ⟨L₁, hissue⟩ := Custody.exists_of_reply hissue
  rw [hissue, ok_bind] at hrevoke
  obtain ⟨L₂, hrevoke⟩ := Custody.exists_of_reply hrevoke
  obtain ⟨s, hs, -⟩ := h.represents.commit_of_run hissue
  obtain ⟨L₁', h₁, hissue', -⟩ := h.commit_keeps (.issueGrant Sample.agentGrant)
    (d := {d | d ∈ (none : Option (Crypto.ideal).Block)}) hs
  obtain rfl : L₁' = L₁ := congrArg Prod.snd (Except.ok.inj (hissue'.symm.trans hissue))
  obtain ⟨w₂, hstep, h₂⟩ := h₁.transact (.revokeGrant ⟨Sample.operator, ⟨1⟩, ⟨40⟩⟩) hrevoke
  refine ⟨w, w₂, s, hreach, hs, ?_, ?_⟩
  · rw [h₂.represents.revocationAt_eq]
    obtain ⟨-, r, hr, -⟩ := Custody.revokeGrant_done hrevoke rfl
    rw [hr]
    rfl
  · exact (directory_writes_idempotent hreach (.issueGrant Sample.agentGrant) ([0] : List ℕ)
      (fun _ hd => by cases hd) hs).2 ⟨_, _, rfl⟩ w₂ (.single hstep) (fun _ ht => by cases ht)
      ([0] : List ℕ)

/-! ## Claimed keys -/

/-- Claims with one binding are of one request under one grant. -/
theorem IdemClaim.binding_inj {c c' : IdemClaim C} (h : c.binding = c'.binding) :
    c.grant = c'.grant ∧ c.requestDigest = c'.requestDigest := by
  have hbytes := C.sha256_inj h
  simp only [List.append_assoc, List.append_cancel_left_eq, List.cons_append, List.nil_append,
    List.cons.injEq, Sym.block.injEq] at hbytes
  obtain ⟨hdigest, hrest⟩ := hbytes
  have hlength : (Str.ofBytes c.grant.toBytes : Str C.Block).length =
      (Str.ofBytes c'.grant.toBytes : Str C.Block).length := by
    simp only [Str.length_ofBytes, Ulid.toBytes_length]
  have hgrant := (List.append_inj hrest hlength).1
  exact ⟨Ulid.toBytes_injective (Str.ofBytes_injective hgrant), hdigest⟩

/-- **A key is claimed once and for all.**  Whatever happens after a key was claimed, a claim of
it that is answered at all writes nothing and is answered with the first invocation if it is
of the same request under the same grant, and as a conflict if it is not. -/
theorem key_claimed_once {w w' : World C} (hw : w.Reachable) {c c' : IdemClaim C}
    {id : InvocationId} {s s' : Store C} (hclaim : w.store.claim c = .ok (.fresh id, s))
    (hrun : ReflTransGen World.Step ⟨s, w.drawn⟩ w') (htenant : c'.tenant = c.tenant)
    (hcapability : c'.capability = c.capability) (hkey : c'.key = c.key) {answer : Claimed}
    (hagain : w'.store.claim c' = .ok (answer, s')) :
    s' = w'.store ∧ (c'.grant = c.grant ∧ c'.requestDigest = c.requestDigest ∧
        answer = .replay id ∨
      ¬ (c'.grant = c.grant ∧ c'.requestDigest = c.requestDigest) ∧ answer = .conflict) := by
  obtain ⟨K, L, h⟩ := hw.holds
  obtain ⟨hlive, ⟨r, -, hout, -⟩ | ⟨hfree, hout, hrep⟩⟩ := h.represents.claim_ok hclaim
  · unfold compareBinding at hout
    split_ifs at hout
  cases hout
  have hbound : World.Holds ⟨s, w.drawn⟩ K (L.putSealed c.tenant
      (.idem c.capability c.key ⟨c.invocation, c.binding⟩)) :=
    ⟨hrep, h.reachable.next (.bind c hlive hfree), h.drawn⟩
  obtain ⟨K', L', h', hsteps⟩ := hbound.run hrun
  -- The entry stays where the second claim looks for it.
  have hentry : L'.idem (c'.tenant, c'.capability, c'.key) =
      some ⟨c.invocation, c.binding⟩ := by
    rw [htenant, hcapability, hkey]
    refine (hbound.reachable.extends hsteps).idem _ _ ?_
    exact Function.update_self _ _ _
  obtain ⟨-, ⟨r, hr, hanswer, hsame⟩ | ⟨hnone, -⟩⟩ := h'.represents.claim_ok hagain
  · cases hentry.symm.trans hr
    refine ⟨hsame, ?_⟩
    unfold compareBinding at hanswer
    split_ifs at hanswer with hbinding
    · obtain ⟨hgrant, hdigest⟩ := IdemClaim.binding_inj hbinding
      exact .inl ⟨hgrant.symm, hdigest.symm, hanswer⟩
    · refine .inr ⟨?_, hanswer⟩
      rintro ⟨hgrant, hdigest⟩
      apply hbinding
      simp only [IdemClaim.binding, hgrant, hdigest, hcapability]
  · cases hentry.symm.trans hnone

/-- The same key for another request. -/
def Sample.reopening : IdemClaim Crypto.ideal := { opening with requestDigest := ([1] : List ℕ) }

/-- The agent claims a key for the opening of a session, and then claims it for another
request. -/
theorem key_claimed_once_of_opening : ∃ (w : World Crypto.ideal) (s : Store Crypto.ideal),
    w.Reachable ∧ w.store.claim Sample.opening = .ok (.fresh ⟨12⟩, s) ∧
      s.claim Sample.reopening = .ok (.conflict, s) := by
  obtain ⟨w, K, hreach, h, hidle, -⟩ := Sample.exists_registered
  obtain ⟨s, hclaim, hrep⟩ : ∃ s, w.store.claim Sample.opening = .ok (.fresh ⟨12⟩, s) ∧
      Represents K _ s := h.represents.claim_free rfl rfl
  have hrotation : K.rotation Sample.agent = none := by rw [KeyState.rotation, hidle]; rfl
  obtain ⟨⟨answer, s'⟩, hagain⟩ : ∃ r, s.claim Sample.reopening = .ok r :=
    (hrep.claim_of_idle rfl hrotation).1
  have htenant : Sample.reopening.tenant = Sample.opening.tenant := rfl
  obtain ⟨hsame, ⟨-, hdigest, -⟩ | ⟨-, rfl⟩⟩ :=
    key_claimed_once hreach hclaim .refl htenant rfl rfl hagain
  · cases hdigest
  · rw [hsame] at hagain
    exact ⟨w, s, hreach, hclaim, hagain⟩

end Dioptron
