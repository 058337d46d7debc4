import Dioptron.Views

/-! # What no step takes back

Grants, revocations, sessions, idempotency bindings and locators stay as they were
written, a tombstone stays, and an invocation keeps everything but how far it has come.
`Extends` collects this for one step and for every run.  With it, ledgers keep their
owners.
-/
namespace Dioptron

open Relation (ReflGen ReflTransGen)

variable {C : Crypto}

/-- `r'` is the invocation `r`, at any point of its life. -/
structure InvocationRecord.SameCall (r r' : InvocationRecord) : Prop where
  id : r'.id = r.id
  tenant : r'.tenant = r.tenant
  capability : r'.capability = r.capability
  session : r'.session = r.session
  grantChain : r'.grantChain = r.grantChain
  ledgers : r'.ledgers = r.ledgers
  reserved : r'.reserved = r.reserved
  createdAt : r'.createdAt = r.createdAt

namespace InvocationRecord.SameCall

theorem refl (r : InvocationRecord) : r.SameCall r := ⟨rfl, rfl, rfl, rfl, rfl, rfl, rfl, rfl⟩

theorem trans {r r' r'' : InvocationRecord} (h : r.SameCall r') (h' : r'.SameCall r'') :
    r.SameCall r'' where
  id := h'.id.trans h.id
  tenant := h'.tenant.trans h.tenant
  capability := h'.capability.trans h.capability
  session := h'.session.trans h.session
  grantChain := h'.grantChain.trans h.grantChain
  ledgers := h'.ledgers.trans h.ledgers
  reserved := h'.reserved.trans h.reserved
  createdAt := h'.createdAt.trans h.createdAt

end InvocationRecord.SameCall

/-- What stays from `b` to `b'`. -/
structure Book.Extends (b b' : Book C) : Prop where
  grants : ∀ id r, b.grants id = some r → b'.grants id = some r
  revocations : ∀ id r, b.revocations id = some r → b'.revocations id = some r
  sessions : ∀ id r, b.sessions id = some r → b'.sessions id = some r
  idem : ∀ k r, b.idem k = some r → b'.idem k = some r
  locators : ∀ id r, b.locators id = some r → b'.locators id = some r
  tombstones : ∀ t, (b.tombstones t).isSome → (b'.tombstones t).isSome
  profiles : ∀ t p, b.profiles t = some p →
    b'.profiles t = some p ∨ b'.profiles t = none ∧ (b'.tombstones t).isSome
  gone : ∀ t, b.profiles t = none → (b.tombstones t).isSome → b'.profiles t = none
  invocations : ∀ id r, b.invocations id = some r →
    ∃ r', b'.invocations id = some r' ∧ r.SameCall r'

/-- Writing a new entry keeps the others. -/
theorem update_of_none {ι T : Type} [DecidableEq ι] {f : ι → Option T} {i : ι} (h : f i = none)
    (x : Option T) (j : ι) (r : T) (hr : f j = some r) : Function.update f i x j = some r := by
  rw [Function.update_of_ne, hr]
  rintro rfl
  rw [h] at hr
  cases hr

/-- An entry after a write is the one written or an old one of another place. -/
theorem update_eq_some {ι T : Type} [DecidableEq ι] {f : ι → Option T} {i j : ι} {x y : T}
    (h : Function.update f i (some x) j = some y) : j = i ∧ x = y ∨ j ≠ i ∧ f j = some y := by
  by_cases hij : j = i
  · rw [hij, Function.update_self] at h
    exact .inl ⟨hij, Option.some.inj h⟩
  · rw [Function.update_of_ne hij] at h
    exact .inr ⟨hij, h⟩

namespace Book.Extends

theorem refl (b : Book C) : b.Extends b where
  grants := fun _ _ h => h
  revocations := fun _ _ h => h
  sessions := fun _ _ h => h
  idem := fun _ _ h => h
  locators := fun _ _ h => h
  tombstones := fun _ h => h
  profiles := fun _ _ h => .inl h
  gone := fun _ h _ => h
  invocations := fun _ r h => ⟨r, h, .refl r⟩

theorem trans {b b' b'' : Book C} (h : b.Extends b') (h' : b'.Extends b'') : b.Extends b'' where
  grants := fun id r hr => h'.grants id r (h.grants id r hr)
  revocations := fun id r hr => h'.revocations id r (h.revocations id r hr)
  sessions := fun id r hr => h'.sessions id r (h.sessions id r hr)
  idem := fun k r hr => h'.idem k r (h.idem k r hr)
  locators := fun id r hr => h'.locators id r (h.locators id r hr)
  tombstones := fun t ht => h'.tombstones t (h.tombstones t ht)
  profiles := by
    intro t p hp
    rcases h.profiles t p hp with hp' | ⟨hnone, hstone⟩
    · exact h'.profiles t p hp'
    · exact .inr ⟨h'.gone t hnone hstone, h'.tombstones t hstone⟩
  gone := fun t hnone hstone => h'.gone t (h.gone t hnone hstone) (h.tombstones t hstone)
  invocations := by
    intro id r hr
    obtain ⟨r', hr', hsame⟩ := h.invocations id r hr
    obtain ⟨r'', hr'', hsame'⟩ := h'.invocations id r' hr'
    exact ⟨r'', hr'', hsame.trans hsame'⟩

variable {b : Book C}

/-- Ledgers are not part of what `Extends` speaks of. -/
theorem setLedgers (b : Book C) (f : LedgerRef → Option LedgerRecord) :
    b.Extends { b with ledgers := f } := { refl b with }

/-- An invocation moves on under its own id. -/
theorem setInvocation {id : InvocationId} {r r' : InvocationRecord}
    (hr : b.invocations id = some r) (hid : r.id = id) (hsame : r.SameCall r') :
    b.Extends (b.setInvocation r') :=
  { refl b with
    invocations := by
      intro id' q hq
      rcases eq_or_ne id' r'.id with rfl | hne
      · rw [hsame.id, hid, hr] at hq
        cases hq
        exact ⟨r', by simp [Book.setInvocation], hsame⟩
      · exact ⟨q, by simp [Book.setInvocation, hne, hq], .refl q⟩ }

theorem newInvocation {r : InvocationRecord} (hnew : b.invocations r.id = none) :
    b.Extends (b.setInvocation r) :=
  { refl b with
    invocations := fun id q hq => ⟨q, update_of_none hnew (some r) id q hq, .refl q⟩ }

theorem setIdem {t : TenantId} {capability : Capability} {key : IdempotencyKey}
    (hnew : b.idem (t, capability, key) = none) (r : IdemRecord C.Block) :
    b.Extends (b.setIdem t capability key r) :=
  { refl b with idem := update_of_none hnew (some r) }

end Book.Extends

/-- Invocations are stored under their own ids. -/
def Book.InvocationsNamed (b : Book C) : Prop := ∀ id r, b.invocations id = some r → r.id = id

/-- **One step extends the book.** -/
theorem Book.Step.extends {b b' : Book C} (hnamed : b.InvocationsNamed) (h : Book.Step b b') :
    b.Extends b' := by
  have hrefl := Book.Extends.refl b
  cases h with
  | register p hnew hstone =>
    exact { hrefl with
      profiles := fun t q hq => .inl (update_of_none hnew (some p) t q hq)
      gone := by
        intro t hnone hdead
        show Function.update b.profiles p.id (some p) t = none
        rw [Function.update_of_ne, hnone]
        rintro rfl
        rw [hstone] at hdead
        cases hdead }
  | shred tenant =>
    exact { hrefl with
      tombstones := by
        intro t ht
        rcases eq_or_ne t tenant with rfl | hne
        · simp
        · simpa [hne] using ht
      profiles := by
        intro t p hp
        rcases eq_or_ne t tenant with rfl | hne
        · exact .inr ⟨by simp, by simp⟩
        · exact .inl (by simpa [hne] using hp)
      gone := by
        intro t hnone _
        rcases eq_or_ne t tenant with rfl | hne
        · simp
        · simpa [hne] using hnone }
  | install _ _ hgrant _ hnew =>
    refine { hrefl with grants := update_of_none ?_ _ }
    obtain ⟨scope, -, hg⟩ := bind_eq_ok.mp hgrant
    cases hg
    exact hnew
  | issue _ _ _ _ _ hnew =>
    exact { hrefl with grants := update_of_none hnew _ }
  | revoke _ _ hnew => exact { hrefl with revocations := update_of_none hnew _ }
  | openSession _ _ _ hnew => exact { hrefl with sessions := update_of_none hnew _ }
  | bind _ _ _ r _ hnew => exact .setIdem hnew r
  | persist _ _ _ _ _ hadmits =>
    obtain ⟨f, rfl, -⟩ := Book.moveLedgers_frame hadmits.debit
    refine ((Book.Extends.setLedgers b f).trans (.newInvocation ?_)).trans (.setIdem ?_ _)
    · exact hadmits.new
    · exact hadmits.key
  | dispatch id r _ hr =>
    exact .setInvocation hr (hnamed id r hr) ⟨rfl, rfl, rfl, rfl, rfl, rfl, rfl, rfl⟩
  | transfer id r transfer address _ hr =>
    have hfirst : b.Extends { b with
        pending := Function.update b.pending (r.tenant, r.id)
          (some (Tx.pendingArtifact r transfer address)) } := { hrefl with }
    exact hfirst.trans (.setInvocation hr (hnamed id r hr) ⟨rfl, rfl, rfl, rfl, rfl, rfl, rfl, rfl⟩)
  | publish id r a published _ hr _ _ hnew =>
    have hfirst : b.Extends { b with
        artifacts := Function.update b.artifacts (r.tenant, a.artifact)
          (some { a with publishedAt := some published })
        pending := Function.update b.pending (r.tenant, r.id) none
        locators := Function.update b.locators a.artifact
          (some ⟨a.artifact, r.tenant, r.session⟩) } :=
      { hrefl with locators := update_of_none hnew _ }
    exact hfirst.trans (.setInvocation hr (hnamed id r hr) ⟨rfl, rfl, rfl, rfl, rfl, rfl, rfl, rfl⟩)
  | finish id r _ _ _ _ _ _ hr _ _ _ _ hpaid =>
    obtain ⟨f, rfl, -⟩ := Book.moveLedgers_frame hpaid
    exact (Book.Extends.setLedgers b f).trans
      (.setInvocation hr (hnamed id r hr) ⟨rfl, rfl, rfl, rfl, rfl, rfl, rfl, rfl⟩)

/-! ## Owners -/

/-- Every ledger, written or still to be paid back, has an owner, and no tenant is both
registered and shredded. -/
structure Book.Owned (b : Book C) : Prop where
  ledgers : b.LedgersOwned
  charged : ∀ id r, b.invocations id = some r → ∀ ledger ∈ r.ledgers, b.HasOwner ledger
  live : ∀ t, (b.profiles t).isSome → b.tombstones t = none

/-- An owner stays one. -/
theorem Book.Extends.hasOwner {b b' : Book C} (h : b.Extends b') {ledger : LedgerRef}
    (howner : b.HasOwner ledger) : b'.HasOwner ledger := by
  cases ledger with
  | tenant t =>
    rcases howner with hlive | hdead
    · obtain ⟨p, hp⟩ := Option.isSome_iff_exists.mp hlive
      rcases h.profiles t p hp with hp' | ⟨-, hstone⟩
      · exact .inl (by rw [hp']; rfl)
      · exact .inr hstone
    · exact .inr (h.tombstones t hdead)
  | grant id =>
    obtain ⟨r, hr⟩ := Option.isSome_iff_exists.mp howner
    show (b'.grants id).isSome
    rw [h.grants id r hr]
    rfl
  | session id =>
    obtain ⟨r, hr⟩ := Option.isSome_iff_exists.mp howner
    show (b'.sessions id).isSome
    rw [h.sessions id r hr]
    rfl

namespace Book.Owned

variable {b b' : Book C}

theorem empty : (Book.empty : Book C).Owned where
  ledgers := fun _ h => by cases h
  charged := fun _ _ h => by cases h
  live := fun _ h => by cases h

/-- A step that writes no ledger, adds no invocation and registers or shreds nobody. -/
theorem of_extends (h : b.Owned) (hext : b.Extends b') (hledgers : b'.ledgers = b.ledgers)
    (hinvocations : ∀ id r', b'.invocations id = some r' →
      ∃ r, b.invocations id = some r ∧ r'.ledgers = r.ledgers)
    (hlive : ∀ t, (b'.profiles t).isSome → b'.tombstones t = none) : b'.Owned where
  ledgers := by
    intro id hid
    rw [hledgers] at hid
    exact hext.hasOwner (h.ledgers id hid)
  charged := by
    intro id r' hr' ledger hledger
    obtain ⟨r, hr, heq⟩ := hinvocations id r' hr'
    rw [heq] at hledger
    exact hext.hasOwner (h.charged id r hr ledger hledger)
  live := hlive

/-- The invocations of a book where one moved on. -/
theorem ledgers_of_setInvocation {id : InvocationId} {r r' : InvocationRecord}
    (hr : b.invocations id = some r) (hid : r.id = id) (hsame : r.SameCall r') :
    ∀ id' q', (b.setInvocation r').invocations id' = some q' →
      ∃ q, b.invocations id' = some q ∧ q'.ledgers = q.ledgers := by
  intro id' q' hq'
  simp only [Book.setInvocation, Function.update_apply, hsame.id, hid] at hq'
  split_ifs at hq' with heq
  · cases hq'
    exact ⟨r, heq ▸ hr, hsame.ledgers⟩
  · exact ⟨q', hq', rfl⟩

/-- **Ledgers keep their owners.** -/
theorem step (h : b.Owned) (hnamed : b.InvocationsNamed) (hstep : Book.Step b b') : b'.Owned := by
  have hext := hstep.extends hnamed
  cases hstep with
  | register p _ hstone =>
    refine h.of_extends hext rfl (fun id r hr => ⟨r, hr, rfl⟩) ?_
    intro t ht
    rcases eq_or_ne t p.id with rfl | hne
    · exact hstone
    · exact h.live t (by simpa [hne] using ht)
  | shred tenant =>
    refine h.of_extends hext rfl (fun id r hr => ⟨r, hr, rfl⟩) ?_
    intro t ht
    rcases eq_or_ne t tenant with rfl | hne
    · simp at ht
    · simpa [hne] using h.live t (by simpa [hne] using ht)
  | install =>
    exact h.of_extends hext rfl (fun id r hr => ⟨r, hr, rfl⟩) h.live
  | issue =>
    exact h.of_extends hext rfl (fun id r hr => ⟨r, hr, rfl⟩) h.live
  | revoke r => exact h.of_extends hext rfl (fun id r hr => ⟨r, hr, rfl⟩) h.live
  | openSession r =>
    exact h.of_extends hext rfl (fun id r hr => ⟨r, hr, rfl⟩) h.live
  | bind _ _ _ r =>
    exact h.of_extends hext rfl (fun id r hr => ⟨r, hr, rfl⟩) h.live
  | persist intent chain plan _ now hadmits =>
    obtain ⟨links, session, hallowed⟩ := authorize_allowed hadmits.auth
    obtain ⟨f, rfl, hout, -⟩ := Book.moveLedgers_frame hadmits.debit
    have howner (ledger : LedgerRef)
        (hledger : ledger ∈ plan.ledgers.map LedgerRef.fromLedgerId) : b.HasOwner ledger :=
      hallowed.hasOwner hadmits.live hledger
    refine ⟨?_, ?_, h.live⟩
    · intro ledger hledger
      by_cases hmem : ledger ∈ plan.ledgers.map LedgerRef.fromLedgerId
      · exact hext.hasOwner (howner ledger hmem)
      · have hold : (f ledger).isSome := hledger
        rw [hout ledger hmem] at hold
        exact hext.hasOwner (h.ledgers ledger hold)
    · intro id r hr ledger hledger
      have hr : Function.update b.invocations intent.invocation (some (Tx.freshInvocation intent
        chain (plan.ledgers.map LedgerRef.fromLedgerId) plan.cost now)) id = some r := hr
      rw [Function.update_apply] at hr
      split_ifs at hr with heq
      · cases hr
        exact hext.hasOwner (howner ledger hledger)
      · exact hext.hasOwner (h.charged id r hr ledger hledger)
  | dispatch id r _ hr =>
    exact h.of_extends hext rfl (ledgers_of_setInvocation hr (hnamed id r hr)
      ⟨rfl, rfl, rfl, rfl, rfl, rfl, rfl, rfl⟩) h.live
  | transfer id r _ _ _ hr =>
    exact h.of_extends hext rfl (ledgers_of_setInvocation (b := { b with pending := _ }) hr
      (hnamed id r hr) ⟨rfl, rfl, rfl, rfl, rfl, rfl, rfl, rfl⟩) h.live
  | publish id r _ _ _ hr =>
    exact h.of_extends hext rfl (ledgers_of_setInvocation
      (b := { b with artifacts := _, pending := _, locators := _ }) hr
      (hnamed id r hr) ⟨rfl, rfl, rfl, rfl, rfl, rfl, rfl, rfl⟩) h.live
  | finish id r _ next terminal settlement actual now hr _ _ _ _ hpaid =>
    obtain ⟨f, rfl, hout, -⟩ := Book.moveLedgers_frame hpaid
    refine ⟨?_, ?_, h.live⟩
    · intro ledger hledger
      by_cases hmem : ledger ∈ r.ledgers
      · exact hext.hasOwner (h.charged id r hr ledger hmem)
      · have hold : (f ledger).isSome := hledger
        rw [hout ledger hmem] at hold
        exact hext.hasOwner (h.ledgers ledger hold)
    · intro id' q' hq' ledger hledger
      have hsame : r.SameCall (InvocationRecord.moved { r with
          actual := actual
          terminal := some terminal
          debited := some settlement.debit } next now) := ⟨rfl, rfl, rfl, rfl, rfl, rfl, rfl, rfl⟩
      obtain ⟨q, hq, heq⟩ := ledgers_of_setInvocation (b := { b with ledgers := f }) hr
        (hnamed id r hr) hsame id' q' hq'
      rw [heq] at hledger
      exact hext.hasOwner (h.charged id' q hq ledger hledger)

end Book.Owned
end Dioptron
