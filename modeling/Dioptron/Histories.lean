import Dioptron.Owners
import Dioptron.Publications

/-! # What a history of transitions leaves

The record of an invocation and its files are determined by the transitions that were
committed for it, in their order: `Told L id r ms` is the table of all such histories and
of what each of them leaves.  A transition of the invocation adds itself to its history,
and everything else leaves the history as it was.
-/
namespace Dioptron

open Relation (ReflGen ReflTransGen)

variable {C : Crypto}

/-- The side record carries what was transferred. -/
structure ArtifactRecord.Delivers {B : Type} (a : ArtifactRecord B) (id : InvocationId)
    (transfer : Transfer) : Prop where
  artifact : a.artifact = artifactRef id
  source : a.source = transfer.source
  textView : a.textView = transfer.textView
  truncated : a.truncated = transfer.truncated
  outputBytes : a.outputBytes = transfer.outputBytes
  revokedAfterEffect : a.revokedAfterEffect = transfer.revokedAfterEffect

/-- The histories of an invocation, each with what it leaves of it. -/
inductive Custody.Told (L : Custody C) (id : InvocationId) (r : InvocationRecord) :
    List (Transaction C) → Prop
  | begun (hstate : r.state = .intentPersisted) : Told L id r []
  | dispatched (hstate : r.state = .dispatched) : Told L id r [.dispatch id]
  | transferred (transfer : Transfer) (a : ArtifactRecord C.Block)
      (hstate : r.state = .transferComplete) (hactual : r.actual = some transfer.actual)
      (hartifact : r.artifact = some (artifactRef id)) (ha : L.pending (r.tenant, id) = some a)
      (hdelivers : a.Delivers id transfer) :
      Told L id r [.dispatch id, .completeTransfer id transfer]
  | published (transfer : Transfer) (a : ArtifactRecord C.Block)
      (hstate : r.state = .published) (hactual : r.actual = some transfer.actual)
      (hartifact : r.artifact = some (artifactRef id))
      (ha : L.artifacts (r.tenant, artifactRef id) = some a) (hdelivers : a.Delivers id transfer) :
      Told L id r [.dispatch id, .completeTransfer id transfer, .publish id]
  | settled (transfer : Transfer) (a : ArtifactRecord C.Block)
      (hterminal : r.terminal = some (.settled none)) (hstate : r.state = .settled)
      (hdebited : r.debited = some (clampedSettlement r.reserved transfer.actual).debit)
      (hartifact : r.artifact = some (artifactRef id))
      (ha : L.artifacts (r.tenant, artifactRef id) = some a) (hdelivers : a.Delivers id transfer) :
      Told L id r
        [.dispatch id, .completeTransfer id transfer, .publish id, .settle id .success]
  | failed (failure : Failure) (actual : Cost)
      (hterminal : r.terminal = some (.settled (some failure))) (hstate : r.state = .settled)
      (hdebited : r.debited = some (clampedSettlement r.reserved actual).debit) :
      Told L id r [.dispatch id, .settle id (.failed failure actual)]
  | released (reason : ReleaseReason) (hterminal : r.terminal = some (.released reason))
      (hstate : r.state = .released) (hdebited : r.debited = some Cost.zero) :
      Told L id r [.release id reason]
  | withdrawn (reason : ReleaseReason) (hterminal : r.terminal = some (.released reason))
      (hstate : r.state = .released) (hdebited : r.debited = some Cost.zero) :
      Told L id r [.dispatch id, .release id reason]
  | unknown (hterminal : r.terminal = some .unknownEffect) (hstate : r.state = .unknownEffect)
      (hdebited : r.debited = some (unknownEffectSettlement r.reserved).debit) :
      Told L id r [.dispatch id, .markUnknownEffect id]

namespace Custody

variable {L L' : Custody C} {id : InvocationId} {r : InvocationRecord} {ms : List (Transaction C)}

/-- What keeps the files of an invocation keeps its history. -/
theorem Told.kept (h : L.Told id r ms) (hid : r.id = id) (hkeeps : L.Keeps L' r) :
    L'.Told id r ms := by
  subst hid
  cases h with
  | begun hstate => exact .begun hstate
  | dispatched hstate => exact .dispatched hstate
  | transferred transfer a hstate hactual hartifact ha hdelivers =>
    exact .transferred transfer a hstate hactual hartifact (hkeeps.pending.trans ha) hdelivers
  | published transfer a hstate hactual hartifact ha hdelivers =>
    exact .published transfer a hstate hactual hartifact (hkeeps.artifacts a ha) hdelivers
  | settled transfer a hterminal hstate hdebited hartifact ha hdelivers =>
    exact .settled transfer a hterminal hstate hdebited hartifact (hkeeps.artifacts a ha) hdelivers
  | failed _ _ hterminal hstate hdebited => exact .failed _ _ hterminal hstate hdebited
  | released _ hterminal hstate hdebited => exact .released _ hterminal hstate hdebited
  | withdrawn _ hterminal hstate hdebited => exact .withdrawn _ hterminal hstate hdebited
  | unknown hterminal hstate hdebited => exact .unknown hterminal hstate hdebited

/-- An invocation that a step leaves alone or finishes keeps its files. -/
theorem Fate.keeps (h : L.Fate L' r) {r' : InvocationRecord} (hr : L'.invocations r.id = some r')
    (hstate : r'.state = r.state ∨ r'.state.isTerminal = true) : L.Keeps L' r := by
  cases h with
  | idle _ hkeeps => exact hkeeps
  | dispatch _ _ _ hkeeps => exact hkeeps
  | transfer _ _ hopen hr' =>
    obtain rfl := Option.some.inj (hr'.symm.trans hr)
    rw [hopen] at hstate
    rcases hstate with hstate | hstate <;> cases hstate
  | publish _ _ _ hopen _ hr' =>
    obtain rfl := Option.some.inj (hr'.symm.trans hr)
    rw [hopen] at hstate
    rcases hstate with hstate | hstate <;> cases hstate
  | finish _ _ _ _ _ _ _ _ _ _ hkeeps => exact hkeeps

/-- What a transfer stages. -/
theorem Write.staged {transfer : Transfer} (h : L.Write (.completeTransfer id transfer) L')
    (hr : L.invocations id = some r) :
    ∃ address, L'.pending (r.tenant, r.id) = some (Tx.pendingArtifact r transfer address) := by
  cases h with
  | quiet ht => cases ht
  | refuse _ _ _ _ hentry => cases hentry
  | openSession _ _ _ _ _ ht => cases ht
  | finish _ _ _ _ _ _ _ _ _ _ ht => cases ht
  | completeTransfer _ _ _ _ _ hq =>
    obtain rfl := Option.some.inj (hq.symm.trans hr)
    exact ⟨_, Function.update_self _ _ _⟩

/-- What a publication makes of the staged record. -/
theorem Write.exposed (h : L.Write (.publish id) L') (hr : L.invocations id = some r) :
    ∃ a published, L.pending (r.tenant, r.id) = some a ∧
      L'.artifacts (r.tenant, a.artifact) = some { a with publishedAt := some published } := by
  cases h with
  | quiet ht => cases ht
  | refuse _ _ _ _ hentry => cases hentry
  | openSession _ _ _ _ _ ht => cases ht
  | finish _ _ _ _ _ _ _ _ _ _ ht => cases ht
  | publish _ _ a published _ _ hq _ ha =>
    obtain rfl := Option.some.inj (hq.symm.trans hr)
    exact ⟨a, published, ha, Function.update_self _ _ _⟩

/-- The histories that end in each open state. -/
theorem Told.of_intentPersisted (h : L.Told id r ms) (hstate : r.state = .intentPersisted) :
    ms = [] := by
  cases h <;> first | rfl | simp_all

theorem Told.of_dispatched (h : L.Told id r ms) (hstate : r.state = .dispatched) :
    ms = [.dispatch id] := by
  cases h <;> first | rfl | simp_all

theorem Told.of_transferComplete (h : L.Told id r ms) (hstate : r.state = .transferComplete) :
    ∃ transfer a, ms = [.dispatch id, .completeTransfer id transfer] ∧
      r.actual = some transfer.actual ∧ r.artifact = some (artifactRef id) ∧
      L.pending (r.tenant, id) = some a ∧ a.Delivers id transfer := by
  cases h with
  | transferred transfer a _ hactual hartifact ha hdelivers =>
    exact ⟨transfer, a, rfl, hactual, hartifact, ha, hdelivers⟩
  | _ => simp_all

theorem Told.of_published (h : L.Told id r ms) (hstate : r.state = .published) :
    ∃ transfer a, ms = [.dispatch id, .completeTransfer id transfer, .publish id] ∧
      r.actual = some transfer.actual ∧ r.artifact = some (artifactRef id) ∧
      L.artifacts (r.tenant, artifactRef id) = some a ∧ a.Delivers id transfer := by
  cases h with
  | published transfer a _ hactual hartifact ha hdelivers =>
    exact ⟨transfer, a, rfl, hactual, hartifact, ha, hdelivers⟩
  | _ => simp_all

/-- The end of a history. -/
theorem Told.finish {t : Transaction C} {step : Dioptron.Step} {next : InvocationState}
    {terminal : Terminal} {settlement : Settlement} {actual : Option Cost} {now : Timestamp}
    (h : L.Told r.id r ms) (ht : t.finishes = some (r.id, step))
    (hnext : nextState r.state step = .ok next) (hends : t.Ends r actual terminal settlement)
    (hkeeps : L.Keeps L' r) :
    L'.Told r.id (InvocationRecord.moved { r with
      actual := actual, terminal := some terminal, debited := some settlement.debit } next now)
      (ms ++ [t]) := by
  have htarget := nextState_eq_ok.mp hnext
  cases t with
  | settle _ outcome =>
    cases ht
    obtain ⟨hsource, rfl⟩ := stepTarget_settle htarget
    obtain ⟨amount, hamount, rfl, rfl, hsettlement⟩ := hends
    rw [Tx.settlementOf_eq] at hsettlement
    cases hsettlement
    cases outcome with
    | failed failure actual =>
      obtain ⟨hstate, rfl⟩ := Tx.settledAmount_failed hamount
      rw [h.of_dispatched hstate]
      exact .failed failure actual rfl rfl rfl
    | success =>
      have hstate : r.state = .published := by
        refine hsource.resolve_left fun hstate => ?_
        unfold Tx.settledAmount at hamount
        rw [hstate] at hamount
        cases hamount
      obtain ⟨hactual, hnone⟩ := Tx.settledAmount_published hstate hamount
      obtain ⟨transfer, a, rfl, hcarried, hartifact, ha, hdelivers⟩ := h.of_published hstate
      have hconsumed : transfer.actual = amount.1 := Option.some.inj (hcarried.symm.trans hactual)
      exact .settled transfer a (by rw [hnone]; rfl) rfl (by rw [hconsumed]; rfl) hartifact
        (hkeeps.artifacts a ha) hdelivers
  | release _ reason =>
    cases ht
    obtain ⟨hsource, rfl⟩ := stepTarget_release htarget
    obtain ⟨-, rfl, rfl⟩ := hends
    rcases hsource with hstate | hstate
    · rw [h.of_intentPersisted hstate]
      exact .released reason rfl rfl rfl
    · rw [h.of_dispatched hstate]
      exact .withdrawn reason rfl rfl rfl
  | markUnknownEffect =>
    cases ht
    obtain ⟨hstate, rfl⟩ := stepTarget_markUnknownEffect htarget
    obtain ⟨-, rfl, rfl⟩ := hends
    rw [h.of_dispatched hstate]
    exact .unknown rfl rfl rfl
  | _ => cases ht

/-- **A transition of the invocation adds itself to its history**; any other transaction leaves
the history as it was. -/
theorem Told.write {t : Transaction C} (h : L.Told id r ms) (hfiled : L.Filed)
    (hnamed : L.InvocationsNamed) (hext : L.toBook.Extends L'.toBook) (hwrite : L.Write t L')
    (hr : L.invocations id = some r) :
    t.moves ≠ some id ∧ L'.invocations id = some r ∧ L'.Told id r ms ∨
      t.moves = some id ∧ ∃ r', L'.invocations id = some r' ∧ L'.Told id r' (ms ++ [t]) := by
  obtain rfl := hnamed id r hr
  have hfate := hfiled.fate_of_write hnamed hext hwrite hr
  rcases hwrite.invocation_cases hnamed hr with ⟨hmoves, hr'⟩ | ⟨r', hr', hmoved⟩
  · exact .inl ⟨hmoves, hr', h.kept rfl (hfate.keeps hr' (.inl rfl))⟩
  refine .inr ⟨hmoved.moves, r', hr', ?_⟩
  cases hmoved with
  | dispatch _ ht hstate =>
    subst ht
    rw [h.of_intentPersisted hstate]
    exact .dispatched rfl
  | completeTransfer transfer _ ht hstate =>
    subst ht
    obtain ⟨address, hpending⟩ := hwrite.staged hr
    rw [h.of_dispatched hstate]
    exact .transferred transfer _ rfl rfl rfl hpending ⟨rfl, rfl, rfl, rfl, rfl, rfl⟩
  | publish _ ht hstate =>
    subst ht
    obtain ⟨transfer, a, rfl, hactual, hartifact, ha, hdelivers⟩ := h.of_transferComplete hstate
    obtain ⟨a', published, ha', hexposed⟩ := hwrite.exposed hr
    obtain rfl := Option.some.inj (ha.symm.trans ha')
    rw [hdelivers.artifact] at hexposed
    exact .published transfer _ rfl hactual hartifact hexposed ⟨rfl,
      hdelivers.source, hdelivers.textView, hdelivers.truncated, hdelivers.outputBytes,
      hdelivers.revokedAfterEffect⟩
  | finish _ _ terminal _ _ _ ht hnext hterminal hends =>
    refine h.finish ht hnext hends (hfate.keeps hr' (.inr ?_))
    exact hterminal ▸ terminal.isTerminal_state

/-- The same of a step that writes no invocation. -/
theorem Told.step (h : L.Told id r ms) (hL : L.Reachable) (hr : L.invocations id = some r)
    (hstep : ReflGen Custody.Step L L') (hsame : L'.invocations = L.invocations) :
    L'.Told id r ms := by
  obtain rfl := (Custody.Reachable.named hL).invocations id r hr
  cases hstep with
  | refl => exact h
  | single hstep =>
    have hfate := hL.filed.fate (Custody.Reachable.named hL).invocations hstep hr
    exact h.kept rfl (hfate.keeps (by rw [hsame, hr]) (.inl rfl))

end Custody

/-! ### What a finishing transition answers -/

/-- How a transition ends the invocation. -/
def Transaction.ending : Transaction C → Option Terminal
  | settle _ .success => some (.settled none)
  | settle _ (.failed failure _) => some (.settled (some failure))
  | release _ reason => some (.released reason)
  | markUnknownEffect _ => some .unknownEffect
  | _ => none

namespace Custody

variable {L : Custody C} {id : InvocationId} {r : InvocationRecord} {ms : List (Transaction C)}

/-- A history that ends leaves its end in the record. -/
theorem Told.terminal (h : L.Told id r ms) {t : Transaction C} {terminal : Terminal}
    (ht : ms.getLast? = some t) (hend : t.ending = some terminal) : r.terminal = some terminal := by
  cases h with
  | begun => cases ht
  | dispatched | transferred | published =>
    cases ht
    cases hend
  | settled _ _ hterminal | failed _ _ hterminal | released _ hterminal | withdrawn _ hterminal
  | unknown hterminal =>
    cases ht
    cases hend
    exact hterminal

/-- Only the last transition of a history ends it. -/
theorem Told.ending_last (h : L.Told id r ms) : ∀ t ∈ ms.dropLast, t.ending = none := by
  cases h <;> simp [Transaction.ending]

/-- A history that has ended goes no further. -/
theorem Told.ended {more : List (Transaction C)} (h : L.Told id r (ms ++ more))
    {t : Transaction C} {terminal : Terminal} (ht : ms.getLast? = some t)
    (hend : t.ending = some terminal) : more = [] ∧ r.terminal = some terminal := by
  have hmore : more = [] := by
    by_contra hmore
    have hmem : t ∈ (ms ++ more).dropLast := by
      rw [List.dropLast_append_of_ne_nil hmore]
      exact List.mem_append_left _ (List.mem_of_getLast? ht)
    rw [h.ending_last t hmem] at hend
    cases hend
  subst hmore
  rw [List.append_nil] at h
  exact ⟨rfl, h.terminal ht hend⟩

theorem applySettlement_id {settlement : Settlement} {x : InvocationRecord × Custody C}
    (h : L.run (Tx.applySettlement r settlement) = .ok x) : x.1.id = r.id := by
  unfold Tx.applySettlement at h
  obtain ⟨u, mid, -, h⟩ := run_bind_ok.mp h
  cases h
  rfl

/-- A transition answers the status of the record it stores. -/
theorem transition_status {step : Dioptron.Step} {apply : InvocationRecord → Tx C InvocationRecord}
    {x : InvocationStatus × Custody C} (hnamed : L.InvocationsNamed)
    (happly : ∀ r y, L.run (apply r) = .ok y → y.1.id = r.id)
    (h : L.run (Tx.transition id step apply) = .ok x) :
    ∃ r, x.2.invocations id = some r ∧ x.1 = r.status := by
  obtain ⟨r, next, applied, mid, audited, hr, -, hrun, -, -, rfl⟩ := run_transition_ok.mp h
  have hid : applied.id = id := (happly r _ hrun).trans (hnamed id r hr)
  refine ⟨applied.moved next (mid.clock 0), ?_, rfl⟩
  rw [← hid]
  exact Function.update_self _ _ _

end Custody

/-- The status of an invocation is read off the book. -/
theorem Represents.invocation_eq {K : KeyState C} {L : Custody C} {s : Store C}
    (h : Represents K L s) (id : InvocationId) :
    s.invocation id = .ok ((L.invocations id).map InvocationRecord.status) := by
  rw [Store.invocation, h.record_eq (x := L.invocations id) (Name.storeScoped_global _) rfl]
  rfl

/-- The invocation `id` of the store has the history `ms`. -/
def World.Tells (w : World C) (id : InvocationId) (ms : List (Transaction C)) : Prop :=
  ∃ K L r, w.Holds K L ∧ L.invocations id = some r ∧ L.Told id r ms

namespace World.Tells

variable {w w' : World C} {id : InvocationId} {ms : List (Transaction C)}

/-- A committed transaction adds itself to the history of what it moves. -/
theorem transact (h : w.Tells id ms) {t : Transaction C} {reply : t.Reply} {s : Store C}
    (hrun : w.store.commit t.program = .ok (reply, s)) :
    t.moves ≠ some id ∧ World.Tells ⟨s, w.drawn⟩ id ms ∨
      t.moves = some id ∧ World.Tells ⟨s, w.drawn⟩ id (ms ++ [t]) := by
  obtain ⟨K, L, r, hholds, hr, htold⟩ := h
  obtain ⟨L', hL', hrep⟩ := hholds.represents.commit_ok hrun
  have hstep : Custody.Step L L' := .transact t hL'
  have hholds' : World.Holds ⟨s, w.drawn⟩ K L' :=
    ⟨hrep, hholds.reachable.next hstep, hholds.drawn⟩
  have hnamed := (Custody.Reachable.named hholds.reachable).invocations
  rcases htold.write hholds.reachable.filed hnamed (hstep.extends hnamed)
    (Custody.transact_write t hL') hr with ⟨hmoves, hr', htold'⟩ | ⟨hmoves, r', hr', htold'⟩
  · exact .inl ⟨hmoves, K, L', r, hholds', hr', htold'⟩
  · exact .inr ⟨hmoves, K, L', r', hholds', hr', htold'⟩

/-- A step of the store's life adds at most one transition to a history. -/
theorem stepBy {ok : Operation C → Prop} (h : w.Tells id ms) (hstep : World.StepBy ok w w') :
    w'.Tells id ms ∨ ∃ t, ok (.transact t) ∧ t.moves = some id ∧ w'.Tells id (ms ++ [t]) := by
  obtain ⟨K, L, r, hholds, hr, htold⟩ := h
  cases hstep with
  | environment nonce clock =>
    have hstep : Custody.Step L { L with clock := clock } := .clock clock
    exact .inl ⟨K, { L with clock := clock }, r,
      ⟨(hholds.represents.setNonce nonce).setClock clock, hholds.reachable.next hstep,
        hholds.drawn⟩, hr, htold.step hholds.reachable hr (.single hstep) rfl⟩
  | operate op hop hrun hfresh =>
    obtain ⟨K', L', hholds', hstep, hsame | ⟨t, reply, rfl, hL'⟩⟩ := hholds.operate op hrun hfresh
    · exact .inl ⟨K', L', r, hholds', by rw [hsame, hr],
        htold.step hholds.reachable hr hstep hsame⟩
    · have hnamed := (Custody.Reachable.named hholds.reachable).invocations
      have hext : L.toBook.Extends L'.toBook := Custody.Step.extends (.transact t hL') hnamed
      rcases htold.write hholds.reachable.filed hnamed hext (Custody.transact_write t hL') hr with
        ⟨-, hr', htold'⟩ | ⟨hmoves, r', hr', htold'⟩
      · exact .inl ⟨K', L', r, hholds', hr', htold'⟩
      · exact .inr ⟨t, hop, hmoves, K', L', r', hholds', hr', htold'⟩

/-- A step that spares the log of `id` leaves its history as it was. -/
theorem spared {d d' : Daemon C} {l : List (Event C)} (h : d.world.Tells id ms)
    (hspares : d.Spares l d') (hid : id ∈ begun l) : d'.world.Tells id ms := by
  cases (Relation.reflGen_iff _ _ _).mp hspares.world with
  | inl heq =>
    rw [heq]
    exact h
  | inr hstep =>
    rcases h.stepBy hstep with hsame | ⟨t, hquiet, hmoves, -⟩
    · exact hsame
    · exact absurd hid (hquiet t rfl id hmoves)

/-- A run adds transitions to a history. -/
theorem run {ok : Operation C → Prop} (h : w.Tells id ms)
    (hrun : ReflTransGen (World.StepBy ok) w w') : ∃ more, w'.Tells id (ms ++ more) := by
  induction hrun with
  | refl => exact ⟨[], by rwa [List.append_nil]⟩
  | tail _ hlast ih =>
    obtain ⟨more, hmore⟩ := ih
    rcases hmore.stepBy hlast with hsame | ⟨t, -, -, hmoved⟩
    · exact ⟨more, hsame⟩
    · exact ⟨more ++ [t], by rwa [← List.append_assoc]⟩

/-- The status that a finishing transition answers. -/
theorem status {step : Dioptron.Step} {apply : InvocationRecord → Tx C InvocationRecord}
    {status : InvocationStatus} {s : Store C} {t : Transaction C} {terminal : Terminal}
    (h : World.Tells ⟨s, w.drawn⟩ id (ms ++ [t])) (hw : w.Reachable)
    (hrun : w.store.commit (Tx.transition id step apply) = .ok (status, s))
    (happly : ∀ (L : Custody C) r y, L.run (apply r) = .ok y → y.1.id = r.id)
    (hend : t.ending = some terminal) : status.id = id ∧ status.terminal = some terminal := by
  obtain ⟨K, L, hholds⟩ := hw.holds
  obtain ⟨L', hL', hrep⟩ := hholds.represents.commit_ok hrun
  have hnamed := (Custody.Reachable.named hholds.reachable).invocations
  obtain ⟨r, hr, rfl⟩ := Custody.transition_status hnamed (happly L) hL'
  obtain ⟨K₁, L₁, r₁, hholds₁, hr₁, htold⟩ := h
  -- Both books are of the same store.
  have hsame : L₁.invocations id = L'.invocations id := by
    rw [← hholds₁.represents.invocationAt_eq, ← hrep.invocationAt_eq]
  obtain rfl := Option.some.inj (hr₁.symm.trans (hsame.trans hr))
  exact ⟨(Custody.Reachable.named hholds₁.reachable).invocations id r₁ hr₁,
    htold.terminal (by rw [List.getLast?_append]; rfl) hend⟩

/-- A new invocation has no history. -/
theorem begin {intent : Intent C} {status : InvocationStatus} {s : Store C} (hw : w.Reachable)
    (hrun : w.store.commit (Tx.begin intent) = .ok (.persisted status, s)) :
    World.Tells ⟨s, w.drawn⟩ status.id [] := by
  obtain ⟨K, L, hholds⟩ := hw.holds
  obtain ⟨L', hL', hrep⟩ := hholds.represents.commit_ok hrun
  have hreach := hholds.reachable.next (.transact (.begin intent) hL')
  cases Custody.begin_begun hL' with
  | persisted =>
    exact ⟨K, _, _, ⟨hrep, hreach, hholds.drawn⟩, Function.update_self _ _ _, .begun rfl⟩

end World.Tells

/-! ## Logs tell histories -/

/-- The transition of `id` an entry tells. -/
def Event.moved (id : InvocationId) : Event C → Option (Transaction C)
  | .transacted t (.ok _) => if t.moves = some id then some t else none
  | _ => none

/-- How an entry leaves `id` in the running set. -/
def Event.registers (id : InvocationId) : Event C → Option (Option (List GrantId))
  | .registered id' chain => if id' = id then some (some chain) else none
  | .deregistered id' => if id' = id then some none else none
  | _ => none

/-- The transitions of `id` a handler committed, in order. -/
def moved (id : InvocationId) (l : List (Event C)) : List (Transaction C) :=
  l.filterMap (Event.moved id)

/-- How a handler left `id` in the running set, if it ever did. -/
def registration (id : InvocationId) (l : List (Event C)) : Option (Option (List GrantId)) :=
  (l.filterMap (Event.registers id)).getLast?

theorem moved_append (id : InvocationId) (l m : List (Event C)) :
    moved id (l ++ m) = moved id l ++ moved id m := List.filterMap_append

/-- Only an entry that touches `id` tells of it. -/
theorem Event.moved_of_touched {id : InvocationId} {e : Event C} (h : e.touched ≠ some id) :
    e.moved id = none := by
  cases e with
  | transacted t answer =>
    cases answer with
    | ok => exact if_neg h
    | error => rfl
  | _ => rfl

theorem Event.registers_of_touched {id : InvocationId} {e : Event C} (h : e.touched ≠ some id) :
    e.registers id = none := by
  cases e with
  | registered => exact if_neg fun heq => h (congrArg some heq)
  | deregistered => exact if_neg fun heq => h (congrArg some heq)
  | _ => rfl

theorem moved_of_touched {id : InvocationId} {l : List (Event C)}
    (h : ∀ e ∈ l, e.touched ≠ some id) : moved id l = [] :=
  List.filterMap_eq_nil_iff.mpr fun e he => Event.moved_of_touched (h e he)

/-- The store is as the log tells it: the invocations a handler began have the histories of
its log, and are in the running set as it left them. -/
structure Agrees (d : Daemon C) (l : List (Event C)) : Prop where
  reachable : d.world.Reachable
  tells : ∀ id ∈ begun l, d.world.Tells id (moved id l)
  running : ∀ id ∈ begun l, ∀ chain ∈ registration id l, d.running id = chain

theorem Act.Runs.transaction {β : Type} {q : Act C β} {t : Transaction C}
    (h : q.Runs (.transact t)) : q.transaction = some t := by
  generalize hop : Operation.transact t = op at h
  cases h with
  | transact =>
    cases hop
    rfl
  | claim => cases hop

namespace Agrees

variable {d d' : Daemon C} {l : List (Event C)}

/-- What happens beside a handler leaves the store as the handler's log tells it. -/
theorem spared (h : Agrees d l) (hspares : d.Spares l d') : Agrees d' l where
  reachable := h.reachable.trans
    (hspares.world.to_reflTransGen.lift id fun _ _ hstep => hstep.step)
  tells := fun id hid => (h.tells id hid).spared hspares hid
  running := by
    intro id hid chain hchain
    rw [hspares.running id hid]
    exact h.running id hid chain hchain

/-- An access of the handler moves the store as it is logged. -/
theorem tells_answered (h : Agrees d l) {β : Type} {q : Act C β} {b : β}
    (hanswer : q.Answered β d b d') {id : InvocationId} (hid : id ∈ begun l) :
    d'.world.Tells id (moved id (l ++ q.event β b)) := by
  have htells := h.tells id hid
  rw [moved_append]
  -- An access that commits no transaction adds nothing.
  have hother (hquiet : q.transaction = none) (hnone : moved id (q.event β b) = []) :
      d'.world.Tells id (moved id l ++ moved id (q.event β b)) := by
    rw [hnone, List.append_nil]
    cases (Relation.reflGen_iff _ _ _).mp hanswer.world with
    | inl heq =>
      rw [heq]
      exact htells
    | inr hstep =>
      rcases htells.stepBy hstep with hsame | ⟨t, hrun, -⟩
      · exact hsame
      · cases hquiet.symm.trans hrun.transaction
  cases hanswer with
  | @transact d t reply s hcommit =>
    rcases htells.transact hcommit with ⟨hmoves, hsame⟩ | ⟨hmoves, hmoved⟩
    · have hnone : moved id (Act.event _ (.transact t) (.ok reply)) = [] := by
        simp [moved, Act.event, Event.moved, hmoves]
      rw [hnone, List.append_nil]
      exact hsame
    · have hone : moved id (Act.event _ (.transact t) (.ok reply)) = [t] := by
        simp [moved, Act.event, Event.moved, hmoves]
      rw [hone]
      exact hmoved
  | transactFailed =>
    rw [show moved id (Act.event _ (.transact _) (.error _)) = [] from rfl, List.append_nil]
    exact htells
  | _ => exact hother rfl rfl

theorem running_answered (h : Agrees d l) {β : Type} {q : Act C β} {b : β}
    (hanswer : q.Answered β d b d') {id : InvocationId} (hid : id ∈ begun l) :
    ∀ chain ∈ registration id (l ++ q.event β b), d'.running id = chain := by
  intro chain hchain
  rw [registration, List.filterMap_append] at hchain
  have hother (hnone : (q.event β b).filterMap (Event.registers id) = [])
      (hsame : d'.running id = d.running id) : d'.running id = chain := by
    rw [hnone, List.append_nil] at hchain
    rw [hsame]
    exact h.running id hid chain hchain
  cases hanswer with
  | @register d id' chain' =>
    by_cases heq : id' = id
    · subst heq
      have hlast : some chain' = chain := by
        simpa [Act.event, Event.registers] using hchain
      rw [← hlast]
      exact Function.update_self _ _ _
    · exact hother (by simp [Act.event, Event.registers, heq])
        (Function.update_of_ne (Ne.symm heq) _ _)
  | @deregister d id' =>
    by_cases heq : id' = id
    · subst heq
      have hlast : none = chain := by
        simpa [Act.event, Event.registers] using hchain
      rw [← hlast]
      exact Function.update_self _ _ _
    · exact hother (by simp [Act.event, Event.registers, heq])
        (Function.update_of_ne (Ne.symm heq) _ _)
  | _ => exact hother rfl rfl

/-- **The store stays as the log tells it** when the handler makes an access. -/
theorem answered (h : Agrees d l) (howning : Owning l) {β : Type} {q : Act C β} {b : β}
    (hanswer : q.Answered β d b d') : Agrees d' (l ++ q.event β b) := by
  have hreach : d'.world.Reachable := h.reachable.trans
    (hanswer.world.to_reflTransGen.lift id fun _ _ hstep => hstep.step)
  -- An invocation this access began is new, so the log tells nothing of it yet.
  have hnew {id : InvocationId} (hid : id ∈ begun (q.event β b)) (hold : id ∉ begun l) :
      (∀ e ∈ l ++ q.event β b, e.touched ≠ some id) ∧ d'.world.Tells id [] := by
    obtain ⟨intent, status, hmem, rfl⟩ := hid
    constructor
    · intro e he htouched
      rcases List.mem_append.mp he with he | he
      · exact hold (howning e he _ htouched)
      · rw [Event.touched_of_mem he, ← Event.touched_of_mem hmem] at htouched
        cases htouched
    · obtain ⟨s, hcommit, rfl⟩ := hanswer.committed hmem
      exact World.Tells.begin h.reachable hcommit
  refine ⟨hreach, fun id hid => ?_, fun id hid => ?_⟩
  · by_cases hold : id ∈ begun l
    · exact h.tells_answered hanswer hold
    · obtain ⟨huntouched, htells⟩ := hnew ((begun_append.mp hid).resolve_left hold) hold
      rw [moved_of_touched huntouched]
      exact htells
  · by_cases hold : id ∈ begun l
    · exact h.running_answered hanswer hold
    · obtain ⟨huntouched, -⟩ := hnew ((begun_append.mp hid).resolve_left hold) hold
      intro chain hchain
      rw [registration, List.filterMap_eq_nil_iff.mpr fun e he =>
        Event.registers_of_touched (huntouched e he)] at hchain
      cases hchain

end Agrees
end Dioptron
