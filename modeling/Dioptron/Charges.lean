import Dioptron.Conclusions

/-! # What a capture is charged

A capture whose producer returned an envelope is settled at what it consumed, at most at
what was reserved, and its text view is the longest part of the producer's text that the
reservation and the reply frame have room for.  A capture that fails after its effect
started is charged no bytes, also where the envelope that was too large is at hand.
-/
namespace Dioptron

variable {C : Crypto}

/-! ## Lengths -/

theorem toNat_lenU64 (bytes : Bytes) : (lenU64 bytes).toNat = min bytes.length (2 ^ 64 - 1) := by
  rw [lenU64, UInt64.toNat_ofNat']
  omega

theorem toNat_saturatingAdd (a b : UInt64) :
    (saturatingAdd a b).toNat = min (a.toNat + b.toNat) (2 ^ 64 - 1) := by
  rw [saturatingAdd, UInt64.toNat_ofNat']
  omega

/-- The bytes of an evidence identity. -/
def sourceBytes (source : SourceRef) : Nat :=
  source.fingerprint.length + source.schemaId.length + source.producerRevision.length

/-- The bytes a reply on this connection has room for beside the evidence identity. -/
def frameRoom (call : Call C) (source : SourceRef) : Nat :=
  call.payloadBudget.toNat - sourceBytes source

theorem toNat_outputCap (call : Call C) (limits : CaptureLimits) (source : SourceRef) :
    (outputCap call limits source).toNat =
      min (limits.maxOutputBytes.getD 0).toNat (frameRoom call source) := by
  have hbudget : call.payloadBudget.toUInt64.toNat = call.payloadBudget.toNat :=
    UInt32.toNat_toUInt64 _
  have hlt := call.payloadBudget.toNat_lt
  simp only [outputCap, toNat_min, toNat_saturatingSub, hbudget, sourceLen, toNat_saturatingAdd,
    toNat_lenU64, frameRoom, sourceBytes]
  omega

/-! ## Text views -/

/-- `view` is the longest part of the producer's text, cut between two characters, that
fits into `room` bytes. -/
def LongestView (text : Option (List Char)) (room : Nat) (view : Option Bytes) : Prop :=
  match text with
  | none => view = none
  | some cs => ∃ n, view = some (utf8 (cs.take n)) ∧ (utf8 (cs.take n)).length ≤ room ∧
      ∀ m, (utf8 (cs.take m)).length ≤ room →
        (utf8 (cs.take m)).length ≤ (utf8 (cs.take n)).length

theorem longestView_cutText (text : Option (List Char)) (max : UInt64) :
    LongestView text max.toNat (cutText (text.map utf8) max).1 := by
  cases text with
  | none => rfl
  | some cs =>
    obtain ⟨kept, hcut, hlongest⟩ := cutText_some (utf8 cs) max
    obtain ⟨n, rfl, hfits, hmost⟩ := hlongest.exists_take
    exact ⟨n, by rw [Option.map_some, hcut], hfits, hmost⟩

theorem LongestView.length_le {text : Option (List Char)} {room : Nat} {view : Option Bytes}
    (h : LongestView text room view) : (view.map List.length).getD 0 ≤ room := by
  cases text with
  | none =>
    cases h
    exact Nat.zero_le _
  | some =>
    obtain ⟨n, rfl, hfits, -⟩ := h
    exact hfits

/-! ## Charges -/

/-- `debit` is what a capture is charged that was given `output` after `elapsed` milliseconds
and returned `view`. -/
structure Charged (reserved : Cost) (output : ProducerOutput) (elapsed : UInt64)
    (view : Option Bytes) (debit : Cost) : Prop where
  bytesTransferred : debit.bytesTransferred.toNat =
    min output.envelope.length reserved.bytesTransferred.toNat
  outputBytes : debit.outputBytes.toNat = (view.map List.length).getD 0
  fetches : debit.fetches = 1
  wallTimeMs : debit.wallTimeMs.toNat = min elapsed.toNat reserved.wallTimeMs.toNat

/-- `debit` is what a capture is charged whose effect started and failed. -/
structure ChargedStart (reserved : Cost) (elapsed : UInt64) (debit : Cost) : Prop where
  bytesTransferred : debit.bytesTransferred = 0
  outputBytes : debit.outputBytes = 0
  fetches : debit.fetches = 1
  wallTimeMs : debit.wallTimeMs.toNat = min elapsed.toNat reserved.wallTimeMs.toNat

theorem min_zero_uint64 (n : UInt64) : min n 0 = 0 := by
  rw [← UInt64.toNat_inj, toNat_min]
  exact Nat.min_zero _

/-- Text that fits is counted exactly. -/
theorem toNat_getD_lenU64 {view : Option Bytes} (h : (view.map List.length).getD 0 < 2 ^ 64) :
    ((view.map lenU64).getD 0).toNat = (view.map List.length).getD 0 := by
  cases view with
  | none => rfl
  | some =>
    simp only [Option.map_some, Option.getD_some, toNat_lenU64] at h ⊢
    omega

section Charge

variable (call : Call C) (limits : CaptureLimits) (output : ProducerOutput) (elapsed : UInt64)
  (revoked : Bool)

/-- The text a capture returns is the longest that its limits and its reply have room for. -/
theorem longestView_outputTransfer :
    LongestView output.textView
      (min (limits.maxOutputBytes.getD 0).toNat (frameRoom call output.source))
      (outputTransfer call limits output elapsed revoked).textView := by
  rw [← toNat_outputCap]
  exact longestView_cutText _ _

/-- A published capture is charged what it transferred. -/
theorem charged_published :
    Charged (captureCost limits call.deadlineMs) output elapsed
      (outputTransfer call limits output elapsed revoked).textView
      (clampedSettlement (captureCost limits call.deadlineMs)
        (outputTransfer call limits output elapsed revoked).actual).debit := by
  have hview := (longestView_outputTransfer call limits output elapsed revoked).length_le
  have hlimit := (limits.maxOutputBytes.getD 0).toNat_lt
  have hout := toNat_getD_lenU64 (lt_of_le_of_lt (hview.trans (min_le_left _ _)) hlimit)
  refine ⟨?_, ?_, rfl, (toNat_min _ _).trans (min_comm _ _)⟩
  · show (min (limits.maxTransferBytes.getD 0) (lenU64 output.envelope)).toNat =
      min _ (limits.maxTransferBytes.getD 0).toNat
    have hlt := (limits.maxTransferBytes.getD 0).toNat_lt
    rw [toNat_min, toNat_lenU64]
    omega
  · refine (toNat_min (limits.maxOutputBytes.getD 0) _).trans ?_
    refine (congrArg (min _) hout).trans ?_
    omega

/-- A capture that failed after its effect started is charged the fetch and the time. -/
theorem chargedStart_failed :
    ChargedStart (captureCost limits call.deadlineMs) elapsed
      (clampedSettlement (captureCost limits call.deadlineMs) (spent elapsed 0)).debit :=
  ⟨min_zero_uint64 _, min_zero_uint64 _, rfl, (toNat_min _ _).trans (min_comm _ _)⟩

end Charge

/-! ## Every capture -/

/-- What a capture with the log `l` is answered and charged, by the way it ended. -/
inductive Bill (call : Call C) (id : InvocationId) (l : List (Event C)) (reserved : Cost) :
    Terminal → Reply → Cost → Prop
  | released (reason : ReleaseReason) (failure : Failure)
      (hfailure : (Terminal.released reason).replyFailure = some failure) :
      Bill call id l reserved (.released reason) (.of id (.failed failure)) Cost.zero
  | unknown : Bill call id l reserved .unknownEffect (.of id (.failed .unknownEffect)) reserved
  | failed (request : AcquireRequest) (produced : Produced) (elapsed : UInt64) (failure : Failure)
      (debit : Cost) (hproduced : .produced request produced ∈ l) (helapsed : .elapsed elapsed ∈ l)
      (hreserved : reserved = captureCost request.limits call.deadlineMs)
      (hfails : produced.FailsWith request failure)
      (hcharged : ChargedStart reserved elapsed debit) :
      Bill call id l reserved (.settled (some failure)) (.of id (.failed failure)) debit
  | captured (request : AcquireRequest) (output : ProducerOutput) (elapsed : UInt64)
      (outcome : CaptureOutcome) (debit : Cost) (hproduced : .produced request (.output output) ∈ l)
      (helapsed : .elapsed elapsed ∈ l)
      (hreserved : reserved = captureCost request.limits call.deadlineMs)
      (hview : LongestView output.textView
        (min (request.limits.maxOutputBytes.getD 0).toNat (frameRoom call output.source))
        outcome.textView)
      (hcharged : Charged reserved output elapsed outcome.textView debit) :
      Bill call id l reserved (.settled none) (.of id (.captured outcome)) debit

namespace Daemon

open Server

variable {p : Requests C} {i : Nat} {th : Thread (Act C) CallError Reply (Asked C) (Event C)}

/-- The producer is called within what was reserved. -/
theorem reserved_of_call (hp : server.Reaches p) (hth : p.threads i = some th)
    {request : AcquireRequest} {produced : Produced} (hcall : .produced request produced ∈ th.log)
    {id : InvocationId} (hbegun : begun th.log = {id}) {r : InvocationRecord}
    (hr : p.state.store.invocationAt id = some r) :
    r.reserved = captureCost request.limits th.asked.call.deadlineMs := by
  obtain ⟨intent, status, hmem, hid, hdeclared⟩ := (Daemon.tidy hp hth).1.reserves request
    (List.mem_filterMap.mpr ⟨_, hcall, rfl⟩)
  have hsame : status.id = id := by
    have hstatus : status.id ∈ begun th.log := ⟨intent, status, hmem, rfl⟩
    rw [hbegun] at hstatus
    exact hstatus
  obtain ⟨K, L, hL, hrec⟩ := recorded hp
  obtain ⟨⟨r', hr', hbegunBy⟩, -⟩ := hrec.stored hth hmem
  have hsameRecord : r' = r := by
    rw [hsame, ← hL.represents.invocationAt_eq] at hr'
    exact Option.some.inj (hr'.symm.trans hr)
  rw [← hsameRecord, hbegunBy.reserved, hdeclared]

/-- **What a capture is charged.**  Whatever ran beside it and crashed since, the invocation of
a capture that has returned without a failed transaction is debited by the terminal state it
is in: all of the reservation when nobody knows its effect, none of it when it was released,
the fetch and the time when its effect failed (however the reply words it), and what its
reply carries when it was captured. -/
theorem capture_charged (hp : server.Reaches p) (hth : p.threads i = some th) {reply : Reply}
    (hrest : th.rest = .done reply) {id : InvocationId} (hid : id ∈ begun th.log)
    (hfaultless : ¬ Faulty th.log) :
    ∃ r terminal debit, p.state.store.invocationAt id = some r ∧ r.terminal = some terminal ∧
      r.debited = some debit ∧ Bill th.asked.call id th.log r.reserved terminal reply debit := by
  obtain ⟨ms, known, hat, hconcludes⟩ := concluded hp hth hrest hid hfaultless
  obtain ⟨t, terminal, hlast, hend, -⟩ := hconcludes.matches
  obtain ⟨K, L, r, hholds, hr, htold⟩ := told_concluded hp hth hid hat hlast hend
  have hstored : p.state.store.invocationAt id = some r :=
    (congrFun hholds.represents.invocationAt_eq id).trans hr
  have hreserved {request : AcquireRequest} {produced : Produced}
      (hcall : .produced request produced ∈ known) :=
    reserved_of_call hp hth (hat.known _ hcall) hat.begun hstored
  cases hconcludes with
  | released reason failure hms hfailure =>
    cases htold with
    | released _ hterminal _ hdebited | withdrawn _ hterminal _ hdebited =>
      cases hms
      exact ⟨r, _, _, hstored, hterminal, hdebited, .released reason failure hfailure⟩
    | _ => cases hms
  | unknown =>
    cases htold with
    | unknown hterminal _ hdebited => exact ⟨r, _, _, hstored, hterminal, hdebited, .unknown⟩
  | failed request produced elapsed failure hproduced helapsed hfails =>
    cases htold with
    | failed _ _ hterminal _ hdebited =>
      refine ⟨r, _, _, hstored, hterminal, hdebited, .failed request produced elapsed failure _
        (hat.known _ hproduced) (hat.known _ helapsed) (hreserved hproduced) hfails ?_⟩
      rw [hreserved hproduced]
      exact chargedStart_failed _ _ elapsed
  | captured request output elapsed revoked hproduced helapsed =>
    cases htold with
    | settled _ _ hterminal _ hdebited =>
      refine ⟨r, _, _, hstored, hterminal, hdebited, .captured request output elapsed _ _
        (hat.known _ hproduced) (hat.known _ helapsed) (hreserved hproduced)
        (longestView_outputTransfer _ _ output elapsed revoked) ?_⟩
      rw [hreserved hproduced]
      exact charged_published _ _ output elapsed revoked

/-- The capture of the day is charged. -/
theorem capture_charged_of_capture :
    ∃ (p : Requests Crypto.ideal) (reply : Reply) (l : List (Event Crypto.ideal))
      (r : InvocationRecord) (terminal : Terminal) (debit : Cost), server.Reaches p ∧
      p.state.store.invocationAt ⟨41⟩ = some r ∧ r.terminal = some terminal ∧
      r.debited = some debit ∧
      Bill Sample.captures.call ⟨41⟩ l r.reserved terminal reply debit := by
  obtain ⟨p, reply, l, hp, hth, hid, hfaultless⟩ := exists_captured
  obtain ⟨r, terminal, debit, hbill⟩ := capture_charged hp hth rfl hid hfaultless
  exact ⟨p, reply, l, r, terminal, debit, hp, hbill⟩

end Daemon
end Dioptron
