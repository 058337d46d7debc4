import Dioptron.Daemon
import Dioptron.Visibility

/-! # Envelopes read in chunks

A client reads an artifact chunk by chunk, each read from where the one before it ended, and
stops at an empty chunk.  Anything may happen to the store meanwhile: rotations of the data
key and of the root key too.  What the client has then read is the envelope that was
transferred.
-/
namespace Dioptron

open Relation (ReflTransGen)

variable {C : Crypto}

/-- A chunk that a read returned is what the store answered at some moment of it. -/
theorem Orchestrator.Finishes.read_chunk {call : Call C} {request : ReadRequest} {chunk : ReadChunk}
    {d d' : Daemon C} (h : Finishes (read call request) d (.ok ⟨none, .chunk chunk⟩) d') :
    ∃ d₁, d.Meanwhile d₁ ∧ d₁.Meanwhile d' ∧ d₁.store.readArtifact request.artifactRef
      request.offset (min request.len call.payloadBudget) = .ok (some chunk) := by
  obtain ⟨plan, d₁, hplan, h⟩ := h.bind_ok
  cases hrefusal : plan.refusal with
  | some =>
    rw [hrefusal] at h
    cases h.deny_ok
  | none =>
    rw [hrefusal] at h
    obtain ⟨answer, d₂, hread, h⟩ := h.bind_ok
    cases answer with
    | none => cases h.pure_ok.1
    | some =>
      obtain ⟨heq, hlast⟩ := h.pure_ok
      cases heq
      obtain ⟨d₃, hbefore, hanswer, hafter⟩ := hread.store_read rfl
      exact ⟨d₃, hplan.meanwhile.trans hbefore, hafter.trans hlast, hanswer⟩

/-- An allowed read of a published artifact returns its chunk. -/
theorem Orchestrator.Finishes.read {call : Call C} {request : ReadRequest} {chunk : ReadChunk}
    {d : Daemon C} {info : ArtifactInfo} {plan : Plan}
    (hinfo : d.store.artifact request.artifactRef = .ok (some info))
    (hplan : planCall d.store.view (call.authz .read none info.session Cost.zero) d.store.now.1 =
      .ok plan) (hallowed : plan.refusal = none)
    (hchunk : d.store.now.2.readArtifact request.artifactRef request.offset
      (min request.len call.payloadBudget) = .ok (some chunk)) :
    Finishes (.read call request) d (.ok ⟨none, .chunk chunk⟩) (d.setStore d.store.now.2) := by
  have hartifact : Finishes (Orchestrator.store (.artifact request.artifactRef)) d
    (.ok (some info)) d := by
    refine Finishes.store ?_
    rw [← hinfo]
    exact .artifact
  have hread : Finishes (Orchestrator.store (.readArtifact request.artifactRef request.offset
      (min request.len call.payloadBudget))) (d.setStore d.store.now.2) (.ok (some chunk))
      (d.setStore d.store.now.2) := by
    refine Finishes.store ?_
    rw [← hchunk]
    exact .readArtifact
  have hnot : ¬(((some info).bind ArtifactInfo.session).isNone ∧
      plan.refusal = some (.deniedFor .sessionRequired)) := by
    rw [hallowed]
    exact fun h => nomatch h.2
  have hplanned : Finishes (artifactPlan call .read request.artifactRef) d (.ok plan)
      (d.setStore d.store.now.2) := by
    refine hartifact.andThen (andThen (Finishes.decide hplan) ?_)
    rw [if_neg hnot]
    exact Finishes.pure plan _
  refine hplanned.andThen ?_
  rw [hallowed]
  exact hread.andThen (Finishes.pure _ _)

/-! ## One chunk -/

theorem chunkOf_bytes (envelope : Bytes) (offset : UInt64) (len : UInt32) :
    (Tx.chunkOf envelope offset len).bytes = (envelope.drop offset.toNat).take len.toNat := by
  change (envelope.take (min (min offset.toNat envelope.length + len.toNat) envelope.length)).drop
    (min offset.toNat envelope.length) = _
  rw [← List.take_eq_take_min, List.drop_take, ← List.drop_eq_drop_min]
  rcases Nat.le_total offset.toNat envelope.length with hle | hle
  · rw [Nat.min_eq_left hle, Nat.add_sub_cancel_left]
  · rw [List.drop_eq_nil_of_le hle, List.take_nil, List.take_nil]

/-- A read from the start that comes back short has the whole envelope. -/
theorem eq_of_chunkOf_bytes {envelope bytes : Bytes} {n : UInt32}
    (h : (Tx.chunkOf envelope 0 n).bytes = bytes) (hshort : bytes.length < n.toNat) :
    envelope = bytes := by
  rw [chunkOf_bytes, UInt64.toNat_zero, List.drop_zero] at h
  rw [← h, List.length_take] at hshort
  rw [← h, List.take_of_length_le (by omega)]

theorem chunkOf_totalLen {envelope : Bytes} (hsize : envelope.length ≤ maxPlaintextLen)
    (offset : UInt64) (len : UInt32) :
    (Tx.chunkOf envelope offset len).totalLen.toNat = envelope.length := by
  have hlt : envelope.length < 2 ^ 64 := lt_of_le_of_lt hsize (by decide)
  change (UInt64.ofNat (min envelope.length (2 ^ 64 - 1))).toNat = _
  rw [Nat.min_eq_left (by omega), UInt64.toNat_ofNat_of_lt' hlt]

/-- A connection's frames have room for at least a byte of an envelope. -/
theorem one_le_payloadBudget {call : Call C} (h : 4096 ≤ call.maxFrame) :
    1 ≤ call.payloadBudget := by
  have hframe : 4096 ≤ call.maxFrame.toNat := UInt32.le_iff_toNat_le.mp h
  have hoverhead : frameOverhead ≤ call.maxFrame :=
    UInt32.le_iff_toNat_le.mpr (Nat.le_trans (by decide) hframe)
  have hvalue : frameOverhead.toNat = 1024 := rfl
  rw [Call.payloadBudget, payloadBudget, if_pos hoverhead, UInt32.le_iff_toNat_le,
    UInt32.toNat_sub_of_le _ _ hoverhead, hvalue, UInt32.toNat_one]
  omega

/-! ## The client -/

/-- A client has received `chunks` and will read on at `offset`.  It reads from the start,
each time from where the last chunk ended and at least one byte, over connections of any
frame bound from 4096 bytes up, until a chunk is empty. -/
inductive Reading (ref : ArtifactRef) (d : Daemon C) : UInt64 → List ReadChunk → Daemon C → Prop
  | start : Reading ref d 0 [] d
  | read {offset : UInt64} {chunks : List ReadChunk} {d₁ d₂ d₃ : Daemon C} {call : Call C}
      {len : UInt32} {chunk : ReadChunk} (h : Reading ref d offset chunks d₁)
      (hmore : ∀ last ∈ chunks.getLast?, last.bytes ≠ []) (hmeanwhile : d₁.Meanwhile d₂)
      (hlen : 1 ≤ len) (hframe : 4096 ≤ call.maxFrame)
      (hread : Orchestrator.Finishes (.read call ⟨ref, offset, len⟩) d₂
        (.ok ⟨none, .chunk chunk⟩) d₃) :
      Reading ref d (offset + UInt64.ofNat chunk.bytes.length) (chunks ++ [chunk]) d₃

namespace Reading

/-- What the client has read of the envelope. -/
structure Progress (envelope : Bytes) (offset : UInt64) (chunks : List ReadChunk) : Prop where
  received : chunks.flatMap ReadChunk.bytes = envelope.take offset.toNat
  within : offset.toNat ≤ envelope.length
  total : ∀ chunk ∈ chunks, chunk.totalLen.toNat = envelope.length
  count : chunks.length ≤ offset.toNat + 1
  /-- Every chunk but an empty one brings the client forward. -/
  going : (∀ last ∈ chunks.getLast?, last.bytes ≠ []) → chunks.length ≤ offset.toNat
  ended : ∀ last ∈ chunks.getLast?, last.bytes = [] → offset.toNat = envelope.length

/-- One more chunk of at most `n` bytes. -/
theorem Progress.next {envelope : Bytes} {offset : UInt64} {chunks : List ReadChunk}
    (h : Progress envelope offset chunks) (hsize : envelope.length ≤ maxPlaintextLen)
    (hmore : ∀ last ∈ chunks.getLast?, last.bytes ≠ []) {len : UInt32} (hlen : 1 ≤ len.toNat) :
    Progress envelope
      (offset + UInt64.ofNat (Tx.chunkOf envelope offset len).bytes.length)
      (chunks ++ [Tx.chunkOf envelope offset len]) := by
  have hbytes := chunkOf_bytes envelope offset len
  have htotal := chunkOf_totalLen hsize offset len
  generalize Tx.chunkOf envelope offset len = chunk at hbytes htotal ⊢
  have hcount : chunk.bytes.length = min len.toNat (envelope.length - offset.toNat) := by
    rw [hbytes, List.length_take, List.length_drop]
  have hwithin := h.within
  have hlt : envelope.length < 2 ^ 64 := lt_of_le_of_lt hsize (by decide)
  -- The new offset is within the envelope, so that it does not wrap.
  have hoffset : (offset + UInt64.ofNat chunk.bytes.length).toNat =
      offset.toNat + chunk.bytes.length := by
    have hfits : chunk.bytes.length < 2 ^ 64 := by omega
    rw [UInt64.toNat_add, UInt64.toNat_ofNat_of_lt' hfits]
    exact Nat.mod_eq_of_lt (by omega)
  refine ⟨?_, by omega, ?_, ?_, ?_, ?_⟩
  · have hexact : chunk.bytes = (envelope.drop offset.toNat).take chunk.bytes.length := by
      rw [hcount, ← List.length_drop, ← List.take_eq_take_min]
      exact hbytes
    rw [hoffset, List.take_add, ← hexact, List.flatMap_append, h.received, List.flatMap_singleton]
  · intro c hc
    rcases List.mem_append.mp hc with hc | hc
    · exact h.total c hc
    · rw [List.mem_singleton.mp hc]
      exact htotal
  · have hgoing := h.going hmore
    rw [hoffset, List.length_append, List.length_singleton]
    omega
  · intro hlast
    have hne : chunk.bytes ≠ [] := hlast chunk (by simp)
    have hpos := List.length_pos_iff.mpr hne
    have hgoing := h.going hmore
    rw [hoffset, List.length_append, List.length_singleton]
    omega
  · intro last hlast hempty
    obtain rfl : chunk = last := by simpa using hlast
    rw [hempty, List.length_nil] at hcount
    rw [hoffset, hempty, List.length_nil]
    omega

/-- **The client's progress**, while the artifact reads as its envelope. -/
theorem progress {ref : ArtifactRef} {d d' : Daemon C} {offset : UInt64} {chunks : List ReadChunk}
    {envelope : Bytes} (h : Reading ref d offset chunks d')
    (hsize : envelope.length ≤ maxPlaintextLen)
    (hreads : ∀ d₁ : Daemon C, d.Meanwhile d₁ → d₁.Meanwhile d' → ∀ offset len,
      d₁.store.readArtifact ref offset len = .ok (some (Tx.chunkOf envelope offset len))) :
    d.Meanwhile d' ∧ Progress envelope offset chunks := by
  induction h with
  | start => exact ⟨.refl, rfl, Nat.zero_le _, nofun, Nat.zero_le _, fun _ => Nat.le_refl _, nofun⟩
  | @read _ _ d₁ _ d₃ _ _ _ _ hmore hmeanwhile hlen hframe hread ih =>
    obtain ⟨d₄, hbefore, hafter, hanswer⟩ := hread.read_chunk
    have hafter₁ : d₁.Meanwhile d₃ := (hmeanwhile.trans hbefore).trans hafter
    obtain ⟨hmeanwhile₁, hprogress⟩ := ih fun d₅ hd hd' => hreads d₅ hd (hd'.trans hafter₁)
    rw [hreads d₄ ((hmeanwhile₁.trans hmeanwhile).trans hbefore) hafter] at hanswer
    cases hanswer
    refine ⟨hmeanwhile₁.trans hafter₁, hprogress.next hsize hmore ?_⟩
    rw [UInt32.min_def]
    split
    · exact UInt32.le_iff_toNat_le.mp hlen
    · exact UInt32.le_iff_toNat_le.mp (one_le_payloadBudget hframe)

end Reading

/-- **Chunked reads reassemble.**  For a published artifact: the envelope that was transferred
is what the store answers every read from, as long as its tenant is not shredded, whatever
happens meanwhile.  A client that reads it chunk by chunk gets at most one chunk more than it
has bytes, each with the envelope's length, and once a chunk is empty it has the envelope; a
read at or past the end is empty. -/
theorem chunked_reads_reassemble {d : Daemon C} (hd : d.world.Reachable) {id : InvocationId}
    {r : InvocationRecord} (hr : d.store.invocationAt id = some r) (hvisible : r.Visible) :
    ∃ transfer, d.world.Transferred id transfer ∧
      (∀ d' : Daemon C, d.Meanwhile d' → d'.store.tombstoneAt r.tenant = none → ∀ offset len,
        d'.store.readArtifact (artifactRef id) offset len =
          .ok (some (Tx.chunkOf transfer.envelope offset len))) ∧
      (∀ offset chunks (d' : Daemon C), Reading (artifactRef id) d offset chunks d' →
        d'.store.tombstoneAt r.tenant = none →
          chunks.length ≤ transfer.envelope.length + 1 ∧
          (∀ chunk ∈ chunks, chunk.totalLen.toNat = transfer.envelope.length) ∧
          ∀ last ∈ chunks.getLast?, last.bytes = [] →
            chunks.flatMap ReadChunk.bytes = transfer.envelope) ∧
      ∀ (call : Call C) request chunk (d₁ d₂ : Daemon C), d.Meanwhile d₁ →
        request.artifactRef = artifactRef id →
        Orchestrator.Finishes (.read call request) d₁ (.ok ⟨none, .chunk chunk⟩) d₂ →
        d₂.store.tombstoneAt r.tenant = none →
          chunk.totalLen.toNat = transfer.envelope.length ∧
          (transfer.envelope.length ≤ request.offset.toNat → chunk.bytes = []) := by
  obtain ⟨transfer, htransfer⟩ := hd.exists_transferred id r hr (.inr hvisible)
  obtain ⟨hsize, info, -, -, hshown⟩ := htransfer.shown hr hvisible
  have hreads {d₁ d' : Daemon C} (hmeanwhile : d.Meanwhile d₁) (hafter : d₁.Meanwhile d')
      (hstone : d'.store.tombstoneAt r.tenant = none) (offset : UInt64) (len : UInt32) :
      d₁.store.readArtifact (artifactRef id) offset len =
        .ok (some (Tx.chunkOf transfer.envelope offset len)) := by
    have hreach : d₁.world.Reachable := hd.trans hmeanwhile
    exact ((hshown d₁.world hmeanwhile).2 (hreach.unshredded hafter hstone)).2 offset len
  refine ⟨transfer, htransfer, fun d' hmeanwhile hstone => hreads hmeanwhile .refl hstone, ?_, ?_⟩
  · intro offset chunks d' hreading hstone
    obtain ⟨-, hprogress⟩ := hreading.progress hsize fun d₁ hd₁ hd₁' => hreads hd₁ hd₁' hstone
    have hwithin := hprogress.within
    refine ⟨hprogress.count.trans (by omega), hprogress.total, fun last hlast hempty => ?_⟩
    rw [hprogress.received, hprogress.ended last hlast hempty, List.take_length]
  · intro call request chunk d₁ d₂ hmeanwhile href hread hstone
    obtain ⟨d₃, hbefore, hafter, hanswer⟩ := hread.read_chunk
    rw [href, hreads (hmeanwhile.trans hbefore) hafter hstone] at hanswer
    cases hanswer
    refine ⟨chunkOf_totalLen hsize _ _, fun hpast => ?_⟩
    rw [chunkOf_bytes, List.drop_eq_nil_of_le hpast, List.take_nil]

namespace Sample

/-- A request of the operator over a connection of the smallest frames. -/
def operatorCall : Call Crypto.ideal := ⟨operator, ⟨1⟩, none, ([0] : List ℕ), 1000, 4096⟩

/-- The operator reads an envelope of three bytes two at a time, in three reads. -/
theorem operator_reading {d : Daemon Crypto.ideal} {ref : ArtifactRef} {info : ArtifactInfo}
    {plan : Plan} (hclock : d.store.clock 1 = d.store.clock 0 ∧ d.store.clock 2 = d.store.clock 0)
    (hplan : planCall d.store.view (operatorCall.authz .read none info.session Cost.zero)
      (d.store.clock 0) = .ok plan) (hallowed : plan.refusal = none)
    (hreads : ∀ d' : Daemon Crypto.ideal, d.Meanwhile d' →
      d'.store.tombstoneAt agent = d.store.tombstoneAt agent →
      d'.store.artifact ref = .ok (some info) ∧ ∀ offset len, d'.store.readArtifact ref offset len =
        .ok (some (Tx.chunkOf [1, 2, 3] offset len))) :
    ∃ offset chunks d', Reading ref d offset chunks d' ∧
      d'.store.tombstoneAt agent = d.store.tombstoneAt agent ∧ chunks.length = 3 ∧
      ∀ last ∈ chunks.getLast?, last.bytes = [] := by
  let d₁ := d.setStore d.store.now.2
  let d₂ := d₁.setStore d₁.store.now.2
  let d₃ := d₂.setStore d₂.store.now.2
  have hd₁ : d.Meanwhile d₁ := .single (.environment d.store.nonce d₁.store.clock)
  have hd₂ : d.Meanwhile d₂ := hd₁.tail (.environment d.store.nonce d₂.store.clock)
  have hd₃ : d.Meanwhile d₃ := hd₂.tail (.environment d.store.nonce d₃.store.clock)
  -- Each read is decided and then answered a reading of the clock later.
  have hstep (before after : Daemon Crypto.ideal) (offset : UInt64)
      (hinfo : before.store.artifact ref = .ok (some info))
      (hdecided : planCall before.store.view (operatorCall.authz .read none info.session Cost.zero)
        (before.store.clock 0) = .ok plan) (hafter : before.setStore before.store.now.2 = after)
      (hchunk : after.store.readArtifact ref offset 2 =
        .ok (some (Tx.chunkOf [1, 2, 3] offset 2))) :
      Orchestrator.Finishes (.read operatorCall ⟨ref, offset, 2⟩) before
        (.ok ⟨none, .chunk (Tx.chunkOf [1, 2, 3] offset 2)⟩) after := by
    subst hafter
    exact Orchestrator.Finishes.read hinfo hdecided hallowed hchunk
  have hplanned (n : Nat) (hn : d.store.clock n = d.store.clock 0) : planCall d.store.view
      (operatorCall.authz .read none info.session Cost.zero) (d.store.clock n) = .ok plan := by
    rw [hn]
    exact hplan
  have hone := Reading.read .start nofun .refl (by decide) (by decide)
    (hstep d d₁ 0 (hreads d .refl rfl).1 hplan rfl ((hreads d₁ hd₁ rfl).2 0 2))
  have htwo := Reading.read hone (by decide) .refl (by decide) (by decide)
    (hstep d₁ d₂ _ (hreads d₁ hd₁ rfl).1 (hplanned 1 hclock.1) rfl ((hreads d₂ hd₂ rfl).2 _ 2))
  refine ⟨_, _, d₃, .read htwo (by decide) .refl (by decide) (by decide) (hstep d₂ d₃ _
    (hreads d₂ hd₂ rfl).1 (hplanned 2 hclock.2) rfl ((hreads d₃ hd₃ rfl).2 _ 2)), rfl, rfl, ?_⟩
  decide

end Sample

/-- The operator reads the captured envelope of three bytes in three reads. -/
theorem chunked_reads_reassemble_of_capture :
    ∃ (d d' : Daemon Crypto.ideal) (offset : UInt64) (chunks : List ReadChunk),
      d.world.Reachable ∧ Reading (artifactRef Sample.call) d offset chunks d' ∧
      chunks.length = 3 ∧ chunks.flatMap ReadChunk.bytes = [1, 2, 3] := by
  obtain ⟨w, K, hreach, h⟩ :=
    Sample.exists_world (Sample.setUp ++ Sample.capture) (by decide +kernel)
  have hcall : ((Sample.book (Sample.setUp ++ Sample.capture)).invocations Sample.call).map
      (fun r => (r.terminal, r.tenant, r.session)) =
        some (some (.settled none), Sample.agent, some Sample.session) := by
    decide +kernel
  have hstone : (Sample.book (Sample.setUp ++ Sample.capture)).tombstones Sample.agent = none := by
    decide +kernel
  have hchunk : ((Sample.book (Sample.setUp ++ Sample.capture)).run
      (Tx.readArtifact (artifactRef Sample.call) 0 8)).toOption.map Prod.fst =
        some (some ⟨0, [1, 2, 3], 3⟩) := by
    decide +kernel
  have hclock : (Sample.book (Sample.setUp ++ Sample.capture)).clock 0 = 0 ∧
      (Sample.book (Sample.setUp ++ Sample.capture)).clock 1 = 0 ∧
      (Sample.book (Sample.setUp ++ Sample.capture)).clock 2 = 0 := by
    decide +kernel
  have hplan : (planCall (Sample.book (Sample.setUp ++ Sample.capture)).toBook.view
      (Sample.operatorCall.authz .read none (some Sample.session) Cost.zero) 0).toOption.map
        Plan.refusal = some none := by
    decide +kernel
  generalize Sample.book (Sample.setUp ++ Sample.capture) = L at *
  obtain ⟨r, hr, heq⟩ := Option.map_eq_some_iff.mp hcall
  simp only [Prod.mk.injEq] at heq
  obtain ⟨hterminal, htenant, hsession⟩ := heq
  rw [← h.represents.view_eq] at hplan
  rw [← h.represents.tombstoneAt_eq, ← htenant] at hstone
  rw [← h.represents.clock] at hclock
  rw [← h.represents.invocationAt_eq] at hr
  obtain ⟨L', hrun⟩ := Custody.exists_of_reply hchunk
  have hanswer := h.represents.read_eq hrun
  let d : Daemon Crypto.ideal := ⟨w, fun _ => none, ∅⟩
  obtain ⟨transfer, htransfer, hreads, hall, -⟩ :=
    chunked_reads_reassemble (d := d) hreach hr (.inr hterminal)
  obtain ⟨-, info, -, hinfo, hshown⟩ := htransfer.shown hr (.inr hterminal)
  have henvelope : transfer.envelope = [1, 2, 3] := by
    have hsame := (hreads d .refl hstone 0 8).symm.trans hanswer
    exact eq_of_chunkOf_bytes (n := 8)
      (congrArg ReadChunk.bytes (Option.some.inj (Except.ok.inj hsame))) (by decide)
  obtain ⟨plan, hplan, hallowed⟩ : ∃ plan, planCall w.store.view (Sample.operatorCall.authz .read
      none info.session Cost.zero) (w.store.clock 0) = .ok plan ∧ plan.refusal = none := by
    rw [hinfo, hsession, hclock.1]
    exact exists_of_toOption_map hplan
  rw [htenant] at hstone hshown hall
  obtain ⟨offset, chunks, d', hreading, hstone', hcount, hlast⟩ :=
    Sample.operator_reading (d := d)
      ⟨hclock.2.1.trans hclock.1.symm, hclock.2.2.trans hclock.1.symm⟩ hplan hallowed
      fun d' hd' hstone' => by
        rw [← henvelope]
        exact (hshown d'.world hd').2 (hstone'.trans hstone)
  refine ⟨d, d', offset, chunks, hreach, hreading, hcount, ?_⟩
  obtain ⟨-, -, hwhole⟩ := hall offset chunks d' hreading (hstone'.trans hstone)
  cases hend : chunks.getLast? with
  | none =>
    rw [List.getLast?_eq_none_iff.mp hend] at hcount
    cases hcount
  | some last => rw [hwhole last hend (hlast last hend), henvelope]

end Dioptron
