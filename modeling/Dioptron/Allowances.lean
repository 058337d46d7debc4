import Dioptron.Ancestry
import Dioptron.Policy
import Dioptron.Upstream

/-! # Default limits

A capture that names no limits gets, on each of the two dimensions it may set, the largest
amount that the daemon's cap and every own ledger of the caller leave room for.
-/
namespace Dioptron

variable {C : Crypto} {ledgers : List LedgerState} {d : Dimension}

/-! ## One dimension -/

/-- `limit` is the largest amount on `d`, within the cap, that fits every own ledger. -/
structure LargestFitting (ledgers : List LedgerState) (d : Dimension) (cap limit : UInt64) :
    Prop where
  le_cap : limit ≤ cap
  fits : ∀ ledger ∈ ledgers, ledger.own = true → ∀ ceiling, ledger.ceilings.get d = some ceiling →
    (ledger.used.get d).toNat + limit.toNat ≤ ceiling.toNat
  largest : ∀ amount, limit < amount → amount ≤ cap → ∃ ledger ∈ ledgers, ledger.own = true ∧
    ∃ ceiling, ledger.ceilings.get d = some ceiling ∧
      ceiling.toNat < (ledger.used.get d).toNat + amount.toNat

/-- What is left of an own ledger's ceiling is among what `ownRemaining` takes the least of. -/
theorem ownRemaining_get {rest : UInt64} :
    (ownRemaining ledgers).get d = some rest ↔
      (∃ ledger ∈ ledgers, ledger.own = true ∧ ∃ ceiling, ledger.ceilings.get d = some ceiling ∧
        rest = saturatingSub ceiling (ledger.used.get d)) ∧
      ∀ ledger ∈ ledgers, ledger.own = true → ∀ ceiling, ledger.ceilings.get d = some ceiling →
        rest ≤ saturatingSub ceiling (ledger.used.get d) := by
  rw [ownRemaining, PerDimension.get_from, List.min?_eq_some_iff]
  simp only [List.mem_filterMap, List.mem_filter, Option.map_eq_some_iff]
  constructor
  · rintro ⟨⟨ledger, ⟨hledger, hown⟩, ceiling, hceiling, heq⟩, hleast⟩
    refine ⟨⟨ledger, hledger, hown, ceiling, hceiling, heq.symm⟩, ?_⟩
    intro ledger' hledger' hown' ceiling' hceiling'
    exact hleast _ ⟨ledger', ⟨hledger', hown'⟩, ceiling', hceiling', rfl⟩
  · rintro ⟨⟨ledger, hledger, hown, ceiling, hceiling, heq⟩, hleast⟩
    refine ⟨⟨ledger, ⟨hledger, hown⟩, ceiling, hceiling, heq.symm⟩, ?_⟩
    rintro _ ⟨ledger', ⟨hledger', hown'⟩, ceiling', hceiling', rfl⟩
    exact hleast ledger' hledger' hown' ceiling' hceiling'

theorem ownRemaining_get_none :
    (ownRemaining ledgers).get d = none ↔
      ∀ ledger ∈ ledgers, ledger.own = true → ledger.ceilings.get d = none := by
  rw [ownRemaining, PerDimension.get_from, List.min?_eq_none_iff, List.filterMap_eq_nil_iff]
  simp only [List.mem_filter, Option.map_eq_none_iff, and_imp]

/-- **The declared default is the largest amount that fits**, where no own ledger is past
its ceiling. -/
theorem largestFitting_declaredLimit
    (hwithin : ∀ ledger ∈ ledgers, ∀ ceiling, ledger.ceilings.get d = some ceiling →
      (ledger.used.get d).toNat ≤ ceiling.toNat) (cap : UInt64) :
    LargestFitting ledgers d cap (declaredLimit none ((ownRemaining ledgers).get d) cap) := by
  cases hremaining : (ownRemaining ledgers).get d with
  | none =>
    have hnone := ownRemaining_get_none.mp hremaining
    have hlimit : (declaredLimit none none cap).toNat = cap.toNat := by
      simp [declaredLimit, toNat_min]
    refine ⟨UInt64.le_iff_toNat_le.mpr (le_of_eq hlimit), ?_, ?_⟩
    · intro ledger hledger hown ceiling hceiling
      rw [hnone ledger hledger hown] at hceiling
      cases hceiling
    · intro amount hlt hle
      rw [UInt64.lt_iff_toNat_lt] at hlt
      rw [UInt64.le_iff_toNat_le] at hle
      omega
  | some rest =>
    obtain ⟨⟨least, hmem, hown, ceiling, hceiling, hrest⟩, hleast⟩ := ownRemaining_get.mp hremaining
    have hlimit : (declaredLimit none (some rest) cap).toNat = min rest.toNat cap.toNat := by
      simp [declaredLimit, toNat_min]
    refine ⟨UInt64.le_iff_toNat_le.mpr (by omega), ?_, ?_⟩
    · intro ledger hledger hown' ceiling' hceiling'
      have hle := UInt64.le_iff_toNat_le.mp (hleast ledger hledger hown' ceiling' hceiling')
      have hused := hwithin ledger hledger ceiling' hceiling'
      rw [toNat_saturatingSub] at hle
      omega
    · intro amount hlt hle
      rw [UInt64.lt_iff_toNat_lt] at hlt
      rw [UInt64.le_iff_toNat_le] at hle
      have hleft : rest.toNat = ceiling.toNat - (least.used.get d).toNat := by
        rw [hrest, toNat_saturatingSub]
      exact ⟨least, hmem, hown, ceiling, hceiling, by omega⟩

/-! ## The ledgers of a call -/

section Ledgers
variable {view : Snapshot} {tenant : TenantId} {chain : List Grant} {session : SessionId}
  {ledgers : List LedgerState}

theorem Debits.unique {found : Option (SessionId × TenantId)} {ledgers' : List LedgerState}
    (h : Debits view tenant chain found ledgers) (h' : Debits view tenant chain found ledgers') :
    ledgers = ledgers' := by
  have heq := ledgerStates_eq_ok.mpr h
  rw [ledgerStates_eq_ok.mpr h'] at heq
  exact (Except.ok.inj heq).symm

theorem Designated.unique {grant : GrantId} {capability : Capability} {now : Timestamp}
    {chain' : List Grant} (h : Designated view tenant grant capability now chain)
    (h' : Designated view tenant grant capability now chain') : chain = chain' := by
  have heq := designatedChain_eq_ok.mpr h
  rw [designatedChain_eq_ok.mpr h'] at heq
  exact (Except.ok.inj (Except.ok.inj heq)).symm

/-- A session of another tenant adds no own ledger. -/
theorem Debits.filter_own {owner : TenantId} (hne : owner ≠ tenant) {bare : List LedgerState}
    (h : Debits view tenant chain (some (session, owner)) ledgers)
    (hbare : Debits view tenant chain none bare) :
    bare.filter LedgerState.own = ledgers.filter LedgerState.own := by
  induction chain generalizing ledgers bare with
  | nil =>
    cases h with
    | session hceilings hused h =>
      cases h with
      | tenant hceilings hused =>
        cases hbare with
        | tenant hceilings' hused' =>
          rw [hceilings] at hceilings'
          rw [hused] at hused'
          cases hceilings'
          cases hused'
          simp [hne]
  | cons _ _ ih =>
    cases h with
    | grant hused h =>
      cases hbare with
      | grant hused' hbare =>
        rw [hused] at hused'
        cases hused'
        rw [List.filter_cons, List.filter_cons, ih h hbare]

/-- What the caller has left is read off the ledgers the call debits. -/
theorem callerRemaining_eq (hview : view.Answers) {owner : Option TenantId}
    (howner : view.sessionOwner session = .ok owner)
    (h : Debits view tenant chain (owner.map fun owner => (session, owner)) ledgers) :
    callerRemaining view tenant chain (some session) = .ok (ownRemaining ledgers) := by
  have howned : ownedSession view tenant (some session) =
      .ok (owner.bind fun owner => if owner = tenant then some (session, owner) else none) := by
    rw [ownedSession, howner]
    cases owner <;> rfl
  rw [callerRemaining, howned, ok_bind]
  cases owner with
  | none =>
    rw [Option.map_none] at h
    rw [Option.bind_none, ledgerStates_eq_ok.mpr h]
    rfl
  | some owner =>
    rw [Option.map_some] at h
    rw [Option.bind_some]
    by_cases hown : owner = tenant
    · rw [if_pos hown, ledgerStates_eq_ok.mpr h]
      rfl
    · obtain ⟨bare, hbare⟩ := hview.exists_debits tenant chain none
      rw [if_neg hown, ledgerStates_eq_ok.mpr hbare, ok_bind]
      simp only [ownRemaining, h.filter_own hown hbare]
      rfl

end Ledgers

/-- A shortfall a decision names is one of an own ledger of the call. -/
theorem authorize_budgetExceeded {view : Snapshot} {request : AuthzRequest} {now : Timestamp}
    (h : authorize view request now = .ok (.budgetExceeded d)) :
    ∃ chain session ledgers,
      Designated view request.tenant request.grant request.capability now chain ∧
      session.map Prod.fst = request.session ∧
      (∀ id owner, session = some (id, owner) → view.sessionOwner id = .ok (some owner)) ∧
      Debits view request.tenant chain session ledgers ∧
      ∃ ledger ∈ ledgers, ledger.own = true ∧ ledger.Short request.declared d := by
  obtain ⟨chain, session, hdesignated, hsession, howner, h⟩ := authorize_reserves h (by simp)
  simp only [reserveFor, bind_eq_ok] at h
  obtain ⟨ledgers, hledgers, check, hcheck, h⟩ := h
  rcases check with plan | (⟨id, d'⟩ | _) <;> cases h
  exact ⟨chain, session, ledgers, hdesignated, hsession, howner, ledgerStates_eq_ok.mp hledgers,
    exists_ownShort hcheck⟩

/-! ## Stores -/

theorem Custody.Reachable.answers {L : Custody C} (h : L.Reachable) : L.toBook.view.Answers where
  grant := h.attenuated.exists_view_grant
  revocation _ := ⟨_, rfl⟩
  sessionOwner _ := ⟨_, rfl⟩
  used _ := ⟨_, rfl⟩
  sessionCeilings _ := ⟨_, rfl⟩
  tenantCeilings _ := ⟨_, rfl⟩

/-- No ledger a call debits is past a ceiling. -/
theorem Custody.Reachable.debits_within {L : Custody C} (h : L.Reachable) {tenant : TenantId}
    {grant : GrantId} {capability : Capability} {now : Timestamp} {chain : List Grant}
    (hchain : Designated L.toBook.view tenant grant capability now chain)
    {session : Option (SessionId × TenantId)}
    (hledgers : Debits L.toBook.view tenant chain session ledgers) :
    ∀ ledger ∈ ledgers, ∀ d ceiling, ledger.ceilings.get d = some ceiling →
      (ledger.used.get d).toNat ≤ ceiling.toNat := by
  intro ledger hledger d ceiling hceiling
  have hof := (ledgerStates_spec (ledgerStates_eq_ok.mpr hledgers)).2 ledger hledger
  obtain ⟨leaf, hfound, hid, -, hlinked⟩ := hchain.exists_leaf
  obtain ⟨hceilings, hused⟩ := hof.state_eq fun link hlink =>
    (Book.view_grant_eq_some _).mp (hlinked.view_grant (hid.symm ▸ hfound) hlink)
  rw [hceilings] at hceiling
  rw [hused]
  exact h.withinCeilings _ d ceiling hceiling

/-- **Default limits always fit.**  In every reachable store, for a call whose chain may
capture and every session, the limits derived when the caller omits both are, on their two
dimensions, the largest amounts within the daemon's caps that fit every own ledger of the
call, and a capture under them is never refused for an own ledger on those dimensions. -/
theorem default_limits_fit {w : World C} (h : w.Reachable) (call : Call C) (session : SessionId)
    {now : Timestamp} {chain : List Grant}
    (hchain : Designated w.store.view call.tenant call.grant .capture now chain) :
    ∃ output transfer owner ledgers,
      call.captureLimits w.store.view now session ⟨none, none⟩ = .ok ⟨some output, some transfer⟩ ∧
      w.store.view.sessionOwner session = .ok owner ∧
      Debits w.store.view call.tenant chain (owner.map fun owner => (session, owner)) ledgers ∧
      LargestFitting ledgers .bytesTransferred maxTransferBytes transfer ∧
      LargestFitting ledgers .outputBytes call.payloadBudget.toUInt64 output ∧
      ∀ target limits policy d, d = .bytesTransferred ∨ d = .outputBytes →
        authorize w.store.view (call.captureAuthz ⟨session, target, limits, policy⟩
          ⟨some output, some transfer⟩) now ≠ .ok (.budgetExceeded d) := by
  obtain ⟨K, L, h⟩ := h.holds
  rw [h.represents.view_eq] at hchain ⊢
  have hanswers := h.reachable.answers
  obtain ⟨owner, howner⟩ := hanswers.sessionOwner session
  obtain ⟨ledgers, hledgers⟩ := hanswers.exists_debits call.tenant chain
    (owner.map fun owner => (session, owner))
  have hwithin := h.reachable.debits_within hchain hledgers
  have hremaining : call.ownRemaining L.toBook.view now session = .ok (ownRemaining ledgers) := by
    rw [Call.ownRemaining, designatedChain_eq_ok.mpr hchain, ok_bind]
    exact callerRemaining_eq hanswers howner hledgers
  have htransfer := largestFitting_declaredLimit (d := .bytesTransferred)
    (fun ledger hledger => hwithin ledger hledger _) maxTransferBytes
  have houtput := largestFitting_declaredLimit (d := .outputBytes)
    (fun ledger hledger => hwithin ledger hledger _) call.payloadBudget.toUInt64
  refine ⟨_, _, owner, ledgers, ?_, howner, hledgers, htransfer, houtput, ?_⟩
  · rw [Call.captureLimits, hremaining]
    rfl
  · intro target limits policy d hd hrefused
    obtain ⟨chain', found, ledgers', hchain', hsession, hfound, hledgers', ledger, hledger, hown,
      ceiling, hceiling, hshort⟩ := authorize_budgetExceeded hrefused
    -- The decision walks the same chain and debits the same ledgers.
    obtain rfl : chain' = chain := Designated.unique hchain' hchain
    obtain rfl : found = owner.map fun owner => (session, owner) := by
      rcases found with _ | ⟨id, owner'⟩
      · cases hsession
      · obtain rfl : id = session := Option.some.inj hsession
        have heq := hfound id owner' rfl
        rw [howner] at heq
        cases heq
        rfl
    obtain rfl : ledgers' = ledgers := Debits.unique hledgers' hledgers
    rcases hd with rfl | rfl
    · have hfits := htransfer.fits ledger hledger hown ceiling hceiling
      exact absurd hshort (Nat.not_lt.mpr hfits)
    · have hfits := houtput.fits ledger hledger hown ceiling hceiling
      exact absurd hshort (Nat.not_lt.mpr hfits)

/-- The agent's default limits, in a store where it holds a grant below the operator's with
ceilings on both dimensions. -/
theorem default_limits_fit_of_agent : ∃ (w : World Crypto.ideal) (chain : List Grant)
    (owner : Option TenantId) (ledgers : List LedgerState),
    w.Reachable ∧ Designated w.store.view Sample.agent ⟨2⟩ .capture 1 chain ∧
      Sample.agentCall.captureLimits w.store.view 1 Sample.session ⟨none, none⟩ =
        .ok ⟨some 500, some 1000⟩ ∧
      Debits w.store.view Sample.agent chain
        (owner.map fun owner => (Sample.session, owner)) ledgers ∧
      LargestFitting ledgers .bytesTransferred maxTransferBytes 1000 ∧
      LargestFitting ledgers .outputBytes (payloadBudget 4096).toUInt64 500 := by
  obtain ⟨w, K, hreach, h⟩ := Sample.exists_setUp
  have hsome : (designatedChain w.store.view Sample.agent ⟨2⟩ .capture 1).toOption.map
      (fun decided => decided.toOption.isSome) = some true := by
    rw [h.represents.view_eq]
    decide +kernel
  have hlimits : (Sample.agentCall.captureLimits w.store.view 1 Sample.session
      ⟨none, none⟩).toOption.map id = some ⟨some 500, some 1000⟩ := by
    rw [h.represents.view_eq]
    decide +kernel
  obtain ⟨limits, hlimits, rfl⟩ := exists_of_toOption_map hlimits
  obtain ⟨decided, hresult, hchain⟩ := exists_of_toOption_map hsome
  cases decided with
  | error => cases hchain
  | ok chain =>
    have hchain := designatedChain_eq_ok.mp hresult
    obtain ⟨output, transfer, owner, ledgers, heq, -, hledgers, htransfer, houtput, -⟩ :=
      default_limits_fit hreach Sample.agentCall Sample.session hchain
    cases hlimits.symm.trans heq
    exact ⟨w, chain, owner, ledgers, hreach, hchain, hlimits, hledgers, htransfer, houtput⟩

end Dioptron
