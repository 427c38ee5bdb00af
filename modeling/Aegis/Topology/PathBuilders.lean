import Aegis.Topology.Path

/-!
# The other path builders (`path.rs`, `aegis-client/src/path.rs`)

A builder draws paths until one satisfies it.  The builders differ in what satisfies them and in
where their guards come from; all of them draw the paths alike.

* `select_of_selectUntil` — a path that was selected was drawn, and satisfies its builder.
* `select_of_produced` — **every builder draws its path for the packet index 0**.
-/

namespace Aegis

open Sampling Sampling.Draws

/-! ## Guards by default -/

/-- `GUARD_SET_SIZE`. -/
def guardSetSize : UInt32 := 3

/-- As many guards as a guard set has, and the first of them always. -/
def GuardConfig.default : GuardConfig := ⟨guardSetSize, .stickyPrimary⟩

/-! ## Conditions -/

/-- No relay of the path is below the floor of the ledger. -/
def pathSatisfiesReputation (path : List RelayId) (ledger : ReputationLedger)
    (minReputation : ℚ) : Bool :=
  path.all fun id => minReputation ≤ ledger.score id

/-- The loop that looks up every relay. -/
def relaysFound (path : List RelayId) (roster : RelayRoster) : Except TopologyError Unit :=
  path.forM fun id =>
    match roster.get id with
    | some _ => .ok ()
    | none => .error (.relayNotFound id)

/-! ## Selection -/

section Select

variable {ω D : Type} (os : Rng ω)

/-- Paths are drawn until one is accepted. -/
def selectUntil (topology : Topology) (guards : Option GuardSelector)
    (accept : List RelayId → Except TopologyError Bool) (exhausted : TopologyError) :
    ℕ → Draws ω TopologyError (List RelayId)
  | 0 => throw exhausted
  | left + 1 => do
    let path ← selectPathIndexedImpl os topology guards 0
    let accepted ← orThrow (accept path)
    if accepted = true then pure path else selectUntil topology guards accept exhausted left

/-- A path that is diverse. -/
def selectDiversePath (topology : Topology) (roster : RelayRoster) (guards : Option GuardSelector)
    (policy : JurisdictionPolicy) (maxAttempts : ℕ) : Draws ω TopologyError (List RelayId) :=
  selectUntil os topology guards (fun path => pathSatisfiesJurisdiction path roster policy)
    (.emptyLayer 0 topology.epoch) maxAttempts

/-- A path without a relay below the floor of the ledger. -/
def selectPathReputationWeighted (topology : Topology) (roster : RelayRoster)
    (guards : Option GuardSelector) (ledger : ReputationLedger) (minReputation : ℚ)
    (maxAttempts : ℕ) : Draws ω TopologyError (List RelayId) :=
  selectUntil os topology guards
    (fun path => do
      relaysFound path roster
      pure (pathSatisfiesReputation path ledger minReputation))
    (.reputationPathExhausted maxAttempts) maxAttempts

/-- A path that is both. -/
def selectDiverseReputationPath (topology : Topology) (roster : RelayRoster)
    (guards : Option GuardSelector) (policy : JurisdictionPolicy) (ledger : ReputationLedger)
    (minReputation : ℚ) (maxAttempts : ℕ) : Draws ω TopologyError (List RelayId) :=
  selectUntil os topology guards
    (fun path =>
      if pathSatisfiesReputation path ledger minReputation = false then .ok false
      else pathSatisfiesJurisdiction path roster policy)
    (.reputationPathExhausted maxAttempts) maxAttempts

/-- A path without a relay that the policy prunes. -/
def selectPathReputationWeightedPruned (topology : Topology) (roster : RelayRoster)
    (guards : Option GuardSelector) (policy : RelayPruningPolicy D) (minReputation : ℚ)
    (maxAttempts : ℕ) : Draws ω TopologyError (List RelayId) :=
  selectUntil os topology guards
    (fun path => do
      relaysFound path roster
      pure (pathSatisfiesPruningPolicy path policy minReputation))
    (.reputationPathExhausted maxAttempts) maxAttempts

/-! ## Bound paths -/

/-- The records of such a path. -/
def buildBoundPathPruned (topology : Topology) (roster : RelayRoster)
    (guards : Option GuardSelector) (policy : RelayPruningPolicy D) (minReputation : ℚ)
    (maxAttempts : ℕ) : Draws ω TopologyError (List RelayRecord) := do
  let path ← selectPathReputationWeightedPruned os topology roster guards policy minReputation
    maxAttempts
  orThrow (relayRecordsForPath path roster)

variable {σ : Type} (std : SeededRng σ)

/-- Guards by default, and a path that enters by one of them. -/
def buildBoundPathPrunedWithGuards (topology : Topology) (roster : RelayRoster)
    (clientSeed : UInt64) (policy : RelayPruningPolicy D) (minReputation : ℚ) (maxAttempts : ℕ) :
    Draws ω TopologyError (GuardSelector × List RelayRecord) := do
  let guards ← orThrow (GuardSelector.newReputationWeightedPruned std topology .default clientSeed
    policy minReputation)
  let records ← buildBoundPathPruned os topology roster (some guards) policy minReputation
    maxAttempts
  pure (guards, records)

/-- The guards, after mitigation, and a path that enters by one of them. -/
def buildBoundPathPrunedWithGuardsMitigated (topology : Topology) (roster : RelayRoster)
    (baseGuardConfig : GuardConfig) (clientSeed : UInt64) (mitigation : GuardMitigationPolicy)
    (signals : GuardMitigationSignals) (policy : RelayPruningPolicy D) (minReputation : ℚ)
    (maxAttempts : ℕ) : Draws ω TopologyError (GuardSelector × List RelayRecord) := do
  let guardConfig ← orPanic (mitigation.applyToConfigWithSignals baseGuardConfig signals)
  let effectiveSeed ← orPanic (mitigation.clientSeedForGuards clientSeed signals)
  let guards ← orThrow (GuardSelector.newReputationWeightedPruned std topology guardConfig
    effectiveSeed policy minReputation)
  let records ← buildBoundPathPruned os topology roster (some guards) policy minReputation
    maxAttempts
  pure (guards, records)

/-- What a client sets for its paths. -/
structure ClientPathBuildParams where
  clientSeed : UInt64
  guardConfig : GuardConfig
  mitigation : GuardMitigationPolicy
  signals : GuardMitigationSignals
  minReputation : ℚ
  maxAttempts : ℕ
  jurisdiction : Option JurisdictionPolicy

/-- The guards and the records of a client's path, diverse if it asks for that. -/
def buildClientBoundPath (topology : Topology) (roster : RelayRoster)
    (pruning : RelayPruningPolicy D) (params : ClientPathBuildParams) :
    Draws ω TopologyError (GuardSelector × List RelayRecord) :=
  match params.jurisdiction with
  | some jurisdiction =>
    buildBoundPathDiversePrunedWithGuardsMitigated os std topology roster params.guardConfig
      params.clientSeed params.mitigation params.signals jurisdiction pruning params.minReputation
      params.maxAttempts
  | none =>
    buildBoundPathPrunedWithGuardsMitigated os std topology roster params.guardConfig
      params.clientSeed params.mitigation params.signals pruning params.minReputation
      params.maxAttempts

end Select

/-! ## How the paths are drawn -/

section Produced

variable {ω σ D : Type} {os : Rng ω} {std : SeededRng σ} {topology : Topology}
  {g : GuardSelector} {s t : ω} {roster : RelayRoster} {policy : RelayPruningPolicy D}
  {minReputation : ℚ} {maxAttempts : ℕ} {path : List RelayId} {records : List RelayRecord}

/-- **A path that was selected was drawn, and satisfies its builder.** -/
theorem select_of_selectUntil {guards : Option GuardSelector}
    {accept : List RelayId → Except TopologyError Bool} {exhausted : TopologyError} {left : ℕ}
    (h : Returns (selectUntil os topology guards accept exhausted left) s path t) :
    accept path = .ok true ∧
      ∃ s' t', Returns (selectPathIndexedImpl os topology guards 0) s' path t' := by
  induction left generalizing s with
  | zero => exact absurd h not_throw_returns
  | succ left ih =>
    unfold selectUntil at h
    obtain ⟨path', u, hpath, h⟩ := bind_returns h
    obtain ⟨accepted, v, haccept, h⟩ := bind_returns h
    split_ifs at h with hyes
    · obtain ⟨rfl, -⟩ := pure_returns h
      rw [hyes] at haccept
      exact ⟨orThrow_returns haccept, s, u, hpath⟩
    · exact ih h

/-- A builder that binds the path to its records. -/
theorem path_of_bound {select : Draws ω TopologyError (List RelayId)} (hroster : roster.Built)
    (h : Returns (do
      let path ← select
      orThrow (relayRecordsForPath path roster)) s records t) :
    ∃ u, Returns select s (records.map RelayRecord.id) u := by
  obtain ⟨path', u, hpath, hrecords⟩ := bind_returns h
  have hpairs := records_of_relayRecordsForPath (orThrow_returns hrecords)
  rw [(map_id_of_records hroster.keyed hpairs).1]
  exact ⟨u, hpath⟩

theorem select_of_buildBoundPathPruned (hroster : roster.Built)
    (h : Returns (buildBoundPathPruned os topology roster (some g) policy minReputation maxAttempts)
      s records t) :
    ∃ s' t', Returns (selectPathIndexedImpl os topology (some g) 0) s'
      (records.map RelayRecord.id) t' := by
  obtain ⟨u, hpath⟩ := path_of_bound hroster h
  exact (select_of_selectUntil hpath).2

theorem select_of_buildBoundPathDiversePruned {jurisdiction : JurisdictionPolicy}
    (hroster : roster.Built)
    (h : Returns (buildBoundPathDiversePruned os topology roster (some g) jurisdiction policy
      minReputation maxAttempts) s records t) :
    ∃ s' t', Returns (selectPathIndexedImpl os topology (some g) 0) s'
      (records.map RelayRecord.id) t' := by
  obtain ⟨u, hpath⟩ := path_of_bound hroster h
  exact (checked_of_attempts hpath).2.2

theorem select_of_diverseMitigated {base : GuardConfig} {clientSeed : UInt64}
    {mitigation : GuardMitigationPolicy} {signals : GuardMitigationSignals}
    {jurisdiction : JurisdictionPolicy} (hroster : roster.Built)
    (h : Returns (buildBoundPathDiversePrunedWithGuardsMitigated os std topology roster base
      clientSeed mitigation signals jurisdiction policy minReputation maxAttempts) s (g, records)
      t) :
    ∃ s' t', Returns (selectPathIndexedImpl os topology (some g) 0) s'
      (records.map RelayRecord.id) t' := by
  obtain ⟨_, _, -, -, -, _, _, hrecords⟩ := guards_of_mitigated h
  exact select_of_buildBoundPathDiversePruned hroster hrecords

theorem select_of_mitigated {base : GuardConfig} {clientSeed : UInt64}
    {mitigation : GuardMitigationPolicy} {signals : GuardMitigationSignals}
    (hroster : roster.Built)
    (h : Returns (buildBoundPathPrunedWithGuardsMitigated os std topology roster base clientSeed
      mitigation signals policy minReputation maxAttempts) s (g, records) t) :
    ∃ s' t', Returns (selectPathIndexedImpl os topology (some g) 0) s'
      (records.map RelayRecord.id) t' := by
  obtain ⟨_, _, -, -, -, _, _, hrecords⟩ := guards_of_mitigated h
  exact select_of_buildBoundPathPruned hroster hrecords

variable (os std topology g) in
/-- The paths that the builders return for the guards `g`, which were given to them or which they
have drawn.  The client's are those of the mitigated builders. -/
inductive Produced : List RelayId → Prop
  | diverse {roster : RelayRoster} {jurisdiction : JurisdictionPolicy} {maxAttempts : ℕ}
    {path : List RelayId} {s t : ω}
    (h : Returns (selectDiversePath os topology roster (some g) jurisdiction maxAttempts)
      s path t) : Produced path
  | reputationWeighted {roster : RelayRoster} {ledger : ReputationLedger} {minReputation : ℚ}
    {maxAttempts : ℕ} {path : List RelayId} {s t : ω}
    (h : Returns (selectPathReputationWeighted os topology roster (some g) ledger minReputation
      maxAttempts) s path t) : Produced path
  | diverseReputation {roster : RelayRoster} {jurisdiction : JurisdictionPolicy}
    {ledger : ReputationLedger} {minReputation : ℚ} {maxAttempts : ℕ} {path : List RelayId}
    {s t : ω}
    (h : Returns (selectDiverseReputationPath os topology roster (some g) jurisdiction ledger
      minReputation maxAttempts) s path t) : Produced path
  | reputationWeightedPruned {D : Type} {roster : RelayRoster} {policy : RelayPruningPolicy D}
    {minReputation : ℚ} {maxAttempts : ℕ} {path : List RelayId} {s t : ω}
    (h : Returns (selectPathReputationWeightedPruned os topology roster (some g) policy
      minReputation maxAttempts) s path t) : Produced path
  | diverseReputationPruned {D : Type} {roster : RelayRoster} {jurisdiction : JurisdictionPolicy}
    {policy : RelayPruningPolicy D} {minReputation : ℚ} {maxAttempts : ℕ} {path : List RelayId}
    {s t : ω}
    (h : Returns (selectDiverseReputationPathPruned os topology roster (some g) jurisdiction policy
      minReputation maxAttempts) s path t) : Produced path
  | boundPruned {D : Type} {roster : RelayRoster} {policy : RelayPruningPolicy D}
    {minReputation : ℚ} {maxAttempts : ℕ} {records : List RelayRecord} {s t : ω}
    (hroster : roster.Built)
    (h : Returns (buildBoundPathPruned os topology roster (some g) policy minReputation maxAttempts)
      s records t) : Produced (records.map RelayRecord.id)
  | boundDiversePruned {D : Type} {roster : RelayRoster} {jurisdiction : JurisdictionPolicy}
    {policy : RelayPruningPolicy D} {minReputation : ℚ} {maxAttempts : ℕ}
    {records : List RelayRecord} {s t : ω} (hroster : roster.Built)
    (h : Returns (buildBoundPathDiversePruned os topology roster (some g) jurisdiction policy
      minReputation maxAttempts) s records t) : Produced (records.map RelayRecord.id)
  | withGuards {D : Type} {roster : RelayRoster} {clientSeed : UInt64}
    {policy : RelayPruningPolicy D} {minReputation : ℚ} {maxAttempts : ℕ}
    {records : List RelayRecord} {s t : ω} (hroster : roster.Built)
    (h : Returns (buildBoundPathPrunedWithGuards os std topology roster clientSeed policy
      minReputation maxAttempts) s (g, records) t) : Produced (records.map RelayRecord.id)
  | client {D : Type} {roster : RelayRoster} {pruning : RelayPruningPolicy D}
    {params : ClientPathBuildParams} {records : List RelayRecord} {s t : ω}
    (hroster : roster.Built)
    (h : Returns (buildClientBoundPath os std topology roster pruning params) s (g, records) t) :
    Produced (records.map RelayRecord.id)

/-- **Every builder draws its path for the packet index 0.** -/
theorem select_of_produced (h : Produced os std topology g path) :
    ∃ s t, Returns (selectPathIndexedImpl os topology (some g) 0) s path t := by
  cases h with
  | diverse h => exact (select_of_selectUntil h).2
  | reputationWeighted h => exact (select_of_selectUntil h).2
  | diverseReputation h => exact (select_of_selectUntil h).2
  | reputationWeightedPruned h => exact (select_of_selectUntil h).2
  | diverseReputationPruned h => exact (checked_of_attempts h).2.2
  | boundPruned hroster h => exact select_of_buildBoundPathPruned hroster h
  | boundDiversePruned hroster h => exact select_of_buildBoundPathDiversePruned hroster h
  | withGuards hroster h =>
    obtain ⟨guards, _, -, h⟩ := bind_returns h
    obtain ⟨records', _, hrecords, h⟩ := bind_returns h
    obtain ⟨heq, -⟩ := pure_returns h
    obtain ⟨rfl, rfl⟩ := Prod.mk.inj heq
    exact select_of_buildBoundPathPruned hroster hrecords
  | @client _ _ _ params _ _ _ hroster h =>
    unfold buildClientBoundPath at h
    cases hjurisdiction : params.jurisdiction with
    | some jurisdiction =>
      rw [hjurisdiction] at h
      exact select_of_diverseMitigated hroster h
    | none =>
      rw [hjurisdiction] at h
      exact select_of_mitigated hroster h

end Produced

end Aegis
