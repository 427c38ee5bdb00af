import Aegis.Topology.Guards

/-!
# Paths (`path.rs`)

A client draws one relay of each layer, the entry from its guards, until all of them are eligible
and no jurisdiction occurs too often.  The path is bound to the roster's records of its relays.

* `hops_of_select` — a path has one relay of each layer.
* `diverse_of_pathSatisfiesJurisdiction` — what the count of the jurisdictions shows.
* `boundPath_of_build` — **what holds of every path that is returned**.
* `total_build` — the builder does not panic.
-/

namespace Aegis

open Sampling Sampling.Draws

/-! ## Jurisdictions -/

/-- How many relays of a path may be of one jurisdiction. -/
structure JurisdictionPolicy where
  maxPerJurisdiction : ℕ
  deriving DecidableEq, Repr

/-- The loop of `path_satisfies_jurisdiction`. -/
def jurisdictionLoop (roster : RelayRoster) (policy : JurisdictionPolicy) :
    List RelayId → HashMap String ℕ → Except TopologyError Bool
  | [], _ => .ok true
  | id :: path, counts =>
    match roster.get id with
    | none => .error (.relayNotFound id)
    | some record =>
      let count := (counts.lookup record.jurisdiction).getD 0 + 1
      if count > policy.maxPerJurisdiction then .ok false
      else jurisdictionLoop roster policy path (counts.insert record.jurisdiction count)

/-- No jurisdiction has more relays on the path than it may. -/
def pathSatisfiesJurisdiction (path : List RelayId) (roster : RelayRoster)
    (policy : JurisdictionPolicy) : Except TopologyError Bool :=
  jurisdictionLoop roster policy path ∅

/-- The record of each relay. -/
def relayRecordsForPath (path : List RelayId) (roster : RelayRoster) :
    Except TopologyError (List RelayRecord) :=
  path.mapM fun id =>
    match roster.get id with
    | some record => .ok record
    | none => .error (.relayNotFound id)

/-! ## Selection -/

section Select

variable {ω : Type} (os : Rng ω)

/-- The relay of one layer. -/
def selectHop (topology : Topology) (guards : Option GuardSelector) (packetIndex : UInt64)
    (layer : List RelayId) (layerIdx : ℕ) : Draws ω TopologyError RelayId :=
  if layer = [] then throw (.emptyLayer (layerIdx + 1) topology.epoch)
  else if layerIdx = 0 then
    match guards with
    | some g => orPanic (g.entryGuardForPacket packetIndex)
    | none => choose os layer
  else choose os layer

/-- A relay for each layer, by way of a guard if there are any. -/
def selectPathIndexedImpl (topology : Topology) (guards : Option GuardSelector)
    (packetIndex : UInt64) : Draws ω TopologyError (List RelayId) :=
  topology.layers.zipIdx.mapM fun p => selectHop os topology guards packetIndex p.1 p.2

variable {D : Type}

/-- The attempts that are left of `max_attempts`. -/
def selectAttempts (topology : Topology) (roster : RelayRoster) (guards : Option GuardSelector)
    (jurisdiction : JurisdictionPolicy) (policy : RelayPruningPolicy D) (minReputation : ℚ)
    (maxAttempts : ℕ) : ℕ → Draws ω TopologyError (List RelayId)
  | 0 => throw (.reputationPathExhausted maxAttempts)
  | left + 1 => do
    let path ← selectPathIndexedImpl os topology guards 0
    if pathSatisfiesPruningPolicy path policy minReputation = false then
      selectAttempts topology roster guards jurisdiction policy minReputation maxAttempts left
    else
      let diverse ← orThrow (pathSatisfiesJurisdiction path roster jurisdiction)
      if diverse = true then pure path
      else selectAttempts topology roster guards jurisdiction policy minReputation maxAttempts left

/-- A path that is diverse and without a relay below the floor, in so many attempts. -/
def selectDiverseReputationPathPruned (topology : Topology) (roster : RelayRoster)
    (guards : Option GuardSelector) (jurisdiction : JurisdictionPolicy)
    (policy : RelayPruningPolicy D) (minReputation : ℚ) (maxAttempts : ℕ) :
    Draws ω TopologyError (List RelayId) :=
  selectAttempts os topology roster guards jurisdiction policy minReputation maxAttempts maxAttempts

/-- The records of such a path. -/
def buildBoundPathDiversePruned (topology : Topology) (roster : RelayRoster)
    (guards : Option GuardSelector) (jurisdiction : JurisdictionPolicy)
    (policy : RelayPruningPolicy D) (minReputation : ℚ) (maxAttempts : ℕ) :
    Draws ω TopologyError (List RelayRecord) := do
  let path ← selectDiverseReputationPathPruned os topology roster guards jurisdiction policy
    minReputation maxAttempts
  orThrow (relayRecordsForPath path roster)

variable {σ : Type} (std : SeededRng σ)

/-- The guards, after mitigation, and a path that enters by one of them. -/
def buildBoundPathDiversePrunedWithGuardsMitigated (topology : Topology) (roster : RelayRoster)
    (baseGuardConfig : GuardConfig) (clientSeed : UInt64) (mitigation : GuardMitigationPolicy)
    (signals : GuardMitigationSignals) (jurisdiction : JurisdictionPolicy)
    (policy : RelayPruningPolicy D) (minReputation : ℚ) (maxAttempts : ℕ) :
    Draws ω TopologyError (GuardSelector × List RelayRecord) := do
  let guardConfig ← orPanic (mitigation.applyToConfigWithSignals baseGuardConfig signals)
  let effectiveSeed ← orPanic (mitigation.clientSeedForGuards clientSeed signals)
  let guards ← orThrow (GuardSelector.newReputationWeightedPruned std topology guardConfig
    effectiveSeed policy minReputation)
  let records ← buildBoundPathDiversePruned os topology roster (some guards) jurisdiction policy
    minReputation maxAttempts
  pure (guards, records)

end Select

/-! ## What each function shows -/

/-- **Where the count of the jurisdictions says so, none occurs too often.** -/
theorem diverse_of_jurisdictionLoop {roster : RelayRoster} {policy : JurisdictionPolicy}
    {path : List RelayId} {counts : HashMap String ℕ} {records : List RelayRecord}
    (h : jurisdictionLoop roster policy path counts = .ok true)
    (hrecords : List.Forall₂ (fun id record => roster.get id = some record) path records)
    (hcounts : ∀ j, (counts.lookup j).getD 0 ≤ policy.maxPerJurisdiction) (j : String) :
    (counts.lookup j).getD 0 + (records.map RelayRecord.jurisdiction).count j ≤
      policy.maxPerJurisdiction := by
  induction hrecords generalizing counts with
  | nil => exact hcounts j
  | @cons id record path records hget _ ih =>
    unfold jurisdictionLoop at h
    rw [hget] at h
    simp only at h
    by_cases hmany : (counts.lookup record.jurisdiction).getD 0 + 1 > policy.maxPerJurisdiction
    · rw [if_pos hmany] at h
      cases h
    rw [if_neg hmany] at h
    have hcounts' : ∀ j', ((counts.insert record.jurisdiction
        ((counts.lookup record.jurisdiction).getD 0 + 1)).lookup j').getD 0 ≤
          policy.maxPerJurisdiction := by
      intro j'
      by_cases hj : j' = record.jurisdiction
      · rw [hj, AList.lookup_insert]
        exact Nat.not_lt.mp hmany
      · rw [AList.lookup_insert_ne hj]
        exact hcounts j'
    have hrest := ih h hcounts'
    rw [List.map_cons, List.count_cons]
    by_cases hj : j = record.jurisdiction
    · rw [hj, AList.lookup_insert, Option.getD_some] at hrest
      rw [hj, beq_self_eq_true, if_pos rfl]
      omega
    · rw [AList.lookup_insert_ne hj] at hrest
      rw [if_neg (by rw [beq_iff_eq]; exact fun heq => hj heq.symm)]
      exact hrest

theorem diverse_of_pathSatisfiesJurisdiction {roster : RelayRoster} {policy : JurisdictionPolicy}
    {path : List RelayId} {records : List RelayRecord}
    (h : pathSatisfiesJurisdiction path roster policy = .ok true)
    (hrecords : List.Forall₂ (fun id record => roster.get id = some record) path records)
    (j : String) : (records.map RelayRecord.jurisdiction).count j ≤ policy.maxPerJurisdiction := by
  have hcount := diverse_of_jurisdictionLoop h hrecords
    (fun j => by rw [AList.lookup_empty]; exact Nat.zero_le _) j
  rw [AList.lookup_empty, Option.getD_none, Nat.zero_add] at hcount
  exact hcount

/-- Each hop is bound to the roster's record of it. -/
theorem records_of_relayRecordsForPath {roster : RelayRoster} {path : List RelayId}
    {records : List RelayRecord} (h : relayRecordsForPath path roster = .ok records) :
    List.Forall₂ (fun id record => roster.get id = some record) path records := by
  unfold relayRecordsForPath at h
  induction path generalizing records with
  | nil =>
    obtain rfl := Except.ok.inj h
    exact .nil
  | cons id path ih =>
    rw [List.mapM_cons] at h
    cases hget : roster.get id with
    | none =>
      rw [hget] at h
      cases h
    | some record =>
      rw [hget] at h
      cases hrest : path.mapM (fun id =>
          match roster.get id with
          | some record => Except.ok record
          | none => Except.error (TopologyError.relayNotFound id)) with
      | error e =>
        rw [hrest] at h
        cases h
      | ok rest =>
        rw [hrest] at h
        obtain rfl := Except.ok.inj h
        exact .cons hget (ih hrest)

/-- The hops are the relays of their records. -/
theorem map_id_of_records {roster : RelayRoster} (hkeyed : roster.Keyed) {path : List RelayId}
    {records : List RelayRecord}
    (h : List.Forall₂ (fun id record => roster.get id = some record) path records) :
    records.map RelayRecord.id = path ∧
      ∀ record ∈ records, roster.get record.id = some record := by
  induction h with
  | nil => exact ⟨rfl, nofun⟩
  | @cons id record path records hget _ ih =>
    obtain ⟨hids, hbound⟩ := ih
    have hid := RelayRoster.get_eq_some_iff hkeyed hget
    refine ⟨?_, ?_⟩
    · rw [List.map_cons, hid, hids]
    · intro record' hrecord'
      rcases List.mem_cons.mp hrecord' with rfl | hrecord'
      · rw [hid]
        exact hget
      · exact hbound record' hrecord'

section Returns

variable {ω : Type} {os : Rng ω} {topology : Topology} {s t : ω}

theorem hop_of_select {g : GuardSelector} {packetIndex : UInt64} {layer : List RelayId}
    {layerIdx : ℕ} {hop : RelayId}
    (h : Returns (selectHop os topology (some g) packetIndex layer layerIdx) s hop t) :
    (layerIdx = 0 ∧ hop ∈ g.guards) ∨ (layerIdx ≠ 0 ∧ hop ∈ layer) := by
  unfold selectHop at h
  by_cases hempty : layer = []
  · rw [if_pos hempty] at h
    exact absurd h not_throw_returns
  · rw [if_neg hempty] at h
    by_cases hentry : layerIdx = 0
    · rw [if_pos hentry] at h
      exact Or.inl ⟨hentry, GuardSelector.mem_of_entryGuardForPacket (orPanic_returns h)⟩
    · rw [if_neg hentry] at h
      exact Or.inr ⟨hentry, mem_of_choose h⟩

/-- **A path has one relay of each layer**, and enters by a guard. -/
theorem hops_of_select {g : GuardSelector} {packetIndex : UInt64} {path : List RelayId}
    (hguards : ∀ layer1, topology.layers[0]? = some layer1 → ∀ id ∈ g.guards, id ∈ layer1)
    (h : Returns (selectPathIndexedImpl os topology (some g) packetIndex) s path t) :
    List.Forall₂ (fun layer id => id ∈ layer) topology.layers path ∧
      ∀ entry, path.head? = some entry → entry ∈ g.guards := by
  have hhops := mapM_returns (fun p hop => hop ∈ p.1 ∧ (p.2 = 0 → hop ∈ g.guards)) (by
    rintro ⟨layer, layerIdx⟩ hmem hop _ _ hreturns
    rcases hop_of_select hreturns with ⟨rfl, hguard⟩ | ⟨hinner, hlayer⟩
    · exact ⟨hguards layer (List.mem_zipIdx_iff_getElem?.mp hmem) hop hguard, fun _ => hguard⟩
    · exact ⟨hlayer, fun hentry => absurd hentry hinner⟩) h
  refine ⟨?_, ?_⟩
  · have hlayers := hhops.imp fun _ _ hhop => hhop.1
    rw [← List.zipIdx_map_fst 0 topology.layers, List.forall₂_map_left_iff]
    exact hlayers
  · intro entry hentry
    cases hlayers : topology.layers with
    | nil =>
      rw [hlayers] at hhops
      cases hhops
      cases hentry
    | cons layer layers =>
      rw [hlayers, List.zipIdx_cons] at hhops
      cases hhops with
      | cons hhop hrest =>
        obtain rfl := Option.some.inj hentry
        exact hhop.2 rfl

/-- What an attempt has checked when it returns its path. -/
theorem checked_of_attempts {D : Type} {roster : RelayRoster} {g : GuardSelector}
    {jurisdiction : JurisdictionPolicy} {policy : RelayPruningPolicy D} {minReputation : ℚ}
    {maxAttempts left : ℕ} {path : List RelayId}
    (h : Returns (selectAttempts os topology roster (some g) jurisdiction policy minReputation
      maxAttempts left) s path t) :
    pathSatisfiesPruningPolicy path policy minReputation = true ∧
      pathSatisfiesJurisdiction path roster jurisdiction = .ok true ∧
      ∃ s' t', Returns (selectPathIndexedImpl os topology (some g) 0) s' path t' := by
  induction left generalizing s with
  | zero => exact absurd h not_throw_returns
  | succ left ih =>
    unfold selectAttempts at h
    obtain ⟨path', u, hpath, h⟩ := bind_returns h
    split_ifs at h with hpruned
    · exact ih h
    · obtain ⟨diverse, v, hdiverse, h⟩ := bind_returns h
      split_ifs at h with hyes
      · obtain ⟨rfl, -⟩ := pure_returns h
        rw [hyes] at hdiverse
        exact ⟨(Bool.not_eq_false _).mp hpruned, orThrow_returns hdiverse, s, u, hpath⟩
      · exact ih h

/-- What a build under mitigation has done when it succeeds, however it selects its path: the guards
are drawn from the effective seed. -/
theorem guards_of_mitigated {D σ : Type} {std : SeededRng σ} {base : GuardConfig}
    {clientSeed : UInt64} {mitigation : GuardMitigationPolicy} {signals : GuardMitigationSignals}
    {policy : RelayPruningPolicy D} {minReputation : ℚ} {g : GuardSelector}
    {records : List RelayRecord}
    {build : GuardSelector → Draws ω TopologyError (List RelayRecord)}
    (h : Returns (do
      let guardConfig ← orPanic (mitigation.applyToConfigWithSignals base signals)
      let effectiveSeed ← orPanic (mitigation.clientSeedForGuards clientSeed signals)
      let guards ← orThrow (GuardSelector.newReputationWeightedPruned std topology guardConfig
        effectiveSeed policy minReputation)
      let records ← build guards
      pure (guards, records)) s (g, records) t) :
    ∃ config seed, mitigation.applyToConfigWithSignals base signals = some config ∧
      mitigation.clientSeedForGuards clientSeed signals = some seed ∧
      GuardSelector.newReputationWeightedPruned std topology config seed policy minReputation =
        .ok g ∧
      ∃ u v, Returns (build g) u records v := by
  obtain ⟨config, _, hconfig, h⟩ := bind_returns h
  obtain ⟨seed, _, hseed, h⟩ := bind_returns h
  obtain ⟨guards, _, hguards, h⟩ := bind_returns h
  obtain ⟨records', u, hrecords, h⟩ := bind_returns h
  obtain ⟨heq, -⟩ := pure_returns h
  obtain ⟨rfl, rfl⟩ := Prod.mk.inj heq
  exact ⟨config, seed, orPanic_returns hconfig, orPanic_returns hseed, orThrow_returns hguards,
    _, u, hrecords⟩

end Returns

/-! ## The path that is returned -/

/-- What a client may rely on: there is one hop for each layer, of the layer's relays, and no relay
twice; the entry is a guard; every hop is admitted, eligible and bound to its record; and no
jurisdiction occurs too often. -/
structure BoundPath {D : Type} (topology : Topology) (roster : RelayRoster)
    (jurisdiction : JurisdictionPolicy) (policy : RelayPruningPolicy D) (minReputation : ℚ)
    (guards : GuardSelector) (records : List RelayRecord) : Prop where
  oneHop : records.length = topology.layerCount
  layers : List.Forall₂ (fun layer record => record.id ∈ layer) topology.layers records
  distinct : (records.map RelayRecord.id).Nodup
  entry : ∃ record, records.head? = some record ∧ record.id ∈ guards.guards
  admitted : ∀ record ∈ records, roster.isAdmitted record.id = true
  eligible : ∀ record ∈ records, policy.isEligible record.id minReputation = true
  diverse : ∀ j, (records.map RelayRecord.jurisdiction).count j ≤ jurisdiction.maxPerJurisdiction
  bound : ∀ record ∈ records, roster.get record.id = some record

section Build

variable {D σ ω : Type} {std : SeededRng σ} {os : Rng ω} {o : IterOrder RelayId RosterEntry}
  {roster : RelayRoster} {topology : Topology} {baseGuardConfig : GuardConfig}
  {clientSeed : UInt64} {mitigation : GuardMitigationPolicy} {signals : GuardMitigationSignals}
  {jurisdiction : JurisdictionPolicy} {policy : RelayPruningPolicy D} {minReputation : ℚ}
  {maxAttempts : ℕ} {s t : ω} {guards : GuardSelector} {records : List RelayRecord}

/-- **What holds of every path that is returned**, whatever the generators draw. -/
theorem boundPath_of_build (hroster : roster.Built) {epoch epochSeed : UInt64}
    {config : TopologyConfig}
    (htopology : buildTopology std o roster epoch config epochSeed = .ok topology)
    (h : Returns (buildBoundPathDiversePrunedWithGuardsMitigated os std topology roster
      baseGuardConfig clientSeed mitigation signals jurisdiction policy minReputation maxAttempts)
      s (guards, records) t) :
    BoundPath topology roster jurisdiction policy minReputation guards records := by
  have hkeyed := hroster.keyed
  have hstratified := stratified_of_buildTopology hkeyed htopology
  obtain ⟨guardConfig, effectiveSeed, -, -, hguards, _, _, hrecords⟩ := guards_of_mitigated h
  obtain ⟨path, _, hpath, hbound⟩ := bind_returns hrecords
  have hpairs := records_of_relayRecordsForPath (orThrow_returns hbound)
  obtain ⟨hpruned, hdiverse, _, _, hselect⟩ := checked_of_attempts hpath
  obtain ⟨-, layer1, hlayer1, -, hlayer⟩ := GuardSelector.guards_of_new hguards
  obtain ⟨hhops, hentry⟩ := hops_of_select (by
    intro layer hfirst id hid
    obtain rfl := Option.some.inj (hlayer1.symm.trans hfirst)
    exact (hlayer id hid).1) hselect
  obtain ⟨hids, hrecord⟩ := map_id_of_records hkeyed hpairs
  have hlength : records.length = topology.layerCount :=
    hpairs.length_eq.symm.trans (hhops.length_eq.symm.trans hstratified.length)
  rw [← hids] at hhops hentry hpruned
  refine ⟨hlength, List.forall₂_map_right_iff.mp hhops,
    nodup_of_picks hhops.flip hstratified.nodup, ?_, ?_, ?_,
    diverse_of_pathSatisfiesJurisdiction hdiverse hpairs, hrecord⟩
  · cases records with
    | nil => exact absurd hlength.symm hstratified.positive.ne'
    | cons record records => exact ⟨record, rfl, hentry record.id rfl⟩
  · intro record hmem
    have hget := hrecord record hmem
    unfold RelayRoster.get at hget
    obtain ⟨entry, hfound, -⟩ := Option.map_eq_some_iff.mp hget
    unfold RelayRoster.isAdmitted
    rw [hfound]
    rfl
  · intro record hmem
    exact List.all_eq_true.mp hpruned record.id (List.mem_map_of_mem hmem)

/-- A generator that always draws the least number. -/
def lowestRng : SeededRng Unit where
  genRange lo _ s := (lo, s)
  genRange_mem _ h := ⟨le_rfl, h⟩
  seedFromU64 _ := ()

/-- Two relays of two jurisdictions. -/
def twoRelays : RelayRoster :=
  ((RelayRoster.new.insertEntry ⟨⟨.replicate 32 1, "US", .replicate 32 1⟩, none, none⟩).insertEntry
    ⟨⟨.replicate 32 2, "DE", .replicate 32 2⟩, none, none⟩)

/-- A path of two hops through both: the guard is the relay of the first layer, and the records are
those of the roster. -/
theorem boundPath_of_build_twoRelays :
    let topology : Topology := ⟨1, 2, [[.replicate 32 2], [.replicate 32 1]]⟩
    let policy : RelayPruningPolicy Unit := .withLedger ⟨1 / 2, ∅⟩ 0 0
    let guards : GuardSelector := ⟨1, [.replicate 32 2], .rotate⟩
    let records : List RelayRecord :=
      [⟨.replicate 32 2, "DE", .replicate 32 2⟩, ⟨.replicate 32 1, "US", .replicate 32 1⟩]
    buildTopology lowestRng .latestFirst twoRelays 1 ⟨2⟩ 0 = .ok topology ∧
      Returns (buildBoundPathDiversePrunedWithGuardsMitigated lowestRng.toRng lowestRng topology
        twoRelays ⟨1, .stickyPrimary⟩ 7 ⟨12, 12, true, true, 2⟩ ⟨12, false, 0⟩ ⟨1⟩ policy
        defaultPathReputationFloor 3) () (guards, records) () ∧
      BoundPath topology twoRelays ⟨1⟩ policy defaultPathReputationFloor guards records := by
  intro topology policy guards records
  have hbuilt : twoRelays.Built := ((RelayRoster.Built.new .default).insertEntry _).insertEntry _
  have htopology : buildTopology lowestRng .latestFirst twoRelays 1 ⟨2⟩ 0 = .ok topology := by
    decide +kernel
  have hreturns : Returns (buildBoundPathDiversePrunedWithGuardsMitigated lowestRng.toRng lowestRng
      topology twoRelays ⟨1, .stickyPrimary⟩ 7 ⟨12, 12, true, true, 2⟩ ⟨12, false, 0⟩ ⟨1⟩ policy
      defaultPathReputationFloor 3) () (guards, records) () := by
    decide +kernel
  exact ⟨htopology, hreturns, boundPath_of_build hbuilt htopology hreturns⟩

end Build

/-! ## No panic -/

section Total

variable {D σ ω : Type} {std : SeededRng σ} {os : Rng ω} {topology : Topology}
  {roster : RelayRoster} {g : GuardSelector} {jurisdiction : JurisdictionPolicy}
  {policy : RelayPruningPolicy D} {minReputation : ℚ} {maxAttempts : ℕ}

theorem total_selectPath (hguards : g.guards ≠ []) (packetIndex : UInt64) :
    Total (selectPathIndexedImpl os topology (some g) packetIndex) := by
  refine total_mapM fun p _ => ?_
  unfold selectHop
  by_cases hempty : p.1 = []
  · rw [if_pos hempty]
    exact total_throw _
  · rw [if_neg hempty]
    split_ifs
    · exact total_orPanic (GuardSelector.entryGuardForPacket_ne_none hguards packetIndex)
    · exact total_choose os hempty

theorem total_selectAttempts (hguards : g.guards ≠ []) (left : ℕ) :
    Total (selectAttempts os topology roster (some g) jurisdiction policy minReputation maxAttempts
      left) := by
  induction left with
  | zero => exact total_throw _
  | succ left ih =>
    unfold selectAttempts
    refine (total_selectPath hguards 0).bind fun path _ _ _ => ?_
    split_ifs
    · exact ih
    · refine (total_orThrow _).bind fun diverse _ _ _ => ?_
      split_ifs
      · exact total_pure path
      · exact ih

/-- **The builder does not panic** when a guard is asked for and the mitigation's band is not that
of every age. -/
theorem total_build {baseGuardConfig : GuardConfig} (hcount : 1 ≤ baseGuardConfig.guardCount.toNat)
    {mitigation : GuardMitigationPolicy} (hband : ¬mitigation.BandOverflows) (clientSeed : UInt64)
    (signals : GuardMitigationSignals) :
    Total (buildBoundPathDiversePrunedWithGuardsMitigated os std topology roster baseGuardConfig
      clientSeed mitigation signals jurisdiction policy minReputation maxAttempts) := by
  obtain ⟨config, seed, hconfig, hsame, hseed⟩ :=
    GuardMitigationPolicy.mitigated hband baseGuardConfig clientSeed signals
  unfold buildBoundPathDiversePrunedWithGuardsMitigated
  rw [hconfig, hseed]
  refine (total_pure config).bind fun guardConfig _ _ hreturns => ?_
  obtain ⟨rfl, -⟩ := pure_returns hreturns
  refine (total_pure seed).bind fun effectiveSeed _ _ _ => ?_
  refine (total_orThrow _).bind fun guards _ _ hguards => ?_
  obtain ⟨hlength, -⟩ := GuardSelector.guards_of_new (orThrow_returns hguards)
  have hne : guards.guards ≠ [] := by
    intro hnil
    rw [hnil, List.length_nil, hsame] at hlength
    omega
  refine Total.bind ?_ fun records _ _ _ => total_pure (guards, records)
  exact (total_selectAttempts hne maxAttempts).bind fun path _ _ _ => total_orThrow _

end Total

end Aegis
