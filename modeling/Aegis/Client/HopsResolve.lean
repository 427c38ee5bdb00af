import Aegis.Client.Hops

/-!
# Hops over a roster (`hops_resolve.rs`)

* `of_buildClientBoundPath` — what a client's path is.
* `bound_of_resolveRosterHops` — the hops are the roster's.
* `peels_of_resolveRosterHops` — **what is built over them is peeled by the relays of the roster**,
  one of each layer, and no hop is complained of.
* `total_resolveClientHops` — **resolving does not panic**, whatever the files say.
-/

namespace Aegis

open Buffer Fallible Sampling Sampling.Draws

/-! ## The path that is built -/

section Built

variable {D σ ω : Type} {std : SeededRng σ} {os : Rng ω} {topology : Topology}
  {roster : RelayRoster} {g : GuardSelector} {records : List RelayRecord}
  {pruning : RelayPruningPolicy D} {s t : ω}

/-- A path that is bound was selected, and every record is the roster's. -/
theorem records_of_bound {select : Draws ω TopologyError (List RelayId)} (hroster : roster.Built)
    (h : Returns (do
      let path ← select
      orThrow (relayRecordsForPath path roster)) s records t) :
    (∃ u, Returns select s (records.map RelayRecord.id) u) ∧
      List.Forall₂ (fun id record => roster.get id = some record) (records.map RelayRecord.id)
        records := by
  obtain ⟨path, u, hpath, hrecords⟩ := bind_returns h
  have hpairs := records_of_relayRecordsForPath (orThrow_returns hrecords)
  have hids := (map_id_of_records hroster.keyed hpairs).1
  rw [hids]
  exact ⟨⟨u, hpath⟩, hpairs⟩

/-- **What a client's path is**, with or without a limit on jurisdictions: drawn by way of a guard,
bound to the roster, and within the limit. -/
theorem of_buildClientBoundPath (hroster : roster.Built) {params : ClientPathBuildParams}
    (h : Returns (buildClientBoundPath os std topology roster pruning params) s (g, records) t) :
    (∃ config seed, GuardSelector.newReputationWeightedPruned std topology config seed pruning
        params.minReputation = .ok g) ∧
      (∃ s' t', Returns (selectPathIndexedImpl os topology (some g) 0) s'
        (records.map RelayRecord.id) t') ∧
      List.Forall₂ (fun id record => roster.get id = some record) (records.map RelayRecord.id)
        records ∧
      ∀ policy, params.jurisdiction = some policy → ∀ j,
        (records.map RelayRecord.jurisdiction).count j ≤ policy.maxPerJurisdiction := by
  unfold buildClientBoundPath at h
  cases hjurisdiction : params.jurisdiction with
  | none =>
    rw [hjurisdiction] at h
    obtain ⟨config, seed, -, -, hguards, _, _, hrecords⟩ := guards_of_mitigated h
    obtain ⟨⟨u, hpath⟩, hpairs⟩ := records_of_bound hroster hrecords
    exact ⟨⟨config, seed, hguards⟩, (select_of_selectUntil hpath).2, hpairs, nofun⟩
  | some policy =>
    rw [hjurisdiction] at h
    obtain ⟨config, seed, -, -, hguards, _, _, hrecords⟩ := guards_of_mitigated h
    obtain ⟨⟨u, hpath⟩, hpairs⟩ := records_of_bound hroster hrecords
    obtain ⟨-, hdiverse, hselect⟩ := checked_of_attempts hpath
    refine ⟨⟨config, seed, hguards⟩, hselect, hpairs, fun policy' heq j => ?_⟩
    obtain rfl := Option.some.inj heq
    exact diverse_of_pathSatisfiesJurisdiction hdiverse hpairs j

/-- **The path has one relay of each layer**, and none twice. -/
theorem layers_of_selected (hroster : roster.Built) {o : IterOrder RelayId RosterEntry}
    {epoch epochSeed : UInt64} {config : TopologyConfig}
    (htopology : buildTopology std o roster epoch config epochSeed = .ok topology)
    {guardConfig : GuardConfig} {seed : UInt64} {minReputation : ℚ}
    (hguards : GuardSelector.newReputationWeightedPruned std topology guardConfig seed pruning
      minReputation = .ok g) {path : List RelayId}
    (hselect : Returns (selectPathIndexedImpl os topology (some g) 0) s path t) :
    path.length = config.layerCount ∧
      List.Forall₂ (fun layer id => id ∈ layer) topology.layers path ∧ path.Nodup := by
  have hstratified := stratified_of_buildTopology hroster.keyed htopology
  obtain ⟨-, layer1, hlayer1, -, hlayer⟩ := GuardSelector.guards_of_new hguards
  obtain ⟨hhops, -⟩ := hops_of_select (by
    intro layer hfirst id hid
    obtain rfl := Option.some.inj (hlayer1.symm.trans hfirst)
    exact (hlayer id hid).1) hselect
  have hcount : topology.layerCount = config.layerCount := by
    unfold buildTopology at htopology
    simp only at htopology
    split_ifs at htopology
    obtain rfl := Except.ok.inj htopology
    rfl
  refine ⟨?_, hhops, nodup_of_picks hhops.flip hstratified.nodup⟩
  rw [← hhops.length_eq, hstratified.length, hcount]

end Built

/-! ## What resolution gives -/

section Resolved

variable {ρ SK VK σ ω : Type} {C : Suite ρ} {E : Ed25519 SK VK} {env : ClientEnv C E σ ω}
  {file : ClientConfigFile} {s t : ω} {hops : List (ClientHop C)}

/-- The registry has the hops that are listed, each under its id. -/
theorem of_kemRegistryFromHops {cfgs : List HopConfig}
    {registry : HashMap (Bytes 32) (ClientHop C)}
    (h : kemRegistryFromHops env cfgs = .ok registry) {id : Bytes 32} {hop : ClientHop C}
    (hhop : registry.lookup id = some hop) :
    hop.id = id ∧ ∃ cfg ∈ cfgs, hopConfigToClientHop env cfg = .ok hop := by
  refine Run.foldlM_preserves (fun registry : HashMap (Bytes 32) (ClientHop C) =>
    ∀ id hop, registry.lookup id = some hop →
      hop.id = id ∧ ∃ cfg ∈ cfgs, hopConfigToClientHop env cfg = .ok hop) ?_ ?_ h id hop hhop
  · intro registry cfg registry' hcfg ih hstep id hop hhop
    obtain ⟨new, hnew, hstep⟩ := bind_eq_ok.mp hstep
    split_ifs at hstep
    obtain rfl := Except.ok.inj hstep
    by_cases hid : id = new.id
    · subst hid
      rw [AList.lookup_insert] at hhop
      obtain rfl := Option.some.inj hhop
      exact ⟨rfl, cfg, hcfg, hnew⟩
    · rw [AList.lookup_insert_ne hid] at hhop
      exact ih id hop hhop
  · intro id hop hhop
    rw [AList.lookup_empty] at hhop
    cases hhop

/-- Hops along a bound path are the records and their keys, which are those committed to. -/
theorem of_hopsFromBoundPath {K : KemKeys C} {records : List RelayRecord}
    {publics : List (RelayKemPublic C)} {addrs : HashMap (Bytes 32) SocketAddr}
    (h : hopsFromBoundPath K records publics addrs = .ok hops) :
    List.Forall₂ (fun record pk => record.kemPublicCommitment = pk.commitment K) records publics ∧
      hops = hopsFromRecords records publics addrs := by
  unfold hopsFromBoundPath at h
  split_ifs at h with hlength
  obtain ⟨⟨⟩, hchecks, hhops⟩ := bind_eq_ok.mp h
  refine ⟨List.forall₂_iff_zip.mpr ⟨not_not.mp hlength, fun {record pk} hmem => ?_⟩,
    (Except.ok.inj hhops).symm⟩
  have hcheck := forM_eq_ok_iff.mp hchecks (record, pk) hmem
  by_contra hne
  simp [RelayRecord.bindsKemPublic, hne] at hcheck

theorem map_id_hopsFromRecords {records : List RelayRecord} {publics : List (RelayKemPublic C)}
    {addrs : HashMap (Bytes 32) SocketAddr} (h : records.length = publics.length) :
    (hopsFromRecords records publics addrs).map ClientHop.id = records.map RelayRecord.id := by
  unfold hopsFromRecords
  rw [List.map_map]
  show (records.zip publics).map (RelayRecord.id ∘ Prod.fst) = _
  rw [← List.map_map, List.map_fst_zip h.le]

/-- A roster that a configuration loads is built. -/
theorem built_of_loadRosterFromConfig {cfg : RosterFileConfig} {roster : RelayRoster}
    (h : RelayRoster.loadRosterFromConfig E env.fromBytes env.fromSlice env.read cfg =
      .ok roster) : roster.Built := by
  unfold RelayRoster.loadRosterFromConfig at h
  split at h
  · cases h
  have h := mapError_eq_ok.mp h
  unfold RelayRoster.loadFromFileWithPolicy at h
  split at h
  · exact RelayRoster.built_of_loadPersisted (mapError_eq_ok.mp h)
  · split_ifs at h
    exact RelayRoster.built_of_loadPersisted (mapError_eq_ok.mp h)

/-- What a client may rely on, of hops that it has resolved over a roster: there is one for each
layer, and none twice; each has the commitment of the roster's record of it, and a key with this
commitment which the configuration lists for it; and no jurisdiction occurs too often. -/
structure RosterHops (env : ClientEnv C E σ ω) (file : ClientConfigFile) (roster : RelayRoster)
    (topology : Topology) (hops : List (ClientHop C)) : Prop where
  length : hops.length = 4
  layers : List.Forall₂ (fun layer hop => hop.id ∈ layer) topology.layers hops
  distinct : (hops.map ClientHop.id).Nodup
  bound : ∀ hop ∈ hops, ∃ record, roster.get hop.id = some record ∧
    hop.kemCommitment = some record.kemPublicCommitment ∧
    record.kemPublicCommitment = hop.kemPublic.commitment env.kem
  listed : ∀ hop ∈ hops, ∃ cfg ∈ file.hops, ∃ listed : ClientHop C,
    hopConfigToClientHop env cfg = .ok listed ∧ listed.id = hop.id ∧
      listed.kemPublic = hop.kemPublic
  diverse : ∀ policy, (file.path.getD .default).jurisdictionPolicy = some policy → ∀ j,
    ((hops.map ClientHop.id).filterMap fun id =>
      (roster.get id).map RelayRecord.jurisdiction).count j ≤ policy.maxPerJurisdiction

/-- **What resolution has done when it succeeds**: the roster was loaded and dealt out to layers,
and the hops are its. -/
theorem bound_of_resolveRosterHops (h : Returns (resolveRosterHops env file) s hops t) :
    ∃ rosterCfg roster topology, file.roster = some rosterCfg ∧
      RelayRoster.loadRosterFromConfig E env.fromBytes env.fromSlice env.read rosterCfg =
        .ok roster ∧
      buildTopology env.std env.order roster (file.path.getD .default).epoch .highThreat
        (file.path.getD .default).topologySeed = .ok topology ∧
      RosterHops env file roster topology hops := by
  unfold resolveRosterHops at h
  split at h
  · exact absurd h not_throw_returns
  rename_i rosterCfg hcfg
  split_ifs at h
  · exact absurd h not_throw_returns
  obtain ⟨roster, _, hload, h⟩ := bind_returns h
  obtain ⟨registry, _, hregistry, h⟩ := bind_returns h
  obtain ⟨records, _, hrecords, h⟩ := bind_returns h
  obtain ⟨publics, _, hpublics, h⟩ := bind_returns h
  have hload := mapError_eq_ok.mp (orThrow_returns hload)
  have hregistry := orThrow_returns hregistry
  have hpublics := mapM_eq_ok_iff.mp (orThrow_returns hpublics)
  obtain ⟨hcommitted, rfl⟩ := of_hopsFromBoundPath (mapError_eq_ok.mp (orThrow_returns h))
  -- the path over the roster
  obtain ⟨topology, _, htopology, hrecords⟩ := bind_returns hrecords
  obtain ⟨pruning, _, -, hrecords⟩ := bind_returns hrecords
  obtain ⟨⟨g, records'⟩, _, hbuilt, hrecords⟩ := bind_returns hrecords
  obtain ⟨rfl, -⟩ := pure_returns hrecords
  have htopology := mapError_eq_ok.mp (orThrow_returns htopology)
  have hroster : roster.Built := built_of_loadRosterFromConfig hload
  obtain ⟨⟨config, seed, hguards⟩, ⟨_, _, hselect⟩, hpairs, hdiverse⟩ :=
    of_buildClientBoundPath hroster (mapThrow_returns.mp hbuilt)
  obtain ⟨hlength, hlayers, hnodup⟩ := layers_of_selected hroster htopology hguards hselect
  rw [List.forall₂_map_left_iff, List.forall₂_same] at hpairs
  have hids : (hopsFromRecords records publics ∅).map ClientHop.id =
      records.map RelayRecord.id := map_id_hopsFromRecords hcommitted.length_eq
  refine ⟨rosterCfg, roster, topology, hcfg, hload, htopology, ?_, ?_, ?_, ?_, ?_, ?_⟩
  · rw [← List.length_map ClientHop.id, hids]
    exact hlength
  · rw [← List.forall₂_map_right_iff (f := ClientHop.id), hids]
    exact hlayers
  · rw [hids]
    exact hnodup
  · intro hop hhop
    obtain ⟨⟨record, pk⟩, hmem, rfl⟩ := List.mem_map.mp hhop
    exact ⟨record, hpairs record (List.of_mem_zip hmem).1, rfl,
      (List.forall₂_iff_zip.mp hcommitted).2 hmem⟩
  · intro hop hhop
    obtain ⟨⟨record, pk⟩, hmem, rfl⟩ := List.mem_map.mp hhop
    have hkey := (List.forall₂_iff_zip.mp hpublics).2 hmem
    unfold registeredKey at hkey
    split at hkey
    · rename_i listed hlookup
      obtain ⟨hid, cfg, hcfg, hlisted⟩ := of_kemRegistryFromHops hregistry hlookup
      exact ⟨cfg, hcfg, listed, hlisted, hid, Except.ok.inj hkey⟩
    · cases hkey
  · intro policy hpolicy j
    have hjurisdictions : ((records.map RelayRecord.id).filterMap fun id =>
        (roster.get id).map RelayRecord.jurisdiction) = records.map RelayRecord.jurisdiction := by
      rw [List.filterMap_map, ← List.filterMap_eq_map]
      refine List.filterMap_congr fun record hrecord => ?_
      simp [hpairs record hrecord]
    rw [hids, hjurisdictions]
    exact hdiverse policy hpolicy j

/-- **What is built over resolved hops is peeled by the relays of the roster.**  When a client has
resolved its hops over a roster, they are one relay of each layer, as the roster has them.  Over
them no hop is complained of, whatever the payload: the build fails only where the cipher does.  If
the encapsulation succeeds and the payload fits, a packet is built, and the relays that hold the keys
of the roster's commitments, and have not seen its tags, hand it on from one to the next until the
payload is in the open. -/
theorem peels_of_resolveRosterHops (file : ClientConfigFile) (force : Bool)
    (huse : useRosterPath file force = true)
    (h : Returns (resolveClientHops env file force) s hops t) :
    ∃ rosterCfg roster topology, file.roster = some rosterCfg ∧
      RelayRoster.loadRosterFromConfig E env.fromBytes env.fromSlice env.read rosterCfg =
        .ok roster ∧
      buildTopology env.std env.order roster (file.path.getD .default).epoch .highThreat
        (file.path.getD .default).topologySeed = .ok topology ∧
      RosterHops env file roster topology hops ∧
      (∀ (payload : List UInt8) (rng : ρ), buildPacketRequireBindings env.kem hops payload rng =
        (build C (hops.map ClientHop.pathHop) payload rng).mapError .crypto) ∧
      ∀ (payload : List UInt8) (rng rng₁ : ρ) (headers : List KemHeader)
        (secrets : List SharedSecret) (relays : List (RelayKemSecret C × ReplayCache)),
        payload.length ≤ deltaLen →
        encapsulateAll C (hops.map ClientHop.pathHop) rng = .ok ((headers, secrets), rng₁) →
        List.Forall₂ (Serves env.kem) relays hops →
        List.Forall₂ (fun relay secret => relay.2.ctContains (replayTag C secret) = false) relays
          secrets →
        ∃ packet rng' lastHop out,
          buildPacketRequireBindings env.kem hops payload rng = .ok (packet, rng') ∧
          processAlong C relays packet = .ok (hops.tail.map ClientHop.id ++ [lastHop], out) ∧
          out.delta.toList.take payload.length = payload := by
  unfold resolveClientHops at h
  rw [if_pos huse] at h
  obtain ⟨rosterCfg, roster, topology, hcfg, hload, htopology, hhops⟩ :=
    bound_of_resolveRosterHops h
  have hlength := hhops.length
  have hbound : ∀ hop ∈ hops, hop.kemCommitment = some (hop.kemPublic.commitment env.kem) := by
    intro hop hmem
    obtain ⟨record, -, hcommitment, hkey⟩ := hhops.bound hop hmem
    rw [hcommitment, hkey]
  refine ⟨rosterCfg, roster, topology, hcfg, hload, htopology, hhops,
    buildPacketRequireBindings_of_bound (by omega) hbound, ?_⟩
  intro payload rng rng₁ headers secrets relays hpayload henc hserves hfresh
  exact peels_of_bound (by omega) (by rw [maxHops]; omega) hbound hpayload henc hserves hfresh

end Resolved

/-! ### Nine relays -/

/-- The keys of `checksumSuite`, from the first bytes of the seeds. -/
def checksumKemKeys : KemKeys checksumSuite where
  staticSecret seed := seed.head
  mlkemGenerate d z := (d.head + z.head, d.head + z.head)
  mlkemBytes key := [key]

/-- The `i`-th relay: its seeds are its number. -/
def nineHop (i : ℕ) : HopConfig :=
  let hex := StoredLedger.hexEncodeBytes (List.replicate 32 (UInt8.ofNat i))
  ⟨hex, hex, hex, hex, none⟩

/-- The entry of the `i`-th relay, with the commitment of its key. -/
def nineEntry (i : ℕ) : RosterEntry :=
  let seed : Bytes 32 := .replicate 32 (UInt8.ofNat i)
  let key := (RelayKemSecret.generateDeterministic checksumKemKeys seed seed seed).2
  ⟨⟨seed, "US", key.commitment checksumKemKeys⟩, none, none⟩

/-- A machine on which every file reads as the roster of the nine relays. -/
def nineEnv : ClientEnv checksumSuite HealthQuorumLog.checksumEd25519 Unit Unit where
  kem := checksumKemKeys
  fromBytes b := some b.head
  fromSlice _ := .ok ⟨2, (List.range 9).map nineEntry⟩
  read _ := .ok []
  order := .latestFirst
  std := lowestRng
  os := lowestRng.toRng

/-- A client that lists the nine relays and names the roster. -/
def nineFile : ClientConfigFile where
  hops := (List.range 9).map nineHop
  roster := some ⟨"roster.json", [], 1, true⟩
  guardMitigation := ⟨none, false⟩
  path := none

/-- It has come to a result. -/
def succeeded {ε α : Type} : Option (Except ε α) → Bool
  | some (.ok _) => true
  | _ => false

theorem returns_nine : ∃ hops, Returns (resolveClientHops nineEnv nineFile true) () hops () := by
  -- hops cannot be compared, so what is evaluated is only that there are some
  have hsome : succeeded (resolveClientHops nineEnv nineFile true () :
      Option (Except HopsResolveError (List (ClientHop checksumSuite) × Unit))) = true := by
    decide +kernel
  unfold Returns
  unfold succeeded at hsome
  split at hsome
  · rename_i result heq
    exact ⟨result.1, heq⟩
  · cases hsome

theorem encapsulateAll_checksumSuite (path : List (PathHop checksumSuite)) (rng : UInt8) :
    ∃ headers secrets, encapsulateAll checksumSuite path rng = .ok ((headers, secrets), rng) := by
  induction path with
  | nil => exact ⟨_, _, rfl⟩
  | cons hop path ih =>
    obtain ⟨headers, secrets, hrest⟩ := ih
    obtain ⟨⟨header, secret⟩, hhop⟩ :
        ∃ kem, encapsulate checksumSuite hop.pk rng = .ok (kem, rng) := ⟨_, rfl⟩
    refine ⟨header :: headers, secret :: secrets, ?_⟩
    rw [encapsulateAll, hhop]
    simp only [hrest]

/-- A key that is listed belongs to the secret that can be read off it. -/
theorem keyPair_of_listed {cfg : HopConfig} {hop : ClientHop checksumSuite}
    (h : hopConfigToClientHop nineEnv cfg = .ok hop) :
    KeyPair checksumSuite hop.kemPublic ⟨hop.kemPublic.x25519.head, hop.kemPublic.mlkem⟩ := by
  obtain ⟨_, -, h⟩ := bind_eq_ok.mp h
  obtain ⟨x, -, h⟩ := bind_eq_ok.mp h
  obtain ⟨d, -, h⟩ := bind_eq_ok.mp h
  obtain ⟨z, -, h⟩ := bind_eq_ok.mp h
  obtain ⟨_, -, h⟩ := bind_eq_ok.mp h
  obtain rfl := Except.ok.inj h
  exact keyPair_checksum x.head (d.head + z.head)

/-- A client that knows nine relays sends through four of them. -/
theorem peels_of_resolveRosterHops_nine :
    ∃ hops relays packet rng' lastHop out,
      Returns (resolveClientHops nineEnv nineFile true) () hops () ∧ hops.length = 4 ∧
      buildPacketRequireBindings checksumKemKeys hops [104, 105] 17 = .ok (packet, rng') ∧
      processAlong checksumSuite relays packet =
        .ok (hops.tail.map ClientHop.id ++ [lastHop], out) ∧
      out.delta.toList.take 2 = [104, 105] := by
  obtain ⟨hops, hreturns⟩ := returns_nine
  obtain ⟨-, roster, topology, -, -, -, hhops, -, hpeels⟩ :=
    peels_of_resolveRosterHops nineFile true rfl hreturns
  obtain ⟨headers, secrets, henc⟩ :=
    encapsulateAll_checksumSuite (hops.map ClientHop.pathHop) 17
  let relays : List (RelayKemSecret checksumSuite × ReplayCache) := hops.map fun hop =>
    (⟨hop.kemPublic.x25519.head, hop.kemPublic.mlkem⟩, .withCapacity 8)
  have hserves : List.Forall₂ (Serves checksumKemKeys) relays hops := by
    refine List.forall₂_map_left_iff.mpr (List.forall₂_same.mpr fun hop hmem => ?_)
    obtain ⟨record, -, hcommitment, hkey⟩ := hhops.bound hop hmem
    obtain ⟨cfg, -, listed, hlisted, -, hpublic⟩ := hhops.listed hop hmem
    rw [hkey] at hcommitment
    refine ⟨hop.kemPublic, ?_, hcommitment, fun _ => rfl⟩
    rw [← hpublic]
    exact keyPair_of_listed hlisted
  have hfresh : List.Forall₂ (fun relay secret => relay.2.ctContains
      (replayTag checksumSuite secret) = false) relays secrets := by
    have hlength := (length_encapsulateAll checksumSuite henc).2
    rw [List.length_map] at hlength
    refine List.forall₂_iff_zip.mpr ⟨by rw [List.length_map, hlength], ?_⟩
    intro relay secret hmem
    obtain ⟨hop, -, rfl⟩ := List.mem_map.mp (List.of_mem_zip hmem).1
    exact ReplayCache.ctContains_withCapacity 8 _
  obtain ⟨packet, rng', lastHop, out, hbuild, hrun, hout⟩ :=
    hpeels [104, 105] 17 17 headers secrets relays (by decide) henc hserves hfresh
  exact ⟨hops, relays, packet, rng', lastHop, out, hreturns, hhops.length, hbuild, hrun, hout⟩

/-! ## No panic -/

/-- **No preset has a soft band that overflows.** -/
theorem GuardMitigationFileConfig.not_bandOverflows (cfg : GuardMitigationFileConfig) :
    ¬cfg.resolvePolicy.BandOverflows := by
  unfold resolvePolicy GuardMitigationPolicy.BandOverflows
  split
  · decide
  · decide
  · decide
  · decide
  · decide
  · split_ifs
    · decide
    · decide

section Total

variable {σ ω : Type} {std : SeededRng σ} {os : Rng ω} {topology : Topology} {g : GuardSelector}

theorem total_selectUntil (hguards : g.guards ≠ [])
    (accept : List RelayId → Except TopologyError Bool) (exhausted : TopologyError) (left : ℕ) :
    Total (selectUntil os topology (some g) accept exhausted left) := by
  induction left with
  | zero => exact total_throw _
  | succ left ih =>
    unfold selectUntil
    refine (total_selectPath hguards 0).bind fun path _ _ _ => ?_
    refine (total_orThrow _).bind fun accepted _ _ _ => ?_
    split_ifs
    · exact total_pure path
    · exact ih

/-- **A build under mitigation does not panic**, however it selects its path, if it does not for any
guards that there are. -/
theorem total_mitigated {D : Type} {policy : RelayPruningPolicy D} {minReputation : ℚ}
    {base : GuardConfig} (hcount : 1 ≤ base.guardCount.toNat) {mitigation : GuardMitigationPolicy}
    (hband : ¬mitigation.BandOverflows) (clientSeed : UInt64) (signals : GuardMitigationSignals)
    {build : GuardSelector → Draws ω TopologyError (List RelayRecord)}
    (hbuild : ∀ g : GuardSelector, g.guards ≠ [] → Total (build g)) :
    Total (do
      let guardConfig ← orPanic (mitigation.applyToConfigWithSignals base signals)
      let effectiveSeed ← orPanic (mitigation.clientSeedForGuards clientSeed signals)
      let guards ← orThrow (GuardSelector.newReputationWeightedPruned std topology guardConfig
        effectiveSeed policy minReputation)
      let records ← build guards
      pure (guards, records)) := by
  obtain ⟨config, seed, hconfig, hsame, hseed⟩ :=
    GuardMitigationPolicy.mitigated hband base clientSeed signals
  rw [hconfig, hseed]
  refine (total_pure config).bind fun guardConfig _ _ hreturns => ?_
  obtain ⟨rfl, -⟩ := pure_returns hreturns
  refine (total_pure seed).bind fun effectiveSeed _ _ _ => ?_
  refine (total_orThrow _).bind fun guards _ _ hguards => ?_
  obtain ⟨hlength, -⟩ := GuardSelector.guards_of_new (orThrow_returns hguards)
  have hne : guards.guards ≠ [] := by
    intro hnil
    rw [hnil, List.length_nil, hsame] at hlength
    omega
  exact (hbuild guards hne).bind fun records _ _ _ => total_pure (guards, records)

end Total

section Resolve

variable {ρ SK VK σ ω : Type} {C : Suite ρ} {E : Ed25519 SK VK} (env : ClientEnv C E σ ω)

theorem total_buildRosterPathRecords (roster : RelayRoster) (pathCfg : PathFileConfig)
    (file : ClientConfigFile) : Total (buildRosterPathRecords env roster pathCfg file) := by
  have hcount : 1 ≤ (pathBuildParams pathCfg file).guardConfig.guardCount.toNat := by
    show 1 ≤ guardSetSize.toNat
    decide
  have hband := file.guardMitigation.not_bandOverflows
  unfold buildRosterPathRecords
  refine (total_orThrow _).bind fun topology _ _ _ => ?_
  refine (total_orThrow _).bind fun pruning _ _ _ => ?_
  refine Total.bind (Total.mapThrow ?_ _) fun built _ _ _ => total_pure built.2
  unfold buildClientBoundPath
  split
  · refine total_mitigated hcount hband _ _ fun g hguards => ?_
    exact (total_selectAttempts hguards _).bind fun path _ _ _ => total_orThrow _
  · refine total_mitigated hcount hband _ _ fun g hguards => ?_
    exact (total_selectUntil hguards _ _ _).bind fun path _ _ _ => total_orThrow _

/-- **Resolving hops does not panic**, whatever the configuration and the roster file say and
whatever is drawn: the guards that are asked for are there, and no preset's soft band overflows. -/
theorem total_resolveClientHops (file : ClientConfigFile) (force : Bool) :
    Total (resolveClientHops env file force) := by
  unfold resolveClientHops
  split_ifs
  · unfold resolveRosterHops
    split
    · exact total_throw _
    split_ifs
    · exact total_throw _
    refine (total_orThrow _).bind fun roster _ _ _ => ?_
    refine (total_orThrow _).bind fun registry _ _ _ => ?_
    refine (total_buildRosterPathRecords env roster _ file).bind fun records _ _ _ => ?_
    exact (total_orThrow _).bind fun publics _ _ _ => total_orThrow _
  · exact total_orThrow _

end Resolve

end Aegis
