import Aegis.Topology.PathBuilders

/-!
# Guard mitigation (`guard_mitigation.rs`, `path.rs`)

From the age of the guards and from what was observed the mitigation decides whether they are drawn
anew.  New guards are drawn from a seed that the observations change, and it is computed for every
build from the same client seed.

* `GuardMitigationPolicy.decides_iff` — **when the decision is made without a panic**.
* `guards_eq_map` — the guards are the eligible relays at the positions that were drawn.
* `takesHold_of_run` — **guards that were drawn anew are kept where nothing is left to the seed**: if
  every eligible relay is a guard, or the seed is not changed wherever a calm build follows.
* `exists_lost_guards` — everywhere else there is a generator that draws others.
-/

namespace Aegis

open Sampling Sampling.Draws

/-! ## The decision -/

namespace GuardMitigationPolicy

/-- The decision is made, and at the hard age for new guards. -/
structure Decides (p : GuardMitigationPolicy) (epochAge : UInt64) (anomalyDemotionFlag : Bool)
    (peerAnomalyCount : UInt32) : Prop where
  soft : p.softStickyResample epochAge ≠ none
  resample : p.shouldResampleGuards epochAge anomalyDemotionFlag peerAnomalyCount ≠ none
  hard : epochAge ≥ p.maxStickyEpochs →
    p.shouldResampleGuards epochAge anomalyDemotionFlag peerAnomalyCount = some true

/-- **The decision is made for all policies, ages and signals but those** of a soft band from the
age 0 on, at the last age or if it spans every age. -/
theorem decides_iff (p : GuardMitigationPolicy) (epochAge : UInt64) (anomalyDemotionFlag : Bool)
    (peerAnomalyCount : UInt32) :
    p.Decides epochAge anomalyDemotionFlag peerAnomalyCount ↔
      ¬(p.softStickyEpochs.toNat = 0 ∧ 0 < p.maxStickyEpochs.toNat ∧
        (p.maxStickyEpochs.toNat = 2 ^ 64 - 1 ∨ epochAge.toNat = 2 ^ 64 - 1)) := by
  constructor
  · intro h hband
    exact h.soft ((p.softStickyResample_eq_none_iff epochAge).mpr hband)
  · intro h
    refine ⟨mt (p.softStickyResample_eq_none_iff epochAge).mp h, ?_, fun hard => if_pos hard⟩
    refine shouldResampleGuards_ne_none ?_ epochAge anomalyDemotionFlag peerAnomalyCount
    rintro ⟨hsoft, hmax⟩
    exact h ⟨hsoft, by omega, Or.inl hmax⟩

/-- **A band that spans every age overflows** at the age 0. -/
theorem not_decides_wholeBand :
    (⟨0xFFFFFFFFFFFFFFFF, 0, false, false, 0⟩ : GuardMitigationPolicy).shouldResampleGuards 0 false
        0 = none ∧
      ¬(⟨0xFFFFFFFFFFFFFFFF, 0, false, false, 0⟩ : GuardMitigationPolicy).Decides 0 false 0 := by
  have hnone : (⟨0xFFFFFFFFFFFFFFFF, 0, false, false, 0⟩ :
      GuardMitigationPolicy).shouldResampleGuards 0 false 0 = none := by decide
  exact ⟨hnone, fun h => h.resample hnone⟩

/-- The guards are drawn anew. -/
def Forced (p : GuardMitigationPolicy) (signals : GuardMitigationSignals) : Prop :=
  p.shouldResampleGuards signals.epochAge signals.anomalyDemotionFlag signals.peerAnomalyCount =
    some true

/-- Nothing was observed, and the guards are not drawn anew. -/
def Calm (p : GuardMitigationPolicy) (signals : GuardMitigationSignals) : Prop :=
  signals.anomalyDemotionFlag = false ∧ signals.peerAnomalyCount = 0 ∧
    p.shouldResampleGuards signals.epochAge signals.anomalyDemotionFlag signals.peerAnomalyCount =
      some false

theorem clientSeedForGuards_of_forced {p : GuardMitigationPolicy} {signals : GuardMitigationSignals}
    (h : p.Forced signals) (baseSeed : UInt64) :
    p.clientSeedForGuards baseSeed signals = some (resampleGuardClientSeed baseSeed signals) := by
  unfold clientSeedForGuards
  rw [h]
  rfl

theorem clientSeedForGuards_of_calm {p : GuardMitigationPolicy} {signals : GuardMitigationSignals}
    (h : p.Calm signals) (baseSeed : UInt64) :
    p.clientSeedForGuards baseSeed signals = some baseSeed := by
  unfold clientSeedForGuards
  rw [h.2.2]
  rfl

theorem guardCount_of_applyToConfig {p : GuardMitigationPolicy} {base config : GuardConfig}
    {signals : GuardMitigationSignals} (h : p.applyToConfigWithSignals base signals = some config) :
    config.guardCount = base.guardCount := by
  obtain ⟨pinMode, -, rfl⟩ := Option.map_eq_some_iff.mp h
  rfl

end GuardMitigationPolicy

/-! ## The guards that are drawn -/

section Guards

variable {σ D : Type}

/-- The relays that guards are drawn from. -/
def eligibleGuards (topology : Topology) (policy : RelayPruningPolicy D) (minReputation : ℚ) :
    List RelayId :=
  (topology.layers[0]?.getD []).filter fun id => relaySatisfiesPruningPolicy id policy minReputation

/-- The positions that a client seed draws for `k` guards, among `n` relays. -/
def guardDraws (std : SeededRng σ) (epoch : UInt64) (n k : ℕ) (clientSeed : UInt64) :
    List (Fin n) :=
  pick std.toRng n k (std.seedFromU64 (clientSeed * 0x517cc1b727220a95 + epoch))

variable {std : SeededRng σ} {topology : Topology} {policy : RelayPruningPolicy D}
  {minReputation : ℚ} {g : GuardSelector}

/-- **The guards are the eligible relays at the positions that were drawn.** -/
theorem guards_eq_map {config : GuardConfig} {clientSeed : UInt64}
    (h : GuardSelector.newReputationWeightedPruned std topology config clientSeed policy
      minReputation = .ok g) :
    g.guards = (guardDraws std topology.epoch (eligibleGuards topology policy minReputation).length
      config.guardCount.toNat clientSeed).map
        (eligibleGuards topology policy minReputation).get := by
  unfold GuardSelector.newReputationWeightedPruned at h
  unfold eligibleGuards guardDraws
  cases hlayer : topology.layers[0]? with
  | none =>
    rw [hlayer] at h
    cases h
  | some layer1 =>
    rw [hlayer] at h
    simp only at h
    split_ifs at h with hfew
    obtain rfl := Except.ok.inj h
    exact take_swapAlong _ _ _ _

theorem nodup_eligibleGuards (h : topology.layers.flatten.Nodup) (policy : RelayPruningPolicy D)
    (minReputation : ℚ) : (eligibleGuards topology policy minReputation).Nodup := by
  unfold eligibleGuards
  refine List.Nodup.filter _ ?_
  cases hlayer : topology.layers[0]? with
  | none => exact List.nodup_nil
  | some layer1 => exact (List.nodup_flatten.mp h).1 layer1 (List.mem_of_getElem? hlayer)

end Guards

/-! ## Runs of builds -/

/-- The guards that were drawn anew at `forced` are those to keep at `calm`: no others were drawn
anew in between. -/
def KeptFrom (mitigation : GuardMitigationPolicy)
    (run : List (GuardMitigationSignals × GuardSelector))
    (forced calm : GuardMitigationSignals × GuardSelector) : Prop :=
  ∃ before between after, run = before ++ forced :: (between ++ calm :: after) ∧
    mitigation.Forced forced.1 ∧ mitigation.Calm calm.1 ∧
    ∀ build ∈ between, ¬mitigation.Forced build.1

/-- The same of what was observed: no guards are drawn anew between a build that does and a calm
one. -/
def CalmAfter (mitigation : GuardMitigationPolicy) (signals : List GuardMitigationSignals)
    (forced calm : GuardMitigationSignals) : Prop :=
  ∃ before between after, signals = before ++ forced :: (between ++ calm :: after) ∧
    mitigation.Forced forced ∧ mitigation.Calm calm ∧ ∀ s ∈ between, ¬mitigation.Forced s

theorem KeptFrom.calmAfter {mitigation : GuardMitigationPolicy}
    {run : List (GuardMitigationSignals × GuardSelector)}
    {forced calm : GuardMitigationSignals × GuardSelector}
    (h : KeptFrom mitigation run forced calm) :
    CalmAfter mitigation (run.map Prod.fst) forced.1 calm.1 := by
  obtain ⟨before, between, after, rfl, hforced, hcalm, hbetween⟩ := h
  refine ⟨before.map Prod.fst, between.map Prod.fst, after.map Prod.fst, by simp, hforced, hcalm, ?_⟩
  intro signals hsignals
  obtain ⟨build, hbuild, rfl⟩ := List.mem_map.mp hsignals
  exact hbetween build hbuild

/-- Guards that were drawn anew are kept until the next time that they are. -/
def TakesHold (mitigation : GuardMitigationPolicy)
    (run : List (GuardMitigationSignals × GuardSelector)) : Prop :=
  ∀ forced calm, KeptFrom mitigation run forced calm → calm.2.guards.Perm forced.2.guards

section Runs

variable {σ D : Type} {std : SeededRng σ} {topology : Topology} {base : GuardConfig}
  {clientSeed : UInt64} {mitigation : GuardMitigationPolicy} {policy : RelayPruningPolicy D}
  {minReputation : ℚ} {run : List (GuardMitigationSignals × GuardSelector)}

variable (std topology base clientSeed mitigation policy minReputation) in
/-- A build that succeeds with these guards. -/
def GuardsBuilt (build : GuardMitigationSignals × GuardSelector) : Prop :=
  ∃ (ω : Type) (os : Rng ω) (roster : RelayRoster) (maxAttempts : ℕ) (records : List RelayRecord)
    (s t : ω), Returns (buildBoundPathPrunedWithGuardsMitigated os std topology roster base
      clientSeed mitigation build.1 policy minReputation maxAttempts) s (build.2, records) t

variable (std topology base clientSeed policy minReputation) in
/-- The seed for these signals draws the same guards as the client seed. -/
def SameDraws (signals : GuardMitigationSignals) : Prop :=
  (guardDraws std topology.epoch (eligibleGuards topology policy minReputation).length
    base.guardCount.toNat clientSeed).Perm
      (guardDraws std topology.epoch (eligibleGuards topology policy minReputation).length
        base.guardCount.toNat (resampleGuardClientSeed clientSeed signals))

theorem guards_of_guardsBuilt {build : GuardMitigationSignals × GuardSelector} {seed : UInt64}
    (h : GuardsBuilt std topology base clientSeed mitigation policy minReputation build)
    (hseed : mitigation.clientSeedForGuards clientSeed build.1 = some seed) :
    build.2.guards = (guardDraws std topology.epoch
      (eligibleGuards topology policy minReputation).length base.guardCount.toNat seed).map
        (eligibleGuards topology policy minReputation).get := by
  obtain ⟨_, _, _, _, _, _, _, h⟩ := h
  obtain ⟨config, seed', hconfig, hseed', hguards, -⟩ := guards_of_mitigated h
  obtain rfl := Option.some.inj (hseed.symm.trans hseed')
  rw [guards_eq_map hguards, GuardMitigationPolicy.guardCount_of_applyToConfig hconfig]

/-- The guards of two builds, when those of the first were drawn anew and those of the second were
not. -/
theorem guards_of_keptFrom {forced calm : GuardMitigationSignals × GuardSelector}
    (h : ∀ build ∈ run, GuardsBuilt std topology base clientSeed mitigation policy minReputation
      build) (hkept : KeptFrom mitigation run forced calm) :
    forced.2.guards = (guardDraws std topology.epoch
        (eligibleGuards topology policy minReputation).length base.guardCount.toNat
        (resampleGuardClientSeed clientSeed forced.1)).map
          (eligibleGuards topology policy minReputation).get ∧
      calm.2.guards = (guardDraws std topology.epoch
        (eligibleGuards topology policy minReputation).length base.guardCount.toNat
        clientSeed).map (eligibleGuards topology policy minReputation).get := by
  obtain ⟨before, between, after, rfl, hforced, hcalm, -⟩ := hkept
  refine ⟨guards_of_guardsBuilt (h forced ?_)
      (GuardMitigationPolicy.clientSeedForGuards_of_forced hforced clientSeed),
    guards_of_guardsBuilt (h calm ?_)
      (GuardMitigationPolicy.clientSeedForGuards_of_calm hcalm clientSeed)⟩
  · exact List.mem_append_right _ List.mem_cons_self
  · exact List.mem_append_right _ (List.mem_cons_of_mem _
      (List.mem_append_right _ List.mem_cons_self))

/-- **Where every eligible relay is a guard**, every seed draws the same ones. -/
theorem sameDraws_of_all
    (hall : base.guardCount.toNat = (eligibleGuards topology policy minReputation).length)
    (signals : GuardMitigationSignals) :
    SameDraws std topology base clientSeed policy minReputation signals := by
  unfold SameDraws guardDraws
  rw [hall]
  exact (pick_perm_of_eq _ _ _).trans (pick_perm_of_eq _ _ _).symm

/-- Where the seed is not changed, it draws the same ones. -/
theorem sameDraws_of_seed {signals : GuardMitigationSignals}
    (hseed : resampleGuardClientSeed clientSeed signals = clientSeed) :
    SameDraws std topology base clientSeed policy minReputation signals := by
  unfold SameDraws
  rw [hseed]

/-- **Guards that were drawn anew are kept where nothing is left to the seed**: in every run of
builds, if every eligible relay is a guard, or wherever a calm build follows one that drew the
guards anew, what was observed at the latter leaves the client seed as it is. -/
theorem takesHold_of_run
    (h : ∀ build ∈ run, GuardsBuilt std topology base clientSeed mitigation policy minReputation
      build)
    (hinputs : base.guardCount.toNat = (eligibleGuards topology policy minReputation).length ∨
      ∀ forced calm, CalmAfter mitigation (run.map Prod.fst) forced calm →
        resampleGuardClientSeed clientSeed forced = clientSeed) :
    TakesHold mitigation run := by
  intro forced calm hkept
  have hsame : SameDraws std topology base clientSeed policy minReputation forced.1 := by
    rcases hinputs with hall | hseed
    · exact sameDraws_of_all hall forced.1
    · exact sameDraws_of_seed (hseed _ _ hkept.calmAfter)
  obtain ⟨hforced, hcalm⟩ := guards_of_keptFrom h hkept
  rw [hforced, hcalm]
  exact hsame.map _

/-! ## Everywhere else -/

/-- Different client seeds seed the generator differently. -/
theorem guardSeed_injective (epoch : UInt64) {seed seed' : UInt64}
    (h : seed * 0x517cc1b727220a95 + epoch = seed' * 0x517cc1b727220a95 + epoch) :
    seed = seed' := by
  have hinverse : ∀ s : UInt64, s * 0x517cc1b727220a95 * 2323857671730065597 = s := by
    intro s
    rw [UInt64.mul_assoc, show (0x517cc1b727220a95 * 2323857671730065597 : UInt64) = 1 by decide,
      UInt64.mul_one]
  rw [← hinverse seed, ← hinverse seed', (UInt64.add_left_inj epoch).mp h]

/-- **Everywhere else there is a generator that draws others**: if some eligible relay is no guard
and the signals change the client seed, guards that are drawn anew and those that are drawn when
all is calm again are not always the same. -/
theorem exists_lost_guards (hlayers : topology.layers.flatten.Nodup)
    (hpos : 0 < base.guardCount.toNat)
    (hlt : base.guardCount.toNat < (eligibleGuards topology policy minReputation).length)
    {signals : GuardMitigationSignals}
    (hseed : resampleGuardClientSeed clientSeed signals ≠ clientSeed) :
    ∃ (std : SeededRng (List ℕ)) (fresh held : GuardSelector),
      GuardSelector.newReputationWeightedPruned std topology base
        (resampleGuardClientSeed clientSeed signals) policy minReputation = .ok fresh ∧
      GuardSelector.newReputationWeightedPruned std topology base clientSeed policy
        minReputation = .ok held ∧ ¬held.guards.Perm fresh.guards := by
  have hnodup := nodup_eligibleGuards hlayers policy minReputation
  let script : UInt64 → List ℕ := fun s =>
    if s = clientSeed * 0x517cc1b727220a95 + topology.epoch then [] else [base.guardCount.toNat]
  have hcalm : script (clientSeed * 0x517cc1b727220a95 + topology.epoch) = [] := if_pos rfl
  have hforced : script (resampleGuardClientSeed clientSeed signals * 0x517cc1b727220a95 +
      topology.epoch) = [base.guardCount.toNat] :=
    if_neg fun h => hseed (guardSeed_injective topology.epoch h)
  have hselect : ∀ seed, GuardSelector.newReputationWeightedPruned (scripted script) topology base
      seed policy minReputation = .ok ⟨topology.epoch,
        (swapAlong (scripted script).toRng
          (fun i => (i, (eligibleGuards topology policy minReputation).length))
          (List.range base.guardCount.toNat) (eligibleGuards topology policy minReputation)
          (script (seed * 0x517cc1b727220a95 + topology.epoch))).1.take base.guardCount.toNat,
        base.pinMode⟩ := by
    intro seed
    unfold GuardSelector.newReputationWeightedPruned
    unfold eligibleGuards at hlt ⊢
    cases hlayer : topology.layers[0]? with
    | none =>
      rw [hlayer] at hlt
      simp at hlt
    | some layer1 =>
      rw [hlayer] at hlt
      simp only at hlt ⊢
      rw [if_neg (by simpa using hlt.le)]
      rfl
  refine ⟨scripted script, _, _, hselect _, hselect _, fun hperm => ?_⟩
  simp only [hcalm, hforced, swapAlong_nothing] at hperm
  have hmem := hperm.mem_iff.mpr (mem_take_swapAlong script hpos hlt)
  obtain ⟨i, hi, heq⟩ := List.mem_take_iff_getElem.mp hmem
  have hindex := (List.Nodup.getElem_inj_iff hnodup).mp heq
  omega

/-! ## Two relays -/

/-- What `StdRng` draws of two relays from the seed of the topology, and from the seeds of the
guards: of a client with the seed 1, calm or after an anomaly. -/
def coinRng : SeededRng (List ℕ) :=
  scripted fun seed => if seed = 10084524354119848390 then [0] else [1]

/-- Both relays in one layer. -/
def coinLayer : Topology := ⟨0, 1, [[.replicate 32 1, .replicate 32 2]]⟩

/-- An anomaly is observed, and then nothing. -/
def coinRun : List (GuardMitigationSignals × GuardSelector) :=
  [(⟨0, true, 0⟩, ⟨0, [.replicate 32 1], .rotate⟩),
    (⟨1, false, 0⟩, ⟨0, [.replicate 32 2], .stickyPrimary⟩)]

theorem guardsBuilt_coinRun : ∀ build ∈ coinRun,
    GuardsBuilt coinRng coinLayer ⟨1, .stickyPrimary⟩ 1 ⟨12, 12, true, true, 2⟩
      (RelayPruningPolicy.withLedger ⟨1 / 2, ∅⟩ 0 0 : RelayPruningPolicy Unit)
      defaultPathReputationFloor build := by
  intro build hbuild
  rcases List.mem_cons.mp hbuild with rfl | hbuild
  · refine ⟨Unit, lowestRng.toRng, twoRelays, 3, [⟨.replicate 32 1, "US", .replicate 32 1⟩], (), (),
      ?_⟩
    decide +kernel
  · obtain rfl := List.mem_singleton.mp hbuild
    refine ⟨Unit, lowestRng.toRng, twoRelays, 3, [⟨.replicate 32 2, "DE", .replicate 32 2⟩], (), (),
      ?_⟩
    decide +kernel

/-- The same with two guards. -/
def bothRun : List (GuardMitigationSignals × GuardSelector) :=
  [(⟨0, true, 0⟩, ⟨0, [.replicate 32 1, .replicate 32 2], .rotate⟩),
    (⟨1, false, 0⟩, ⟨0, [.replicate 32 2, .replicate 32 1], .stickyPrimary⟩)]

/-- The same with one guard and a client seed that the signals leave as it is. -/
def fixedRun : List (GuardMitigationSignals × GuardSelector) :=
  [(⟨1, true, 0⟩, ⟨0, [.replicate 32 1], .rotate⟩),
    (⟨0, false, 0⟩, ⟨0, [.replicate 32 1], .stickyPrimary⟩)]

theorem guardsBuilt_fixedRun : ∀ build ∈ fixedRun,
    GuardsBuilt (scripted fun _ => []) coinLayer ⟨1, .stickyPrimary⟩ 1768582672822882692
      ⟨12, 12, true, true, 2⟩
      (RelayPruningPolicy.withLedger ⟨1 / 2, ∅⟩ 0 0 : RelayPruningPolicy Unit)
      defaultPathReputationFloor build := by
  intro build hbuild
  rcases List.mem_cons.mp hbuild with rfl | hbuild
  · refine ⟨Unit, lowestRng.toRng, twoRelays, 3, [⟨.replicate 32 1, "US", .replicate 32 1⟩], (), (),
      ?_⟩
    decide +kernel
  · obtain rfl := List.mem_singleton.mp hbuild
    refine ⟨Unit, lowestRng.toRng, twoRelays, 3, [⟨.replicate 32 1, "US", .replicate 32 1⟩], (), (),
      ?_⟩
    decide +kernel

/-- Both relays stay guards, and so does the one that a fixed seed draws. -/
theorem takesHold_of_run_twoRelays :
    TakesHold ⟨12, 12, true, true, 2⟩ bothRun ∧ TakesHold ⟨12, 12, true, true, 2⟩ fixedRun := by
  have hbuilt : ∀ build ∈ bothRun,
      GuardsBuilt coinRng coinLayer ⟨2, .stickyPrimary⟩ 1 ⟨12, 12, true, true, 2⟩
        (RelayPruningPolicy.withLedger ⟨1 / 2, ∅⟩ 0 0 : RelayPruningPolicy Unit)
        defaultPathReputationFloor build := by
    intro build hbuild
    rcases List.mem_cons.mp hbuild with rfl | hbuild
    · refine ⟨Unit, lowestRng.toRng, twoRelays, 3, [⟨.replicate 32 1, "US", .replicate 32 1⟩], (),
        (), ?_⟩
      decide +kernel
    · obtain rfl := List.mem_singleton.mp hbuild
      refine ⟨Unit, lowestRng.toRng, twoRelays, 3, [⟨.replicate 32 2, "DE", .replicate 32 2⟩], (),
        (), ?_⟩
      decide +kernel
  refine ⟨takesHold_of_run hbuilt (Or.inl (by decide +kernel)),
    takesHold_of_run guardsBuilt_fixedRun (Or.inr fun forced calm hafter => ?_)⟩
  obtain ⟨before, between, after, heq, hforced, -, -⟩ := hafter
  have hmem : forced ∈ fixedRun.map Prod.fst := by
    rw [heq]
    exact List.mem_append_right _ List.mem_cons_self
  -- the calm signals are not those of a build that draws anew
  have hcalm : ¬GuardMitigationPolicy.Forced ⟨12, 12, true, true, 2⟩ ⟨0, false, 0⟩ := by
    unfold GuardMitigationPolicy.Forced
    decide
  rcases List.mem_cons.mp hmem with rfl | hmem
  · decide
  · obtain rfl := List.mem_singleton.mp hmem
    exact absurd hforced hcalm

/-- **The client falls back to the guard it had left** because of the anomaly. -/
theorem not_takesHold_coinRun :
    buildTopology coinRng .latestFirst twoRelays 0 ⟨1⟩ 0 = .ok coinLayer ∧
      (∀ build ∈ coinRun,
        GuardsBuilt coinRng coinLayer ⟨1, .stickyPrimary⟩ 1 ⟨12, 12, true, true, 2⟩
          (RelayPruningPolicy.withLedger ⟨1 / 2, ∅⟩ 0 0 : RelayPruningPolicy Unit)
          defaultPathReputationFloor build) ∧
      ¬TakesHold ⟨12, 12, true, true, 2⟩ coinRun := by
  refine ⟨by decide +kernel, guardsBuilt_coinRun, ?_⟩
  intro hholds
  have hforced : GuardMitigationPolicy.Forced ⟨12, 12, true, true, 2⟩ ⟨0, true, 0⟩ := by
    unfold GuardMitigationPolicy.Forced
    decide
  have hcalm : GuardMitigationPolicy.Calm ⟨12, 12, true, true, 2⟩ ⟨1, false, 0⟩ := by
    unfold GuardMitigationPolicy.Calm
    decide
  have hguards := hholds _ _ ⟨[], [], [], rfl, hforced, hcalm, nofun⟩
  have hne : (.replicate 32 2 : RelayId) ≠ .replicate 32 1 := by decide
  exact hne (List.singleton_perm_singleton.mp hguards)

end Runs

end Aegis
