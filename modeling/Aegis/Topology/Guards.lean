import Aegis.Topology.Layers

/-!
# Guards (`guards.rs`, `guard_mitigation.rs`, `pruning.rs`)

A client enters the network by one of a few guards, which it draws from the eligible relays of the
first layer.  After a demotion or when the guards are old, a mitigation policy makes it draw anew
and rotate them.

* `guards_of_new` — the guards are eligible relays of the first layer, as many as asked for.
* `mem_of_entryGuardForPacket` — the entry of a packet is one of them.
* `softStickyResample_eq_none_iff`, `shouldResampleGuards_eq_none_iff` — when the mitigation's
  arithmetic overflows.
-/

namespace Aegis

open Sampling

/-! ## Mitigation -/

/-- Which guard a packet enters by. -/
inductive GuardPinMode where
  /-- The first guard always. -/
  | stickyPrimary
  | rotate
  deriving DecidableEq, Repr

/-- How many guards there are, and which of them is used. -/
structure GuardConfig where
  guardCount : UInt32
  pinMode : GuardPinMode
  deriving DecidableEq, Repr

/-- When guards are drawn anew. -/
structure GuardMitigationPolicy where
  maxStickyEpochs : UInt64
  softStickyEpochs : UInt64
  rotateOnAnomaly : Bool
  rotateOnPeerHealthSpike : Bool
  peerHealthSpikeThreshold : UInt32
  deriving DecidableEq, Repr

/-- What has been observed since they were drawn. -/
structure GuardMitigationSignals where
  epochAge : UInt64
  anomalyDemotionFlag : Bool
  peerAnomalyCount : UInt32
  deriving DecidableEq, Repr

/-- `resample_guard_client_seed`. -/
def resampleGuardClientSeed (baseSeed : UInt64) (signals : GuardMitigationSignals) : UInt64 :=
  baseSeed * 0x5851f42d4c957f2d + signals.epochAge * 0x14057b7ef767814f +
    signals.peerAnomalyCount.toUInt64 + (if signals.anomalyDemotionFlag then 1 else 0)

namespace GuardMitigationPolicy

/-- Between the soft and the hard age the guards are drawn anew more and more often. -/
def softStickyResample (p : GuardMitigationPolicy) (epochAge : UInt64) : Option Bool :=
  if p.softStickyEpochs ≥ p.maxStickyEpochs then some false
  else if epochAge < p.softStickyEpochs then some false
  else do
    let above ← Checked.sub epochAge p.softStickyEpochs
    let into ← Checked.add above 1
    let span := max (saturatingSub p.maxStickyEpochs p.softStickyEpochs) 1
    let divisor ← Checked.add span 1
    let threshold ← Checked.div (saturatingMul into 100) divisor
    let roll := epochAge * 0x9E3779B97F4A7C15 % 100
    some (decide (roll < threshold))

/-- Whether the guards are drawn anew: they are too old, or a signal is on that the policy heeds. -/
def shouldResampleGuards (p : GuardMitigationPolicy) (epochAge : UInt64)
    (anomalyDemotionFlag : Bool) (peerAnomalyCount : UInt32) : Option Bool :=
  if epochAge ≥ p.maxStickyEpochs then some true
  else
    match p.softStickyResample epochAge with
    | none => none
    | some true => some true
    | some false =>
      if p.rotateOnAnomaly = true ∧ anomalyDemotionFlag = true then some true
      else if p.rotateOnPeerHealthSpike = true ∧ peerAnomalyCount ≥ p.peerHealthSpikeThreshold then
        some true
      else some false

/-- Guards that are drawn anew take turns. -/
def pinModeForEpoch (p : GuardMitigationPolicy) (base : GuardPinMode) (epochAge : UInt64)
    (anomalyDemotionFlag : Bool) (peerAnomalyCount : UInt32) : Option GuardPinMode :=
  (p.shouldResampleGuards epochAge anomalyDemotionFlag peerAnomalyCount).map fun resample =>
    if resample then .rotate else base

/-- The configuration, with the mode of the epoch. -/
def applyToConfig (p : GuardMitigationPolicy) (base : GuardConfig) (epochAge : UInt64)
    (anomalyDemotionFlag : Bool) (peerAnomalyCount : UInt32) : Option GuardConfig :=
  (p.pinModeForEpoch base.pinMode epochAge anomalyDemotionFlag peerAnomalyCount).map fun pinMode =>
    { base with pinMode := pinMode }

/-- The same, from the signals. -/
def applyToConfigWithSignals (p : GuardMitigationPolicy) (base : GuardConfig)
    (signals : GuardMitigationSignals) : Option GuardConfig :=
  p.applyToConfig base signals.epochAge signals.anomalyDemotionFlag signals.peerAnomalyCount

/-- The seed the guards are drawn with: the client's own, or the remixed one. -/
def clientSeedForGuards (p : GuardMitigationPolicy) (baseSeed : UInt64)
    (signals : GuardMitigationSignals) : Option UInt64 :=
  (p.shouldResampleGuards signals.epochAge signals.anomalyDemotionFlag
    signals.peerAnomalyCount).map fun resample =>
      if resample then resampleGuardClientSeed baseSeed signals else baseSeed

/-- The soft band spans every age. -/
def BandOverflows (p : GuardMitigationPolicy) : Prop :=
  p.softStickyEpochs.toNat = 0 ∧ p.maxStickyEpochs.toNat = 2 ^ 64 - 1

/-- **When the arithmetic of the soft band overflows**: where it begins at the age 0, at the last
age and in the band that spans every age. -/
theorem softStickyResample_eq_none_iff (p : GuardMitigationPolicy) (epochAge : UInt64) :
    p.softStickyResample epochAge = none ↔
      p.softStickyEpochs.toNat = 0 ∧ 0 < p.maxStickyEpochs.toNat ∧
        (p.maxStickyEpochs.toNat = 2 ^ 64 - 1 ∨ epochAge.toNat = 2 ^ 64 - 1) := by
  have hage := epochAge.toNat_lt
  have hmax := p.maxStickyEpochs.toNat_lt
  unfold softStickyResample
  simp only [ge_iff_le, UInt64.le_iff_toNat_le, UInt64.lt_iff_toNat_lt]
  split_ifs with hband hsoft
  · exact iff_of_false nofun (by omega)
  · exact iff_of_false nofun (by omega)
  · have hle : p.softStickyEpochs ≤ epochAge := UInt64.le_iff_toNat_le.mpr (by omega)
    have hinto := UInt64.toNat_sub_of_le _ _ hle
    have hspan : (max (saturatingSub p.maxStickyEpochs p.softStickyEpochs) 1).toNat =
        p.maxStickyEpochs.toNat - p.softStickyEpochs.toNat := by
      rw [toNat_max, toNat_saturatingSub]
      exact max_eq_left (show 1 ≤ _ by omega)
    rw [Checked.sub_of_le hle, Option.bind_eq_bind, Option.bind_some]
    cases hadd : Checked.add (epochAge - p.softStickyEpochs) 1 with
    | none =>
      have hfits := Checked.add_eq_none_iff.mp hadd
      rw [hinto, UInt64.toNat_one] at hfits
      exact iff_of_true rfl (by omega)
    | some into =>
      have hfits := Checked.toNat_of_add hadd
      have hlt := into.toNat_lt
      rw [hinto, UInt64.toNat_one] at hfits
      rw [Option.bind_some]
      cases hdivisor : Checked.add
          (max (saturatingSub p.maxStickyEpochs p.softStickyEpochs) 1) 1 with
      | none =>
        have hband := Checked.add_eq_none_iff.mp hdivisor
        rw [hspan, UInt64.toNat_one] at hband
        exact iff_of_true rfl (by omega)
      | some divisor =>
        have hvalue := Checked.toNat_of_add hdivisor
        have hbound := divisor.toNat_lt
        rw [hspan, UInt64.toNat_one] at hvalue
        obtain ⟨threshold, hthreshold⟩ := Option.ne_none_iff_exists'.mp
          (Checked.div_ne_none (a := saturatingMul into 100) (b := divisor) (by omega))
        rw [Option.bind_some, hthreshold]
        exact iff_of_false nofun (by omega)

/-- The last age is past the band. -/
theorem shouldResampleGuards_eq_none_iff (p : GuardMitigationPolicy) (epochAge : UInt64)
    (anomalyDemotionFlag : Bool) (peerAnomalyCount : UInt32) :
    p.shouldResampleGuards epochAge anomalyDemotionFlag peerAnomalyCount = none ↔
      p.BandOverflows ∧ epochAge.toNat < 2 ^ 64 - 1 := by
  have hnone := p.softStickyResample_eq_none_iff epochAge
  have hmax := p.maxStickyEpochs.toNat_lt
  unfold shouldResampleGuards BandOverflows
  by_cases hage : epochAge ≥ p.maxStickyEpochs
  · rw [if_pos hage]
    rw [ge_iff_le, UInt64.le_iff_toNat_le] at hage
    exact iff_of_false nofun (by omega)
  · rw [if_neg hage]
    rw [ge_iff_le, UInt64.le_iff_toNat_le] at hage
    cases hsoft : p.softStickyResample epochAge with
    | none =>
      have hband := hnone.mp hsoft
      exact iff_of_true rfl (by omega)
    | some resample =>
      have hfits := mt hnone.mpr (by rw [hsoft]; nofun)
      refine iff_of_false ?_ (by omega)
      cases resample with
      | true => nofun
      | false =>
        simp only
        split_ifs <;> nofun

/-- **The mitigation overflows only for a band that spans every age.** -/
theorem shouldResampleGuards_ne_none {p : GuardMitigationPolicy} (h : ¬p.BandOverflows)
    (epochAge : UInt64) (anomalyDemotionFlag : Bool) (peerAnomalyCount : UInt32) :
    p.shouldResampleGuards epochAge anomalyDemotionFlag peerAnomalyCount ≠ none := fun hnone =>
  h ((p.shouldResampleGuards_eq_none_iff epochAge anomalyDemotionFlag peerAnomalyCount).mp hnone).1

/-- Otherwise the mitigation leaves a configuration with as many guards, and a seed. -/
theorem mitigated {p : GuardMitigationPolicy} (h : ¬p.BandOverflows) (base : GuardConfig)
    (baseSeed : UInt64) (signals : GuardMitigationSignals) :
    ∃ config seed, p.applyToConfigWithSignals base signals = some config ∧
      config.guardCount = base.guardCount ∧ p.clientSeedForGuards baseSeed signals = some seed := by
  obtain ⟨resample, hresample⟩ := Option.ne_none_iff_exists'.mp
    (shouldResampleGuards_ne_none h signals.epochAge signals.anomalyDemotionFlag
      signals.peerAnomalyCount)
  unfold applyToConfigWithSignals applyToConfig pinModeForEpoch clientSeedForGuards
  rw [hresample]
  exact ⟨_, _, rfl, rfl, rfl⟩

end GuardMitigationPolicy

/-! ## Pruning -/

section Pruned

variable {D σ : Type}

/-- The relay is not below the floor. -/
def relaySatisfiesPruningPolicy (relay : RelayId) (policy : RelayPruningPolicy D)
    (minReputation : ℚ) : Bool :=
  policy.isEligible relay minReputation

/-- No relay of the path is below the floor. -/
def pathSatisfiesPruningPolicy (path : List RelayId) (policy : RelayPruningPolicy D)
    (minReputation : ℚ) : Bool :=
  path.all fun id => relaySatisfiesPruningPolicy id policy minReputation

/-! ## Guards -/

/-- The guards of a client for an epoch. -/
structure GuardSelector where
  epoch : UInt64
  guards : List RelayId
  pinMode : GuardPinMode
  deriving DecidableEq

namespace GuardSelector

/-- The eligible relays of the first layer are shuffled as far as guards are needed. -/
def newReputationWeightedPruned (std : SeededRng σ) (topology : Topology) (config : GuardConfig)
    (clientSeed : UInt64) (policy : RelayPruningPolicy D) (minReputation : ℚ) :
    Except TopologyError GuardSelector :=
  match topology.layers[0]? with
  | none => .error (.emptyLayer 1 topology.epoch)
  | some layer1 =>
    let needed := config.guardCount.toNat
    let candidates := layer1.filter fun id => relaySatisfiesPruningPolicy id policy minReputation
    if candidates.length < needed then
      .error (.insufficientReputation candidates.length needed minReputation)
    else
      let rng := std.seedFromU64 (clientSeed * 0x517cc1b727220a95 + topology.epoch)
      let candidates := (swapAlong std.toRng (fun i => (i, candidates.length)) (List.range needed)
        candidates rng).1
      .ok ⟨topology.epoch, candidates.take needed, config.pinMode⟩

/-- The guard a packet enters by; without guards the index is out of bounds. -/
def entryGuardForPacket (g : GuardSelector) (packetIndex : UInt64) : Option RelayId :=
  match g.pinMode with
  | .stickyPrimary => g.guards[0]?
  | .rotate => g.guards[packetIndex.toNat % max g.guards.length 1]?

theorem mem_of_entryGuardForPacket {g : GuardSelector} {packetIndex : UInt64} {id : RelayId}
    (h : g.entryGuardForPacket packetIndex = some id) : id ∈ g.guards := by
  unfold entryGuardForPacket at h
  split at h
  · exact List.mem_of_getElem? h
  · exact List.mem_of_getElem? h

theorem entryGuardForPacket_ne_none {g : GuardSelector} (h : g.guards ≠ []) (packetIndex : UInt64) :
    g.entryGuardForPacket packetIndex ≠ none := by
  have hpos : 0 < g.guards.length := List.length_pos_iff.mpr h
  unfold entryGuardForPacket
  split
  · rw [List.getElem?_eq_getElem hpos]
    nofun
  · rw [List.getElem?_eq_getElem (by
      rw [Nat.max_eq_left hpos]
      exact Nat.mod_lt _ hpos)]
    nofun

/-- **The guards are eligible relays of the first layer**, as many as were asked for and no two the
same, whatever the generator draws. -/
theorem guards_of_new {std : SeededRng σ} {topology : Topology} {config : GuardConfig}
    {clientSeed : UInt64} {policy : RelayPruningPolicy D} {minReputation : ℚ} {g : GuardSelector}
    (h : newReputationWeightedPruned std topology config clientSeed policy minReputation = .ok g) :
    g.guards.length = config.guardCount.toNat ∧
      ∃ layer1, topology.layers[0]? = some layer1 ∧ (layer1.Nodup → g.guards.Nodup) ∧
        ∀ id ∈ g.guards, id ∈ layer1 ∧ policy.isEligible id minReputation = true := by
  unfold newReputationWeightedPruned at h
  split at h
  · cases h
  · rename_i layer1 hlayer
    simp only at h
    split_ifs at h with hfew
    obtain rfl := Except.ok.inj h
    have hperm := swapAlong_perm std.toRng
      (fun i => (i, (layer1.filter fun id =>
        relaySatisfiesPruningPolicy id policy minReputation).length))
      (List.range config.guardCount.toNat)
      (layer1.filter fun id => relaySatisfiesPruningPolicy id policy minReputation)
      (std.seedFromU64 (clientSeed * 0x517cc1b727220a95 + topology.epoch))
    refine ⟨?_, layer1, hlayer, ?_, ?_⟩
    · rw [List.length_take, hperm.length_eq]
      exact Nat.min_eq_left (Nat.not_lt.mp hfew)
    · intro hnodup
      exact (hperm.nodup_iff.mpr (hnodup.filter _)).sublist (List.take_sublist _ _)
    · intro id hid
      have hcandidate := hperm.mem_iff.mp (List.mem_of_mem_take hid)
      exact List.mem_filter.mp hcandidate

end GuardSelector

end Pruned

end Aegis
