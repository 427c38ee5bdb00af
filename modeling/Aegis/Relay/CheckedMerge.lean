import Aegis.Relay.GossipIngest
import Aegis.Relay.MedianMerge

/-!
# Overflow in gossip merging (`peer_health.rs`)

A checked build panics where an integer operation leaves the range of its type, where an index is
out of bounds and at a division by zero; here it returns `none`.  All counts saturate, except for the
sum of the totals.

* `mergesInRange_iff` — **when a merge overflows nowhere.**
-/

namespace Aegis

/-! ## The median -/

section Median

variable (fl : ℚ → ℚ)

/-- The median of the rates; no value where an index is out of bounds. -/
def checkedMedianRate (rates : List ℚ) : Option ℚ :=
  let sorted := rates.insertionSort (· ≤ ·)
  let mid := sorted.length / 2
  if sorted.length % 2 = 1 then sorted[mid]?
  else do
    let before ← Checked.subUsize mid 1
    let lower ← sorted[before]?
    let upper ← sorted[mid]?
    return fl (fl (lower + upper) / 2)

/-- The samples that count for the median; no value where a sum overflows. -/
def checkedSampleTotal (totals : List UInt64) : Option UInt64 := do
  let sum ← Checked.sum totals
  return asU64 (max (roundNonneg (fl (fl sum.toNat / fl totals.length))) 1)

/-- `median_outcome_counts` in a checked build. -/
def checkedMedianOutcomeCounts (obs : List Observation) : Option (Option Observation) :=
  let rates := (sampled obs).map fun o => failRate fl o.2 (outcomeTotal o)
  let totals := (sampled obs).map outcomeTotal
  if rates.isEmpty then return none
  else do
    let medianRate ← checkedMedianRate fl rates
    let total ← checkedSampleTotal fl totals
    let fail := min (asU64 (roundNonneg (fl (medianRate * fl total.toNat)))) total
    let ok := saturatingSub total fail
    return if ok = 0 ∧ fail = 0 then none else some (ok, fail)

variable {fl}

/-- The middle of the rates is found. -/
theorem checkedMedianRate_eq {rates : List ℚ} (h : rates ≠ []) :
    checkedMedianRate fl rates = some (medianRate fl rates) := by
  have hpos := List.length_pos_of_ne_nil h
  rw [← List.length_insertionSort (· ≤ ·)] at hpos
  unfold checkedMedianRate medianRate Checked.subUsize
  dsimp only
  set sorted := rates.insertionSort (· ≤ ·)
  have hget : ∀ i, i < sorted.length → sorted[i]? = some (sorted.getD i 0) := by
    intro i hi
    rw [List.getElem?_eq_getElem hi, List.getD_eq_getElem _ _ hi]
  split_ifs with hodd hmid
  · exact hget _ (by omega)
  · rw [Option.bind_eq_bind, Option.bind_some, hget _ (by omega), hget _ (by omega)]
    rfl
  · omega

theorem checkedSampleTotal_eq (obs : List Observation) :
    checkedSampleTotal fl (obs.map outcomeTotal) =
      if totalSamples obs < 2 ^ 64 then some (sampleTotal fl (obs.map outcomeTotal)) else none := by
  have hsum : ((obs.map outcomeTotal).map UInt64.toNat).sum = totalSamples obs := by
    rw [List.map_map]
    rfl
  unfold checkedSampleTotal
  rw [Checked.sum_eq, hsum]
  split_ifs <;> rfl

/-- **The median is computed if and only if the totals add up to a `u64`.** -/
theorem checkedMedianOutcomeCounts_eq (obs : List Observation) :
    checkedMedianOutcomeCounts fl obs =
      if totalSamples obs < 2 ^ 64 then some (medianOutcomeCounts fl obs) else none := by
  unfold checkedMedianOutcomeCounts medianOutcomeCounts
  dsimp only
  by_cases hnone : sampled obs = []
  · have hzero : totalSamples obs = 0 := by
      rw [← totalSamples_sampled, hnone]
      rfl
    rw [hnone, hzero]
    rfl
  · have hempty : ¬((sampled obs).map fun o => failRate fl o.2 (outcomeTotal o)).isEmpty := by
      simpa using hnone
    rw [if_neg hempty, if_neg hempty, checkedMedianRate_eq (by simpa using hnone),
      checkedSampleTotal_eq, totalSamples_sampled]
    by_cases h : totalSamples obs < 2 ^ 64
    · rw [if_pos h, if_pos h]
      rfl
    · rw [if_neg h, if_neg h]
      rfl

end Median

/-! ## The merge -/

namespace PeerHealthTracker

section Merge

variable (fl : ℚ → ℚ)

/-- `apply_gossip_outcomes` in a checked build. -/
def checkedApplyGossipOutcomes (t : PeerHealthTracker) (peer : RelayId)
    (successes failures : UInt64) (weightNum weightDen : UInt64) : Option PeerHealthTracker :=
  if weightDen = 0 then return t
  else do
    let ok ← Checked.div (saturatingMul successes weightNum) weightDen
    let fail ← Checked.div (saturatingMul failures weightNum) weightDen
    if ok = 0 ∧ fail = 0 then return t
    else
      let entry := t.window peer
      return { t with
        inner := t.inner.insert peer (saturatingAdd entry.1 ok, saturatingAdd entry.2 fail) }

/-- `finish_median_merge` in a checked build. -/
def checkedFinishMedianMerge (t : PeerHealthTracker) (subject : RelayId) (obs : List Observation)
    (reporters distinctOrgs : ℕ) : Option (PeerHealthTracker × GossipMergeOutcome) := do
  match ← checkedMedianOutcomeCounts fl obs with
  | none => return (t, .applied reporters distinctOrgs)
  | some (ok, fail) =>
    let total := max (saturatingAdd ok fail) 1
    if t.policy.eclipseDetect && t.eclipseHeuristicQuarantine fl subject (failRate fl fail total)
    then return (t, .quarantined reporters distinctOrgs)
    else
      let t ← t.checkedApplyGossipOutcomes subject ok fail gossipWeightNum gossipWeightDen
      return (t, .applied reporters distinctOrgs)

/-- `apply_quorum_median` in a checked build. -/
def checkedApplyQuorumMedian (t : PeerHealthTracker) (subject : RelayId) (obs : List Observation)
    (diversityKeys : List (List Char)) : Option (PeerHealthTracker × GossipMergeOutcome) :=
  let reporters := obs.length
  let distinctOrgs := distinctDiversityCount diversityKeys
  let minOrgs := t.policy.minOrgs
  if distinctOrgs < minOrgs then return (t, .waitingDiversity reporters distinctOrgs minOrgs)
  else t.checkedFinishMedianMerge fl subject obs reporters distinctOrgs

/-- `ingest_gossip_observation` in a checked build. -/
def checkedIngestGossipObservation (t : PeerHealthTracker) (reporter subject : RelayId)
    (successes failures : UInt64) (diversityKey : List Char) :
    Option (PeerHealthTracker × GossipMergeOutcome) :=
  let k := t.policy.majorityK
  let minOrgs := t.policy.minOrgs
  let byReporter := t.buffered reporter subject successes failures diversityKey
  let have_ := byReporter.entries.length
  let distinctOrgs := distinctDiversityCount (PeerHealthTracker.diversityKeys byReporter)
  if have_ < k then return (t.setPending subject byReporter, .buffered have_ k)
  else if distinctOrgs < minOrgs then
    return (t.setPending subject byReporter, .waitingDiversity have_ distinctOrgs minOrgs)
  else
    (t.setPending subject ∅).checkedFinishMedianMerge fl subject (observations byReporter) have_
      distinctOrgs

variable {fl}

/-- Scaling and adding saturate, and the divisor is not zero. -/
theorem checkedApplyGossipOutcomes_eq (t : PeerHealthTracker) (peer : RelayId)
    (successes failures weightNum weightDen : UInt64) :
    t.checkedApplyGossipOutcomes peer successes failures weightNum weightDen =
      some (t.applyGossipOutcomes peer successes failures weightNum weightDen) := by
  unfold checkedApplyGossipOutcomes applyGossipOutcomes Checked.div
  by_cases hden : weightDen = 0
  · rw [if_pos hden, if_pos hden]
    rfl
  · simp only [if_neg hden, Option.bind_eq_bind, Option.bind_some]
    split_ifs <;> rfl

/-- **A merge is computed if and only if the totals add up to a `u64`.** -/
theorem checkedFinishMedianMerge_eq (t : PeerHealthTracker) (subject : RelayId)
    (obs : List Observation) (reporters distinctOrgs : ℕ) :
    t.checkedFinishMedianMerge fl subject obs reporters distinctOrgs =
      if totalSamples obs < 2 ^ 64 then
        some (t.finishMedianMerge fl subject obs reporters distinctOrgs)
      else none := by
  unfold checkedFinishMedianMerge finishMedianMerge
  rw [checkedMedianOutcomeCounts_eq]
  by_cases h : totalSamples obs < 2 ^ 64
  · rw [if_pos h, if_pos h, Option.bind_eq_bind, Option.bind_some]
    cases medianOutcomeCounts fl obs with
    | none => rfl
    | some counts =>
      dsimp only
      rw [checkedApplyGossipOutcomes_eq]
      split_ifs <;> rfl
  · rw [if_neg h, if_neg h]
    rfl

theorem checkedApplyQuorumMedian_eq {t : PeerHealthTracker} {subject : RelayId}
    {obs : List Observation} {diversityKeys : List (List Char)} (h : totalSamples obs < 2 ^ 64) :
    t.checkedApplyQuorumMedian fl subject obs diversityKeys =
      some (t.applyQuorumMedian fl subject obs diversityKeys) := by
  unfold checkedApplyQuorumMedian applyQuorumMedian
  dsimp only
  rw [checkedFinishMedianMerge_eq, if_pos h]
  split_ifs <;> rfl

theorem checkedIngestGossipObservation_eq {t : PeerHealthTracker} {reporter subject : RelayId}
    {successes failures : UInt64} {diversityKey : List Char}
    (h : totalSamples (observations
      (t.buffered reporter subject successes failures diversityKey)) < 2 ^ 64) :
    t.checkedIngestGossipObservation fl reporter subject successes failures diversityKey =
      some (t.ingestGossipObservation fl reporter subject successes failures diversityKey) := by
  unfold checkedIngestGossipObservation ingestGossipObservation
  dsimp only
  rw [checkedFinishMedianMerge_eq, if_pos h]
  split_ifs <;> rfl

end Merge

end PeerHealthTracker

/-! ## The merge of a list of observations -/

/-- Nothing overflows when these observations are merged: a checked build computes what the unchecked
one does, in the median, in every merge of a quorum, and when the last of them is ingested. -/
structure MergesInRange (fl : ℚ → ℚ) (obs : List Observation) : Prop where
  median : checkedMedianOutcomeCounts fl obs = some (medianOutcomeCounts fl obs)
  finish : ∀ (t : PeerHealthTracker) (subject : RelayId) (reporters distinctOrgs : ℕ),
    t.checkedFinishMedianMerge fl subject obs reporters distinctOrgs =
      some (t.finishMedianMerge fl subject obs reporters distinctOrgs)
  quorum : ∀ (t : PeerHealthTracker) (subject : RelayId) (diversityKeys : List (List Char)),
    t.checkedApplyQuorumMedian fl subject obs diversityKeys =
      some (t.applyQuorumMedian fl subject obs diversityKeys)
  ingest : ∀ (t : PeerHealthTracker) (reporter subject : RelayId) (successes failures : UInt64)
    (diversityKey : List Char),
    PeerHealthTracker.observations
        (t.buffered reporter subject successes failures diversityKey) = obs →
      t.checkedIngestGossipObservation fl reporter subject successes failures diversityKey =
        some (t.ingestGossipObservation fl reporter subject successes failures diversityKey)

theorem MergesInRange.of_totalSamples_lt (fl : ℚ → ℚ) {obs : List Observation}
    (h : totalSamples obs < 2 ^ 64) : MergesInRange fl obs where
  median := by rw [checkedMedianOutcomeCounts_eq, if_pos h]
  finish t subject reporters distinctOrgs := by
    rw [t.checkedFinishMedianMerge_eq, if_pos h]
  quorum t subject diversityKeys := PeerHealthTracker.checkedApplyQuorumMedian_eq h
  ingest t reporter subject successes failures diversityKey hobs :=
    PeerHealthTracker.checkedIngestGossipObservation_eq (by rwa [hobs])

/-- **When a merge overflows nowhere**: for every list of counts, if and only if the totals, each of
which saturates, add up to less than `2 ^ 64`. -/
theorem mergesInRange_iff (fl : ℚ → ℚ) (obs : List Observation) :
    MergesInRange fl obs ↔ totalSamples obs < 2 ^ 64 := by
  constructor
  · intro h
    by_contra hsum
    have hmedian := h.median
    rw [checkedMedianOutcomeCounts_eq, if_neg hsum] at hmedian
    cases hmedian
  · exact MergesInRange.of_totalSamples_lt fl

/-- Two reporters suffice, one of which has seen all that a `u64` can count. -/
theorem not_mergesInRange_max :
    checkedMedianOutcomeCounts id [(0xFFFFFFFFFFFFFFFF, 0), (1, 0)] = none ∧
      ¬MergesInRange id [(0xFFFFFFFFFFFFFFFF, 0), (1, 0)] := by
  have hnone : checkedMedianOutcomeCounts id [(0xFFFFFFFFFFFFFFFF, 0), (1, 0)] = none := by
    rw [checkedMedianOutcomeCounts_eq, if_neg (by decide)]
  refine ⟨hnone, fun h => ?_⟩
  have hmedian := h.median
  rw [hnone] at hmedian
  cases hmedian

end Aegis
