import Aegis.Lib.Binary64
import Aegis.Lib.HashMap
import Aegis.Relay.Handshake

/-!
# Peer health (`peer_health.rs`)

A tracker counts how often each peer was reached and merges what other relays report: the
median failure rate of a quorum of reporters, at half weight, unless too few organisations
stand behind it or it looks eclipsed.

The doubles are rationals.  `fl` rounds the result of one operation: `Binary64.round` is the
program's, the identity is exact arithmetic.

* `medianOutcomeCounts_perm` — **the median does not depend on the order of the observations.**
* `PeerHealthTracker.applyQuorumMedian_perm` — neither does the merge.
-/

namespace Aegis

open Buffer

/-- What one reporter saw: successes and failures. -/
abbrev Observation := UInt64 × UInt64

/-! ## Machine arithmetic -/

/-- `u64::saturating_add`. -/
def saturatingAdd (a b : UInt64) : UInt64 := UInt64.ofNat (min (a.toNat + b.toNat) (2 ^ 64 - 1))

/-- `u64::saturating_mul`. -/
def saturatingMul (a b : UInt64) : UInt64 := UInt64.ofNat (min (a.toNat * b.toNat) (2 ^ 64 - 1))

/-- `u64::saturating_sub`. -/
def saturatingSub (a b : UInt64) : UInt64 := UInt64.ofNat (a.toNat - b.toNat)

/-- `x.round()` for a double that is not negative. -/
def roundNonneg (x : ℚ) : ℕ := ⌊x + 1 / 2⌋₊

/-- `x as u64` for a double that is a whole number. -/
def asU64 (n : ℕ) : UInt64 := UInt64.ofNat (min n (2 ^ 64 - 1))

theorem toNat_saturatingAdd (a b : UInt64) :
    (saturatingAdd a b).toNat = min (a.toNat + b.toNat) (2 ^ 64 - 1) :=
  UInt64.toNat_ofNat_of_lt' (show min _ (2 ^ 64 - 1) < 2 ^ 64 by omega)

theorem toNat_saturatingSub (a b : UInt64) : (saturatingSub a b).toNat = a.toNat - b.toNat := by
  have hlt := a.toNat_lt
  exact UInt64.toNat_ofNat_of_lt' (show a.toNat - b.toNat < 2 ^ 64 by omega)

theorem toNat_min (a b : UInt64) : (min a b).toNat = min a.toNat b.toNat := by
  rw [Std.min_eq_if]
  split_ifs with h <;> rw [UInt64.le_iff_toNat_le] at h <;> omega

theorem toNat_max (a b : UInt64) : (max a b).toNat = max a.toNat b.toNat := by
  change (if a ≤ b then b else a).toNat = _
  split_ifs with h <;> rw [UInt64.le_iff_toNat_le] at h <;> omega

theorem toNat_asU64 {n : ℕ} (h : n < 2 ^ 64) : (asU64 n).toNat = n := by
  unfold asU64
  rw [UInt64.toNat_ofNat_of_lt' (show min n (2 ^ 64 - 1) < 2 ^ 64 by omega)]
  omega

theorem asU64_mono {m n : ℕ} (h : m ≤ n) : asU64 m ≤ asU64 n := by
  unfold asU64
  rw [UInt64.le_iff_toNat_le,
    UInt64.toNat_ofNat_of_lt' (show min m (2 ^ 64 - 1) < 2 ^ 64 by omega),
    UInt64.toNat_ofNat_of_lt' (show min n (2 ^ 64 - 1) < 2 ^ 64 by omega)]
  omega

/-! ## Checked arithmetic

An operation is `none` where a checked build panics.
-/

namespace Checked

/-- `a + b`. -/
def add (a b : UInt64) : Option UInt64 :=
  if a.toNat + b.toNat < 2 ^ 64 then some (a + b) else none

/-- `a - b`. -/
def sub (a b : UInt64) : Option UInt64 := if b ≤ a then some (a - b) else none

/-- `a / b`. -/
def div (a b : UInt64) : Option UInt64 := if b = 0 then none else some (a / b)

/-- `a - b` of two `usize`. -/
def subUsize (a b : ℕ) : Option ℕ := if b ≤ a then some (a - b) else none

/-- `iter().sum::<u64>()`. -/
def sum (l : List UInt64) : Option UInt64 := l.foldlM add 0

theorem add_eq_none_iff {a b : UInt64} : add a b = none ↔ 2 ^ 64 ≤ a.toNat + b.toNat := by
  unfold add
  split_ifs with h
  · exact iff_of_false nofun (by omega)
  · exact iff_of_true rfl (by omega)

theorem toNat_of_add {a b c : UInt64} (h : add a b = some c) :
    c.toNat = a.toNat + b.toNat := by
  unfold add at h
  split_ifs at h with hfits
  obtain rfl := Option.some.inj h
  rw [UInt64.toNat_add, Nat.mod_eq_of_lt hfits]

theorem sub_of_le {a b : UInt64} (h : b ≤ a) : sub a b = some (a - b) := if_pos h

theorem div_ne_none {a b : UInt64} (h : 0 < b.toNat) : div a b ≠ none := by
  unfold div
  rw [if_neg (by rintro rfl; exact absurd h (Nat.lt_irrefl 0))]
  nofun

theorem foldlM_add (l : List UInt64) (acc : UInt64) :
    l.foldlM add acc =
      if acc.toNat + (l.map UInt64.toNat).sum < 2 ^ 64 then some (acc + l.sum) else none := by
  induction l generalizing acc with
  | nil =>
    have hlt := acc.toNat_lt
    simpa using hlt
  | cons a l ih =>
    rw [List.foldlM_cons, add, List.map_cons, List.sum_cons, List.sum_cons]
    by_cases hfits : acc.toNat + a.toNat < 2 ^ 64
    · rw [if_pos hfits, Option.bind_eq_bind, Option.bind_some, ih, UInt64.toNat_add,
        Nat.mod_eq_of_lt hfits, ← add_assoc, ← add_assoc]
    · rw [if_neg hfits, if_neg (by omega)]
      rfl

/-- **A checked sum fails exactly if the sum does not fit**, on whatever summand. -/
theorem sum_eq (l : List UInt64) :
    sum l = if (l.map UInt64.toNat).sum < 2 ^ 64 then some l.sum else none := by
  rw [sum, foldlM_add]
  simp

end Checked

/-! ## The median of a quorum -/

section Median

variable (fl : ℚ → ℚ)

/-- Successes and failures together. -/
def outcomeTotal (o : Observation) : UInt64 := saturatingAdd o.1 o.2

/-- `fail as f64 / total as f64`. -/
def failRate (fail total : UInt64) : ℚ := fl (fl fail.toNat / fl total.toNat)

/-- Observations without a sample say nothing about the rate. -/
def sampled (obs : List Observation) : List Observation :=
  obs.filter fun o => outcomeTotal o ≠ 0

/-- The middle one, or the mean of the two in the middle. -/
def medianRate (rates : List ℚ) : ℚ :=
  let sorted := rates.insertionSort (· ≤ ·)
  let mid := sorted.length / 2
  if sorted.length % 2 = 1 then sorted.getD mid 0
  else fl (fl (sorted.getD (mid - 1) 0 + sorted.getD mid 0) / 2)

/-- The mean number of samples, at least one.  The sum wraps, as in a release build. -/
def sampleTotal (totals : List UInt64) : UInt64 :=
  asU64 (max (roundNonneg (fl (fl totals.sum.toNat / fl totals.length))) 1)

/-- `median_outcome_counts`: the median failure rate, as counts over the mean number of
samples. -/
def medianOutcomeCounts (obs : List Observation) : Option Observation :=
  let rates := (sampled obs).map fun o => failRate fl o.2 (outcomeTotal o)
  let totals := (sampled obs).map outcomeTotal
  if rates.isEmpty then none
  else
    let total := sampleTotal fl totals
    let fail := min (asU64 (roundNonneg (fl (medianRate fl rates * fl total.toNat)))) total
    let ok := saturatingSub total fail
    if ok = 0 ∧ fail = 0 then none else some (ok, fail)

variable {fl}

theorem medianRate_perm {l l' : List ℚ} (h : l.Perm l') : medianRate fl l = medianRate fl l' := by
  have hsorted : l.insertionSort (· ≤ ·) = l'.insertionSort (· ≤ ·) := by
    refine List.Perm.eq_of_pairwise' (List.pairwise_insertionSort _ l)
      (List.pairwise_insertionSort _ l') ?_
    exact ((List.perm_insertionSort _ l).trans h).trans (List.perm_insertionSort _ l').symm
  rw [medianRate, medianRate, hsorted]

theorem sampleTotal_perm {l l' : List UInt64} (h : l.Perm l') :
    sampleTotal fl l = sampleTotal fl l' := by
  rw [sampleTotal, sampleTotal, h.sum_eq, h.length_eq]

/-- **The order in which a quorum's observations are listed does not matter.** -/
theorem medianOutcomeCounts_perm {obs obs' : List Observation} (h : obs.Perm obs') :
    medianOutcomeCounts fl obs = medianOutcomeCounts fl obs' := by
  have hsampled : (sampled obs).Perm (sampled obs') := h.filter _
  have hempty := (hsampled.map fun o => failRate fl o.2 (outcomeTotal o)).isEmpty_eq
  rw [medianOutcomeCounts, medianOutcomeCounts, hempty, medianRate_perm (hsampled.map _),
    sampleTotal_perm (hsampled.map _)]

end Median

/-! ## Diversity keys -/

/-- The characters `str::trim` removes. -/
def isWhiteSpace (c : Char) : Bool :=
  c.toNat ∈ [0x20, 0x85, 0xA0, 0x1680, 0x2028, 0x2029, 0x202F, 0x205F, 0x3000] ||
    decide (0x09 ≤ c.toNat ∧ c.toNat ≤ 0x0D) || decide (0x2000 ≤ c.toNat ∧ c.toNat ≤ 0x200A)

/-- `str::trim`. -/
def trimLabel (s : List Char) : List Char :=
  ((s.dropWhile isWhiteSpace).reverse.dropWhile isWhiteSpace).reverse

/-- The digit of a number below 16. -/
def hexChar (n : ℕ) : Char := "0123456789abcdef".toList.getD n '0'

/-- `hex32`. -/
def hex32 (id : RelayId) : List Char :=
  id.toList.flatMap fun b => [hexChar (b.toNat / 16), hexChar (b.toNat % 16)]

/-- The key of an unlabelled reporter. -/
def reporterKey (reporter : RelayId) : List Char := "rid:".toList ++ hex32 reporter

/-- A label that is there and not blank. -/
def usableLabel (label : Option (List Char)) : Option (List Char) :=
  (label.map trimLabel).filter fun s => s ≠ []

/-- `gossip_diversity_key`: the organisation, else the jurisdiction, else the reporter. -/
def gossipDiversityKey (orgId jurisdiction : Option (List Char)) (reporter : RelayId) :
    List Char :=
  match usableLabel orgId with
  | some org => "org:".toList ++ org
  | none =>
    match usableLabel jurisdiction with
    | some jur => "jur:".toList ++ jur
    | none => reporterKey reporter

/-- `normalize_diversity_key`. -/
def normalizeDiversityKey (key : List Char) (reporter : RelayId) : List Char :=
  if trimLabel key = [] then reporterKey reporter else trimLabel key

/-- `distinct_diversity_count`. -/
def distinctDiversityCount (keys : List (List Char)) : ℕ := keys.dedup.length

theorem distinctDiversityCount_perm {keys keys' : List (List Char)} (h : keys.Perm keys') :
    distinctDiversityCount keys = distinctDiversityCount keys' :=
  h.dedup.length_eq

/-! ## The tracker -/

/-- `GossipMergePolicy`, with the bounds `sanitize` enforces. -/
structure GossipMergePolicy where
  majorityK : ℕ
  minOrgs : ℕ
  eclipseDetect : Bool
  eclipseMedianGap : ℚ
  eclipseLocalMinSamples : UInt64
  eclipseHonestBaseline : ℚ
  majorityK_pos : 0 < majorityK
  minOrgs_pos : 0 < minOrgs
  gap_nonneg : 0 ≤ eclipseMedianGap
  baseline_mem : 0 ≤ eclipseHonestBaseline ∧ eclipseHonestBaseline ≤ 1

/-- How many reporters a merge waits for. -/
def defaultGossipMajorityK : ℕ := 4

/-- How many organisations they must be of. -/
def defaultGossipMinOrgs : ℕ := 2

/-- A median is compared with what the relay has seen itself. -/
def defaultEclipseDetect : Bool := true

/-- `0.45`. -/
def defaultEclipseMedianGap : ℚ := 8106479329266893 / 2 ^ 54

/-- How much the relay must have seen itself for that. -/
def defaultEclipseLocalMinSamples : UInt64 := 8

/-- `0.10`. -/
def defaultEclipseHonestBaseline : ℚ := 3602879701896397 / 2 ^ 55

namespace GossipMergePolicy

/-- `sanitize`; a double that is not finite is `none`. -/
def sanitize (majorityK minOrgs : ℕ) (eclipseDetect : Bool) (eclipseMedianGap : Option ℚ)
    (eclipseLocalMinSamples : UInt64) (eclipseHonestBaseline : Option ℚ) : GossipMergePolicy where
  majorityK := max majorityK 1
  minOrgs := max minOrgs 1
  eclipseDetect := eclipseDetect
  eclipseMedianGap :=
    if 0 ≤ eclipseMedianGap.getD defaultEclipseMedianGap then
      eclipseMedianGap.getD defaultEclipseMedianGap
    else defaultEclipseMedianGap
  eclipseLocalMinSamples := eclipseLocalMinSamples
  eclipseHonestBaseline := max 0 (min 1 (eclipseHonestBaseline.getD defaultEclipseHonestBaseline))
  majorityK_pos := lt_of_lt_of_le Nat.zero_lt_one (le_max_right _ _)
  minOrgs_pos := lt_of_lt_of_le Nat.zero_lt_one (le_max_right _ _)
  gap_nonneg := by
    split_ifs with h
    · exact h
    · rw [defaultEclipseMedianGap]
      norm_num
  baseline_mem := ⟨le_max_left _ _, max_le zero_le_one (min_le_left _ _)⟩

/-- The default. -/
def stacked : GossipMergePolicy :=
  sanitize defaultGossipMajorityK defaultGossipMinOrgs defaultEclipseDetect
    (some defaultEclipseMedianGap) defaultEclipseLocalMinSamples
    (some defaultEclipseHonestBaseline)

/-- Only the number of reporters counts. -/
def legacyMajority (majorityK : ℕ) : GossipMergePolicy :=
  sanitize majorityK 1 false (some defaultEclipseMedianGap) defaultEclipseLocalMinSamples
    (some defaultEclipseHonestBaseline)

end GossipMergePolicy

/-- What has become of a vote. -/
inductive GossipMergeOutcome where
  | buffered (have_ need : ℕ)
  | waitingDiversity (have_ distinctOrgs needOrgs : ℕ)
  | applied (reporters distinctOrgs : ℕ)
  | quarantined (reporters distinctOrgs : ℕ)
  deriving DecidableEq, Repr

/-- The windows of local outcomes, what was reported of each subject, and the policy. -/
structure PeerHealthTracker where
  inner : HashMap RelayId Observation
  gossipPending : HashMap RelayId (HashMap RelayId (Observation × List Char))
  policy : GossipMergePolicy

namespace PeerHealthTracker

section Merge

variable (fl : ℚ → ℚ)

/-- A tracker that has seen nothing. -/
def withPolicy (policy : GossipMergePolicy) : PeerHealthTracker := ⟨∅, ∅, policy⟩

/-- The counts of a peer, none if there are none yet. -/
def window (t : PeerHealthTracker) (peer : RelayId) : Observation :=
  (t.inner.lookup peer).getD (0, 0)

/-- Merge counts scaled by `weightNum / weightDen`. -/
def applyGossipOutcomes (t : PeerHealthTracker) (peer : RelayId) (successes failures : UInt64)
    (weightNum weightDen : UInt64) : PeerHealthTracker :=
  if weightDen = 0 then t
  else
    let ok := saturatingMul successes weightNum / weightDen
    let fail := saturatingMul failures weightNum / weightDen
    if ok = 0 ∧ fail = 0 then t
    else
      let entry := t.window peer
      { t with
        inner := t.inner.insert peer (saturatingAdd entry.1 ok, saturatingAdd entry.2 fail) }

/-- The failure rate of the local window, and its number of samples. -/
def localRate (t : PeerHealthTracker) (subject : RelayId) : Option ℚ × UInt64 :=
  match t.inner.lookup subject with
  | none => (none, 0)
  | some (ok, fail) =>
    let samples := saturatingAdd ok fail
    if samples = 0 then (none, 0) else (some (failRate fl fail samples), samples)

/-- The median is so far above the baseline that it looks eclipsed. -/
def eclipseHeuristicQuarantine (t : PeerHealthTracker) (subject : RelayId) (medianRate : ℚ) :
    Bool :=
  let baseline :=
    match t.localRate fl subject with
    | (some rate, samples) =>
      if t.policy.eclipseLocalMinSamples ≤ samples then rate else t.policy.eclipseHonestBaseline
    | (none, _) => t.policy.eclipseHonestBaseline
  decide (fl (baseline + t.policy.eclipseMedianGap) ≤ medianRate)

/-- Gossip counts for this part of its weight. -/
def gossipWeightNum : UInt64 := 1

/-- What the part is a part of. -/
def gossipWeightDen : UInt64 := 2

/-- The median of the votes is merged, unless it is too far from what the relay has seen itself. -/
def finishMedianMerge (t : PeerHealthTracker) (subject : RelayId) (obs : List Observation)
    (reporters distinctOrgs : ℕ) : PeerHealthTracker × GossipMergeOutcome :=
  match medianOutcomeCounts fl obs with
  | none => (t, .applied reporters distinctOrgs)
  | some (ok, fail) =>
    let total := max (saturatingAdd ok fail) 1
    if t.policy.eclipseDetect && t.eclipseHeuristicQuarantine fl subject (failRate fl fail total)
    then (t, .quarantined reporters distinctOrgs)
    else
      (t.applyGossipOutcomes subject ok fail gossipWeightNum gossipWeightDen,
        .applied reporters distinctOrgs)

/-- Merge a quorum the caller has formed. -/
def applyQuorumMedian (t : PeerHealthTracker) (subject : RelayId) (obs : List Observation)
    (diversityKeys : List (List Char)) : PeerHealthTracker × GossipMergeOutcome :=
  let reporters := obs.length
  let distinctOrgs := distinctDiversityCount diversityKeys
  let minOrgs := t.policy.minOrgs
  if distinctOrgs < minOrgs then (t, .waitingDiversity reporters distinctOrgs minOrgs)
  else t.finishMedianMerge fl subject obs reporters distinctOrgs

variable {fl}

theorem finishMedianMerge_perm {t : PeerHealthTracker} {subject : RelayId}
    {obs obs' : List Observation} (h : obs.Perm obs') (reporters distinctOrgs : ℕ) :
    t.finishMedianMerge fl subject obs reporters distinctOrgs =
      t.finishMedianMerge fl subject obs' reporters distinctOrgs := by
  rw [finishMedianMerge, finishMedianMerge, medianOutcomeCounts_perm h]

/-- **Merging a quorum depends on the observations, not on their order.** -/
theorem applyQuorumMedian_perm {t : PeerHealthTracker} {subject : RelayId}
    {obs obs' : List Observation} {keys keys' : List (List Char)} (hobs : obs.Perm obs')
    (hkeys : keys.Perm keys') :
    t.applyQuorumMedian fl subject obs keys = t.applyQuorumMedian fl subject obs' keys' := by
  rw [applyQuorumMedian, applyQuorumMedian, hobs.length_eq, distinctDiversityCount_perm hkeys,
    finishMedianMerge_perm hobs]

variable (fl) in
/-- A merge is applied, or leaves the tracker as it is. -/
theorem finishMedianMerge_cases (t : PeerHealthTracker) (subject : RelayId)
    (obs : List Observation) (reporters distinctOrgs : ℕ) :
    t.finishMedianMerge fl subject obs reporters distinctOrgs =
        (t, .quarantined reporters distinctOrgs) ∨
      ∃ t', t.finishMedianMerge fl subject obs reporters distinctOrgs =
        (t', .applied reporters distinctOrgs) := by
  unfold finishMedianMerge
  cases medianOutcomeCounts fl obs with
  | none => exact Or.inr ⟨t, rfl⟩
  | some m =>
    dsimp only
    split_ifs
    · exact Or.inl rfl
    · exact Or.inr ⟨_, rfl⟩

variable (fl) in
/-- **A quorum waits for diversity**, is quarantined or is applied; only then does the tracker
change. -/
theorem applyQuorumMedian_cases (t : PeerHealthTracker) (subject : RelayId)
    (obs : List Observation) (keys : List (List Char)) :
    t.applyQuorumMedian fl subject obs keys =
        (t, .waitingDiversity obs.length (distinctDiversityCount keys) t.policy.minOrgs) ∨
      t.policy.minOrgs ≤ distinctDiversityCount keys ∧
        (t.applyQuorumMedian fl subject obs keys =
            (t, .quarantined obs.length (distinctDiversityCount keys)) ∨
          ∃ t', t.applyQuorumMedian fl subject obs keys =
            (t', .applied obs.length (distinctDiversityCount keys))) := by
  unfold applyQuorumMedian
  by_cases hfew : distinctDiversityCount keys < t.policy.minOrgs
  · exact Or.inl (if_pos hfew)
  · rw [if_neg hfew]
    exact Or.inr ⟨not_lt.mp hfew, t.finishMedianMerge_cases fl subject obs _ _⟩

end Merge

end PeerHealthTracker

end Aegis
