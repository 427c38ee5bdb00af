import Aegis.Lib.OrderStatistics
import Aegis.Relay.PeerHealth

/-!
# What a minority can do to the median (`peer_health.rs`)

The median of the failure rates lies in every interval that holds more than half of them.  It is
turned into counts over the mean number of samples, which moves it by half a sample at most.

* `medianOutcomeCounts_robust` — **the merged failure rate stays in the range of any majority, up to
  half a sample.**
-/

namespace Aegis

/-! ## Rounding -/

theorem roundNonneg_le {x : ℚ} (h : 0 ≤ x) : (roundNonneg x : ℚ) ≤ x + 1 / 2 :=
  Nat.floor_le (by linarith)

theorem le_roundNonneg (x : ℚ) : x - 1 / 2 ≤ roundNonneg x := by
  have hlt := Nat.lt_floor_add_one (x + 1 / 2)
  unfold roundNonneg
  linarith

theorem roundNonneg_mono {x y : ℚ} (h : x ≤ y) : roundNonneg x ≤ roundNonneg y :=
  Nat.floor_mono (by linarith)

theorem roundNonneg_natCast (n : ℕ) : roundNonneg n = n := by
  unfold roundNonneg
  rw [Nat.floor_eq_iff (by positivity)]
  constructor <;> linarith

/-! ## The rates -/

/-- The failure rate of an observation, exactly. -/
def observedRate (o : Observation) : ℚ := failRate id o.2 (outcomeTotal o)

theorem observedRate_eq (o : Observation) :
    observedRate o = o.2.toNat / (outcomeTotal o).toNat :=
  rfl

theorem toNat_outcomeTotal (o : Observation) :
    (outcomeTotal o).toNat = min (o.1.toNat + o.2.toNat) (2 ^ 64 - 1) :=
  toNat_saturatingAdd _ _

/-- A rate is one at most, also if the total saturates. -/
theorem observedRate_mem (o : Observation) : 0 ≤ observedRate o ∧ observedRate o ≤ 1 := by
  have hle : o.2.toNat ≤ (outcomeTotal o).toNat := by
    have hlt := o.2.toNat_lt
    rw [toNat_outcomeTotal]
    omega
  rw [observedRate_eq]
  exact ⟨by positivity, div_le_one_of_le₀ (by exact_mod_cast hle) (by positivity)⟩

/-! ## The median -/

/-- **The median lies in every interval that holds more than half of the rates.** -/
theorem medianRate_mem {rates : List ℚ} {lo hi : ℚ}
    (hmajority : rates.length < 2 * rates.countP fun x => decide (lo ≤ x ∧ x ≤ hi)) :
    lo ≤ medianRate id rates ∧ medianRate id rates ≤ hi := by
  have hperm := List.perm_insertionSort (· ≤ ·) rates
  have hsorted := List.pairwise_insertionSort (· ≤ ·) rates
  rw [← hperm.length_eq, ← hperm.countP_eq] at hmajority
  unfold medianRate
  dsimp only
  set sorted := rates.insertionSort (· ≤ ·)
  have hmiddle : ∀ i, sorted.length ≤ 2 * i + 2 → 2 * i ≤ sorted.length → i < sorted.length →
      lo ≤ sorted.getD i 0 ∧ sorted.getD i 0 ≤ hi := by
    intro i hlower hupper hlt
    rw [List.getD_eq_getElem _ _ hlt]
    exact OrderStatistics.mem_of_majority hsorted hmajority hlt hlower hupper
  have hcount := List.countP_le_length (p := fun x => decide (lo ≤ x ∧ x ≤ hi)) (l := sorted)
  split_ifs with hodd
  · exact hmiddle (sorted.length / 2) (by omega) (by omega) (by omega)
  · have hfirst := hmiddle (sorted.length / 2 - 1) (by omega) (by omega) (by omega)
    have hsecond := hmiddle (sorted.length / 2) (by omega) (by omega) (by omega)
    simp only [id]
    constructor <;> linarith [hfirst.1, hfirst.2, hsecond.1, hsecond.2]

/-! ## The number of samples -/

/-- The totals of the observations, which saturate, added up as natural numbers. -/
def totalSamples (obs : List Observation) : ℕ := (obs.map fun o => (outcomeTotal o).toNat).sum

/-- Observations without a sample add nothing. -/
theorem totalSamples_sampled (obs : List Observation) :
    totalSamples (sampled obs) = totalSamples obs := by
  induction obs with
  | nil => rfl
  | cons o obs ih =>
    unfold sampled totalSamples at *
    by_cases hzero : outcomeTotal o = 0
    · rw [List.filter_cons_of_neg (by simp [hzero]), ih]
      simp [hzero]
    · rw [List.filter_cons_of_pos (by simp [hzero]), List.map_cons, List.sum_cons, ih]
      simp

/-- The sum of the totals is what it should be if it fits. -/
theorem toNat_sum_totals {obs : List Observation} (h : totalSamples obs < 2 ^ 64) :
    (obs.map outcomeTotal).sum.toNat = totalSamples obs := by
  induction obs with
  | nil => rfl
  | cons o obs ih =>
    unfold totalSamples at *
    rw [List.map_cons, List.sum_cons] at h ⊢
    rw [List.map_cons, List.sum_cons, UInt64.toNat_add, ih (by omega), Nat.mod_eq_of_lt h]

/-- **The counts are over the mean number of samples**, rounded, or over one. -/
theorem toNat_sampleTotal {obs : List Observation} (h : totalSamples obs < 2 ^ 64) :
    (sampleTotal id (obs.map outcomeTotal)).toNat =
      max (roundNonneg (totalSamples obs / obs.length)) 1 := by
  unfold sampleTotal
  simp only [id, toNat_sum_totals h, List.length_map]
  refine toNat_asU64 ?_
  have hmean : (totalSamples obs / obs.length : ℚ) ≤ totalSamples obs := by
    rcases Nat.eq_zero_or_pos obs.length with hzero | hpos
    · rw [hzero]
      simp
    · exact div_le_self (by positivity) (by exact_mod_cast hpos)
  have hround := roundNonneg_mono hmean
  rw [roundNonneg_natCast] at hround
  omega

/-! ## The counts -/

/-- The rate `m` of `total` samples, as a number of failures. -/
theorem round_rate_mul {m : ℚ} (total : ℕ) (hnonneg : 0 ≤ m) (hone : m ≤ 1) :
    roundNonneg (m * total) ≤ total ∧
      m * total - 1 / 2 ≤ roundNonneg (m * total) ∧
        (roundNonneg (m * total) : ℚ) ≤ m * total + 1 / 2 := by
  refine ⟨?_, le_roundNonneg _, roundNonneg_le (by positivity)⟩
  have hle : m * total ≤ total := mul_le_of_le_one_left (by positivity) hone
  calc roundNonneg (m * total) ≤ roundNonneg total := roundNonneg_mono hle
    _ = total := roundNonneg_natCast total

/-- **The counts that are merged**: a rate between zero and one, over at least one sample. -/
theorem medianOutcomeCounts_eq {obs : List Observation} {m : ℚ} {total : UInt64}
    (hsome : sampled obs ≠ []) (hm : medianRate id ((sampled obs).map observedRate) = m)
    (htotal : sampleTotal id ((sampled obs).map outcomeTotal) = total) (hpos : 0 < total.toNat)
    (hmem : 0 ≤ m ∧ m ≤ 1) :
    ∃ ok fail, medianOutcomeCounts id obs = some (ok, fail) ∧
      ok.toNat + fail.toNat = total.toNat ∧ fail.toNat = roundNonneg (m * total.toNat) := by
  obtain ⟨hle, -, -⟩ := round_rate_mul total.toNat hmem.1 hmem.2
  set rounded := roundNonneg (m * total.toNat) with hrounded
  have hlt := total.toNat_lt
  have hfail : (min (asU64 rounded) total).toNat = rounded := by
    rw [toNat_min, toNat_asU64 (by omega)]
    exact min_eq_left hle
  refine ⟨saturatingSub total (min (asU64 rounded) total), min (asU64 rounded) total, ?_, ?_, hfail⟩
  · unfold medianOutcomeCounts
    dsimp only
    rw [if_neg (by simpa using hsome)]
    rw [show (fun o : Observation => failRate id o.2 (outcomeTotal o)) = observedRate from rfl,
      hm, htotal]
    refine if_neg fun hzero => ?_
    have hok := congrArg UInt64.toNat hzero.1
    have hbad := congrArg UInt64.toNat hzero.2
    simp only [id] at hok hbad
    rw [toNat_saturatingSub, hfail] at hok
    rw [hfail] at hbad
    simp at hok hbad
    omega
  · rw [toNat_saturatingSub, hfail]
    omega

/-! ## Robustness -/

/-- The failure rate of these counts is in the range, up to half a sample. -/
def WithinHalfSample (lo hi : ℚ) (ok fail : UInt64) : Prop :=
  let samples : ℚ := ok.toNat + fail.toNat
  lo - 1 / (2 * samples) ≤ fail.toNat / samples ∧ fail.toNat / samples ≤ hi + 1 / (2 * samples)

theorem withinHalfSample_of_round {lo hi m : ℚ} {ok fail : UInt64} (hm : lo ≤ m ∧ m ≤ hi)
    (hmem : 0 ≤ m ∧ m ≤ 1) (hpos : 0 < ok.toNat + fail.toNat)
    (hfail : fail.toNat = roundNonneg (m * (ok.toNat + fail.toNat : ℕ))) :
    WithinHalfSample lo hi ok fail := by
  obtain ⟨-, hlower, hupper⟩ := round_rate_mul (ok.toNat + fail.toNat) hmem.1 hmem.2
  rw [← hfail] at hlower hupper
  push_cast at hlower hupper
  have hsamples : (0 : ℚ) < ok.toNat + fail.toNat := by exact_mod_cast hpos
  unfold WithinHalfSample
  dsimp only
  set samples : ℚ := ok.toNat + fail.toNat
  have hhalf : 1 / (2 * samples) = 1 / 2 / samples := by rw [div_div]
  rw [hhalf, le_div_iff₀ hsamples, div_le_iff₀ hsamples, sub_mul, add_mul,
    div_mul_cancel₀ _ hsamples.ne']
  have hlo := mul_le_mul_of_nonneg_right hm.1 hsamples.le
  have hhi := mul_le_mul_of_nonneg_right hm.2 hsamples.le
  constructor <;> linarith

/-- Only the counts of the median are merged, if anything is. -/
theorem PeerHealthTracker.finishMedianMerge_of_some {fl : ℚ → ℚ} {obs : List Observation}
    {ok fail : UInt64} (h : medianOutcomeCounts fl obs = some (ok, fail)) (t : PeerHealthTracker)
    (subject : RelayId) (reporters distinctOrgs : ℕ) :
    (t.finishMedianMerge fl subject obs reporters distinctOrgs).1 = t ∨
      (t.finishMedianMerge fl subject obs reporters distinctOrgs).1 =
        t.applyGossipOutcomes subject ok fail gossipWeightNum gossipWeightDen := by
  unfold finishMedianMerge
  rw [h]
  dsimp only
  split_ifs
  · exact Or.inl rfl
  · exact Or.inr rfl

/-- The median of failure rates is one. -/
theorem medianRate_mem_unit {obs : List Observation} (hsome : obs ≠ []) :
    0 ≤ medianRate id (obs.map observedRate) ∧ medianRate id (obs.map observedRate) ≤ 1 := by
  refine medianRate_mem ?_
  have hall : (obs.map observedRate).countP (fun x => decide (0 ≤ x ∧ x ≤ 1)) =
      (obs.map observedRate).length := by
    refine List.countP_eq_length.mpr fun x hx => ?_
    obtain ⟨o, -, rfl⟩ := List.mem_map.mp hx
    exact decide_eq_true (observedRate_mem o)
  have hpos := List.length_pos_of_ne_nil hsome
  rw [hall, List.length_map]
  omega

/-- **A minority moves the merged failure rate by half a sample at most.**  If more than half of the
observations with a sample have a failure rate in an interval, the counts that are merged have one
in it as well, up to half a sample, over the rounded mean of the totals, whatever the others are. -/
theorem medianOutcomeCounts_robust (obs : List Observation) (lo hi : ℚ)
    (hsum : totalSamples obs < 2 ^ 64)
    (hmajority : (sampled obs).length <
      2 * (sampled obs).countP fun o => decide (lo ≤ observedRate o ∧ observedRate o ≤ hi)) :
    ∃ ok fail, medianOutcomeCounts id obs = some (ok, fail) ∧
      ok.toNat + fail.toNat =
        max (roundNonneg (totalSamples obs / (sampled obs).length)) 1 ∧
      WithinHalfSample lo hi ok fail ∧
      ∀ (t : PeerHealthTracker) (subject : RelayId) (reporters distinctOrgs : ℕ),
        (t.finishMedianMerge id subject obs reporters distinctOrgs).1 = t ∨
          (t.finishMedianMerge id subject obs reporters distinctOrgs).1 =
            t.applyGossipOutcomes subject ok fail PeerHealthTracker.gossipWeightNum
              PeerHealthTracker.gossipWeightDen := by
  have hsome : sampled obs ≠ [] := by
    rintro hnil
    simp [hnil] at hmajority
  have hrange : lo ≤ medianRate id ((sampled obs).map observedRate) ∧
      medianRate id ((sampled obs).map observedRate) ≤ hi := by
    refine medianRate_mem ?_
    rw [List.length_map, List.countP_map]
    exact hmajority
  have hunit := medianRate_mem_unit hsome
  have htotal :=
    toNat_sampleTotal (show totalSamples (sampled obs) < 2 ^ 64 by rwa [totalSamples_sampled])
  rw [totalSamples_sampled] at htotal
  obtain ⟨ok, fail, hcounts, hsamples, hfail⟩ :=
    medianOutcomeCounts_eq hsome rfl rfl (by rw [htotal]; exact lt_max_of_lt_right one_pos) hunit
  refine ⟨ok, fail, hcounts, hsamples.trans htotal, ?_, fun t subject reporters distinctOrgs =>
    t.finishMedianMerge_of_some hcounts subject reporters distinctOrgs⟩
  rw [← hsamples] at hfail
  refine withinHalfSample_of_round hrange hunit ?_ hfail
  rw [hsamples, htotal]
  exact lt_max_of_lt_right one_pos

/-- Two reporters near ten percent, and one that signs a spike. -/
theorem medianOutcomeCounts_robust_spike :
    ∃ ok fail, medianOutcomeCounts id [(90, 10), (88, 12), (0, 100)] = some (ok, fail) ∧
      ok.toNat + fail.toNat =
        max (roundNonneg (totalSamples [(90, 10), (88, 12), (0, 100)] /
          (sampled [(90, 10), (88, 12), (0, 100)]).length)) 1 ∧
      WithinHalfSample (1 / 10) (12 / 100) ok fail ∧
      ∀ (t : PeerHealthTracker) (subject : RelayId) (reporters distinctOrgs : ℕ),
        (t.finishMedianMerge id subject [(90, 10), (88, 12), (0, 100)] reporters
            distinctOrgs).1 = t ∨
          (t.finishMedianMerge id subject [(90, 10), (88, 12), (0, 100)] reporters
              distinctOrgs).1 =
            t.applyGossipOutcomes subject ok fail PeerHealthTracker.gossipWeightNum
              PeerHealthTracker.gossipWeightDen :=
  medianOutcomeCounts_robust [(90, 10), (88, 12), (0, 100)] (1 / 10) (12 / 100) (by decide)
    (by decide +kernel)

end Aegis
