import Aegis.Trust.Reputation

/-!
# The anomaly detector (`anomaly.rs`)

A detector keeps a moving mean and a moving variance of a stream of samples, and flags a sample
that is too many standard deviations away from the mean.  The arithmetic is exact: the verdict
compares squares, and the square root that a verdict reports is `sqrt`.

* `exceeds_iff` — comparing squares decides what the source asks of the quotient.
* `stream_mean`, `stream_var` — the mean and the variance of a constant stream, in closed form.
* `constant_not_flagged_iff` — **for which metrics a relay that never changes is never flagged.**
-/

namespace Aegis

/-- The least `alpha`, the double 1e-6. -/
def minAlpha : ℚ := 4722366482869645 / 2 ^ 72

/-- The least standard deviation, the double 1e-9. -/
def minStd : ℚ := 4835703278458517 / 2 ^ 82

theorem minAlpha_pos : 0 < minAlpha := by norm_num [minAlpha]

theorem minAlpha_le_one : minAlpha ≤ 1 := by norm_num [minAlpha]

theorem minStd_pos : 0 < minStd := by norm_num [minStd]

/-- The moving mean and variance of a metric. -/
structure AnomalyDetector where
  alpha : ℚ
  mean : ℚ
  var : ℚ
  n : UInt64
  zThreshold : ℚ

/-- `alpha.clamp(1e-6, 1.0)`. -/
def clampAlpha (alpha : ℚ) : ℚ := max minAlpha (min alpha 1)

theorem clampAlpha_pos (alpha : ℚ) : 0 < clampAlpha alpha :=
  lt_of_lt_of_le minAlpha_pos (le_max_left _ _)

theorem clampAlpha_le_one (alpha : ℚ) : clampAlpha alpha ≤ 1 :=
  max_le minAlpha_le_one (min_le_right _ _)

namespace AnomalyDetector

/-- A detector that has seen nothing; the weight is clamped. -/
def new (alpha zThreshold : ℚ) : AnomalyDetector := ⟨clampAlpha alpha, 0, 0, 0, zThreshold⟩

/-- `z.abs() > z_threshold` for a sample that is `delta` away from the mean. -/
def exceeds (d : AnomalyDetector) (delta : ℚ) : Bool :=
  decide (d.zThreshold < 0 ∨ d.zThreshold ^ 2 * max d.var (minStd ^ 2) < delta ^ 2)

variable (sqrt : ℚ → ℚ)

/-- The verdict of `observe`, by the history before the sample. -/
def verdict (d : AnomalyDetector) (x : ℚ) : AnomalyVerdict :=
  -- too little history to judge
  if d.n < 2 then ⟨0, false⟩
  else ⟨(x - d.mean) / max (sqrt d.var) minStd, d.exceeds (x - d.mean)⟩

/-- A sample is judged by what was there before it, and then counted. -/
def observe (d : AnomalyDetector) (x : ℚ) : AnomalyVerdict × AnomalyDetector :=
  let verdict := d.verdict sqrt x
  let delta := x - d.mean
  (verdict, { d with
    mean := d.mean + d.alpha * delta
    var := (1 - d.alpha) * (d.var + d.alpha * delta * delta)
    n := d.n + 1 })

/-- The detectors of the pruning policy. -/
def ewmaDetectors : Detectors AnomalyDetector := ⟨new, observe sqrt⟩

/-! ## Comparing squares -/

theorem sq_max_sqrt (v : ℝ) : max (√v) minStd ^ 2 = max v (minStd ^ 2) := by
  have hpos : (0 : ℝ) < minStd := by exact_mod_cast minStd_pos
  by_cases hv : (minStd : ℝ) ^ 2 ≤ v
  · have hsqrt : (minStd : ℝ) ≤ √v := Real.le_sqrt_of_sq_le hv
    rw [max_eq_left hsqrt, max_eq_left hv, Real.sq_sqrt ((sq_nonneg _).trans hv)]
  · have hle : √v ≤ minStd := (Real.sqrt_le_left hpos.le).mpr (not_le.mp hv).le
    rw [max_eq_right hle, max_eq_right (not_le.mp hv).le]

/-- **Comparing squares decides** whether the sample is more than the threshold of standard
deviations away. -/
theorem exceeds_iff (d : AnomalyDetector) (delta : ℚ) :
    d.exceeds delta = true ↔ (d.zThreshold : ℝ) < |(delta : ℝ) / max (√d.var) minStd| := by
  have hstd : (0 : ℝ) < max (√d.var) minStd :=
    lt_max_of_lt_right (by exact_mod_cast minStd_pos)
  rw [exceeds, decide_eq_true_iff, abs_div, abs_of_pos hstd, lt_div_iff₀ hstd]
  by_cases hthreshold : d.zThreshold < 0
  · have hneg : (d.zThreshold : ℝ) * max (√d.var) minStd < 0 :=
      mul_neg_of_neg_of_pos (by exact_mod_cast hthreshold) hstd
    exact iff_of_true (Or.inl hthreshold) (hneg.trans_le (abs_nonneg _))
  · have hnonneg : (0 : ℝ) ≤ d.zThreshold := by exact_mod_cast not_lt.mp hthreshold
    rw [or_iff_right hthreshold, ← sq_lt_sq₀ (mul_nonneg hnonneg hstd.le) (abs_nonneg _),
      mul_pow, sq_max_sqrt, sq_abs]
    exact_mod_cast Iff.rfl

/-! ## A constant stream -/

/-- A fresh detector after `n` samples, all of them `c`. -/
def stream (alpha zThreshold c : ℚ) : ℕ → AnomalyDetector
  | 0 => new alpha zThreshold
  | n + 1 => ((stream alpha zThreshold c n).observe sqrt c).2

variable (alpha zThreshold c : ℚ)

@[simp] theorem stream_alpha (n : ℕ) :
    (stream sqrt alpha zThreshold c n).alpha = clampAlpha alpha := by
  induction n with
  | zero => rfl
  | succ n ih => exact ih

@[simp] theorem stream_zThreshold (n : ℕ) :
    (stream sqrt alpha zThreshold c n).zThreshold = zThreshold := by
  induction n with
  | zero => rfl
  | succ n ih => exact ih

theorem stream_n (n : ℕ) : (stream sqrt alpha zThreshold c n).n = UInt64.ofNat n := by
  induction n with
  | zero => rfl
  | succ n ih =>
    show (stream sqrt alpha zThreshold c n).n + 1 = _
    rw [ih, UInt64.ofNat_add]
    rfl

/-- **The mean** of a constant stream converges geometrically. -/
theorem stream_mean (n : ℕ) :
    (stream sqrt alpha zThreshold c n).mean = c * (1 - (1 - clampAlpha alpha) ^ n) := by
  induction n with
  | zero => simp [stream, new]
  | succ n ih =>
    show (stream sqrt alpha zThreshold c n).mean + (stream sqrt alpha zThreshold c n).alpha *
      (c - (stream sqrt alpha zThreshold c n).mean) = _
    rw [stream_alpha, ih, pow_succ]
    ring

/-- **The variance** of a constant stream grows and then shrinks, at half the speed. -/
theorem stream_var (n : ℕ) :
    (stream sqrt alpha zThreshold c n).var =
      c ^ 2 * (1 - clampAlpha alpha) ^ n * (1 - (1 - clampAlpha alpha) ^ n) := by
  induction n with
  | zero => simp [stream, new]
  | succ n ih =>
    show (1 - (stream sqrt alpha zThreshold c n).alpha) *
      ((stream sqrt alpha zThreshold c n).var + (stream sqrt alpha zThreshold c n).alpha *
        (c - (stream sqrt alpha zThreshold c n).mean) *
          (c - (stream sqrt alpha zThreshold c n).mean)) = _
    rw [stream_alpha, ih, stream_mean, pow_succ]
    ring

theorem stream_delta (n : ℕ) :
    c - (stream sqrt alpha zThreshold c n).mean = c * (1 - clampAlpha alpha) ^ n := by
  rw [stream_mean]
  ring

/-- Where the distance from the mean is more than three deviations.  The two bounds are those of
the variance and of its least value. -/
theorem exceeds_stream_iff (n : ℕ) :
    (stream sqrt alpha 3 c n).exceeds (c - (stream sqrt alpha 3 c n).mean) = true ↔
      9 < 10 * (1 - clampAlpha alpha) ^ n ∧ 3 * minStd < |c| * (1 - clampAlpha alpha) ^ n := by
  have hbase : 0 ≤ 1 - clampAlpha alpha := sub_nonneg.mpr (clampAlpha_le_one alpha)
  rw [exceeds, decide_eq_true_iff, stream_delta, stream_zThreshold, stream_var,
    or_iff_right (by norm_num)]
  generalize 1 - clampAlpha alpha = b at hbase
  have hpow : 0 ≤ b ^ n := pow_nonneg hbase n
  generalize b ^ n = q at hpow
  have hfloor : 3 ^ 2 * minStd ^ 2 < (c * q) ^ 2 ↔ 3 * minStd < |c| * q := by
    rw [← mul_pow, sq_lt_sq, abs_mul, abs_mul, abs_of_pos minStd_pos, abs_of_nonneg hpow,
      abs_of_pos (by norm_num : (0 : ℚ) < 3)]
  rw [mul_max_of_nonneg _ _ (by norm_num), max_lt_iff, hfloor]
  refine and_congr_left fun hlarge => ?_
  -- the sample is not zero, and the common factor of both sides is positive
  have hprod : 0 < |c| * q := lt_trans (mul_pos (by norm_num) minStd_pos) hlarge
  have hq : 0 < q := pos_of_mul_pos_right hprod (abs_nonneg c)
  have hc : 0 < c ^ 2 := by
    rw [← sq_abs]
    exact pow_pos (pos_of_mul_pos_left hprod hpow) 2
  have hfactor : (c * q) ^ 2 - 3 ^ 2 * (c ^ 2 * q * (1 - q)) = c ^ 2 * q * (10 * q - 9) := by ring
  rw [← sub_pos, hfactor, mul_pos_iff_of_pos_left (mul_pos hc hq), sub_pos]

/-- **When no sample of a constant stream is flagged.**  The third sample is the one to fear. -/
theorem forall_verdict_iff :
    (∀ n, ((stream sqrt alpha 3 c n).verdict sqrt c).isAnomalous = false) ↔
      10 * (1 - clampAlpha alpha) ^ 2 ≤ 9 ∨ |c| * (1 - clampAlpha alpha) ^ 2 ≤ 3 * minStd := by
  have hbase : 0 ≤ 1 - clampAlpha alpha := sub_nonneg.mpr (clampAlpha_le_one alpha)
  have hone : 1 - clampAlpha alpha ≤ 1 := sub_le_self 1 (clampAlpha_pos alpha).le
  have hthird : (stream sqrt alpha 3 c 2).exceeds (c - (stream sqrt alpha 3 c 2).mean) = false ↔
      10 * (1 - clampAlpha alpha) ^ 2 ≤ 9 ∨ |c| * (1 - clampAlpha alpha) ^ 2 ≤ 3 * minStd := by
    rw [← Bool.not_eq_true, exceeds_stream_iff, not_and_or, not_lt, not_lt]
  rw [← hthird]
  constructor
  · intro h
    exact h 2
  · intro h n
    unfold verdict
    by_cases hn : (stream sqrt alpha 3 c n).n < 2
    · rw [if_pos hn]
    · rw [if_neg hn]
      show (stream sqrt alpha 3 c n).exceeds _ = false
      have htwo : 2 ≤ n := by
        by_contra hlt
        refine hn ?_
        rw [stream_n]
        interval_cases n <;> decide
      have hpow : (1 - clampAlpha alpha) ^ n ≤ (1 - clampAlpha alpha) ^ 2 :=
        pow_le_pow_of_le_one hbase hone htwo
      rw [← Bool.not_eq_true, exceeds_stream_iff] at h ⊢
      intro hn
      refine h ⟨hn.1.trans_le ?_, hn.2.trans_le ?_⟩
      · exact mul_le_mul_of_nonneg_left hpow (by norm_num)
      · exact mul_le_mul_of_nonneg_left hpow (abs_nonneg c)

end AnomalyDetector

/-! ## A relay that never changes -/

namespace RelayPruningPolicy

variable {D : Type} (fl : ℚ → ℚ) (A : Detectors D)

/-- The policy after a run of samples. -/
def observeAll (p : RelayPruningPolicy D) (samples : List (RelayId × ℚ)) : RelayPruningPolicy D :=
  samples.foldl (fun p sample => (p.observeMetric fl A sample.1 sample.2).2) p

/-- What a relay's detector is, or would start as. -/
def detectorOf (p : RelayPruningPolicy D) (relay : RelayId) : D :=
  (p.detectors.lookup relay).getD (A.new p.alpha p.zThreshold)

theorem applyVerdict_detectors (p : RelayPruningPolicy D) (relay : RelayId)
    (verdict : AnomalyVerdict) : (p.applyVerdict fl relay verdict).detectors = p.detectors := by
  unfold applyVerdict
  split <;> rfl

theorem applyVerdict_config (p : RelayPruningPolicy D) (relay : RelayId)
    (verdict : AnomalyVerdict) : (p.applyVerdict fl relay verdict).alpha = p.alpha ∧
      (p.applyVerdict fl relay verdict).zThreshold = p.zThreshold := by
  unfold applyVerdict
  split <;> exact ⟨rfl, rfl⟩

theorem observeMetric_fst (p : RelayPruningPolicy D) (relay : RelayId) (x : ℚ) :
    (p.observeMetric fl A relay x).1 = (A.observe (p.detectorOf A relay) x).1 := rfl

theorem observeMetric_config (p : RelayPruningPolicy D) (relay : RelayId) (x : ℚ) :
    (p.observeMetric fl A relay x).2.alpha = p.alpha ∧
      (p.observeMetric fl A relay x).2.zThreshold = p.zThreshold :=
  applyVerdict_config fl { p with
    detectors := p.detectors.insert relay (A.observe (p.detectorOf A relay) x).2 } relay _

theorem observeMetric_detectors (p : RelayPruningPolicy D) (relay : RelayId) (x : ℚ) :
    (p.observeMetric fl A relay x).2.detectors =
      p.detectors.insert relay (A.observe (p.detectorOf A relay) x).2 :=
  applyVerdict_detectors fl { p with
    detectors := p.detectors.insert relay (A.observe (p.detectorOf A relay) x).2 } relay _

/-- A sample moves the detector of its relay, and no other. -/
theorem detectorOf_observeMetric (p : RelayPruningPolicy D) (relay r : RelayId) (x : ℚ) :
    (p.observeMetric fl A relay x).2.detectorOf A r =
      if r = relay then (A.observe (p.detectorOf A relay) x).2 else p.detectorOf A r := by
  unfold detectorOf
  rw [(observeMetric_config fl A p relay x).1, (observeMetric_config fl A p relay x).2,
    observeMetric_detectors]
  by_cases hr : r = relay
  · rw [if_pos hr, hr, AList.lookup_insert]
    rfl
  · rw [if_neg hr, AList.lookup_insert_ne hr]

/-- A sample that is not flagged leaves the ledger as it is. -/
theorem observeMetric_ledger {p : RelayPruningPolicy D} {relay : RelayId} {x : ℚ}
    (h : (p.observeMetric fl A relay x).1.isAnomalous = false) :
    (p.observeMetric fl A relay x).2.ledger = p.ledger := by
  rw [observeMetric_fst] at h
  show (applyVerdict fl _ relay (A.observe (p.detectorOf A relay) x).1).ledger = _
  unfold applyVerdict
  rw [h]
  rfl

open AnomalyDetector

variable (sqrt : ℚ → ℚ)

/-- **A relay that never changes is never demoted**, whatever is observed of the others. -/
theorem observeAll_of_constant {alpha c : ℚ}
    (hquiet : ∀ n, ((stream sqrt alpha 3 c n).verdict sqrt c).isAnomalous = false)
    {p : RelayPruningPolicy AnomalyDetector} {relay : RelayId} (n : ℕ)
    (hdetector : p.detectorOf (ewmaDetectors sqrt) relay = stream sqrt alpha 3 c n)
    (samples : List (RelayId × ℚ)) (hsamples : ∀ s ∈ samples, s.1 = relay → s.2 = c) :
    (∃ m, (p.observeAll fl (ewmaDetectors sqrt) samples).detectorOf (ewmaDetectors sqrt) relay =
        stream sqrt alpha 3 c m) ∧
      (p.observeAll fl (ewmaDetectors sqrt) samples).ledger.scores.lookup relay =
        p.ledger.scores.lookup relay := by
  induction samples generalizing p n with
  | nil => exact ⟨⟨n, hdetector⟩, rfl⟩
  | cons s samples ih =>
    have htail : ∀ t ∈ samples, t.1 = relay → t.2 = c := fun t ht =>
      hsamples t (List.mem_cons_of_mem s ht)
    have hdetector' := detectorOf_observeMetric fl (ewmaDetectors sqrt) p s.1 relay s.2
    show (∃ m, ((p.observeMetric fl (ewmaDetectors sqrt) s.1 s.2).2.observeAll fl
        (ewmaDetectors sqrt) samples).detectorOf _ relay = _) ∧
      ((p.observeMetric fl (ewmaDetectors sqrt) s.1 s.2).2.observeAll fl (ewmaDetectors sqrt)
        samples).ledger.scores.lookup relay = _
    by_cases hs : relay = s.1
    · have hc : s.2 = c := hsamples s List.mem_cons_self hs.symm
      rw [if_pos hs, ← hs, hdetector, hc] at hdetector'
      have hledger : (p.observeMetric fl (ewmaDetectors sqrt) relay c).2.ledger = p.ledger := by
        refine observeMetric_ledger fl (ewmaDetectors sqrt) ?_
        rw [observeMetric_fst, hdetector]
        exact hquiet n
      rw [← hs, hc, ← hledger]
      exact ih (n + 1) hdetector' htail
    · rw [if_neg hs, hdetector] at hdetector'
      rw [← lookup_observeMetric_of_ne fl (ewmaDetectors sqrt) p hs s.2]
      exact ih n hdetector' htail

/-- **For which metrics a relay that never changes is never flagged.**  For every `alpha` that the
caller gives, every constant `c` and a threshold of three deviations: no sample of the constant
stream is flagged by a fresh detector, and no policy without a detector for the relay flags or
demotes it in any run in which its samples are all `c`, exactly if the third sample is within the
deviations that the first two leave. -/
theorem constant_not_flagged_iff (alpha c : ℚ) :
    ((∀ n, ((stream sqrt alpha 3 c n).observe sqrt c).1.isAnomalous = false) ∧
        ∀ (p : RelayPruningPolicy AnomalyDetector) (relay : RelayId), p.alpha = alpha →
          p.zThreshold = 3 → p.detectors.lookup relay = none →
          ∀ samples : List (RelayId × ℚ), (∀ s ∈ samples, s.1 = relay → s.2 = c) →
            ((p.observeAll fl (ewmaDetectors sqrt) samples).observeMetric fl (ewmaDetectors sqrt)
                relay c).1.isAnomalous = false ∧
              (p.observeAll fl (ewmaDetectors sqrt) samples).ledger.scores.lookup relay =
                p.ledger.scores.lookup relay) ↔
      10 * (1 - clampAlpha alpha) ^ 2 ≤ 9 ∨ |c| * (1 - clampAlpha alpha) ^ 2 ≤ 3 * minStd := by
  rw [← forall_verdict_iff sqrt alpha c]
  constructor
  · intro h
    exact h.1
  · intro hquiet
    refine ⟨hquiet, fun p relay halpha hthreshold hnone samples hsamples => ?_⟩
    have hfresh : p.detectorOf (ewmaDetectors sqrt) relay = stream sqrt alpha 3 c 0 := by
      unfold detectorOf
      rw [hnone, halpha, hthreshold]
      rfl
    obtain ⟨⟨m, hm⟩, hscore⟩ := observeAll_of_constant fl sqrt hquiet 0 hfresh samples hsamples
    refine ⟨?_, hscore⟩
    rw [observeMetric_fst, hm]
    exact hquiet m

/-- A square root, exact on the squares of rationals. -/
def ratSqrt (q : ℚ) : ℚ := Nat.sqrt q.num.toNat / Nat.sqrt q.den

/-- With an `alpha` of 1/41, the third sample of a constant stream is flagged. -/
theorem constant_flagged :
    ((stream ratSqrt (1 / 41) 3 1681 2).observe ratSqrt 1681).1 = ⟨40 / 9, true⟩ ∧
      (observeAll id (ewmaDetectors ratSqrt) (withLedger ⟨9 / 10, ∅⟩ (1 / 41) 3)
          (List.replicate 3 (.replicate 32 1, 1681))).isEligible (.replicate 32 1)
        defaultPathReputationFloor = false := by
  decide +kernel

end RelayPruningPolicy

end Aegis
