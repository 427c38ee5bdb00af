import Aegis.Lib.Binary64
import Aegis.Trust.Anomaly
import Aegis.Trust.Demotion

/-!
# A window that is flagged and counted (`policy.rs`)

`feed_peer_outcomes` judges a window by its failure rate, demotes the peer if the window is
anomalous, and then counts the same window as one more step of the moving average.  The strikes stop
just below the floor, and a window of successes can lift the score above it again.  The arithmetic
is that of any lawful rounding.

* `exists_struck` — where the strikes stop.
* `flagged_window_ineligible_iff` — **when a flagged window leaves the peer ineligible.**
-/

namespace Aegis

open Binary64 (Lawful lawful_round)

/-! ## Strikes -/

namespace ReputationLedger

variable {fl : ℚ → ℚ}

/-- The score `x` after `k` strikes. -/
def struck (fl : ℚ → ℚ) (decay x : ℚ) : ℕ → ℚ
  | 0 => x
  | k + 1 => fl (decay * struck fl decay x k)

theorem struck_succ (decay x : ℚ) (k : ℕ) :
    struck fl decay (fl (decay * x)) k = struck fl decay x (k + 1) := by
  induction k with
  | zero => rfl
  | succ k ih =>
    rw [struck, ih]
    rfl

theorem struck_mem (hfl : Lawful fl) {decay x : ℚ} (hdecay : 0 ≤ decay ∧ decay ≤ 1)
    (hx : 0 ≤ x ∧ x ≤ 1) (k : ℕ) : 0 ≤ struck fl decay x k ∧ struck fl decay x k ≤ 1 := by
  induction k with
  | zero => exact hx
  | succ k ih =>
    have hnonneg : 0 ≤ decay * struck fl decay x k := mul_nonneg hdecay.1 ih.1
    exact ⟨hfl.nonneg hnonneg, hfl.le_one hnonneg (mul_le_one₀ hdecay.2 ih.1 ih.2)⟩

/-- Below a decay of 0.96, each strike takes a factor off, up to a rounding. -/
theorem struck_le (hfl : Lawful fl) {decay x : ℚ} (hdecay : 0 ≤ decay ∧ decay ≤ 24 / 25)
    (hx : 0 ≤ x ∧ x ≤ 1) (k : ℕ) : struck fl decay x k ≤ (24 / 25) ^ k + k / 2 ^ 53 := by
  have hone : decay ≤ 1 := hdecay.2.trans (by norm_num)
  induction k with
  | zero =>
    norm_num [struck]
    exact hx.2
  | succ k ih =>
    obtain ⟨hnonneg, hle⟩ := struck_mem hfl ⟨hdecay.1, hone⟩ hx k
    have hround := hfl.near (mul_nonneg hdecay.1 hnonneg) (mul_le_one₀ hone hnonneg hle)
    have hprod : decay * struck fl decay x k ≤ 24 / 25 * ((24 / 25) ^ k + k / 2 ^ 53) :=
      mul_le_mul hdecay.2 ih hnonneg (by norm_num)
    have hk : (0 : ℚ) ≤ k / 2 ^ 53 := by positivity
    calc struck fl decay x (k + 1) ≤ decay * struck fl decay x k + 1 / 2 ^ 53 := hround
      _ ≤ 24 / 25 * ((24 / 25) ^ k + k / 2 ^ 53) + 1 / 2 ^ 53 := by linarith
      _ ≤ (24 / 25) ^ (k + 1) + (k / 2 ^ 53 + 1 / 2 ^ 53) := by
        rw [pow_succ (24 / 25 : ℚ) k]
        linarith
      _ = (24 / 25) ^ (k + 1) + (k + 1 : ℕ) / 2 ^ 53 := by
        push_cast
        ring

theorem struck_max_lt (hfl : Lawful fl) {decay x : ℚ} (hdecay : 0 ≤ decay ∧ decay ≤ 24 / 25)
    (hx : 0 ≤ x ∧ x ≤ 1) :
    struck fl decay x maxAnomalyDemotionStrikes <
      defaultPathReputationFloor := by
  refine lt_of_le_of_lt (struck_le hfl hdecay hx _) ?_
  norm_num [maxAnomalyDemotionStrikes, defaultPathReputationFloor]

theorem score_update (fl : ℚ → ℚ) (l : ReputationLedger) (relay : RelayId) (outcome : ℚ) :
    (l.update fl relay outcome).score relay =
      clamp01 (fl (fl (l.decay * l.score relay) + fl (fl (1 - l.decay) * outcome))) := by
  unfold update score
  rw [AList.lookup_insert, Option.getD_some]

theorem clamp01_lt_iff {x floor : ℚ} (hpos : 0 < floor) (hone : floor ≤ 1) :
    clamp01 x < floor ↔ x < floor := by
  unfold clamp01
  rw [max_lt_iff, min_lt_iff, and_iff_right hpos, or_iff_left (not_lt.mpr hone)]

/-- A strike, in rounded arithmetic. -/
theorem score_strike (hfl : Lawful fl) {l : ReputationLedger} {relay : RelayId}
    (hdecay : 0 ≤ l.decay ∧ l.decay ≤ 1) (hscore : 0 ≤ l.score relay ∧ l.score relay ≤ 1) :
    (l.recordFailure fl relay).score relay = fl (l.decay * l.score relay) := by
  have hprod : 0 ≤ l.decay * l.score relay := mul_nonneg hdecay.1 hscore.1
  have hle : fl (l.decay * l.score relay) ≤ 1 :=
    hfl.le_one hprod (mul_le_one₀ hdecay.2 hscore.1 hscore.2)
  unfold recordFailure
  rw [score_update, mul_zero, hfl.zero, add_zero, hfl.idem hprod, clamp01, min_eq_left hle,
    max_eq_right (hfl.nonneg hprod)]

end ReputationLedger

namespace RelayPruningPolicy

open ReputationLedger

variable {fl : ℚ → ℚ}

theorem demoteLoop_decay (fl : ℚ → ℚ) (relay : RelayId) (floor : ℚ) (strikes : ℕ)
    (l : ReputationLedger) : (demoteLoop fl relay floor strikes l).decay = l.decay := by
  induction strikes generalizing l with
  | zero => rfl
  | succ strikes ih =>
    unfold demoteLoop
    split
    · rfl
    · rw [ih]
      rfl

/-- **Where the strikes stop**: at the first score below the floor, or when there are no more. -/
theorem exists_struck (hfl : Lawful fl) {relay : RelayId} (floor : ℚ) (strikes : ℕ)
    {l : ReputationLedger} (hdecay : 0 ≤ l.decay ∧ l.decay ≤ 1)
    (hscore : 0 ≤ l.score relay ∧ l.score relay ≤ 1) :
    ∃ k, (demoteLoop fl relay floor strikes l).score relay =
        struck fl l.decay (l.score relay) k ∧
      (∀ j < k, floor ≤ struck fl l.decay (l.score relay) j) ∧
      (struck fl l.decay (l.score relay) k < floor ∨ k = strikes) := by
  induction strikes generalizing l with
  | zero => exact ⟨0, rfl, fun j hj => absurd hj (Nat.not_lt_zero j), Or.inr rfl⟩
  | succ strikes ih =>
    unfold demoteLoop
    by_cases hbelow : l.score relay < floor
    · rw [if_pos hbelow]
      exact ⟨0, rfl, fun j hj => absurd hj (Nat.not_lt_zero j), Or.inl hbelow⟩
    · rw [if_neg hbelow]
      have hnext := score_strike hfl hdecay hscore
      have hmem := struck_mem hfl hdecay hscore 1
      obtain ⟨k, hk, hbefore, hstop⟩ := ih (l := l.recordFailure fl relay) hdecay
        (by rw [hnext]; exact hmem)
      rw [hnext] at hk hbefore hstop
      change (∀ j < k, floor ≤ struck fl l.decay (fl (l.decay * l.score relay)) j) at hbefore
      change struck fl l.decay (fl (l.decay * l.score relay)) k < floor ∨ k = strikes at hstop
      refine ⟨k + 1, ?_, ?_, ?_⟩
      · rw [hk, ← struck_succ]
        rfl
      · intro j hj
        cases j with
        | zero => exact not_lt.mp hbelow
        | succ j =>
          rw [← struck_succ]
          exact hbefore j (Nat.lt_of_succ_lt_succ hj)
      · rw [← struck_succ]
        exact hstop.imp id (congrArg (· + 1))

/-! ## The window that was flagged -/

variable {D : Type}

/-- The ledger after a window that was flagged. -/
theorem feedPeerOutcomes_ledger (fl : ℚ → ℚ) (A : Detectors D) (p : RelayPruningPolicy D)
    (peer : RelayId) (successes failures : UInt64)
    (hverdict : (p.feedPeerOutcomes fl A peer successes failures).1.isAnomalous = true) :
    (p.feedPeerOutcomes fl A peer successes failures).2.ledger =
      (demoteLoop fl peer defaultPathReputationFloor maxAnomalyDemotionStrikes
        p.ledger).recordAggregate fl peer successes failures := by
  obtain ⟨rate, hrate⟩ : ∃ rate, p.feedPeerOutcomes fl A peer successes failures =
      ((p.observeMetric fl A peer rate).1, { (p.observeMetric fl A peer rate).2 with
        ledger := (p.observeMetric fl A peer rate).2.ledger.recordAggregate fl peer successes
          failures }) := ⟨_, rfl⟩
  rw [hrate] at hverdict ⊢
  show (p.observeMetric fl A peer rate).2.ledger.recordAggregate fl peer successes failures = _
  have hledger : (p.observeMetric fl A peer rate).2.ledger =
      demoteLoop fl peer defaultPathReputationFloor maxAnomalyDemotionStrikes p.ledger := by
    show (applyVerdict fl _ peer (p.observeMetric fl A peer rate).1).ledger = _
    unfold applyVerdict
    rw [if_pos hverdict]
    rfl
  rw [hledger]

/-- **When a flagged window leaves the peer ineligible.**  For every rounding, every policy with a
decay below 0.96 and every window of counts that is flagged: if the window counts nothing, or if
one more step of the average, from the score at which the strikes stop and with the success rate of
the window, stays below the floor; and in no other case. -/
theorem flagged_window_ineligible_iff (hfl : Lawful fl) (A : Detectors D)
    (p : RelayPruningPolicy D) (hdecay : 0 < p.ledger.decay ∧ p.ledger.decay < 24 / 25)
    (hscores : p.ledger.ScoresInUnit) (peer : RelayId) (successes failures : UInt64)
    (hverdict : (p.feedPeerOutcomes fl A peer successes failures).1.isAnomalous = true) :
    (p.feedPeerOutcomes fl A peer successes failures).2.isEligible peer
        defaultPathReputationFloor = false ↔
      saturatingAdd successes failures = 0 ∨
        ∃ k, (∀ j < k, defaultPathReputationFloor ≤
            struck fl p.ledger.decay (p.ledger.score peer) j) ∧
          struck fl p.ledger.decay (p.ledger.score peer) k < defaultPathReputationFloor ∧
          fl (fl (p.ledger.decay * struck fl p.ledger.decay (p.ledger.score peer) k) +
              fl (fl (1 - p.ledger.decay) *
                fl (fl successes.toNat / fl (saturatingAdd successes failures).toNat))) <
            defaultPathReputationFloor := by
  have hunit : 0 ≤ p.ledger.decay ∧ p.ledger.decay ≤ 1 :=
    ⟨hdecay.1.le, hdecay.2.le.trans (by norm_num)⟩
  have hscore := score_mem hscores peer
  obtain ⟨k, hk, hbefore, hstop⟩ := exists_struck hfl
    defaultPathReputationFloor maxAnomalyDemotionStrikes hunit hscore
  -- the strikes suffice, at a decay below 0.96
  have hbelow : struck fl p.ledger.decay (p.ledger.score peer) k < defaultPathReputationFloor := by
    rcases hstop with hlt | rfl
    · exact hlt
    · exact struck_max_lt hfl ⟨hdecay.1.le, hdecay.2.le⟩ hscore
  rw [isEligible_eq_false_iff, feedPeerOutcomes_ledger fl A p peer successes failures hverdict]
  unfold recordAggregate
  by_cases htotal : saturatingAdd successes failures = 0
  · rw [if_pos htotal, hk]
    exact iff_of_true hbelow (Or.inl htotal)
  · rw [if_neg htotal, or_iff_right htotal, score_update, demoteLoop_decay, hk,
      clamp01_lt_iff (by norm_num [defaultPathReputationFloor])
        (by norm_num [defaultPathReputationFloor])]
    constructor
    · intro h
      exact ⟨k, hbefore, hbelow, h⟩
    · rintro ⟨k', hbefore', hbelow', h⟩
      -- the strikes stop at one place only
      obtain rfl : k' = k := by
        rcases lt_trichotomy k' k with hlt | heq | hgt
        · exact absurd hbelow' (not_lt.mpr (hbefore k' hlt))
        · exact heq
        · exact absurd hbelow (not_lt.mpr (hbefore' k hgt))
      exact h

/-- The arithmetic of doubles. -/
abbrev fl64 : ℚ → ℚ := Binary64.round

/-- The detectors of the policy, with a square root that is exact on squares. -/
abbrev ewma : Detectors AnomalyDetector := AnomalyDetector.ewmaDetectors ratSqrt

/-- A policy that has seen two perfect samples of a relay. -/
def twicePerfect : RelayPruningPolicy AnomalyDetector :=
  observeAll fl64 ewma (withLedger ⟨9 / 10, ∅⟩ (1 / 5) 3) (List.replicate 2 (.replicate 32 1, 0))

/-- A window of failures after perfect ones takes five strikes and leaves the peer ineligible. -/
theorem flagged_window_ineligible_iff_perfect :
    twicePerfect.isEligible (.replicate 32 1) defaultPathReputationFloor = true ∧
      (twicePerfect.feedPeerOutcomes fl64 ewma (.replicate 32 1) 0 10).2.isEligible
        (.replicate 32 1) defaultPathReputationFloor = false :=
  ⟨by decide +kernel,
    (flagged_window_ineligible_iff lawful_round ewma twicePerfect
      (by decide +kernel) (fun relay x h => by cases h) (.replicate 32 1) 0 10
      (by decide +kernel)).mpr (Or.inr ⟨5, by decide +kernel⟩)⟩

/-- A policy that has counted four windows of failures of a relay. -/
def fourFailed : RelayPruningPolicy AnomalyDetector :=
  (fun p => (feedPeerOutcomes fl64 ewma p (.replicate 32 1) 0 10).2)^[4]
    (withLedger ⟨1 / 2, ∅⟩ (1 / 2) 3)

/-- After four windows of failures, a window of successes is flagged and makes the relay eligible. -/
theorem flagged_window_restores :
    fourFailed.isEligible (.replicate 32 1) defaultPathReputationFloor = false ∧
      (fourFailed.feedPeerOutcomes fl64 ewma (.replicate 32 1) 10 0).1.isAnomalous = true ∧
      (fourFailed.feedPeerOutcomes fl64 ewma (.replicate 32 1) 10 0).2.isEligible
        (.replicate 32 1) defaultPathReputationFloor = true := by
  decide +kernel

end RelayPruningPolicy

end Aegis
