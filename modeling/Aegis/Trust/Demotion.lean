import Aegis.Trust.Reputation

/-!
# How far an anomaly demotes a relay (`policy.rs`, `reputation.rs`)

Each strike multiplies a relay's score by the decay.  The strikes end when the score is below the
floor of path selection, or after `MAX_ANOMALY_DEMOTION_STRIKES` of them, wherever the score is then.

* `demotes_iff` — **when an anomalous verdict makes a relay ineligible.**
-/

namespace Aegis

namespace ReputationLedger

/-- The scores lie between zero and one. -/
def ScoresInUnit (l : ReputationLedger) : Prop :=
  ∀ relay x, l.scores.lookup relay = some x → 0 ≤ x ∧ x ≤ 1

theorem score_mem {l : ReputationLedger} (h : l.ScoresInUnit) (relay : RelayId) :
    0 ≤ l.score relay ∧ l.score relay ≤ 1 := by
  unfold score
  cases hlookup : l.scores.lookup relay with
  | none =>
    rw [Option.getD_none, neutral]
    norm_num
  | some x => exact h relay x hlookup

/-- `new` takes the decays that shrink a score, but not to nothing. -/
theorem decay_of_new {decay : ℚ} {l : ReputationLedger} (h : new decay = some l) :
    l.decay = decay ∧ 0 < decay ∧ decay ≤ 1 := by
  unfold new at h
  by_cases hdecay : 0 < decay ∧ decay ≤ 1
  · rw [if_pos hdecay] at h
    obtain rfl := Option.some.inj h
    exact ⟨rfl, hdecay⟩
  · rw [if_neg hdecay] at h
    cases h

/-- **A failure multiplies the score by the decay.** -/
theorem score_recordFailure {l : ReputationLedger} {relay : RelayId}
    (hdecay : 0 ≤ l.decay ∧ l.decay ≤ 1) (hscore : 0 ≤ l.score relay ∧ l.score relay ≤ 1) :
    (l.recordFailure id relay).score relay = l.decay * l.score relay := by
  have hnonneg : 0 ≤ l.decay * l.score relay := mul_nonneg hdecay.1 hscore.1
  have hone : l.decay * l.score relay ≤ 1 := mul_le_one₀ hdecay.2 hscore.1 hscore.2
  unfold recordFailure update clamp01
  simp only [id, mul_zero, add_zero]
  rw [min_eq_left hone, max_eq_right hnonneg]
  unfold score
  rw [AList.lookup_insert, Option.getD_some]

end ReputationLedger

namespace RelayPruningPolicy

/-- **Where the strikes leave a score**: below the floor exactly if all of them would have taken it
there. -/
theorem score_demoteLoop_lt_iff {relay : RelayId} {floor : ℚ} (strikes : ℕ) {l : ReputationLedger}
    (hdecay : 0 ≤ l.decay ∧ l.decay ≤ 1) (hscore : 0 ≤ l.score relay ∧ l.score relay ≤ 1) :
    (demoteLoop id relay floor strikes l).score relay < floor ↔
      l.score relay * l.decay ^ strikes < floor := by
  induction strikes generalizing l with
  | zero =>
    unfold demoteLoop
    simp
  | succ strikes ih =>
    unfold demoteLoop
    by_cases hbelow : l.score relay < floor
    · rw [if_pos hbelow]
      have hle : l.score relay * l.decay ^ (strikes + 1) ≤ l.score relay :=
        mul_le_of_le_one_right hscore.1 (pow_le_one₀ hdecay.1 hdecay.2)
      exact ⟨fun _ => lt_of_le_of_lt hle hbelow, fun _ => hbelow⟩
    · rw [if_neg hbelow]
      have hnext := ReputationLedger.score_recordFailure hdecay hscore
      have hmem : 0 ≤ l.decay * l.score relay ∧ l.decay * l.score relay ≤ 1 :=
        ⟨mul_nonneg hdecay.1 hscore.1, mul_le_one₀ hdecay.2 hscore.1 hscore.2⟩
      rw [ih (l := l.recordFailure id relay) hdecay (by rw [hnext]; exact hmem), hnext, pow_succ]
      show l.decay * l.score relay * l.decay ^ strikes < floor ↔ _
      rw [show l.decay * l.score relay * l.decay ^ strikes =
        l.score relay * (l.decay ^ strikes * l.decay) by ring]

variable {D : Type}

theorem isEligible_eq_false_iff (p : RelayPruningPolicy D) (relay : RelayId) (floor : ℚ) :
    p.isEligible relay floor = false ↔ p.ledger.score relay < floor := by
  unfold isEligible
  rw [decide_eq_false_iff_not, not_le]

theorem demotes_applyVerdict_iff (p : RelayPruningPolicy D) (relay : RelayId)
    (verdict : AnomalyVerdict) (hdecay : 0 < p.ledger.decay ∧ p.ledger.decay ≤ 1)
    (hscores : p.ledger.ScoresInUnit) (hverdict : verdict.isAnomalous = true) :
    (p.applyVerdict id relay verdict).isEligible relay defaultPathReputationFloor = false ↔
      p.ledger.score relay * p.ledger.decay ^ maxAnomalyDemotionStrikes <
        defaultPathReputationFloor := by
  rw [isEligible_eq_false_iff]
  unfold applyVerdict
  rw [if_pos hverdict]
  exact score_demoteLoop_lt_iff _ ⟨hdecay.1.le, hdecay.2⟩ (ReputationLedger.score_mem hscores relay)

/-- **When an anomalous verdict makes a relay ineligible.**  For every decay that `new` accepts, every
ledger with scores in the unit interval and every relay, whichever way the verdict comes: if and only
if all strikes together take the score below the floor. -/
theorem demotes_iff (decay : ℚ) (l : ReputationLedger) (hnew : ReputationLedger.new decay = some l)
    (p : RelayPruningPolicy D) (hdecay : p.ledger.decay = l.decay)
    (hscores : p.ledger.ScoresInUnit) (relay : RelayId) :
    (∀ verdict : AnomalyVerdict, verdict.isAnomalous = true →
      ((p.applyVerdict id relay verdict).isEligible relay defaultPathReputationFloor = false ↔
        p.ledger.score relay * decay ^ maxAnomalyDemotionStrikes <
          defaultPathReputationFloor)) ∧
      ∀ (A : Detectors D) (x : ℚ), (p.observeMetric id A relay x).1.isAnomalous = true →
        ((p.observeMetric id A relay x).2.isEligible relay defaultPathReputationFloor = false ↔
          p.ledger.score relay * decay ^ maxAnomalyDemotionStrikes <
            defaultPathReputationFloor) := by
  obtain ⟨hl, hpos, hone⟩ := ReputationLedger.decay_of_new hnew
  have hunit : 0 < p.ledger.decay ∧ p.ledger.decay ≤ 1 := by
    rw [hdecay, hl]
    exact ⟨hpos, hone⟩
  rw [← hl, ← hdecay]
  refine ⟨fun verdict hverdict => demotes_applyVerdict_iff p relay verdict hunit hscores hverdict,
    fun A x hverdict => ?_⟩
  exact demotes_applyVerdict_iff { p with
    detectors := p.detectors.insert relay
      (A.observe ((p.detectors.lookup relay).getD (A.new p.alpha p.zThreshold)) x).2 } relay _
    hunit hscores hverdict

/-- A policy over a ledger of two relays, a perfect one and one below the floor. -/
def twoRated (decay : ℚ) : RelayPruningPolicy Unit :=
  withLedger ⟨decay, ((∅ : HashMap RelayId ℚ).insert (.replicate 32 1) 1).insert
    (.replicate 32 2) (1 / 4)⟩ 0 0

theorem scoresInUnit_twoRated (decay : ℚ) : (twoRated decay).ledger.ScoresInUnit := by
  intro relay x h
  have hx : x = 1 / 4 ∨ x = 1 := by
    by_cases htwo : relay = .replicate 32 2
    · subst htwo
      exact Or.inl (Option.some.inj (h.symm.trans (AList.lookup_insert _)))
    · have hlookup := h.symm.trans (AList.lookup_insert_ne htwo)
      by_cases hone : relay = .replicate 32 1
      · subst hone
        exact Or.inr (Option.some.inj (hlookup.trans (AList.lookup_insert _)))
      · exact absurd (hlookup.trans (AList.lookup_insert_ne hone)) (by simp)
  rcases hx with rfl | rfl <;> norm_num

/-- With a decay of 0.9, one anomaly makes a perfect relay ineligible. -/
theorem demotes_iff_typical :
    (twoRated (9 / 10)).isEligible (.replicate 32 1) defaultPathReputationFloor = true ∧
      (∀ verdict : AnomalyVerdict, verdict.isAnomalous = true →
        ((twoRated (9 / 10)).applyVerdict id (.replicate 32 1) verdict).isEligible
          (.replicate 32 1) defaultPathReputationFloor = false) ∧
      ∀ (A : Detectors Unit) (x : ℚ),
        ((twoRated (9 / 10)).observeMetric id A (.replicate 32 1) x).1.isAnomalous = true →
        ((twoRated (9 / 10)).observeMetric id A (.replicate 32 1) x).2.isEligible
          (.replicate 32 1) defaultPathReputationFloor = false := by
  obtain ⟨hverdict, hmetric⟩ := demotes_iff (9 / 10) ⟨9 / 10, ∅⟩
    (by unfold ReputationLedger.new; norm_num) (twoRated (9 / 10)) rfl (scoresInUnit_twoRated _)
    (.replicate 32 1)
  have hscore : (twoRated (9 / 10)).ledger.score (.replicate 32 1) = 1 := by decide +kernel
  rw [hscore] at hverdict hmetric
  have hbelow : 1 * (9 / 10) ^ maxAnomalyDemotionStrikes < defaultPathReputationFloor := by
    norm_num [defaultPathReputationFloor, maxAnomalyDemotionStrikes]
  exact ⟨by decide +kernel, fun verdict h => (hverdict verdict h).mpr hbelow,
    fun A x h => (hmetric A x h).mpr hbelow⟩

/-- A policy over a ledger that knows no relay. -/
def emptyPolicy (decay : ℚ) : RelayPruningPolicy Unit := withLedger ⟨decay, ∅⟩ 0 0

theorem scoresInUnit_emptyPolicy (decay : ℚ) : (emptyPolicy decay).ledger.ScoresInUnit := by
  intro relay x h
  cases h

/-- With a decay of 0.99, a relay of neutral score stays eligible whatever the anomaly. -/
theorem not_demotes_slow :
    ReputationLedger.new (99 / 100) = some ⟨99 / 100, ∅⟩ ∧
      (emptyPolicy (99 / 100)).ledger.ScoresInUnit ∧
      ((emptyPolicy (99 / 100)).applyVerdict id (.replicate 32 1) ⟨10, true⟩).isEligible
        (.replicate 32 1) defaultPathReputationFloor = true := by
  refine ⟨by unfold ReputationLedger.new; norm_num, scoresInUnit_emptyPolicy _, ?_⟩
  have hdecay : 0 < (emptyPolicy (99 / 100)).ledger.decay ∧
      (emptyPolicy (99 / 100)).ledger.decay ≤ 1 := by
    constructor <;> norm_num [emptyPolicy, withLedger]
  have hnot := (demotes_applyVerdict_iff (emptyPolicy (99 / 100)) (.replicate 32 1) ⟨10, true⟩
    hdecay (scoresInUnit_emptyPolicy _) rfl).not
  rw [Bool.not_eq_false] at hnot
  refine hnot.mpr (not_lt.mpr ?_)
  show defaultPathReputationFloor ≤ neutral * (99 / 100) ^ maxAnomalyDemotionStrikes
  norm_num [defaultPathReputationFloor, neutral, maxAnomalyDemotionStrikes]

end RelayPruningPolicy

end Aegis
