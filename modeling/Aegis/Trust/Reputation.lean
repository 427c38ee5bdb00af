import Aegis.Lib.HashMap
import Aegis.Relay.PeerHealth

/-!
# Reputation and pruning (`reputation.rs`, `policy.rs`, `pruning.rs`)

A ledger keeps a score for each relay, a moving average of what was observed.  The pruning policy
shares it, feeds each relay's metric to a detector, and demotes a relay whose metric is anomalous
until its score is below the floor of path selection.  Scores are doubles, by the numbers they
stand for; `fl` is the rounding of one operation.

* `lookup_admitNewRelay` — an admission seeds a relay that has no score, and no other.
* `applyVerdict_of_lt` — a relay below the floor is not demoted further.
-/

namespace Aegis

/-! ## The ledger (`reputation.rs`) -/

/-- `ReputationScore::NEUTRAL`. -/
def neutral : ℚ := 1 / 2

/-- `ReputationScore::PROBATIONARY`, the double 0.1. -/
def probationary : ℚ := 3602879701896397 / 2 ^ 55

/-- `DEFAULT_PATH_REPUTATION_FLOOR`, the double 0.3. -/
def defaultPathReputationFloor : ℚ := 5404319552844595 / 2 ^ 54

/-- The score of every relay that has one, and how fast the past fades. -/
structure ReputationLedger where
  decay : ℚ
  scores : HashMap RelayId ℚ

namespace ReputationLedger

/-- `ReputationLedger::new`; `none` is `ReputationError::InvalidDecay`. -/
def new (decay : ℚ) : Option ReputationLedger :=
  if 0 < decay ∧ decay ≤ 1 then some ⟨decay, ∅⟩ else none

/-- The score of a relay, the neutral one if it has none. -/
def score (l : ReputationLedger) (relay : RelayId) : ℚ := (l.scores.lookup relay).getD neutral

/-- `entry(relay).or_insert(PROBATIONARY)`. -/
def admitNewRelay (l : ReputationLedger) (relay : RelayId) : ReputationLedger :=
  match l.scores.lookup relay with
  | some _ => l
  | none => { l with scores := l.scores.insert relay probationary }

/-- The nearest number of the unit interval. -/
def clamp01 (x : ℚ) : ℚ := max 0 (min x 1)

variable (fl : ℚ → ℚ)

/-- One step of the moving average. -/
def update (l : ReputationLedger) (relay : RelayId) (outcome : ℚ) : ReputationLedger :=
  let prev := l.score relay
  let next := clamp01 (fl (fl (l.decay * prev) + fl (fl (1 - l.decay) * outcome)))
  { l with scores := l.scores.insert relay next }

/-- An outcome of one. -/
def recordSuccess (l : ReputationLedger) (relay : RelayId) : ReputationLedger :=
  l.update fl relay 1

/-- An outcome of zero. -/
def recordFailure (l : ReputationLedger) (relay : RelayId) : ReputationLedger :=
  l.update fl relay 0

/-- The success rate of a window as one outcome; nothing if it is empty. -/
def recordAggregate (l : ReputationLedger) (relay : RelayId) (successes failures : UInt64) :
    ReputationLedger :=
  let total := saturatingAdd successes failures
  if total = 0 then l
  else l.update fl relay (fl (fl successes.toNat / fl total.toNat))

theorem lookup_update_of_ne (l : ReputationLedger) {relay r : RelayId} (h : r ≠ relay)
    (outcome : ℚ) : (l.update fl relay outcome).scores.lookup r = l.scores.lookup r :=
  AList.lookup_insert_ne h

theorem lookup_recordAggregate_of_ne (l : ReputationLedger) {relay r : RelayId} (h : r ≠ relay)
    (successes failures : UInt64) :
    (l.recordAggregate fl relay successes failures).scores.lookup r = l.scores.lookup r := by
  by_cases htotal : saturatingAdd successes failures = 0
  · simp only [recordAggregate, if_pos htotal]
  · simp only [recordAggregate, if_neg htotal]
    exact l.lookup_update_of_ne fl h _

/-- **An admission seeds** a relay that has no score, and no other. -/
theorem lookup_admitNewRelay (l : ReputationLedger) (relay r : RelayId) :
    (l.admitNewRelay relay).scores.lookup r =
      if r = relay then some ((l.scores.lookup r).getD probationary) else l.scores.lookup r := by
  unfold admitNewRelay
  by_cases hr : r = relay
  · subst hr
    cases hscore : l.scores.lookup r with
    | some x => simp [hscore]
    | none => simp
  · rw [if_neg hr]
    cases l.scores.lookup relay with
    | some x => rfl
    | none => exact AList.lookup_insert_ne hr

end ReputationLedger

/-! ## The policy (`policy.rs`) -/

/-- How far a sample was off, and whether that is too far. -/
structure AnomalyVerdict where
  zScore : ℚ
  isAnomalous : Bool
  deriving DecidableEq

/-- Detectors of anomalies in a stream of samples. -/
structure Detectors (D : Type) where
  /-- `AnomalyDetector::new(alpha, z_threshold)`. -/
  new : ℚ → ℚ → D
  observe : D → ℚ → AnomalyVerdict × D

/-- A ledger, and a detector for every relay that was observed. -/
structure RelayPruningPolicy (D : Type) where
  ledger : ReputationLedger
  detectors : HashMap RelayId D
  alpha : ℚ
  zThreshold : ℚ

/-- The most strikes of one demotion. -/
def maxAnomalyDemotionStrikes : ℕ := 32

namespace RelayPruningPolicy

variable {D : Type}

/-- A policy over a ledger, which has observed nothing. -/
def withLedger (ledger : ReputationLedger) (alpha zThreshold : ℚ) : RelayPruningPolicy D :=
  ⟨ledger, ∅, alpha, zThreshold⟩

/-- The relay is not below the floor. -/
def isEligible (p : RelayPruningPolicy D) (relay : RelayId) (minReputation : ℚ) : Bool :=
  decide (minReputation ≤ p.ledger.score relay)

variable (fl : ℚ → ℚ)

/-- The loop of `demote_relay`. -/
def demoteLoop (relay : RelayId) (floor : ℚ) : ℕ → ReputationLedger → ReputationLedger
  | 0, l => l
  | strikes + 1, l =>
    if l.score relay < floor then l else demoteLoop relay floor strikes (l.recordFailure fl relay)

/-- Failures are counted until the relay is below the floor, or there have been enough of them. -/
def demoteRelay (p : RelayPruningPolicy D) (relay : RelayId) (floor : ℚ) : RelayPruningPolicy D :=
  { p with ledger := demoteLoop fl relay floor maxAnomalyDemotionStrikes p.ledger }

/-- An anomalous verdict demotes the relay. -/
def applyVerdict (p : RelayPruningPolicy D) (relay : RelayId) (verdict : AnomalyVerdict) :
    RelayPruningPolicy D :=
  if verdict.isAnomalous then p.demoteRelay fl relay defaultPathReputationFloor else p

variable (A : Detectors D)

/-- A metric of a relay is judged, and the verdict applied. -/
def observeMetric (p : RelayPruningPolicy D) (relay : RelayId) (x : ℚ) :
    AnomalyVerdict × RelayPruningPolicy D :=
  let detector := (p.detectors.lookup relay).getD (A.new p.alpha p.zThreshold)
  let (verdict, detector) := A.observe detector x
  let p := { p with detectors := p.detectors.insert relay detector }
  (verdict, p.applyVerdict fl relay verdict)

/-- `feed_peer_outcomes`. -/
def feedPeerOutcomes (p : RelayPruningPolicy D) (peer : RelayId) (successes failures : UInt64) :
    AnomalyVerdict × RelayPruningPolicy D :=
  let total := saturatingAdd successes failures
  let failRate := if total = 0 then 0 else fl (fl failures.toNat / fl total.toNat)
  let (verdict, p) := p.observeMetric fl A peer failRate
  (verdict, { p with ledger := p.ledger.recordAggregate fl peer successes failures })

/-- One round of `drain_into_policy`: a peer with enough samples is fed and its window reset. -/
def drainRound (minSamples : UInt64)
    (state : PeerHealthTracker × RelayPruningPolicy D × ℕ) (entry : Σ _ : RelayId, Observation) :
    PeerHealthTracker × RelayPruningPolicy D × ℕ :=
  let (tracker, policy, fed) := state
  let (successes, failures) := entry.2
  if saturatingAdd successes failures < minSamples then state
  else
    ({ tracker with inner := tracker.inner.insert entry.1 (0, 0) },
      (policy.feedPeerOutcomes fl A entry.1 successes failures).2, fed + 1)

/-- `drain_into_policy` (`peer_health.rs`), and how many peers were fed. -/
def drainIntoPolicy (tracker : PeerHealthTracker) (o : IterOrder RelayId Observation)
    (policy : RelayPruningPolicy D) (minSamples : UInt64) :
    PeerHealthTracker × RelayPruningPolicy D × ℕ :=
  (o.iter tracker.inner).foldl (drainRound fl A minSamples) (tracker, policy, 0)

/-- The strikes do not touch other relays. -/
theorem lookup_demoteLoop_of_ne {relay r : RelayId} (h : r ≠ relay) (floor : ℚ) (strikes : ℕ)
    (l : ReputationLedger) :
    (demoteLoop fl relay floor strikes l).scores.lookup r = l.scores.lookup r := by
  induction strikes generalizing l with
  | zero => rfl
  | succ strikes ih =>
    unfold demoteLoop
    split
    · rfl
    · rw [ih, ReputationLedger.recordFailure, ReputationLedger.lookup_update_of_ne fl l h]

theorem lookup_applyVerdict_of_ne (p : RelayPruningPolicy D) {relay r : RelayId} (h : r ≠ relay)
    (verdict : AnomalyVerdict) :
    (p.applyVerdict fl relay verdict).ledger.scores.lookup r = p.ledger.scores.lookup r := by
  unfold applyVerdict
  split
  · exact lookup_demoteLoop_of_ne fl h _ _ _
  · rfl

theorem lookup_observeMetric_of_ne (p : RelayPruningPolicy D) {relay r : RelayId} (h : r ≠ relay)
    (x : ℚ) :
    (p.observeMetric fl A relay x).2.ledger.scores.lookup r = p.ledger.scores.lookup r :=
  lookup_applyVerdict_of_ne fl _ h _

theorem lookup_feedPeerOutcomes_of_ne (p : RelayPruningPolicy D) {peer r : RelayId} (h : r ≠ peer)
    (successes failures : UInt64) :
    (p.feedPeerOutcomes fl A peer successes failures).2.ledger.scores.lookup r =
      p.ledger.scores.lookup r :=
  (ReputationLedger.lookup_recordAggregate_of_ne fl _ h _ _).trans
    (lookup_observeMetric_of_ne fl A p h _)

/-- **A relay below the floor is not demoted further.** -/
theorem applyVerdict_of_lt (p : RelayPruningPolicy D) {relay : RelayId}
    (h : p.ledger.score relay < defaultPathReputationFloor) (verdict : AnomalyVerdict) :
    (p.applyVerdict fl relay verdict).ledger = p.ledger := by
  unfold applyVerdict
  split
  · show demoteLoop fl relay defaultPathReputationFloor maxAnomalyDemotionStrikes p.ledger = _
    unfold maxAnomalyDemotionStrikes demoteLoop
    rw [if_pos h]
  · rfl

theorem observeMetric_of_lt (p : RelayPruningPolicy D) {relay : RelayId}
    (h : p.ledger.score relay < defaultPathReputationFloor) (x : ℚ) :
    (p.observeMetric fl A relay x).2.ledger = p.ledger :=
  applyVerdict_of_lt fl { p with
    detectors := p.detectors.insert relay
      (A.observe ((p.detectors.lookup relay).getD (A.new p.alpha p.zThreshold)) x).2 } h _

end RelayPruningPolicy

end Aegis
