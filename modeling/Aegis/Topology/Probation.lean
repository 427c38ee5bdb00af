import Aegis.Topology.AdmissionRate

/-!
# Probation (`roster.rs`, `reputation.rs`)

A roster and a pruning policy are shared by admissions, by what is recorded of relays and by
the anomaly detectors.  A relay that has no score when it is admitted starts below the floor of
path selection and stays there until outcomes are recorded.  A relay that has one keeps it.

* `lookup_step_of_lt` — a score below the floor moves by recorded outcomes only.
* `probation_iff` — when an admission begins a probation.
-/

namespace Aegis

open Buffer RelayRoster

namespace Probation

/-! ## Histories -/

variable {SK VK D : Type}

/-- The roster and the policy that its admissions share. -/
structure TrustState (D : Type) where
  roster : RelayRoster
  policy : RelayPruningPolicy D

/-- What is done with the roster, the ledger and the policy. -/
inductive TrustEvent (E : Ed25519 SK VK) where
  | recordSuccess (relay : RelayId)
  | recordFailure (relay : RelayId)
  | recordAggregate (relay : RelayId) (successes failures : UInt64)
  | admitNewRelay (relay : RelayId)
  | observeMetric (relay : RelayId) (x : ℚ)
  | applyVerdict (relay : RelayId) (verdict : AnomalyVerdict)
  | feedPeerOutcomes (peer : RelayId) (successes failures : UInt64)
  /-- A health tracker is drained, whatever local outcomes and gossip have left in it. -/
  | drainIntoPolicy (tracker : PeerHealthTracker) (o : IterOrder RelayId Observation)
      (minSamples : UInt64)
  | admission (call : Admission E) (now : UInt64)
  | remove (id : RelayId)

variable (fl : ℚ → ℚ) (A : Detectors D) (sha3 : List UInt8 → Bytes 32) {E : Ed25519 SK VK}

/-- The state when something was done with the ledger. -/
def TrustState.withLedger (s : TrustState D) (ledger : ReputationLedger) : TrustState D :=
  { s with policy := { s.policy with ledger } }

/-- What each event does to the roster and the ledger. -/
def step (s : TrustState D) : TrustEvent E → TrustState D
  | .recordSuccess relay => s.withLedger (s.policy.ledger.recordSuccess fl relay)
  | .recordFailure relay => s.withLedger (s.policy.ledger.recordFailure fl relay)
  | .recordAggregate relay successes failures =>
    s.withLedger (s.policy.ledger.recordAggregate fl relay successes failures)
  | .admitNewRelay relay => s.withLedger (s.policy.ledger.admitNewRelay relay)
  | .observeMetric relay x => { s with policy := (s.policy.observeMetric fl A relay x).2 }
  | .applyVerdict relay verdict => { s with policy := s.policy.applyVerdict fl relay verdict }
  | .feedPeerOutcomes peer successes failures =>
    { s with policy := (s.policy.feedPeerOutcomes fl A peer successes failures).2 }
  | .drainIntoPolicy tracker o minSamples =>
    { s with
      policy := (RelayPruningPolicy.drainIntoPolicy fl A tracker o s.policy minSamples).2.1 }
  | .admission call now =>
    let result := s.roster.admission sha3 s.policy now call
    ⟨result.2.1, result.2.2⟩
  | .remove id => { s with roster := (s.roster.remove id).1 }

/-- One event after another. -/
def run (s : TrustState D) (events : List (TrustEvent E)) : TrustState D :=
  events.foldl (step fl A sha3) s

/-- The event records an outcome of relay `r`. -/
def RecordsOutcome (r : RelayId) : TrustEvent E → Prop
  | .recordSuccess relay => relay = r
  | .recordFailure relay => relay = r
  | .recordAggregate relay _ _ => relay = r
  | .feedPeerOutcomes peer _ _ => peer = r
  | .drainIntoPolicy tracker _ minSamples =>
    ∃ o, tracker.inner.lookup r = some o ∧ minSamples ≤ saturatingAdd o.1 o.2
  | _ => False

/-- The entry of relay `r` on the ledger. -/
def TrustState.entry (s : TrustState D) (r : RelayId) : Option ℚ :=
  s.policy.ledger.scores.lookup r

/-! ## One step -/

/-- Peers whose outcomes are fed are those of the tracker with enough samples. -/
theorem lookup_drainIntoPolicy (tracker : PeerHealthTracker) (o : IterOrder RelayId Observation)
    (policy : RelayPruningPolicy D) (minSamples : UInt64) (r : RelayId)
    (h : ¬∃ o, tracker.inner.lookup r = some o ∧ minSamples ≤ saturatingAdd o.1 o.2) :
    (RelayPruningPolicy.drainIntoPolicy fl A tracker o policy minSamples).2.1.ledger.scores.lookup
      r = policy.ledger.scores.lookup r := by
  unfold RelayPruningPolicy.drainIntoPolicy
  refine Run.foldl_preserves
    (fun state : PeerHealthTracker × RelayPruningPolicy D × ℕ =>
      state.2.1.ledger.scores.lookup r = policy.ledger.scores.lookup r) ?_ rfl
  rintro ⟨tracker', policy', fed⟩ ⟨peer, successes, failures⟩ hentry hsame
  unfold RelayPruningPolicy.drainRound
  dsimp only
  split_ifs with hfew
  · exact hsame
  · have hne : r ≠ peer := by
      rintro rfl
      exact h ⟨_, IterOrder.mem_iter.mp hentry, UInt64.not_lt.mp hfew⟩
    exact (RelayPruningPolicy.lookup_feedPeerOutcomes_of_ne fl A policy' hne _ _).trans hsame

/-- What an admission does with the ledger: a new relay that has no score gets one. -/
theorem entry_admit (s : TrustState D) (call : Admission E) (now : UInt64) (r : RelayId) :
    (step fl A sha3 s (.admission call now)).entry r = s.entry r ∨
      s.roster.isAdmitted r = false ∧ r = call.record.id ∧
        (step fl A sha3 s (.admission call now)).entry r =
          some ((s.entry r).getD probationary) := by
  have hcases := admit_cases sha3 s.roster s.policy now call
  show TrustState.entry ⟨_, (s.roster.admission sha3 s.policy now call).2.2⟩ r = _ ∨ _ ∧ _ ∧
    TrustState.entry ⟨_, (s.roster.admission sha3 s.policy now call).2.2⟩ r = _
  generalize s.roster.admission sha3 s.policy now call = result at hcases ⊢
  cases hcases with
  | refused e => exact .inl rfl
  | again signed hrecord hin => exact .inl rfl
  | new signed hrecord hout hroom =>
    have hseed := s.policy.ledger.lookup_admitNewRelay call.record.id r
    by_cases hr : r = call.record.id
    · rw [if_pos hr] at hseed
      exact .inr ⟨hr ▸ hout, hr, hseed⟩
    · rw [if_neg hr] at hseed
      exact .inl hseed

/-- **A score below the floor moves by recorded outcomes only.** -/
theorem lookup_step_of_lt {s : TrustState D} {e : TrustEvent E} {r : RelayId} {x : ℚ}
    (hx : s.entry r = some x) (hlt : x < defaultPathReputationFloor) (he : ¬RecordsOutcome r e) :
    (step fl A sha3 s e).entry r = some x := by
  have hscore : s.policy.ledger.score r < defaultPathReputationFloor := by
    rw [ReputationLedger.score, show s.policy.ledger.scores.lookup r = some x from hx]
    exact hlt
  cases e with
  | recordSuccess relay => exact (ReputationLedger.lookup_update_of_ne fl _ (Ne.symm he) _).trans hx
  | recordFailure relay => exact (ReputationLedger.lookup_update_of_ne fl _ (Ne.symm he) _).trans hx
  | recordAggregate relay successes failures =>
    exact (ReputationLedger.lookup_recordAggregate_of_ne fl _ (Ne.symm he) _ _).trans hx
  | admitNewRelay relay =>
    have hseed := s.policy.ledger.lookup_admitNewRelay relay r
    rw [show s.policy.ledger.scores.lookup r = some x from hx, Option.getD_some, ite_self] at hseed
    exact hseed
  | observeMetric relay y =>
    by_cases hr : r = relay
    · subst hr
      show (s.policy.observeMetric fl A r y).2.ledger.scores.lookup r = _
      rw [RelayPruningPolicy.observeMetric_of_lt fl A s.policy hscore]
      exact hx
    · exact (RelayPruningPolicy.lookup_observeMetric_of_ne fl A s.policy hr y).trans hx
  | applyVerdict relay verdict =>
    by_cases hr : r = relay
    · subst hr
      show (s.policy.applyVerdict fl r verdict).ledger.scores.lookup r = _
      rw [RelayPruningPolicy.applyVerdict_of_lt fl s.policy hscore]
      exact hx
    · exact (RelayPruningPolicy.lookup_applyVerdict_of_ne fl s.policy hr verdict).trans hx
  | feedPeerOutcomes peer successes failures =>
    exact (RelayPruningPolicy.lookup_feedPeerOutcomes_of_ne fl A s.policy (Ne.symm he) _ _).trans hx
  | drainIntoPolicy tracker o minSamples =>
    exact (lookup_drainIntoPolicy fl A tracker o s.policy minSamples r he).trans hx
  | admission call now =>
    rcases entry_admit fl A sha3 s call now r with hsame | ⟨-, -, hseed⟩
    · exact hsame.trans hx
    · rw [hseed, hx, Option.getD_some]
  | remove id => exact hx

/-! ## Runs -/

theorem run_append (s : TrustState D) (events events' : List (TrustEvent E)) :
    run fl A sha3 s (events ++ events') = run fl A sha3 (run fl A sha3 s events) events' :=
  List.foldl_append

theorem run_concat (s : TrustState D) (events : List (TrustEvent E)) (e : TrustEvent E) :
    run fl A sha3 s (events ++ [e]) = step fl A sha3 (run fl A sha3 s events) e := by
  unfold run
  rw [List.foldl_append, List.foldl_cons, List.foldl_nil]

theorem lookup_run_of_lt {s : TrustState D} {events : List (TrustEvent E)} {r : RelayId} {x : ℚ}
    (hx : s.entry r = some x) (hlt : x < defaultPathReputationFloor)
    (hevents : ∀ e ∈ events, ¬RecordsOutcome r e) :
    (run fl A sha3 s events).entry r = some x :=
  Run.foldl_preserves (fun s : TrustState D => s.entry r = some x)
    (fun _ e he hs => lookup_step_of_lt fl A sha3 hs hlt (hevents e he)) hx

/-- The event is about relay `r`. -/
def About (r : RelayId) : TrustEvent E → Prop
  | .recordSuccess relay => relay = r
  | .recordFailure relay => relay = r
  | .recordAggregate relay _ _ => relay = r
  | .admitNewRelay relay => relay = r
  | .observeMetric relay _ => relay = r
  | .applyVerdict relay _ => relay = r
  | .feedPeerOutcomes peer _ _ => peer = r
  | .drainIntoPolicy tracker _ minSamples =>
    ∃ o, tracker.inner.lookup r = some o ∧ minSamples ≤ saturatingAdd o.1 o.2
  | .admission call _ => call.record.id = r
  | .remove id => id = r

/-- Events about other relays leave the score as it is. -/
theorem entry_step_of_not_about (s : TrustState D) {e : TrustEvent E} {r : RelayId}
    (he : ¬About r e) : (step fl A sha3 s e).entry r = s.entry r := by
  cases e with
  | recordSuccess relay => exact ReputationLedger.lookup_update_of_ne fl _ (Ne.symm he) _
  | recordFailure relay => exact ReputationLedger.lookup_update_of_ne fl _ (Ne.symm he) _
  | recordAggregate relay successes failures =>
    exact ReputationLedger.lookup_recordAggregate_of_ne fl _ (Ne.symm he) _ _
  | admitNewRelay relay =>
    have hseed := s.policy.ledger.lookup_admitNewRelay relay r
    rw [if_neg (Ne.symm he)] at hseed
    exact hseed
  | observeMetric relay y =>
    exact RelayPruningPolicy.lookup_observeMetric_of_ne fl A s.policy (Ne.symm he) y
  | applyVerdict relay verdict =>
    exact RelayPruningPolicy.lookup_applyVerdict_of_ne fl s.policy (Ne.symm he) verdict
  | feedPeerOutcomes peer successes failures =>
    exact RelayPruningPolicy.lookup_feedPeerOutcomes_of_ne fl A s.policy (Ne.symm he) _ _
  | drainIntoPolicy tracker o minSamples =>
    exact lookup_drainIntoPolicy fl A tracker o s.policy minSamples r he
  | admission call now =>
    rcases entry_admit fl A sha3 s call now r with hsame | ⟨-, hr, -⟩
    · exact hsame
    · exact absurd hr.symm he
  | remove id => rfl

theorem entry_run_of_not_about {s : TrustState D} {events : List (TrustEvent E)} {r : RelayId}
    (hevents : ∀ e ∈ events, ¬About r e) : (run fl A sha3 s events).entry r = s.entry r :=
  Run.foldl_preserves (fun s' : TrustState D => s'.entry r = s.entry r)
    (fun s' e he hs => (entry_step_of_not_about fl A sha3 s' (hevents e he)).trans hs) rfl

/-! ## Admission -/

theorem probationary_lt_floor : probationary < defaultPathReputationFloor := by
  unfold probationary defaultPathReputationFloor
  norm_num

/-- A new relay that is admitted has the score it had, or the probationary one. -/
theorem entry_of_admitted {s : TrustState D} {call : Admission E} {now : UInt64}
    (hout : s.roster.isAdmitted call.record.id = false)
    (hok : (s.roster.admission sha3 s.policy now call).1 = .ok ()) :
    (step fl A sha3 s (.admission call now)).entry call.record.id =
      some ((s.entry call.record.id).getD probationary) := by
  have hcases := admit_cases sha3 s.roster s.policy now call
  show TrustState.entry ⟨_, (s.roster.admission sha3 s.policy now call).2.2⟩ _ = _
  generalize s.roster.admission sha3 s.policy now call = result at hok hcases ⊢
  cases hcases with
  | refused e => cases hok
  | again signed hrecord hin => simp [hout] at hin
  | new signed hrecord _ hroom =>
    have hseed := s.policy.ledger.lookup_admitNewRelay call.record.id call.record.id
    rw [if_pos rfl] at hseed
    exact hseed

theorem score_of_entry {s : TrustState D} {r : RelayId} {x : ℚ} (h : s.entry r = some x) :
    s.policy.ledger.score r = x := by
  rw [ReputationLedger.score, show s.policy.ledger.scores.lookup r = some x from h,
    Option.getD_some]

/-- A relay with a probationary score is ineligible until outcomes of it are recorded. -/
theorem not_isEligible_of_le {s : TrustState D} {r : RelayId} {x : ℚ} (hx : s.entry r = some x)
    (hle : x ≤ probationary) {after : List (TrustEvent E)}
    (hafter : ∀ e ∈ after, ¬RecordsOutcome r e) :
    (run fl A sha3 s after).policy.isEligible r defaultPathReputationFloor = false := by
  have hlt : x < defaultPathReputationFloor := hle.trans_lt probationary_lt_floor
  unfold RelayPruningPolicy.isEligible
  rw [score_of_entry (lookup_run_of_lt fl A sha3 hx hlt hafter), decide_eq_false_iff_not, not_le]
  exact hlt

/-- A relay that nothing was recorded about begins with a probation. -/
theorem probation_of_not_about (start : TrustState D) {before : List (TrustEvent E)}
    {call : Admission E} {now : UInt64}
    (hout : (run fl A sha3 start before).roster.isAdmitted call.record.id = false)
    (hok : ((run fl A sha3 start before).roster.admission sha3
      (run fl A sha3 start before).policy now call).1 = .ok ())
    (hstart : start.entry call.record.id = none)
    (hbefore : ∀ e ∈ before, ¬About call.record.id e) :
    (run fl A sha3 start (before ++ [.admission call now])).entry call.record.id =
      some probationary := by
  rw [run_concat]
  refine (entry_of_admitted fl A sha3 hout hok).trans ?_
  rw [entry_run_of_not_about fl A sha3 hbefore, hstart, Option.getD_none]

/-! ## The theorem -/

/-- **When an admission begins a probation.**  After any history, let a relay that is not on the
roster be admitted.  Its score is at most the probationary one, and it stays ineligible at the floor
until outcomes of it are recorded, if and only if before the admission it has no score or one that
is at most the probationary one. -/
theorem probation_iff (fl : ℚ → ℚ) (A : Detectors D) (sha3 : List UInt8 → Bytes 32)
    (start : TrustState D) (before : List (TrustEvent E)) (call : Admission E) (now : UInt64)
    (hout : (run fl A sha3 start before).roster.isAdmitted call.record.id = false)
    (hok : ((run fl A sha3 start before).roster.admission sha3
      (run fl A sha3 start before).policy now call).1 = .ok ()) :
    ((run fl A sha3 start (before ++ [.admission call now])).policy.ledger.score call.record.id ≤
          probationary ∧
        ∀ after : List (TrustEvent E), (∀ e ∈ after, ¬RecordsOutcome call.record.id e) →
          (run fl A sha3 start (before ++ [.admission call now] ++ after)).policy.isEligible
            call.record.id defaultPathReputationFloor = false) ↔
      ∀ x, (run fl A sha3 start before).entry call.record.id = some x → x ≤ probationary := by
  have hentry := entry_of_admitted fl A sha3 hout hok
  rw [run_concat, score_of_entry hentry]
  constructor
  · rintro ⟨hle, -⟩ x hx
    rw [hx, Option.getD_some] at hle
    exact hle
  · intro hle
    have hscore : ((run fl A sha3 start before).entry call.record.id).getD probationary ≤
        probationary := by
      cases hx : (run fl A sha3 start before).entry call.record.id with
      | none => exact le_rfl
      | some x => exact hle x hx
    refine ⟨hscore, fun after hafter => ?_⟩
    rw [run_append, run_concat]
    exact not_isEligible_of_le fl A sha3 hentry hscore hafter

/-! ### A relay that was seen before it is admitted -/

/-- Detectors that never raise an alarm. -/
def silent : Detectors Unit := ⟨fun _ _ => (), fun _ _ => (⟨0, false⟩, ())⟩

/-- A fresh roster and a fresh policy. -/
def fresh : TrustState Unit := ⟨RelayRoster.new, checksumPolicy⟩

/-- The digest that gives relay 1 its id. -/
def checksumSha3 (_ : List UInt8) : Bytes 32 := .replicate 32 1

theorem probation_iff_checksum :
    (run Binary64.round silent checksumSha3 fresh
      ([] ++ [.admission (checksumCall 1) 100])).policy.ledger.score (.replicate 32 1) ≤
        probationary :=
  ((probation_iff Binary64.round silent checksumSha3 fresh [] (checksumCall 1) 100
    (by decide +kernel) (by decide +kernel)).mpr (by intro x hx; cases hx)).1

/-- One success of relay 1 has been recorded. -/
def seen : TrustState Unit :=
  run Binary64.round silent checksumSha3 fresh
    [.recordSuccess (E := HealthQuorumLog.checksumEd25519) (.replicate 32 1)]

/-- The success is worth three quarters. -/
theorem entry_seen : seen.entry (.replicate 32 1) = some (3 / 4) := by
  have hquarter : Binary64.round (1 / 4) = 1 / 4 := by
    have h := Binary64.round_of_significand 1 (-2) (by norm_num)
    norm_num at h ⊢
    exact h
  have hhalf : Binary64.round (1 / 2) = 1 / 2 := by
    have h := Binary64.round_of_significand 1 (-1) (by norm_num)
    norm_num at h ⊢
    exact h
  have hsum : Binary64.round (3 / 4) = 3 / 4 := by
    have h := Binary64.round_of_significand 3 (-2) (by norm_num)
    norm_num at h ⊢
    exact h
  show (ReputationLedger.recordSuccess Binary64.round ⟨1 / 2, ∅⟩ (.replicate 32 1)).scores.lookup
    _ = _
  unfold ReputationLedger.recordSuccess ReputationLedger.update
  rw [AList.lookup_insert]
  have hprev : ReputationLedger.score ⟨1 / 2, ∅⟩ (.replicate 32 1) = 1 / 2 := rfl
  rw [hprev, show (1 / 2 * (1 / 2) : ℚ) = 1 / 4 by norm_num,
    show (1 - 1 / 2 : ℚ) = 1 / 2 by norm_num, hquarter, hhalf, mul_one, hhalf,
    show (1 / 4 + 1 / 2 : ℚ) = 3 / 4 by norm_num, hsum]
  norm_num [ReputationLedger.clamp01]

/-- **A relay that skips probation**: it is admitted after one success, and is eligible at
once. -/
theorem skips_probation_checksum :
    seen.roster.isAdmitted (.replicate 32 1) = false ∧
      (seen.roster.admission checksumSha3 seen.policy 100 (checksumCall 1)).1 = .ok () ∧
      probationary < (step Binary64.round silent checksumSha3 seen
        (.admission (checksumCall 1) 100)).policy.ledger.score (.replicate 32 1) ∧
      (step Binary64.round silent checksumSha3 seen
        (.admission (checksumCall 1) 100)).policy.isEligible (.replicate 32 1)
          defaultPathReputationFloor = true := by
  have hout : seen.roster.isAdmitted (checksumCall 1).record.id = false := by decide +kernel
  have hok : (seen.roster.admission checksumSha3 seen.policy 100 (checksumCall 1)).1 = .ok () := by
    decide +kernel
  have hentry := entry_of_admitted Binary64.round silent checksumSha3 hout hok
  have hid : (checksumCall 1).record.id = .replicate 32 1 := rfl
  rw [hid, entry_seen, Option.getD_some] at hentry
  have hscore := score_of_entry hentry
  refine ⟨hout, hok, ?_, ?_⟩
  · rw [hscore]
    norm_num [probationary]
  · unfold RelayPruningPolicy.isEligible
    rw [hscore]
    norm_num [defaultPathReputationFloor]

end Probation

end Aegis
