import Aegis.Relay.CoverFlow

/-!
# What a round's end owes (`cover_flow.rs`, `cover.rs`)

A run of a tracker, seen from outside: the round that is open is the last one begun and not closed,
and what it has observed is the number of real flows since.  The tracker's count is that number, but
the negotiator cuts it to 32 bits before it subtracts.

* `Tracks.step`, `tracks_run` — the tracker follows the round and its count.
* `matched_of_run` — **in matched mode the volume does not depend on what is observed.**
* `accounts_iff` — **when a round's end emits what the round lacks.**
-/

namespace Aegis

open Buffer

section Accounting

variable {ρ : Type} (C : Suite ρ)

/-! ## Runs -/

/-- What happens to a tracker. -/
inductive RoundEvent where
  | begin (dial : SecurityDial) (requirement : CoverRequirement)
  | observe
  | close (config : CoverFlowConfig C) (rng : ρ)

variable {C}

/-- The last round that was begun, unless it is closed. -/
def openRound (events : List (RoundEvent C)) : Option (SecurityDial × CoverRequirement) :=
  events.foldl (fun open_ event =>
    match event with
    | .begin dial requirement => some (dial, requirement)
    | .observe => open_
    | .close _ _ => none) none

/-- How often `observe_real_flow` was called since the last `begin`. -/
def observedFlows (events : List (RoundEvent C)) : ℕ :=
  events.foldl (fun observed event =>
    match event with
    | .begin _ _ => 0
    | .observe => observed + 1
    | .close _ _ => observed) 0

/-- What an L2 round lacks to its target, and nothing without one. -/
def missingFlows (events : List (RoundEvent C)) : ℕ :=
  match openRound events with
  | some (.l2UniformBatched, requirement) =>
    requirement.targetFlowCount.toNat - observedFlows events
  | _ => 0

namespace BulkRoundTracker

variable (mlkemGenerate : MlKemGenerate C)

/-- What each event does. -/
def step (t : BulkRoundTracker) : RoundEvent C → BulkRoundTracker
  | .begin dial requirement => t.begin dial requirement
  | .observe => t.observeRealFlow
  | .close config rng => (closeAndEmit C mlkemGenerate config t rng).1.2

/-- One event after another, from no round. -/
def run (events : List (RoundEvent C)) : BulkRoundTracker :=
  events.foldl (step mlkemGenerate) new

/-- The tracker holds the open round and what it has observed, and nothing without one. -/
structure Tracks (events : List (RoundEvent C)) (t : BulkRoundTracker) : Prop where
  inactive : openRound events = none → t.active = false ∧ t.realFlowCount = 0
  active : ∀ dial requirement, openRound events = some (dial, requirement) →
    t = ⟨true, dial, requirement, observedFlows events⟩

/-- A closed tracker has an empty count. -/
theorem closed_closeAndEmit (config : CoverFlowConfig C) (rng : ρ) {t : BulkRoundTracker}
    (h : t.active = false → t.realFlowCount = 0) :
    (closeAndEmit C mlkemGenerate config t rng).1.2.active = false ∧
      (closeAndEmit C mlkemGenerate config t rng).1.2.realFlowCount = 0 := by
  refine ⟨active_closeAndEmit mlkemGenerate rng, ?_⟩
  unfold closeAndEmit
  dsimp only
  split_ifs with hactive
  · exact h hactive
  · rfl
  · rfl
  · rfl

namespace Tracks

variable {mlkemGenerate} {events : List (RoundEvent C)} {t : BulkRoundTracker}

theorem count_of_inactive (h : Tracks events t) (hactive : t.active = false) :
    t.realFlowCount = 0 := by
  cases hround : openRound events with
  | none => exact (h.inactive hround).2
  | some round =>
    rw [h.active round.1 round.2 hround] at hactive
    cases hactive

/-- **Every operation follows the round.** -/
theorem step (h : Tracks events t) (event : RoundEvent C) :
    Tracks (events ++ [event]) (BulkRoundTracker.step mlkemGenerate t event) := by
  cases event with
  | begin dial requirement =>
    have hopen : openRound (events ++ [.begin dial requirement]) = some (dial, requirement) := by
      simp [openRound]
    have hnone : observedFlows (events ++ [.begin dial requirement]) = 0 := by
      simp [observedFlows]
    constructor
    · intro hround
      rw [hopen] at hround
      cases hround
    · intro dial' requirement' hround
      rw [hopen] at hround
      cases hround
      rw [hnone]
      rfl
  | observe =>
    have hopen : openRound (events ++ [.observe]) = openRound events := by
      simp [openRound]
    have hmore : observedFlows (events ++ [.observe]) = observedFlows events + 1 := by
      simp [observedFlows]
    constructor
    · intro hround
      rw [hopen] at hround
      obtain ⟨hactive, hcount⟩ := h.inactive hround
      show (observeRealFlow t).active = false ∧ (observeRealFlow t).realFlowCount = 0
      unfold observeRealFlow
      rw [if_neg (by simp [hactive])]
      exact ⟨hactive, hcount⟩
    · intro dial requirement hround
      rw [hopen] at hround
      rw [hmore, h.active dial requirement hround]
      rfl
  | close config rng =>
    have hopen : openRound (events ++ [.close config rng]) = none := by
      simp [openRound]
    constructor
    · intro _
      exact closed_closeAndEmit mlkemGenerate config rng h.count_of_inactive
    · intro dial requirement hround
      rw [hopen] at hround
      cases hround

end Tracks

theorem tracks_run (events : List (RoundEvent C)) : Tracks events (run mlkemGenerate events) := by
  induction events using List.reverseRecOn with
  | nil =>
    refine ⟨fun _ => ⟨rfl, rfl⟩, fun dial requirement hround => ?_⟩
    cases hround
  | append_singleton events event ih =>
    unfold run at ih ⊢
    rw [List.foldl_append]
    exact ih.step event

/-! ## What is emitted -/

/-- The cells of some flows. -/
def cellCount (flows : List CoverFlow) : ℕ := (flows.map fun flow => flow.cells.length).sum

theorem cellCount_eq {flows : List CoverFlow} {n : ℕ} (h : ∀ flow ∈ flows, flow.cells.length = n) :
    cellCount flows = flows.length * n := by
  unfold cellCount
  rw [List.map_congr_left h, List.map_const', List.sum_replicate, smul_eq_mul]

section Emit

variable {mlkemGenerate} {config : CoverFlowConfig C} {t : BulkRoundTracker} {rng : ρ}

theorem emitted_of_inactive (h : t.active = false) :
    emitted (closeAndEmit C mlkemGenerate config t rng).1.1 = [] := by
  unfold closeAndEmit
  rw [if_pos h]
  rfl

/-- Neither mode plans a peelable flow. -/
theorem planCoverEmit_local (hmode : config.multihopDefense = .baselineLocalDiscard ∨
      config.multihopDefense = .matchedLocalDiscard) (dial : SecurityDial) (real : ℕ)
    (target : UInt32) :
    ∃ discarded, planCoverEmit config.multihopDefense dial real target config.matchedCoverFlows
      config.coverOnionFlows = ⟨discarded, 0, 0⟩ := by
  unfold planCoverEmit
  split_ifs
  · exact ⟨_, rfl⟩
  · rcases hmode with hmode | hmode <;> rw [hmode] <;> exact ⟨_, rfl⟩

/-- **Every flow has its cells.** -/
theorem length_cells_of_mem_emitted (hmode : config.multihopDefense = .baselineLocalDiscard ∨
      config.multihopDefense = .matchedLocalDiscard) :
    ∀ flow ∈ emitted (closeAndEmit C mlkemGenerate config t rng).1.1,
      flow.cells.length = config.cellsPerFlow := by
  intro flow hflow
  by_cases hactive : t.active = true
  · rw [emitted_closeAndEmit mlkemGenerate rng hactive] at hflow
    obtain ⟨discarded, hplan⟩ := planCoverEmit_local hmode t.dial t.realFlowCount
      t.requirement.targetFlowCount
    split_ifs at hflow
    · exact (generatePlan_of_no_peelable C mlkemGenerate rng hplan).2 flow hflow
    · cases hflow
  · rw [emitted_of_inactive (by simpa using hactive)] at hflow
    cases hflow

/-- **Matched mode emits the same flows** at the end of every L2 round. -/
theorem length_emitted_matched (hmatched : config.multihopDefense = .matchedLocalDiscard)
    (hactive : t.active = true) :
    (emitted (closeAndEmit C mlkemGenerate config t rng).1.1).length =
      if t.dial = .l2UniformBatched then config.matchedCoverFlows.toNat else 0 := by
  rw [emitted_closeAndEmit mlkemGenerate rng hactive]
  unfold shouldEmit
  rw [hmatched]
  by_cases hdial : t.dial = .l2UniformBatched
  · have hplan : planCoverEmit .matchedLocalDiscard .l2UniformBatched t.realFlowCount
        t.requirement.targetFlowCount config.matchedCoverFlows config.coverOnionFlows =
          ⟨config.matchedCoverFlows.toNat, 0, 0⟩ := rfl
    rw [hdial, hplan, if_pos rfl]
    split_ifs with hemit
    · exact (generatePlan_of_no_peelable C mlkemGenerate rng (by rw [hmatched]; exact hplan)).1
    · have hempty : CoverEmitPlan.isEmpty ⟨config.matchedCoverFlows.toNat, 0, 0⟩ = true := by
        simpa using hemit
      have hzero := of_decide_eq_true hempty
      unfold CoverEmitPlan.totalFlows at hzero
      dsimp only at hzero
      have hlt := config.matchedCoverFlows.toNat_lt
      simp only [List.length_nil]
      omega
  · simp [hdial]

end Emit

/-! ## The account of a run -/

section Run

/-- The round's end that follows a run. -/
def closeRun (events : List (RoundEvent C)) (config : CoverFlowConfig C) (rng : ρ) :
    Option CoverEmitResult × BulkRoundTracker :=
  (closeAndEmit C mlkemGenerate config (run mlkemGenerate events) rng).1

/-- The round's end emits what the round lacks and leaves the tracker empty, and in matched mode its
volume is that of any other run with the same round. -/
structure Accounts (events : List (RoundEvent C)) (config : CoverFlowConfig C) (rng : ρ) : Prop where
  baseline : config.multihopDefense = .baselineLocalDiscard →
    (emitted (closeRun mlkemGenerate events config rng).1).length = missingFlows events ∧
      ∀ flow ∈ emitted (closeRun mlkemGenerate events config rng).1,
        flow.cells.length = config.cellsPerFlow
  closed : (closeRun mlkemGenerate events config rng).2.active = false ∧
    (closeRun mlkemGenerate events config rng).2.realFlowCount = 0
  matched : config.multihopDefense = .matchedLocalDiscard →
    ∀ (events' : List (RoundEvent C)) (rng' : ρ), openRound events' = openRound events →
      (emitted (closeRun mlkemGenerate events' config rng').1).length =
          (emitted (closeRun mlkemGenerate events config rng).1).length ∧
        cellCount (emitted (closeRun mlkemGenerate events' config rng').1) =
          cellCount (emitted (closeRun mlkemGenerate events config rng).1)

variable {config : CoverFlowConfig C}

/-- The flows of a matched round's end depend on the round that is open. -/
theorem length_emitted_matched_run (hmatched : config.multihopDefense = .matchedLocalDiscard)
    (events : List (RoundEvent C)) (rng : ρ) :
    (emitted (closeRun mlkemGenerate events config rng).1).length =
      match openRound events with
      | some (.l2UniformBatched, _) => config.matchedCoverFlows.toNat
      | _ => 0 := by
  have htracks := tracks_run mlkemGenerate events
  unfold closeRun
  cases hround : openRound events with
  | none =>
    rw [emitted_of_inactive (htracks.inactive hround).1]
    rfl
  | some round =>
    obtain ⟨dial, requirement⟩ := round
    have ht := htracks.active dial requirement hround
    rw [length_emitted_matched hmatched (by rw [ht]), ht]
    cases dial <;> rfl

/-- **The volume does not depend on what is observed**, in matched mode. -/
theorem matched_of_run (hmatched : config.multihopDefense = .matchedLocalDiscard)
    {events events' : List (RoundEvent C)} (h : openRound events' = openRound events)
    (rng rng' : ρ) :
    (emitted (closeRun mlkemGenerate events' config rng').1).length =
        (emitted (closeRun mlkemGenerate events config rng).1).length ∧
      cellCount (emitted (closeRun mlkemGenerate events' config rng').1) =
        cellCount (emitted (closeRun mlkemGenerate events config rng).1) := by
  have hlength : (emitted (closeRun mlkemGenerate events' config rng').1).length =
      (emitted (closeRun mlkemGenerate events config rng).1).length := by
    rw [length_emitted_matched_run mlkemGenerate hmatched,
      length_emitted_matched_run mlkemGenerate hmatched, h]
  refine ⟨hlength, ?_⟩
  unfold closeRun at hlength ⊢
  rw [cellCount_eq (length_cells_of_mem_emitted (Or.inr hmatched)),
    cellCount_eq (length_cells_of_mem_emitted (Or.inr hmatched)), hlength]

/-- What a baseline round's end emits: the observed flows are cut to 32 bits. -/
theorem length_emitted_baseline_run (hbaseline : config.multihopDefense = .baselineLocalDiscard)
    (events : List (RoundEvent C)) (rng : ρ) :
    (emitted (closeRun mlkemGenerate events config rng).1).length =
      match openRound events with
      | some (.l2UniformBatched, requirement) =>
        requiredCoverFlowCount (observedFlows events) requirement.targetFlowCount
      | _ => 0 := by
  have htracks := tracks_run mlkemGenerate events
  unfold closeRun
  cases hround : openRound events with
  | none =>
    rw [emitted_of_inactive (htracks.inactive hround).1]
    rfl
  | some round =>
    obtain ⟨dial, requirement⟩ := round
    have ht := htracks.active dial requirement hround
    rw [length_emitted_closeAndEmit mlkemGenerate rng hbaseline (by rw [ht]), ht]
    cases dial <;> rfl

/-- The cut changes nothing below `2 ^ 32`, nor if what is left still reaches the target. -/
theorem requiredCoverFlowCount_eq_iff (real : ℕ) (target : UInt32) :
    requiredCoverFlowCount real target = target.toNat - real ↔
      real < 2 ^ 32 ∨ target.toNat ≤ real % 2 ^ 32 := by
  have hlt := target.toNat_lt
  unfold requiredCoverFlowCount
  omega

/-- **When a round's end emits what the round lacks.**  For every run, every way to make cover and
every target: if and only if, in baseline mode with an L2 round open, fewer than `2 ^ 32` flows were
observed, or as many as reach the target modulo `2 ^ 32`. -/
theorem accounts_iff (events : List (RoundEvent C)) (config : CoverFlowConfig C) (rng : ρ) :
    Accounts mlkemGenerate events config rng ↔
      (config.multihopDefense = .baselineLocalDiscard →
        ∀ requirement, openRound events = some (.l2UniformBatched, requirement) →
          observedFlows events < 2 ^ 32 ∨
            requirement.targetFlowCount.toNat ≤ observedFlows events % 2 ^ 32) := by
  constructor
  · intro h hbaseline requirement hround
    have hlength := (h.baseline hbaseline).1
    rw [length_emitted_baseline_run mlkemGenerate hbaseline, missingFlows, hround] at hlength
    exact (requiredCoverFlowCount_eq_iff _ _).mp hlength
  · intro h
    refine ⟨fun hbaseline => ⟨?_, ?_⟩, ?_, fun hmatched events' rng' hround => ?_⟩
    · rw [length_emitted_baseline_run mlkemGenerate hbaseline, missingFlows]
      cases hround : openRound events with
      | none => rfl
      | some round =>
        obtain ⟨dial, requirement⟩ := round
        cases dial with
        | l0Raw => rfl
        | l1Bucketed => rfl
        | l2UniformBatched =>
          exact (requiredCoverFlowCount_eq_iff _ _).mpr (h hbaseline requirement hround)
    · exact length_cells_of_mem_emitted (Or.inl hbaseline)
    · exact closed_closeAndEmit mlkemGenerate config rng
        (tracks_run mlkemGenerate events).count_of_inactive
    · exact matched_of_run mlkemGenerate hmatched hround rng rng'

end Run

end BulkRoundTracker

end Accounting

/-! ## A round of too many flows -/

namespace BulkRoundTracker

theorem observed_replicate (dial : SecurityDial) (requirement : CoverRequirement) (n : ℕ) :
    openRound (.begin dial requirement :: List.replicate n .observe :
        List (RoundEvent checksumSuite)) = some (dial, requirement) ∧
      observedFlows (.begin dial requirement :: List.replicate n .observe :
        List (RoundEvent checksumSuite)) = n := by
  induction n with
  | zero => exact ⟨rfl, rfl⟩
  | succ n ih =>
    rw [List.replicate_succ', ← List.cons_append]
    unfold openRound observedFlows at ih ⊢
    rw [List.foldl_append, List.foldl_append, ih.1, ih.2]
    exact ⟨rfl, rfl⟩

/-- A round that has observed `n` flows, of target one. -/
def longRound (n : ℕ) : List (RoundEvent checksumSuite) :=
  .begin .l2UniformBatched ⟨1⟩ :: List.replicate n .observe

theorem close_longRound (n : ℕ) :
    missingFlows (longRound n) = 1 - n ∧
      (emitted (closeRun (fun r => ((r, r), r)) (longRound n) (.default checksumSuite) 17).1).length =
        requiredCoverFlowCount n 1 := by
  obtain ⟨hround, hobserved⟩ := observed_replicate .l2UniformBatched ⟨1⟩ n
  unfold longRound
  rw [length_emitted_baseline_run _ rfl, missingFlows, hround, hobserved]
  exact ⟨rfl, rfl⟩

/-- After `2 ^ 32` real flows a round of target one is padded with one more. -/
theorem not_accounts_overflow :
    ¬Accounts (fun r => ((r, r), r)) (longRound (2 ^ 32)) (.default checksumSuite) 17 := by
  intro h
  obtain ⟨hmissing, hemitted⟩ := close_longRound (2 ^ 32)
  have hlength := (h.baseline rfl).1
  rw [hmissing, hemitted] at hlength
  exact absurd hlength (by decide)

end BulkRoundTracker

end Aegis
