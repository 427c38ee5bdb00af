import Aegis.Lib.SlidingWindow
import Aegis.Topology.Admission

/-!
# The admission rate limit (`roster.rs`)

The roster's timestamps are those of a sliding window, over any calls of the four entry points and
any removals.  Each call brings the policy it is made with.

* `admissions_rate_limited` — no window holds more new admissions than the policy allows, and what
  is refused or not new takes no quota.
-/

namespace Aegis

open Buffer

namespace RelayRoster

/-! ## Timestamps as times -/

/-- The admissions that are kept, in seconds. -/
def times (roster : RelayRoster) : List ℕ := roster.admissionTimestamps.map UInt64.toNat

/-- The policy's window, in seconds. -/
def width (roster : RelayRoster) : ℕ := roster.admissionPolicy.windowSecs.toNat

theorem map_toNat_recent (roster : RelayRoster) (now : UInt64) :
    (roster.admissionTimestamps.filter fun t => roster.cutoff now ≤ t).map UInt64.toNat =
      SlidingWindow.recent roster.width roster.times now.toNat := by
  unfold SlidingWindow.recent times
  rw [List.filter_map]
  refine congrArg _ (List.filter_congr fun t _ => ?_)
  show decide _ = decide _
  rw [decide_eq_decide, UInt64.le_iff_toNat_le, cutoff, toNat_saturatingSub]
  rfl

/-- There is room in the window that ends now. -/
theorem room_of_check {roster : RelayRoster} {now : UInt64}
    (h : roster.checkAdmissionRateLimit now = .ok ()) :
    (SlidingWindow.recent roster.width roster.times now.toNat).length <
      roster.admissionPolicy.maxAdmissionsPerWindow := by
  unfold checkAdmissionRateLimit at h
  dsimp only at h
  split_ifs at h with hfull
  rw [← map_toNat_recent, List.length_map]
  exact not_le.mp hfull

theorem times_recordAdmission (roster : RelayRoster) (now : UInt64) :
    (roster.recordAdmission now).times =
      SlidingWindow.record roster.width roster.times now.toNat := by
  unfold SlidingWindow.record
  rw [← map_toNat_recent]
  simp only [times, recordAdmission, List.map_append, List.map_cons, List.map_nil]

/-! ## Runs -/

variable {SK VK D : Type} (E : Ed25519 SK VK)

/-- An operation on the roster. -/
inductive RosterOp (E : Ed25519 SK VK) (D : Type) where
  /-- An entry point is called, with this policy. -/
  | admission (call : Admission E) (policy : RelayPruningPolicy D)
  | remove (id : RelayId)

/-- An operation, and what the clock reads. -/
structure TimedOp (E : Ed25519 SK VK) (D : Type) where
  now : UInt64
  op : RosterOp E D

variable {E} (sha3 : List UInt8 → Bytes 32)

/-- What an operation makes of the roster. -/
def step (roster : RelayRoster) (s : TimedOp E D) : RelayRoster :=
  match s.op with
  | .admission call policy => (roster.admission sha3 policy s.now call).2.1
  | .remove id => (roster.remove id).1

/-- The time of the operation, if it admits an id that is not on the roster. -/
def newAdmission (roster : RelayRoster) (s : TimedOp E D) : List ℕ :=
  match s.op with
  | .admission call policy =>
    if (roster.admission sha3 policy s.now call).1 = .ok () ∧
        roster.isAdmitted call.record.id = false then [s.now.toNat]
    else []
  | .remove _ => []

/-- The new admissions of a run, in order. -/
def newAdmissions (roster : RelayRoster) : List (TimedOp E D) → List ℕ
  | [] => []
  | s :: steps => newAdmission sha3 roster s ++ newAdmissions (step sha3 roster s) steps

/-! ## The invariant -/

/-- The timestamps are those of a sliding window over the new admissions so far. -/
def Limited (policy : RosterAdmissionPolicy) (clock : ℕ) (log : List ℕ) (roster : RelayRoster) :
    Prop :=
  roster.admissionPolicy = policy ∧
    SlidingWindow.Inv policy.windowSecs.toNat policy.maxAdmissionsPerWindow clock log roster.times

/-- Operations change the timestamps by a new admission only. -/
theorem Limited.step {policy : RosterAdmissionPolicy} {clock : ℕ} {log : List ℕ}
    {roster : RelayRoster} (h : Limited policy clock log roster) {s : TimedOp E D}
    (hclock : clock ≤ s.now.toNat) :
    Limited policy s.now.toNat (log ++ newAdmission sha3 roster s)
      (RelayRoster.step sha3 roster s) := by
  obtain ⟨rfl, hinv⟩ := h
  unfold RelayRoster.step newAdmission
  cases hop : s.op with
  | remove id =>
    rw [List.append_nil]
    exact ⟨rfl, hinv.mono hclock⟩
  | admission call p =>
    have hcases := admit_cases sha3 roster p s.now call
    show Limited _ _ (log ++ if _ then _ else _) (roster.admission sha3 p s.now call).2.1
    generalize roster.admission sha3 p s.now call = result at hcases ⊢
    cases hcases with
    | refused e =>
      have hold : ¬((.error e : Except RosterError Unit) = .ok () ∧
          roster.isAdmitted call.record.id = false) := fun hnew => by cases hnew.1
      rw [if_neg hold, List.append_nil]
      exact ⟨rfl, hinv.mono hclock⟩
    | again signed hrecord hin =>
      have hold : ¬((.ok () : Except RosterError Unit) = .ok () ∧
          roster.isAdmitted call.record.id = false) := fun hnew => by simp [hin] at hnew
      rw [if_neg hold, List.append_nil]
      exact ⟨rfl, hinv.mono hclock⟩
    | new signed hrecord hout hroom =>
      rw [if_pos ⟨rfl, hout⟩]
      refine ⟨rfl, ?_⟩
      show SlidingWindow.Inv _ _ _ _ (roster.recordAdmission s.now).times
      rw [times_recordAdmission]
      exact hinv.record hclock (room_of_check hroom)

theorem Limited.run {policy : RosterAdmissionPolicy} {clock : ℕ} {log : List ℕ}
    {roster : RelayRoster} (h : Limited policy clock log roster) {steps : List (TimedOp E D)}
    (hle : ∀ s ∈ steps, clock ≤ s.now.toNat)
    (hclock : steps.Pairwise fun s s' => s.now ≤ s'.now) :
    ∃ clock', Limited policy clock' (log ++ newAdmissions sha3 roster steps)
      (steps.foldl (RelayRoster.step sha3) roster) := by
  induction steps generalizing clock log roster with
  | nil =>
    refine ⟨clock, ?_⟩
    rw [newAdmissions, List.append_nil]
    exact h
  | cons s steps ih =>
    obtain ⟨hfirst, hrest⟩ := List.pairwise_cons.mp hclock
    have hstep := h.step sha3 (hle s List.mem_cons_self)
    have hlater : ∀ s' ∈ steps, s.now.toNat ≤ s'.now.toNat :=
      fun s' hs' => UInt64.le_iff_toNat_le.mp (hfirst s' hs')
    rw [newAdmissions, ← List.append_assoc]
    exact ih hstep hlater hrest

/-! ## The theorem -/

/-- **The admission rate limit.**  When the clock does not go back, no window of the policy's
length holds more admissions of new ids than the policy allows; a call for an id on the roster
leaves the timestamps as they are; and a call that is refused leaves the roster, with its
timestamps, and the policy, with its ledger, as they are. -/
theorem admissions_rate_limited (sha3 : List UInt8 → Bytes 32) (roster : RelayRoster)
    (steps : List (TimedOp E D)) (hclock : steps.Pairwise fun s s' => s.now ≤ s'.now) :
    (∀ start, ((newAdmissions sha3 roster steps).filter fun t =>
        start ≤ t ∧ t ≤ start + roster.admissionPolicy.windowSecs.toNat).length ≤
          roster.admissionPolicy.maxAdmissionsPerWindow) ∧
      ∀ (r : RelayRoster) (policy : RelayPruningPolicy D) (now : UInt64) (call : Admission E),
        (r.isAdmitted call.record.id = true →
          (r.admission sha3 policy now call).2.1.admissionTimestamps = r.admissionTimestamps) ∧
        ∀ e, (r.admission sha3 policy now call).1 = .error e →
          (r.admission sha3 policy now call).2 = (r, policy) := by
  refine ⟨fun start => ?_, fun r policy now call => ?_⟩
  · have hstart : Limited roster.admissionPolicy 0 [] roster :=
      ⟨rfl, SlidingWindow.Inv.nil _ _ _ _⟩
    obtain ⟨clock, -, hinv⟩ := hstart.run sha3 (fun s _ => Nat.zero_le _) hclock
    exact hinv.bound start
  · have hcases := admit_cases sha3 r policy now call
    generalize r.admission sha3 policy now call = result at hcases ⊢
    cases hcases with
    | refused e => exact ⟨fun _ => rfl, fun _ _ => rfl⟩
    | again signed hrecord hin => exact ⟨fun _ => rfl, fun e he => by cases he⟩
    | new signed hrecord hout hroom =>
      exact ⟨fun hin => by simp [hout] at hin, fun e he => by cases he⟩

/-! ### Two relays in one window -/

/-- The authority with key 1 has signed a record of relay `n`. -/
def checksumCall (n : UInt8) : Admission HealthQuorumLog.checksumEd25519 :=
  .signed (signRecord HealthQuorumLog.checksumEd25519 1
    ⟨.replicate 32 n, "US", .replicate 32 5⟩) 1

/-- A policy that nothing was recorded with. -/
def checksumPolicy : RelayPruningPolicy Unit := .withLedger ⟨1 / 2, ∅⟩ (1 / 8) 3

/-- A roster that admits one relay in ten seconds. -/
def oneInTen : RelayRoster := { new with admissionPolicy := ⟨1, 10, false⟩ }

theorem admissions_rate_limited_checksum :
    ((newAdmissions (fun _ => .replicate 32 0) oneInTen
        [⟨100, .admission (checksumCall 1) checksumPolicy⟩,
          ⟨105, .admission (checksumCall 2) checksumPolicy⟩]).filter fun t =>
      100 ≤ t ∧ t ≤ 100 + 10).length ≤ 1 :=
  (admissions_rate_limited (fun _ => .replicate 32 0) oneInTen _
    (List.pairwise_pair.mpr (by decide))).1 100

end RelayRoster

end Aegis
