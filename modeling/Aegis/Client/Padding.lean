import Mathlib.Tactic

/-!
# Hard-cap receiver padding (`padding.rs`)

Every round releases at most `q` of the cells that have arrived, first in first out, and fills up
with dummies.  What is left waits for the next round.  The batch analysis computes the waiting
times from the counts alone.  Doubles are exact rationals.

* `releaseSlots_eq` — the slots of a round, and what is left.
* `Padding.rounds_released`, `Padding.rounds_backlog`, `Padding.rounds_deferral` — a run of rounds.
* `Padding.hard_cap` — what an observer sees, what comes out, and how long it waits.
-/

namespace Aegis

/-- `HardCapConfig`: observable deliveries per round. -/
structure HardCapConfig where
  q : UInt32

/-- One observable delivery slot. -/
inductive DeliverySlot (T : Type) where
  | real (item : T)
  | dummy
  deriving DecidableEq

/-- The slot carries a message, not a dummy. -/
def DeliverySlot.isReal {T : Type} : DeliverySlot T → Bool
  | real _ => true
  | dummy => false

/-- The item of a slot. -/
def DeliverySlot.item {T : Type} : DeliverySlot T → Option T
  | real item => some item
  | dummy => none

/-- What a round delivers, slot by slot. -/
structure RoundOutput (T : Type) where
  round : UInt64
  slots : List (DeliverySlot T)
  realCount : UInt32
  dummyCount : UInt32

/-- How many slots an observer sees. -/
def RoundOutput.observableCount {T : Type} (o : RoundOutput T) : UInt32 :=
  UInt32.ofNat o.slots.length

/-- The padder: what is pending, and its counts. -/
structure HardCapPadder (T : Type) where
  config : HardCapConfig
  pending : List T
  round : UInt64
  deferralSlots : ℚ
  lastRealCount : UInt32
  lastDummyCount : UInt32

/-! ## A round -/

/-- The loop of `round_tick`, `n` times. -/
def releaseSlots {T : Type} : ℕ → List T → List (DeliverySlot T) × List T
  | 0, pending => ([], pending)
  | n + 1, item :: pending =>
    let (slots, rest) := releaseSlots n pending
    (.real item :: slots, rest)
  | n + 1, [] =>
    let (slots, rest) := releaseSlots n []
    (.dummy :: slots, rest)

namespace HardCapPadder

variable {T : Type}

/-- A padder with nothing pending. -/
def new (config : HardCapConfig) : HardCapPadder T := ⟨config, [], 0, 0, 0, 0⟩

/-- A message waits for a round. -/
def deliverReal (p : HardCapPadder T) (item : T) : HardCapPadder T :=
  { p with pending := p.pending ++ [item] }

/-- How many messages wait. -/
def backlog (p : HardCapPadder T) : ℕ := p.pending.length

/-- A round: it delivers what is pending up to the cap, and dummies in the slots that are left. -/
def roundTick (p : HardCapPadder T) : RoundOutput T × HardCapPadder T :=
  let q := p.config.q.toNat
  let (slots, pending) := releaseSlots q p.pending
  let realCount := UInt32.ofNat (slots.countP DeliverySlot.isReal)
  let dummyCount := p.config.q - realCount
  (⟨p.round, slots, realCount, dummyCount⟩,
    { p with
      pending, lastRealCount := realCount, lastDummyCount := dummyCount
      deferralSlots := pending.length / q
      round := p.round + 1 })

end HardCapPadder

/-! ## The batch analysis -/

/-- What the analysis returns. -/
structure HardCapStats where
  cap : ℚ
  meanDeferral : ℚ
  p99Deferral : ℚ
  stable : Bool

/-- The mean of a list of numbers, zero for none. -/
def meanOf (values : List ℚ) : ℚ := if values = [] then 0 else values.sum / values.length

/-- The value that stands at `p` percent of the sorted list, zero for none. -/
def percentile (values : List ℚ) (p : ℚ) : ℚ :=
  if values = [] then 0
  else
    let sorted := values.insertionSort (· ≤ ·)
    let idx := ⌊p / 100 * (sorted.length - 1) + 1 / 2⌋₊
    sorted.getD (min idx (sorted.length - 1)) 0

/-- The loop of `analyze_hard_cap`: the backlog after each round, in caps. -/
def hardCapDeferrals (cap : ℚ) : ℚ → List ℚ → List ℚ
  | _, [] => []
  | backlog, x :: counts =>
    let backlog := backlog + x
    let backlog := backlog - min backlog cap
    (if 0 < cap then backlog / cap else 0) :: hardCapDeferrals cap backlog counts

/-- How long messages wait under a cap of `c` times their mean number, given their number by round.
-/
def analyzeHardCap (counts : List ℚ) (c : ℚ) : HardCapStats :=
  let m := meanOf counts
  let cap := c * m
  let lat := hardCapDeferrals cap 0 counts
  ⟨cap, meanOf lat, percentile lat 99, decide (m < cap)⟩

/-! ## What a round does -/

section Round

variable {T : Type}

/-- **The slots of a round**: what has waited longest, then dummies. -/
theorem releaseSlots_eq (n : ℕ) (pending : List T) :
    releaseSlots n pending =
      ((pending.take n).map .real ++ List.replicate (n - pending.length) .dummy,
        pending.drop n) := by
  induction n generalizing pending with
  | zero => simp [releaseSlots]
  | succ n ih =>
    cases pending with
    | nil =>
      rw [releaseSlots, ih]
      simp [List.replicate_succ]
    | cons item pending =>
      rw [releaseSlots, ih]
      simp

namespace HardCapPadder

/-- The arrivals of a round. -/
def deliverAll (p : HardCapPadder T) (items : List T) : HardCapPadder T :=
  items.foldl deliverReal p

@[simp] theorem pending_deliverAll (p : HardCapPadder T) (items : List T) :
    (p.deliverAll items).pending = p.pending ++ items := by
  unfold deliverAll
  induction items generalizing p with
  | nil => simp
  | cons item items ih =>
    rw [List.foldl_cons, ih]
    simp [deliverReal]

@[simp] theorem config_deliverAll (p : HardCapPadder T) (items : List T) :
    (p.deliverAll items).config = p.config := by
  unfold deliverAll
  induction items generalizing p with
  | nil => rfl
  | cons item items ih =>
    rw [List.foldl_cons, ih]
    rfl

theorem slots_roundTick (p : HardCapPadder T) :
    p.roundTick.1.slots = (p.pending.take p.config.q.toNat).map .real ++
      List.replicate (p.config.q.toNat - p.pending.length) .dummy := by
  show (releaseSlots p.config.q.toNat p.pending).1 = _
  rw [releaseSlots_eq]

@[simp] theorem pending_roundTick (p : HardCapPadder T) :
    p.roundTick.2.pending = p.pending.drop p.config.q.toNat := by
  show (releaseSlots p.config.q.toNat p.pending).2 = _
  rw [releaseSlots_eq]

theorem deferralSlots_roundTick (p : HardCapPadder T) :
    p.roundTick.2.deferralSlots = p.roundTick.2.backlog / p.config.q.toNat := rfl

@[simp] theorem config_roundTick (p : HardCapPadder T) : p.roundTick.2.config = p.config := rfl

/-- **A round emits exactly its quota.** -/
theorem length_slots_roundTick (p : HardCapPadder T) :
    p.roundTick.1.slots.length = p.config.q.toNat := by
  rw [slots_roundTick, List.length_append, List.length_map, List.length_take, List.length_replicate]
  omega

theorem items_roundTick (p : HardCapPadder T) :
    p.roundTick.1.slots.filterMap DeliverySlot.item = p.pending.take p.config.q.toNat := by
  have hreal : ∀ l : List T, (l.map DeliverySlot.real).filterMap DeliverySlot.item = l := by
    intro l
    rw [List.filterMap_map]
    exact List.filterMap_some
  have hdummy : ∀ n, (List.replicate n (.dummy : DeliverySlot T)).filterMap DeliverySlot.item =
      [] := by
    intro n
    rw [List.filterMap_replicate_of_none rfl]
  rw [slots_roundTick, List.filterMap_append, hreal, hdummy, List.append_nil]

theorem realCount_roundTick (p : HardCapPadder T) :
    p.roundTick.1.realCount.toNat = min p.config.q.toNat p.pending.length := by
  have hcount : p.roundTick.1.slots.countP DeliverySlot.isReal =
      min p.config.q.toNat p.pending.length := by
    rw [slots_roundTick, List.countP_append, List.countP_map, List.countP_replicate]
    simp [Function.comp_def, DeliverySlot.isReal]
  show (UInt32.ofNat (p.roundTick.1.slots.countP DeliverySlot.isReal)).toNat = _
  rw [hcount]
  exact UInt32.toNat_ofNat_of_lt (lt_of_le_of_lt (min_le_left _ _) p.config.q.toNat_lt)

/-- The counts of a round add up to its quota. -/
theorem counts_roundTick (p : HardCapPadder T) :
    p.roundTick.1.realCount.toNat + p.roundTick.1.dummyCount.toNat = p.config.q.toNat := by
  have hle : p.roundTick.1.realCount ≤ p.config.q := by
    rw [UInt32.le_iff_toNat_le, realCount_roundTick]
    exact min_le_left _ _
  rw [show p.roundTick.1.dummyCount = p.config.q - p.roundTick.1.realCount from rfl,
    UInt32.toNat_sub_of_le _ _ hle]
  exact Nat.add_sub_cancel' (UInt32.le_iff_toNat_le.mp hle)

end HardCapPadder

end Round

/-! ## Runs of rounds -/

namespace Padding

variable {T : Type}

open HardCapPadder

/-- Round after round: the arrivals of each, what it emits and the padder after it. -/
def rounds (p : HardCapPadder T) : List (List T) → List (RoundOutput T × HardCapPadder T)
  | [] => []
  | items :: schedule =>
    (p.deliverAll items).roundTick :: rounds (p.deliverAll items).roundTick.2 schedule

/-- The padder at the end. -/
def final (p : HardCapPadder T) : List (List T) → HardCapPadder T
  | [] => p
  | items :: schedule => final (p.deliverAll items).roundTick.2 schedule

/-- The real cells that were emitted, in order. -/
def released (trace : List (RoundOutput T × HardCapPadder T)) : List T :=
  trace.flatMap fun r => r.1.slots.filterMap DeliverySlot.item

@[simp] theorem config_next (p : HardCapPadder T) (items : List T) :
    (p.deliverAll items).roundTick.2.config = p.config := by
  rw [config_roundTick, config_deliverAll]

theorem length_rounds (p : HardCapPadder T) (schedule : List (List T)) :
    (rounds p schedule).length = schedule.length := by
  induction schedule generalizing p with
  | nil => rfl
  | cons items schedule ih => rw [rounds, List.length_cons, List.length_cons, ih]

theorem length_slots_of_mem_rounds {p : HardCapPadder T} {schedule : List (List T)}
    {r : RoundOutput T × HardCapPadder T} (hr : r ∈ rounds p schedule) :
    r.1.slots.length = p.config.q.toNat := by
  induction schedule generalizing p with
  | nil => cases hr
  | cons items schedule ih =>
    rcases List.mem_cons.mp hr with rfl | hr
    · rw [length_slots_roundTick, config_deliverAll]
    · rw [ih hr, config_next]

/-- **Nothing is lost, duplicated or reordered**: what was emitted and what still waits are what
waited and arrived. -/
theorem rounds_released (p : HardCapPadder T) (schedule : List (List T)) :
    released (rounds p schedule) ++ (final p schedule).pending =
      p.pending ++ schedule.flatten := by
  induction schedule generalizing p with
  | nil => simp [rounds, final, released]
  | cons items schedule ih =>
    have hnext := ih (p.deliverAll items).roundTick.2
    unfold released at hnext ⊢
    rw [rounds, final, List.flatMap_cons, List.append_assoc, hnext, items_roundTick,
      pending_roundTick, ← List.append_assoc, List.take_append_drop, pending_deliverAll,
      List.flatten_cons, List.append_assoc]

/-- **The backlog**, after each round. -/
theorem rounds_backlog (p : HardCapPadder T) (schedule : List (List T)) :
    (p.backlog : ℤ) :: (rounds p schedule).map (fun r => (r.2.backlog : ℤ)) =
      (schedule.map fun items => (items.length : ℤ)).scanl
        (fun b a : ℤ => max 0 (b + a - p.config.q.toNat)) p.backlog := by
  induction schedule generalizing p with
  | nil => rfl
  | cons items schedule ih =>
    have hnext := ih (p.deliverAll items).roundTick.2
    have hbacklog : ((p.deliverAll items).roundTick.2.backlog : ℤ) =
        max 0 ((p.backlog : ℤ) + items.length - p.config.q.toNat) := by
      unfold backlog
      rw [pending_roundTick, pending_deliverAll, config_deliverAll, List.length_drop,
        List.length_append]
      omega
    rw [config_next, hbacklog] at hnext
    rw [rounds, List.map_cons, List.map_cons, List.scanl_cons, hbacklog, hnext]

/-- **The deferral**, after each round, is that of the batch analysis. -/
theorem rounds_deferral {p : HardCapPadder T} (hq : 0 < p.config.q.toNat)
    (schedule : List (List T)) :
    (rounds p schedule).map (fun r => r.2.deferralSlots) =
      hardCapDeferrals p.config.q.toNat p.backlog
        (schedule.map fun items => (items.length : ℚ)) := by
  induction schedule generalizing p with
  | nil => rfl
  | cons items schedule ih =>
    have hbacklog : ((p.deliverAll items).roundTick.2.backlog : ℚ) =
        p.backlog + items.length - min ((p.backlog : ℚ) + items.length) p.config.q.toNat := by
      unfold backlog
      rw [pending_roundTick, pending_deliverAll, config_deliverAll, List.length_drop,
        List.length_append]
      rcases le_total (p.pending.length + items.length) p.config.q.toNat with hle | hle
      · have hle' : (p.pending.length : ℚ) + items.length ≤ p.config.q.toNat := by
          exact_mod_cast hle
        rw [Nat.sub_eq_zero_of_le hle, min_eq_left hle', sub_self, Nat.cast_zero]
      · have hle' : (p.config.q.toNat : ℚ) ≤ (p.pending.length : ℚ) + items.length := by
          exact_mod_cast hle
        rw [min_eq_right hle', Nat.cast_sub hle, Nat.cast_add]
    have hcap : (0 : ℚ) < p.config.q.toNat := by exact_mod_cast hq
    have hnext := ih (p := (p.deliverAll items).roundTick.2) (by rw [config_next]; exact hq)
    rw [config_next, hbacklog] at hnext
    rw [rounds, List.map_cons, List.map_cons, hardCapDeferrals, hnext, deferralSlots_roundTick,
      hbacklog, if_pos hcap, config_deliverAll]

/-! ## The theorem -/

/-- **Hard-cap padding.**  Every round emits exactly the quota, so that the counts an observer sees
are the same for all schedules of as many rounds; the real cells emitted are those that arrived, in
order, as far as they do not still wait; the backlog is what exceeds the quota; and where the cap
of the batch analysis is the quota, its deferrals are those of the rounds. -/
theorem hard_cap (q : UInt32) (hq : 1 ≤ q) (schedule : List (List T)) :
    (∀ r ∈ rounds (new ⟨q⟩) schedule, r.1.slots.length = q.toNat) ∧
      released (rounds (new ⟨q⟩) schedule) <+: schedule.flatten ∧
      released (rounds (new ⟨q⟩) schedule) ++ (final (new ⟨q⟩) schedule).pending =
        schedule.flatten ∧
      0 :: (rounds (new ⟨q⟩) schedule).map (fun r => (r.2.backlog : ℤ)) =
        (schedule.map fun items => (items.length : ℤ)).scanl
          (fun b a : ℤ => max 0 (b + a - q.toNat)) 0 ∧
      (∀ schedule' : List (List T), schedule'.length = schedule.length →
        (rounds (new ⟨q⟩) schedule').map (fun r => r.1.observableCount) =
          (rounds (new ⟨q⟩) schedule).map fun r => r.1.observableCount) ∧
      ∀ c : ℚ, c * meanOf (schedule.map fun items => (items.length : ℚ)) = q.toNat →
        (rounds (new ⟨q⟩) schedule).map (fun r => r.2.deferralSlots) =
          hardCapDeferrals (c * meanOf (schedule.map fun items => (items.length : ℚ))) 0
            (schedule.map fun items => (items.length : ℚ)) ∧
        analyzeHardCap (schedule.map fun items => (items.length : ℚ)) c =
          { cap := q.toNat
            meanDeferral := meanOf ((rounds (new ⟨q⟩) schedule).map fun r => r.2.deferralSlots)
            p99Deferral :=
              percentile ((rounds (new ⟨q⟩) schedule).map fun r => r.2.deferralSlots) 99
            stable := decide
              (meanOf (schedule.map fun items => (items.length : ℚ)) < q.toNat) } := by
  have hslots : ∀ schedule : List (List T), ∀ r ∈ rounds (new ⟨q⟩) schedule,
      r.1.slots.length = q.toNat := fun schedule r hr => length_slots_of_mem_rounds hr
  have hcount : ∀ schedule : List (List T),
      (rounds (new ⟨q⟩) schedule).map (fun r => r.1.observableCount) =
        List.replicate schedule.length q := by
    intro schedule
    refine List.eq_replicate_iff.mpr ⟨?_, fun n hn => ?_⟩
    · rw [List.length_map, length_rounds]
    · obtain ⟨r, hr, rfl⟩ := List.mem_map.mp hn
      rw [RoundOutput.observableCount, hslots schedule r hr, UInt32.ofNat_toNat]
  have hreleased := rounds_released (new ⟨q⟩) schedule
  rw [show (new ⟨q⟩ : HardCapPadder T).pending = [] from rfl, List.nil_append] at hreleased
  refine ⟨hslots schedule, ⟨_, hreleased⟩, hreleased, rounds_backlog (new ⟨q⟩) schedule,
    fun schedule' hlength => ?_, fun c hcap => ?_⟩
  · rw [hcount, hcount, hlength]
  · have hdeferral := rounds_deferral (p := (new ⟨q⟩ : HardCapPadder T))
      (UInt32.le_iff_toNat_le.mp hq) schedule
    rw [show ((new ⟨q⟩ : HardCapPadder T).backlog : ℚ) = 0 from Nat.cast_zero] at hdeferral
    have hanalyze : ∀ counts : List ℚ, c * meanOf counts = q.toNat → analyzeHardCap counts c =
        ⟨q.toNat, meanOf (hardCapDeferrals q.toNat 0 counts),
          percentile (hardCapDeferrals q.toNat 0 counts) 99,
          decide (meanOf counts < q.toNat)⟩ := by
      intro counts hcounts
      show HardCapStats.mk (c * meanOf counts) (meanOf (hardCapDeferrals (c * meanOf counts) 0 counts))
        (percentile (hardCapDeferrals (c * meanOf counts) 0 counts) 99)
        (decide (meanOf counts < c * meanOf counts)) = _
      rw [hcounts]
    refine ⟨by rw [hcap, hdeferral]; rfl, ?_⟩
    rw [hanalyze _ hcap, hdeferral]
    rfl

/-- Three cells arrive at once, with a quota of two: a dummy is released in the second round, and
the batch analysis of the counts 3 and 0 with the factor 4/3 has the deferrals 1/2 and 0. -/
theorem hard_cap_two :
    released (rounds (new ⟨2⟩) [['a', 'b', 'c'], []]) = ['a', 'b', 'c'] ∧
      (rounds (new ⟨2⟩) [['a', 'b', 'c'], []]).map (fun r => r.1.observableCount) =
        (rounds (new ⟨2⟩) ([[], []] : List (List Char))).map (fun r => r.1.observableCount) ∧
      analyzeHardCap [3, 0] (4 / 3) =
        { cap := 2
          meanDeferral := meanOf ((rounds (new ⟨2⟩) [['a', 'b', 'c'], []]).map
            fun r => r.2.deferralSlots)
          p99Deferral := percentile ((rounds (new ⟨2⟩) [['a', 'b', 'c'], []]).map
            fun r => r.2.deferralSlots) 99
          stable := true } ∧
      (analyzeHardCap [3, 0] (4 / 3)).meanDeferral = 1 / 4 ∧
      (analyzeHardCap [3, 0] (4 / 3)).p99Deferral = 1 / 2 := by
  have hcap : (4 / 3 : ℚ) * meanOf ([['a', 'b', 'c'], []].map fun items => (items.length : ℚ)) =
      (2 : UInt32).toNat := by
    decide +kernel
  have hstable : decide (meanOf ([['a', 'b', 'c'], []].map fun items => (items.length : ℚ)) <
      (2 : UInt32).toNat) = true := by
    decide +kernel
  obtain ⟨-, -, hall, -, hsame, hanalyze⟩ := hard_cap 2 (by decide) [['a', 'b', 'c'], []]
  obtain ⟨-, hstats⟩ := hanalyze (4 / 3) hcap
  rw [hstable] at hstats
  refine ⟨by simpa [final, roundTick, releaseSlots, deliverAll, deliverReal, new] using hall,
    (hsame [[], []] rfl).symm, hstats, ?_, ?_⟩
  · decide +kernel
  · decide +kernel

end Padding

end Aegis
