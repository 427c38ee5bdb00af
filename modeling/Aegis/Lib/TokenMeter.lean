import Mathlib

/-!
# Token meters

A level rises at a rate up to a capacity, and units are taken from it.  The level is brought up to
date only when something asks for a unit.

* `Inv.refill`, `Inv.drop`, `Inv.take` — what holds of the units taken so far and of the level.
* `levelAt_levelAt` — it does not matter how often a level is brought up to date.
* `Inv.bound` — no interval sees more units than the capacity and what flows in meanwhile.
-/

namespace TokenMeter

variable {K : Type*} [Field K] [LinearOrder K] [IsStrictOrderedRing K]

/-- The events from `s` on. -/
def since (s : K) (log : List K) : ℕ := log.countP fun t => s ≤ t

/-- The events in the interval from `s` of this width. -/
def within (s width : K) (log : List K) : ℕ := log.countP fun t => s ≤ t ∧ t ≤ s + width

/-- What holds of the times at which units were taken and the level, brought up to date at `last`.
What was taken since `s` and the level are no more than a full meter at `s` and what flowed in. -/
structure Inv (rate capacity level last : K) (log : List K) : Prop where
  nonneg : 0 ≤ level
  le_capacity : level ≤ capacity
  le_last : ∀ t ∈ log, t ≤ last
  spent : ∀ s ≤ last, (since s log : K) + level ≤ capacity + rate * (last - s)
  bound : ∀ s width, 0 ≤ width → (within s width log : K) ≤ capacity + rate * width

variable {rate capacity level last : K} {log : List K}

theorem Inv.full (hcapacity : 0 ≤ capacity) (hrate : 0 ≤ rate) (last : K) :
    Inv rate capacity capacity last [] where
  nonneg := hcapacity
  le_capacity := le_rfl
  le_last := by simp
  spent s hs := by
    have hgain : 0 ≤ rate * (last - s) := mul_nonneg hrate (sub_nonneg.mpr hs)
    simpa [since] using hgain
  bound s width hwidth := by
    have hgain : 0 ≤ rate * width := mul_nonneg hrate hwidth
    simpa [within] using add_nonneg hcapacity hgain

omit [Field K] [IsStrictOrderedRing K] in
theorem since_eq_zero {s : K} (h : ∀ t ∈ log, t < s) : since s log = 0 := by
  unfold since
  rw [List.countP_eq_zero]
  intro t ht
  simpa using h t ht

omit [IsStrictOrderedRing K] in
theorem within_le_since (s width : K) (log : List K) : within s width log ≤ since s log := by
  refine List.countP_mono_left fun t _ ht => ?_
  simp only [decide_eq_true_eq] at ht ⊢
  exact ht.1

/-- **The level is brought up to date.** -/
theorem Inv.refill (h : Inv rate capacity level last log) (hrate : 0 ≤ rate) {now : K}
    (hnow : last ≤ now) :
    Inv rate capacity (min (level + (now - last) * rate) capacity) now log := by
  have hgain : 0 ≤ (now - last) * rate := mul_nonneg (sub_nonneg.mpr hnow) hrate
  refine ⟨le_min (add_nonneg h.nonneg hgain) (h.nonneg.trans h.le_capacity), min_le_right _ _,
    fun t ht => (h.le_last t ht).trans hnow, fun s hs => ?_, h.bound⟩
  rcases le_or_gt s last with hle | hgt
  · have hspent := h.spent s hle
    have hlevel : min (level + (now - last) * rate) capacity ≤ level + (now - last) * rate :=
      min_le_left _ _
    calc (since s log : K) + min (level + (now - last) * rate) capacity
        ≤ since s log + level + (now - last) * rate := by linarith
      _ ≤ capacity + rate * (last - s) + (now - last) * rate := by linarith
      _ = capacity + rate * (now - s) := by ring
  · -- nothing was taken since `s`
    rw [since_eq_zero fun t ht => lt_of_le_of_lt (h.le_last t ht) hgt, Nat.cast_zero, zero_add]
    have hflow : 0 ≤ rate * (now - s) := mul_nonneg hrate (sub_nonneg.mpr hs)
    exact (min_le_right _ _).trans (le_add_of_nonneg_right hflow)

/-- Something else takes from the level. -/
theorem Inv.drop (h : Inv rate capacity level last log) {level' : K} (hnonneg : 0 ≤ level')
    (hle : level' ≤ level) : Inv rate capacity level' last log where
  nonneg := hnonneg
  le_capacity := hle.trans h.le_capacity
  le_last := h.le_last
  spent s hs := (add_le_add_right hle _).trans (h.spent s hs)
  bound := h.bound

/-- **A unit is taken**, at the time the level is of. -/
theorem Inv.take (h : Inv rate capacity level last log) (hrate : 0 ≤ rate) (hunit : 1 ≤ level) :
    Inv rate capacity (level - 1) last (log ++ [last]) := by
  refine ⟨sub_nonneg.mpr hunit, (sub_le_self _ zero_le_one).trans h.le_capacity, fun t ht => ?_,
    fun s hs => ?_, fun s width hwidth => ?_⟩
  · rcases List.mem_append.mp ht with ht | ht
    · exact h.le_last t ht
    · exact (List.mem_singleton.mp ht).le
  · have hspent := h.spent s hs
    have hone : since s (log ++ [last]) = since s log + 1 := by
      unfold since
      rw [List.countP_append]
      simp [hs]
    rw [hone, Nat.cast_add, Nat.cast_one]
    linarith
  · have happend : within s width (log ++ [last]) =
        within s width log + within s width [last] := by
      unfold within
      rw [List.countP_append]
    by_cases hin : s ≤ last ∧ last ≤ s + width
    · -- all that was taken in the interval was taken since it began
      have hspent := h.spent s hin.1
      have hwithin : (within s width log : K) ≤ since s log := by
        exact_mod_cast within_le_since s width log
      have hone : within s width [last] = 1 := by simp [within, hin]
      have hflow : rate * (last - s) ≤ rate * width :=
        mul_le_mul_of_nonneg_left (by linarith [hin.2]) hrate
      rw [happend, hone, Nat.cast_add, Nat.cast_one]
      linarith
    · have hnone : within s width [last] = 0 := by simpa [within] using hin
      rw [happend, hnone, Nat.add_zero]
      exact h.bound s width hwidth

/-! ## Levels -/

/-- A level of `last`, brought up to date. -/
def levelAt (rate capacity level last now : K) : K := min (level + (now - last) * rate) capacity

omit [IsStrictOrderedRing K] in
theorem levelAt_self (h : level ≤ capacity) : levelAt rate capacity level last last = level := by
  unfold levelAt
  rw [sub_self, zero_mul, add_zero, min_eq_left h]

/-- **Bringing a level up to date on the way makes no difference.** -/
theorem levelAt_levelAt (hrate : 0 ≤ rate) {now later : K} (hlater : now ≤ later) :
    levelAt rate capacity (levelAt rate capacity level last now) now later =
      levelAt rate capacity level last later := by
  have hgain : 0 ≤ (later - now) * rate := mul_nonneg (sub_nonneg.mpr hlater) hrate
  have hsum : level + (now - last) * rate + (later - now) * rate =
      level + (later - last) * rate := by ring
  unfold levelAt
  rw [min_add, hsum, min_assoc, min_eq_right (le_add_of_nonneg_right hgain)]

end TokenMeter
