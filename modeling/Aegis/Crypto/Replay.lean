import Aegis.Crypto.Suite
import Aegis.Lib.Binary64

/-!
# The per-epoch replay cache (`replay.rs`)

A bounded first-in first-out window of tags.  Every tag carries the generation
it was inserted in, and `advanceEpoch` drops the oldest active generation whole;
`checkAndInsert` advances by itself when the cache fills up.

* `ctContains_iff` — the fixed-length scan finds exactly the tags among the
  first `capacity` entries of the window.
* `checkAndInsert_of_not_contains` — a tag the scan does not find is accepted.
-/

namespace Aegis

open Buffer

/-- A 32-byte per-packet replay tag. -/
abbrev ReplayTag := Bytes 32

/-- How many tags a cache remembers unless it is told. -/
def defaultReplayCacheCapacity : ℕ := 1000000

/-- The double nearest to `0.85`. -/
def defaultAutoAdvanceFillRatio : ℚ := 7656119366529843 / 2 ^ 53

/-- How many generations are kept. -/
def defaultMaxGenerations : ℕ := 4

/-- The least capacity at which a cache that fills up advances its generation. -/
def minCapacityForPressureAdvance : ℕ := 1024

/-- Pad tag for inactive scan slots. -/
def ctScanDummy : ReplayTag := Bytes.zero 32

/-- The tags that are remembered, by the generation they came in. -/
structure ReplayCache where
  seen : Finset ReplayTag
  /-- First-in first-out order, oldest at the front. -/
  order : List (UInt32 × ReplayTag)
  byGeneration : UInt32 → Option (Finset ReplayTag)
  /-- Active generations, oldest at the front. -/
  activeGenerations : List UInt32
  capacity : ℕ
  generation : UInt32
  maxGenerations : ℕ
  autoAdvanceFillRatio : ℚ

namespace ReplayCache

/-- An empty cache for so many tags, one at least. -/
def withCapacity (capacity : ℕ) : ReplayCache where
  seen := ∅
  order := []
  byGeneration := fun _ => none
  activeGenerations := []
  capacity := capacity
  generation := 0
  maxGenerations := defaultMaxGenerations
  autoAdvanceFillRatio := defaultAutoAdvanceFillRatio

/-- `ReplayCache::new`. -/
def new : ReplayCache := withCapacity defaultReplayCacheCapacity

/-- One slot of the constant-time scan: the candidate, masked out when inactive. -/
def scanSlot (c : ReplayCache) (tag : ReplayTag) (i : ℕ) : Bool :=
  let active := decide (i < c.order.length)
  let candidate := (c.order[i]?.map Prod.snd).getD ctScanDummy
  decide (tag = candidate) && active

/-- The scan visits exactly `capacity` slots, whatever the window holds. -/
def ctContains (c : ReplayCache) (tag : ReplayTag) : Bool :=
  (List.range c.capacity).foldl (fun found i => found || c.scanSlot tag i) false

/-- Drop one generation from every structure. -/
def dropGeneration (c : ReplayCache) (gen : UInt32) : ReplayCache where
  seen := c.seen \ (c.byGeneration gen).getD ∅
  order := c.order.filter fun e => e.1 ≠ gen
  byGeneration := Function.update c.byGeneration gen none
  activeGenerations := c.activeGenerations.filter fun g => g ≠ gen
  capacity := c.capacity
  generation := c.generation
  maxGenerations := c.maxGenerations
  autoAdvanceFillRatio := c.autoAdvanceFillRatio

/-- Pop the oldest active generation and drop it. -/
def popOldest (c : ReplayCache) : ReplayCache :=
  match c.activeGenerations with
  | [] => c
  | oldGen :: rest => { c with activeGenerations := rest }.dropGeneration oldGen

/-- The `while` loop of `advance_epoch`, at most `fuel` rounds. -/
def trim : ℕ → ReplayCache → ReplayCache
  | 0, c => c
  | fuel + 1, c =>
    if c.maxGenerations < c.activeGenerations.length then trim fuel c.popOldest else c

/-- `advance_epoch`.  Every round of its loop pops one active generation, so their
number bounds the rounds. -/
def advanceEpoch (c : ReplayCache) : ReplayCache :=
  let c := c.popOldest
  let c := { c with generation := c.generation + 1 }
  let c := { c with activeGenerations := c.activeGenerations ++ [c.generation] }
  trim c.activeGenerations.length c

/-- `clear`, called at epoch rollover. -/
def clear (c : ReplayCache) : ReplayCache :=
  { c with
    seen := ∅, order := [], byGeneration := fun _ => none, activeGenerations := [],
    generation := 0 }

/-- The tag is taken out of the list of its generation. -/
def removeTagFromGeneration (c : ReplayCache) (gen : UInt32) (tag : ReplayTag) : ReplayCache :=
  let c := { c with seen := c.seen.erase tag }
  match c.byGeneration gen with
  | none => c
  | some genSet =>
    if genSet.erase tag = ∅ then
      { c with
        byGeneration := Function.update c.byGeneration gen none
        activeGenerations := c.activeGenerations.filter fun g => g ≠ gen }
    else
      { c with byGeneration := Function.update c.byGeneration gen (some (genSet.erase tag)) }

/-- The tag is put in the current generation. -/
def insertTag (c : ReplayCache) (tag : ReplayTag) : ReplayCache where
  seen := insert tag c.seen
  order := c.order ++ [(c.generation, tag)]
  byGeneration :=
    Function.update c.byGeneration c.generation
      (some (insert tag ((c.byGeneration c.generation).getD ∅)))
  activeGenerations :=
    if c.activeGenerations = [] then [c.generation] else c.activeGenerations
  capacity := c.capacity
  generation := c.generation
  maxGenerations := c.maxGenerations
  autoAdvanceFillRatio := c.autoAdvanceFillRatio

/-- The number of tags at which an insertion advances first. -/
def fillThreshold (c : ReplayCache) : ℕ :=
  Binary64.toNat (Binary64.mul (Binary64.ofNat c.capacity) c.autoAdvanceFillRatio)

/-- Does an insertion advance because the cache is filled to its ratio? -/
def advancesOnFill (c : ReplayCache) : Bool :=
  decide (0 < c.capacity) && decide (minCapacityForPressureAdvance ≤ c.capacity) &&
    decide (c.fillThreshold ≤ c.seen.card)

/-- Does an insertion advance because the cache is full? -/
def advancesWhenFull (c : ReplayCache) : Bool :=
  decide (0 < c.capacity) && decide (c.capacity ≤ c.seen.card) &&
    decide (minCapacityForPressureAdvance ≤ c.capacity)

/-- The proactive advance at the fill ratio. -/
def pressureAdvance (c : ReplayCache) : ReplayCache :=
  if c.advancesOnFill then c.advanceEpoch else c

/-- Make room at full capacity: advance if the cache is large enough for that,
and if it is still full evict the oldest tag. -/
def makeRoom (c : ReplayCache) : ReplayCache :=
  if 0 < c.capacity ∧ c.capacity ≤ c.seen.card then
    let c := if c.advancesWhenFull then c.advanceEpoch else c
    if c.capacity ≤ c.seen.card then
      match c.order with
      | [] => c
      | (gen, oldest) :: rest => { c with order := rest }.removeTagFromGeneration gen oldest
    else c
  else c

/-- `check_and_insert`: `true` and the tag recorded if it is fresh. -/
def checkAndInsert (c : ReplayCache) (tag : ReplayTag) : Bool × ReplayCache :=
  if c.ctContains tag then (false, c)
  else (true, (c.pressureAdvance.makeRoom).insertTag tag)

/-- The automatic advances of one `checkAndInsert` call. -/
def autoAdvances (c : ReplayCache) (tag : ReplayTag) : ℕ :=
  if c.ctContains tag then 0
  else (if c.advancesOnFill then 1 else 0) +
    (if c.pressureAdvance.advancesWhenFull then 1 else 0)

/-! ## What the scan finds -/

theorem foldl_or_eq_any {α : Type} (f : α → Bool) (l : List α) (b : Bool) :
    l.foldl (fun found a => found || f a) b = (b || l.any f) := by
  induction l generalizing b with
  | nil => simp
  | cons a l ih => rw [List.foldl_cons, ih, List.any_cons, Bool.or_assoc]

/-- **The scan finds exactly the tags of the first `capacity` entries.** -/
theorem ctContains_iff (c : ReplayCache) (tag : ReplayTag) :
    c.ctContains tag = true ↔ tag ∈ (c.order.take c.capacity).map Prod.snd := by
  rw [ctContains, foldl_or_eq_any, Bool.false_or, List.any_eq_true]
  constructor
  · rintro ⟨i, hi, hslot⟩
    rw [List.mem_range] at hi
    simp only [scanSlot, Bool.and_eq_true, decide_eq_true_eq] at hslot
    obtain ⟨htag, hlt⟩ := hslot
    rw [List.getElem?_eq_getElem hlt] at htag
    refine List.mem_map.mpr ⟨c.order[i], List.mem_take_iff_getElem.mpr ⟨i, by omega, rfl⟩, ?_⟩
    exact htag.symm
  · intro hmem
    obtain ⟨e, he, rfl⟩ := List.mem_map.mp hmem
    obtain ⟨i, hi, rfl⟩ := List.mem_take_iff_getElem.mp he
    refine ⟨i, List.mem_range.mpr (by omega), ?_⟩
    have hlt : i < c.order.length := by omega
    simp [scanSlot, hlt]

theorem checkAndInsert_of_contains {c : ReplayCache} {tag : ReplayTag}
    (h : c.ctContains tag = true) : c.checkAndInsert tag = (false, c) := by
  rw [checkAndInsert, if_pos h]

theorem checkAndInsert_of_not_contains {c : ReplayCache} {tag : ReplayTag}
    (h : c.ctContains tag = false) :
    c.checkAndInsert tag = (true, (c.pressureAdvance.makeRoom).insertTag tag) := by
  rw [checkAndInsert, if_neg (by simp [h])]

/-- A tag is refused exactly when the scan finds it. -/
theorem checkAndInsert_fst (c : ReplayCache) (tag : ReplayTag) :
    (c.checkAndInsert tag).1 = !c.ctContains tag := by
  cases h : c.ctContains tag with
  | true => rw [checkAndInsert_of_contains h]; rfl
  | false => rw [checkAndInsert_of_not_contains h]; rfl

/-- A cache with nothing recorded accepts every tag. -/
theorem ctContains_withCapacity (capacity : ℕ) (tag : ReplayTag) :
    (withCapacity capacity).ctContains tag = false := by
  rw [Bool.eq_false_iff, ne_eq, ctContains_iff]
  simp [withCapacity]

end ReplayCache

end Aegis
