import Aegis.Crypto.Replay
import Aegis.Lib.Window

/-!
# The replay window under load

Called on its own, `checkAndInsert` never has more than one generation active: an
advance pops the front of `activeGenerations` before it pushes the next one, so
what it pops is the generation everything was inserted in.  The four structures of
the cache are then one window of tags (`Represents`), and an automatic advance
forgets all of it.

* `Represents.checkAndInsert` — the cache simulates a window that is flushed at
  its fill threshold.
* `Represents.run` — over a whole run, acceptances and advances included.
* `stillRefused_prefixes_iff` — **a run keeps the promise of the window** exactly
  if the cache is below the size that advances by itself, or sees no more distinct
  tags than its fill threshold.
-/

namespace Aegis

open Buffer

namespace ReplayCache

/-! ## Runs of `checkAndInsert` -/

/-- The cache after a run of calls. -/
def run (c : ReplayCache) (tags : List ReplayTag) : ReplayCache :=
  tags.foldl (fun c tag => (c.checkAndInsert tag).2) c

/-- The tags accepted in a run of calls. -/
def acceptances : ReplayCache → List ReplayTag → ℕ
  | _, [] => 0
  | c, tag :: tags => (c.checkAndInsert tag).1.toNat + acceptances (c.checkAndInsert tag).2 tags

/-- The automatic advances of a run of calls. -/
def advances : ReplayCache → List ReplayTag → ℕ
  | _, [] => 0
  | c, tag :: tags => c.autoAdvances tag + advances (c.checkAndInsert tag).2 tags

/-- After the calls `tags` on an empty cache, every tag accepted among them is
refused when it is submitted again, as long as fewer than `defaultMaxGenerations`
automatic advances and fewer than `capacity` acceptances have happened since. -/
def StillRefused (capacity : ℕ) (tags : List ReplayTag) : Prop :=
  ∀ pre tag mid, tags = pre ++ tag :: mid →
    ((run (withCapacity capacity) pre).checkAndInsert tag).1 = true →
    advances ((run (withCapacity capacity) pre).checkAndInsert tag).2 mid <
      defaultMaxGenerations →
    acceptances ((run (withCapacity capacity) pre).checkAndInsert tag).2 mid < capacity →
    ((run (withCapacity capacity) tags).checkAndInsert tag).1 = false

/-! ## The window a cache stands for -/

/-- The fill threshold of a cache of this capacity. -/
def threshold (capacity : ℕ) : ℕ := (withCapacity capacity).fillThreshold

/-- A window of this capacity, flushed at the fill threshold once it is large enough. -/
def policy (capacity : ℕ) : Window.Policy where
  capacity := capacity
  flushAt := if minCapacityForPressureAdvance ≤ capacity then some (threshold capacity) else none

theorem threshold_pos {capacity : ℕ} (h : minCapacityForPressureAdvance ≤ capacity) :
    0 < threshold capacity := by
  rw [minCapacityForPressureAdvance] at h
  refine Binary64.toNat_mul_ofNat_pos ?_ ?_
  · change 2 ≤ capacity
    omega
  · rw [withCapacity, defaultAutoAdvanceFillRatio]
    norm_num

theorem threshold_le (capacity : ℕ) : threshold capacity ≤ capacity := by
  refine Binary64.toNat_mul_ofNat_le ?_ ?_
  · rw [withCapacity, defaultAutoAdvanceFillRatio]
    norm_num
  · rw [withCapacity, defaultAutoAdvanceFillRatio]
    norm_num

@[simp] theorem policy_capacity (capacity : ℕ) : (policy capacity).capacity = capacity := rfl

theorem policy_wellFormed {capacity : ℕ} (h : 0 < capacity) : (policy capacity).WellFormed := by
  refine ⟨h, ?_, ?_⟩
  · intro t ht
    rw [policy] at ht
    split_ifs at ht with hbig
    cases ht
    exact threshold_pos hbig
  · intro t ht
    rw [policy] at ht
    split_ifs at ht with hbig
    cases ht
    exact threshold_le capacity

/-- The cache holds the window `w`: every tag in it was inserted in the current
generation, and no other generation is active. -/
structure Represents (capacity : ℕ) (c : ReplayCache) (w : List ReplayTag) : Prop where
  order : c.order = w.map fun tag => (c.generation, tag)
  seen : c.seen = w.toFinset
  current : c.byGeneration c.generation = if w = [] then none else some w.toFinset
  others : ∀ g, g ≠ c.generation → c.byGeneration g = none
  active : c.activeGenerations = [c.generation] ∨ w = [] ∧ c.activeGenerations = []
  nodup : w.Nodup
  length_le : w.length ≤ capacity
  capacity_eq : c.capacity = capacity
  maxGenerations_eq : c.maxGenerations = defaultMaxGenerations
  ratio_eq : c.autoAdvanceFillRatio = defaultAutoAdvanceFillRatio

theorem represents_withCapacity (capacity : ℕ) : Represents capacity (withCapacity capacity) [] where
  order := rfl
  seen := rfl
  current := rfl
  others _ _ := rfl
  active := Or.inr ⟨rfl, rfl⟩
  nodup := List.nodup_nil
  length_le := Nat.zero_le _
  capacity_eq := rfl
  maxGenerations_eq := rfl
  ratio_eq := rfl

section Steps

variable {capacity : ℕ} {c : ReplayCache} {w : List ReplayTag}

theorem Represents.card_seen (h : Represents capacity c w) : c.seen.card = w.length := by
  rw [h.seen, List.toFinset_card_of_nodup h.nodup]

theorem Represents.ctContains (h : Represents capacity c w) (tag : ReplayTag) :
    c.ctContains tag = decide (tag ∈ w) := by
  have hlen : c.order.length ≤ c.capacity := by
    rw [h.order, List.length_map, h.capacity_eq]
    exact h.length_le
  have hmap : (c.order.take c.capacity).map Prod.snd = w := by
    rw [List.take_of_length_le hlen, h.order, List.map_map]
    exact List.map_id' w
  rw [Bool.eq_iff_iff, ctContains_iff, hmap, decide_eq_true_iff]

theorem Represents.fillThreshold (h : Represents capacity c w) :
    c.fillThreshold = threshold capacity := by
  rw [threshold, ReplayCache.fillThreshold, ReplayCache.fillThreshold, h.capacity_eq, h.ratio_eq]
  rfl

/-- A fill advance is a flush of the window. -/
theorem Represents.advancesOnFill (h : Represents capacity c w) (hpos : 0 < capacity) :
    c.advancesOnFill = (policy capacity).flushes w.length := by
  rw [ReplayCache.advancesOnFill, h.capacity_eq, h.fillThreshold, h.card_seen, Window.Policy.flushes,
    policy]
  by_cases hbig : minCapacityForPressureAdvance ≤ capacity
  · simp [hbig, hpos]
  · simp [hbig]

/-- **An advance forgets everything**: the generation it drops is the current one. -/
theorem Represents.advanceEpoch (h : Represents capacity c w) (hne : w ≠ []) :
    Represents capacity c.advanceEpoch [] := by
  have hactive : c.activeGenerations = [c.generation] :=
    h.active.resolve_right fun hempty => hne hempty.1
  have hgen : c.byGeneration c.generation = some w.toFinset := by
    rw [h.current, if_neg hne]
  have hpop : c.popOldest = { c with activeGenerations := [] }.dropGeneration c.generation := by
    rw [popOldest, hactive]
  have htrim : c.advanceEpoch =
      { c.popOldest with
        generation := c.generation + 1
        activeGenerations := [c.generation + 1] } := by
    rw [ReplayCache.advanceEpoch, hpop]
    simp only [dropGeneration, List.filter_nil, List.nil_append, List.length_singleton, trim,
      h.maxGenerations_eq]
    rfl
  have horder : c.order.filter (fun e => e.1 ≠ c.generation) = [] := by
    rw [h.order, List.filter_eq_nil_iff]
    intro e he
    obtain ⟨tag, -, rfl⟩ := List.mem_map.mp he
    simp
  rw [htrim, hpop]
  have hnone : ∀ g, Function.update c.byGeneration c.generation none g = none := by
    intro g
    rw [Function.update_apply]
    split_ifs with hg
    · rfl
    · exact h.others g hg
  refine ⟨horder, ?_, hnone _, fun g _ => hnone g, Or.inl rfl, List.nodup_nil, Nat.zero_le _,
    h.capacity_eq, h.maxGenerations_eq, h.ratio_eq⟩
  simp [dropGeneration, hgen, h.seen]

/-- Evicting the oldest tag drops the head of the window. -/
theorem Represents.evict {tag : ReplayTag} (h : Represents capacity c (tag :: w)) :
    Represents capacity
      ({ c with order := w.map fun t => (c.generation, t) }.removeTagFromGeneration c.generation tag)
      w := by
  have hgen : c.byGeneration c.generation = some (tag :: w).toFinset := by
    rw [h.current, if_neg (List.cons_ne_nil tag w)]
  have hnot : tag ∉ w := (List.nodup_cons.mp h.nodup).1
  have herase : (tag :: w).toFinset.erase tag = w.toFinset := by
    rw [List.toFinset_cons, Finset.erase_insert]
    rwa [List.mem_toFinset]
  have hactive : c.activeGenerations = [c.generation] :=
    h.active.resolve_right fun hempty => List.cons_ne_nil tag w hempty.1
  have hle : w.length ≤ capacity := by
    have := h.length_le
    rw [List.length_cons] at this
    omega
  have hseen : c.seen.erase tag = w.toFinset := by
    rw [h.seen, herase]
  have hother : ∀ x g, g ≠ c.generation →
      Function.update c.byGeneration c.generation x g = none := by
    intro x g hg
    rw [Function.update_of_ne hg, h.others g hg]
  simp only [removeTagFromGeneration, hgen, herase]
  by_cases hw : w = []
  · subst hw
    simp only [List.toFinset_nil, if_true]
    refine ⟨rfl, hseen, Function.update_self .., hother none, Or.inr ⟨rfl, ?_⟩, List.nodup_nil, hle,
      h.capacity_eq, h.maxGenerations_eq, h.ratio_eq⟩
    simp [hactive]
  · rw [if_neg (by rwa [List.toFinset_eq_empty_iff])]
    refine ⟨rfl, hseen, ?_, hother _, Or.inl hactive, (List.nodup_cons.mp h.nodup).2, hle,
      h.capacity_eq, h.maxGenerations_eq, h.ratio_eq⟩
    rw [if_neg hw]
    exact Function.update_self ..

/-- Inserting a fresh tag appends it to the window. -/
theorem Represents.insertTag (h : Represents capacity c w) {tag : ReplayTag} (hfresh : tag ∉ w)
    (hroom : w.length < capacity) : Represents capacity (c.insertTag tag) (w ++ [tag]) := by
  have hset : insert tag w.toFinset = (w ++ [tag]).toFinset := by
    ext t
    simp
  refine ⟨?_, ?_, ?_, ?_, Or.inl ?_, ?_, ?_, h.capacity_eq, h.maxGenerations_eq, h.ratio_eq⟩
  · simp [ReplayCache.insertTag, h.order]
  · rw [ReplayCache.insertTag, h.seen, hset]
  · rw [if_neg (by simp)]
    simp only [ReplayCache.insertTag, Function.update_self, h.current, ← hset]
    by_cases hw : w = []
    · simp [hw]
    · rw [if_neg hw, Option.getD_some]
  · intro g hg
    exact (Function.update_of_ne hg _ _).trans (h.others g hg)
  · simp only [ReplayCache.insertTag]
    rcases h.active with hactive | ⟨-, hactive⟩
    · simp [hactive]
    · simp [hactive]
  · refine List.Nodup.append h.nodup (List.nodup_singleton tag) ?_
    rw [List.disjoint_singleton]
    exact hfresh
  · rw [List.length_append, List.length_singleton]
    omega

/-- An empty window is not flushed. -/
theorem ne_nil_of_flushes (hflush : (policy capacity).flushes w.length = true) : w ≠ [] := by
  rintro rfl
  rw [Window.Policy.flushes, policy] at hflush
  by_cases hbig : minCapacityForPressureAdvance ≤ capacity
  · have := threshold_pos hbig
    simp [hbig] at hflush
    omega
  · simp [hbig] at hflush

/-- A window that is not flushed has room below the capacity, where the cache would advance. -/
theorem Represents.not_advancesWhenFull (h : Represents capacity c w)
    (hflush : ¬(policy capacity).flushes w.length = true) : c.advancesWhenFull = false := by
  rw [advancesWhenFull, h.capacity_eq, h.card_seen]
  by_contra hfull
  simp only [Bool.not_eq_false, Bool.and_eq_true, decide_eq_true_eq] at hfull
  have hle := threshold_le capacity
  apply hflush
  rw [Window.Policy.flushes, policy]
  simp only [hfull.2, if_true, decide_eq_true_eq]
  omega

theorem Represents.makeRoom_of_lt (h : Represents capacity c w) (hroom : w.length < capacity) :
    c.makeRoom = c := by
  rw [ReplayCache.makeRoom, if_neg]
  rw [h.capacity_eq, h.card_seen]
  omega

/-- A full cache that does not advance evicts its oldest tag. -/
theorem Represents.makeRoom_of_full (h : Represents capacity c w) (hpos : 0 < capacity)
    (hfull : capacity ≤ w.length) (hwhen : c.advancesWhenFull = false) :
    Represents capacity c.makeRoom w.tail := by
  have hboth : 0 < c.capacity ∧ c.capacity ≤ c.seen.card := by
    rw [h.capacity_eq, h.card_seen]
    exact ⟨hpos, hfull⟩
  rw [ReplayCache.makeRoom, if_pos hboth, hwhen]
  simp only [Bool.false_eq_true, if_false, if_pos hboth.2]
  cases w with
  | nil =>
    rw [List.length_nil] at hfull
    omega
  | cons tag w =>
    rw [h.order, List.map_cons]
    exact h.evict

/-- Making room in the cache is making room in the window, and only a flush is an
advance. -/
theorem Represents.makeRoom (h : Represents capacity c w) (hpos : 0 < capacity) :
    Represents capacity c.pressureAdvance.makeRoom (Window.makeRoom (policy capacity) w) ∧
      c.pressureAdvance.advancesWhenFull = false := by
  have hfill := h.advancesOnFill hpos
  by_cases hflush : (policy capacity).flushes w.length = true
  · -- the fill advance leaves nothing, so the cache is not full afterwards
    have hadv := h.advanceEpoch (ne_nil_of_flushes hflush)
    have hcard := hadv.card_seen
    rw [List.length_nil] at hcard
    rw [pressureAdvance, hfill, if_pos hflush, hadv.makeRoom_of_lt hpos, Window.makeRoom,
      if_pos hflush]
    refine ⟨hadv, ?_⟩
    rw [advancesWhenFull, hcard, hadv.capacity_eq, decide_eq_false (by omega : ¬capacity ≤ 0),
      Bool.and_false, Bool.false_and]
  · have hsame : c.pressureAdvance = c := by
      rw [pressureAdvance, hfill, if_neg hflush]
    have hwhen := h.not_advancesWhenFull hflush
    rw [hsame, Window.makeRoom, if_neg hflush, policy_capacity]
    refine ⟨?_, hwhen⟩
    by_cases hfull : capacity ≤ w.length
    · rw [if_pos hfull]
      exact h.makeRoom_of_full hpos hfull hwhen
    · rw [if_neg hfull, h.makeRoom_of_lt (by omega)]
      exact h

/-- **One call**: the cache accepts what the window accepts, advances when the window
is flushed, and stands for the next window afterwards. -/
theorem Represents.checkAndInsert (h : Represents capacity c w) (hpos : 0 < capacity)
    (hinv : ∃ shown, Window.Inv (policy capacity) shown w) (tag : ReplayTag) :
    (c.checkAndInsert tag).1 = (Window.submit (policy capacity) w tag).1 ∧
      c.autoAdvances tag = Window.flush (policy capacity) w tag ∧
      Represents capacity (c.checkAndInsert tag).2 (Window.submit (policy capacity) w tag).2 := by
  have hscan := h.ctContains tag
  by_cases htag : tag ∈ w
  · rw [decide_eq_true htag] at hscan
    rw [checkAndInsert_of_contains hscan, Window.submit_of_mem htag, autoAdvances, if_pos hscan,
      Window.flush, if_neg (fun hc => hc.1 htag)]
    exact ⟨rfl, rfl, h⟩
  · rw [decide_eq_false htag] at hscan
    obtain ⟨hroom, hfull⟩ := h.makeRoom hpos
    obtain ⟨shown, hinv⟩ := hinv
    have hlt := (Window.length_makeRoom_lt (policy_wellFormed hpos) hinv).1
    have hfresh : tag ∉ Window.makeRoom (policy capacity) w :=
      fun hmem => htag ((Window.makeRoom_suffix w).subset hmem)
    rw [checkAndInsert_of_not_contains hscan, Window.submit_of_not_mem htag]
    refine ⟨rfl, ?_, hroom.insertTag hfresh hlt⟩
    rw [autoAdvances, if_neg (by simp [hscan]), hfull, h.advancesOnFill hpos, Window.flush]
    simp [htag]

/-- **A run of calls** is a run of the window. -/
theorem Represents.run (h : Represents capacity c w) (hpos : 0 < capacity)
    {shown : List ReplayTag} (hinv : Window.Inv (policy capacity) shown w)
    (tags : List ReplayTag) :
    acceptances c tags = Window.acceptances (policy capacity) w tags ∧
      advances c tags = Window.flushes (policy capacity) w tags ∧
      Represents capacity (ReplayCache.run c tags) (Window.run (policy capacity) w tags) := by
  induction tags generalizing c w shown with
  | nil => exact ⟨rfl, rfl, h⟩
  | cons tag tags ih =>
    obtain ⟨hacc, hadv, hnext⟩ := h.checkAndInsert hpos ⟨shown, hinv⟩ tag
    obtain ⟨hacc', hadv', hend⟩ := ih hnext (hinv.submit (policy_wellFormed hpos) tag)
    refine ⟨?_, ?_, hend⟩
    · rw [acceptances, Window.acceptances, hacc, hacc']
    · rw [advances, Window.flushes, hadv, hadv']

end Steps

/-! ## When the promise of the window is kept -/

/-- The promise of the cache is the promise of its window. -/
theorem stillRefused_iff_remembers {capacity : ℕ} (hpos : 0 < capacity) (tags : List ReplayTag) :
    StillRefused capacity tags ↔
      Window.Remembers (policy capacity) defaultMaxGenerations tags := by
  have hwf := policy_wellFormed hpos
  have hrun : ∀ ts, Represents capacity (run (withCapacity capacity) ts)
      (Window.run (policy capacity) [] ts) := fun ts =>
    ((represents_withCapacity capacity).run hpos (Window.Inv.nil _) ts).2.2
  refine forall_congr' fun pre => forall_congr' fun tag => forall_congr' fun mid =>
    imp_congr_right fun _ => ?_
  have hinv := Window.Inv.run hwf pre
  obtain ⟨hacc, -, hnext⟩ := (hrun pre).checkAndInsert hpos ⟨pre, hinv⟩ tag
  obtain ⟨haccs, hadvs, -⟩ := hnext.run hpos (hinv.submit hwf tag) mid
  rw [hacc, hadvs, haccs, checkAndInsert_fst, (hrun tags).ctContains, Window.submit_fst,
    policy_capacity, Bool.not_eq_true', decide_eq_false_iff_not, Bool.not_eq_false',
    decide_eq_true_iff]

theorem stillRefused_prefixes_iff_flushAt {capacity : ℕ} (hpos : 0 < capacity)
    (tags : List ReplayTag) :
    (∀ p, p <+: tags → StillRefused capacity p) ↔
      ∀ t, (policy capacity).flushAt = some t → tags.toFinset.card ≤ t := by
  have hcap : ∀ t, (policy capacity).flushAt = some t → 2 ≤ (policy capacity).capacity := by
    intro t ht
    rw [policy] at ht
    split_ifs at ht with hbig
    exact le_trans (by decide) hbig
  simp only [stillRefused_iff_remembers hpos]
  exact Window.remembers_prefixes_iff (policy_wellFormed hpos) (by decide) hcap tags

/-- **When an accepted tag stays refused.**  In a run of `checkAndInsert` calls on an
empty cache the promise is kept after every call if and only if the cache is below
the size that advances by itself or is shown no more distinct tags than its fill
threshold. -/
theorem stillRefused_prefixes_iff {capacity : ℕ} (hpos : 0 < capacity) (tags : List ReplayTag) :
    (∀ p, p <+: tags → StillRefused capacity p) ↔
      capacity < minCapacityForPressureAdvance ∨ tags.toFinset.card ≤ threshold capacity := by
  rw [stillRefused_prefixes_iff_flushAt hpos, policy]
  by_cases hbig : minCapacityForPressureAdvance ≤ capacity
  · simp [hbig, not_lt.mpr hbig]
  · simp [hbig, not_le.mp hbig]

/-- A cache of eight tags keeps the promise whatever it is shown. -/
theorem stillRefused_eight : StillRefused 8 [ctScanDummy, ctScanDummy] :=
  (stillRefused_prefixes_iff (by decide) _).mpr (Or.inl (by decide)) _ List.prefix_rfl

/-! ## A flood of distinct tags -/

/-- The tag that spells `n`. -/
def tagOfNat (n : ℕ) : ReplayTag := ⟨leBytes 32 n, length_leBytes 32 n⟩

theorem tagOfNat_injOn : Set.InjOn tagOfNat {n | n < 256 ^ 32} := by
  intro m hm n hn h
  have hval := congrArg (fun t : ReplayTag => leValue t.toList) h
  simp only [tagOfNat, List.Vector.toList_mk, leValue_leBytes] at hval
  rwa [Nat.mod_eq_of_lt hm, Nat.mod_eq_of_lt hn] at hval

/-- `n` distinct tags. -/
def distinctTags (n : ℕ) : List ReplayTag := (List.range n).map tagOfNat

theorem card_distinctTags {n : ℕ} (h : n ≤ 256 ^ 32) : (distinctTags n).toFinset.card = n := by
  have hnodup : (distinctTags n).Nodup := by
    refine List.Nodup.map_on ?_ List.nodup_range
    intro i hi j hj hij
    rw [List.mem_range] at hi hj
    exact tagOfNat_injOn (lt_of_lt_of_le hi h) (lt_of_lt_of_le hj h) hij
  rw [List.toFinset_card_of_nodup hnodup, distinctTags, List.length_map, List.length_range]

theorem threshold_1024 : threshold 1024 = 870 := by
  have hlog : Int.log 2 |((1024 : ℕ) : ℚ)| = 10 := by
    rw [abs_of_nonneg (by norm_num), Int.log_natCast]
    norm_num [Nat.log]
  have hof : Binary64.ofNat 1024 = 1024 := by
    refine Binary64.round_of_representable (2 ^ 52) ?_
    rw [Binary64.ulpExponent, hlog]
    norm_num
  obtain ⟨q, hq⟩ : ∃ q : ℚ, q = 7656119366529843 / 2 ^ 43 := ⟨_, rfl⟩
  have hfloor : ⌊q⌋₊ = 870 := by
    rw [Nat.floor_eq_iff (by rw [hq]; norm_num), hq]
    norm_num
  have hqlog : Int.log 2 |q| = 9 := by
    have hone : 1 ≤ q := by
      rw [hq]
      norm_num
    rw [abs_of_nonneg (by linarith), Int.log_of_one_le_right 2 hone, hfloor]
    norm_num [Nat.log]
  have hround : Binary64.round q = q := by
    refine Binary64.round_of_representable 7656119366529843 ?_
    rw [Binary64.ulpExponent, hqlog, hq]
    norm_num
  have hmul : Binary64.mul (Binary64.ofNat 1024) defaultAutoAdvanceFillRatio = q := by
    have hprod : 1024 * defaultAutoAdvanceFillRatio = q := by
      rw [defaultAutoAdvanceFillRatio, hq]
      norm_num
    rw [Binary64.mul, hof, hprod, hround]
  rw [threshold, fillThreshold, withCapacity]
  change Binary64.toNat (Binary64.mul (Binary64.ofNat 1024) defaultAutoAdvanceFillRatio) = 870
  rw [hmul, Binary64.toNat, hfloor]

/-- **871 distinct tags flood a cache of 1024**: the advance before the last one
forgets a tag accepted just before. -/
theorem not_stillRefused_1024 : ¬∀ p, p <+: distinctTags 871 → StillRefused 1024 p := by
  rw [stillRefused_prefixes_iff_flushAt (by decide)]
  intro h
  have hle := h 870 (by rw [policy, if_pos (by decide), threshold_1024])
  rw [card_distinctTags (by norm_num)] at hle
  omega

end ReplayCache

end Aegis
