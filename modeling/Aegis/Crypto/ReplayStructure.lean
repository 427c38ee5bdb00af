import Aegis.Crypto.ReplayWindow
import Aegis.Lib.Run

/-!
# The structures of the replay cache (`replay.rs`)

The cache keeps its tags three times: in order with the generation they were inserted in, as one
set, and as one set for each generation.  Every operation keeps the three together.

* `Coherent.dropGeneration`, `Coherent.evict`, `Coherent.insertTag` — what removes and adds tags.
* `Coherent.run` — any run of calls keeps the structures together.
* `represented` — the representation and the window of a small cache.
-/

namespace Aegis

open Buffer

namespace ReplayCache

/-! ## The structures -/

/-- The tags of one generation. -/
def batch (c : ReplayCache) (gen : UInt32) : Finset ReplayTag := (c.byGeneration gen).getD ∅

/-- The tags are in order, once each; the two kinds of sets hold what the order holds. -/
structure Coherent (c : ReplayCache) : Prop where
  nodup : (c.order.map Prod.snd).Nodup
  seen : ∀ tag, tag ∈ c.seen ↔ ∃ gen, (gen, tag) ∈ c.order
  batch : ∀ gen tag, tag ∈ c.batch gen ↔ (gen, tag) ∈ c.order
  length_le : c.order.length ≤ c.capacity

variable {c : ReplayCache}

theorem coherent_withCapacity (capacity : ℕ) : Coherent (withCapacity capacity) where
  nodup := List.nodup_nil
  seen tag := by simp [withCapacity]
  batch gen tag := by simp [withCapacity, ReplayCache.batch]
  length_le := Nat.zero_le _

theorem Coherent.seen_eq (h : Coherent c) : c.seen = (c.order.map Prod.snd).toFinset := by
  ext tag
  rw [h.seen, List.mem_toFinset, List.mem_map]
  constructor
  · rintro ⟨gen, hmem⟩
    exact ⟨(gen, tag), hmem, rfl⟩
  · rintro ⟨⟨gen, t⟩, hmem, rfl⟩
    exact ⟨gen, hmem⟩

theorem Coherent.card_seen (h : Coherent c) : c.seen.card = c.order.length := by
  rw [h.seen_eq, List.toFinset_card_of_nodup h.nodup, List.length_map]

/-- A tag has one generation. -/
theorem Coherent.generation_unique (h : Coherent c) {gen gen' : UInt32} {tag : ReplayTag}
    (hmem : (gen, tag) ∈ c.order) (hmem' : (gen', tag) ∈ c.order) : gen = gen' :=
  congrArg Prod.fst (List.inj_on_of_nodup_map h.nodup hmem hmem' rfl)

/-- The scan finds what has been seen. -/
theorem Coherent.ctContains (h : Coherent c) (tag : ReplayTag) :
    c.ctContains tag = true ↔ tag ∈ c.seen := by
  rw [ctContains_iff, List.take_of_length_le h.length_le, h.seen_eq, List.mem_toFinset]

/-! ## Removing and adding tags -/

/-- **A generation is dropped.** -/
theorem Coherent.dropGeneration (h : Coherent c) (gen : UInt32) :
    Coherent (c.dropGeneration gen) := by
  have hmem : ∀ g tag, (g, tag) ∈ (c.dropGeneration gen).order ↔ (g, tag) ∈ c.order ∧ g ≠ gen := by
    intro g tag
    show (g, tag) ∈ c.order.filter (fun e => e.1 ≠ gen) ↔ _
    rw [List.mem_filter, decide_eq_true_eq]
  refine ⟨h.nodup.sublist (List.filter_sublist.map _), fun tag => ?_, fun g tag => ?_,
    (List.length_filter_le _ _).trans h.length_le⟩
  · show tag ∈ c.seen \ c.batch gen ↔ _
    rw [Finset.mem_sdiff, h.seen, h.batch]
    constructor
    · rintro ⟨⟨g, hg⟩, hnot⟩
      exact ⟨g, (hmem g tag).mpr ⟨hg, fun heq => hnot (heq ▸ hg)⟩⟩
    · rintro ⟨g, hg⟩
      obtain ⟨hg, hne⟩ := (hmem g tag).mp hg
      exact ⟨⟨g, hg⟩, fun hgen => hne (h.generation_unique hg hgen)⟩
  · rw [hmem]
    show tag ∈ (Function.update c.byGeneration gen none g).getD ∅ ↔ _
    by_cases hg : g = gen
    · subst hg
      simp
    · rw [Function.update_of_ne hg]
      exact (h.batch g tag).trans (and_iff_left hg).symm

/-- Which generations are active does not matter. -/
theorem Coherent.setActive (h : Coherent c) (active : List UInt32) :
    Coherent { c with activeGenerations := active } :=
  ⟨h.nodup, h.seen, h.batch, h.length_le⟩

theorem Coherent.popOldest (h : Coherent c) : Coherent c.popOldest := by
  unfold ReplayCache.popOldest
  split
  · exact h
  · exact (h.setActive _).dropGeneration _

theorem Coherent.trim (h : Coherent c) (fuel : ℕ) : Coherent (ReplayCache.trim fuel c) := by
  induction fuel generalizing c with
  | zero => exact h
  | succ fuel ih =>
    unfold ReplayCache.trim
    split_ifs
    · exact ih h.popOldest
    · exact h

theorem Coherent.advanceEpoch (h : Coherent c) : Coherent c.advanceEpoch := by
  unfold ReplayCache.advanceEpoch
  refine Coherent.trim ?_ _
  exact ⟨h.popOldest.nodup, h.popOldest.seen, h.popOldest.batch, h.popOldest.length_le⟩

theorem Coherent.clear (c : ReplayCache) : Coherent c.clear where
  nodup := List.nodup_nil
  seen tag := by simp [ReplayCache.clear]
  batch gen tag := by simp [ReplayCache.clear, ReplayCache.batch]
  length_le := Nat.zero_le _

/-- The tags of a generation without one of them. -/
theorem batch_removeTagFromGeneration (c : ReplayCache) (gen : UInt32) (tag : ReplayTag)
    (g : UInt32) : (c.removeTagFromGeneration gen tag).batch g =
      if g = gen then (c.batch gen).erase tag else c.batch g := by
  unfold removeTagFromGeneration batch
  dsimp only
  split
  · rename_i hnone
    split_ifs with hg
    · subst hg
      simp [hnone]
    · rfl
  · rename_i genSet hsome
    by_cases hg : g = gen
    · subst hg
      by_cases hempty : genSet.erase tag = ∅
      · simp [hsome, hempty]
      · simp [hsome, hempty]
    · split_ifs
      · simp [hg]
      · simp [hg]

theorem seen_removeTagFromGeneration (c : ReplayCache) (gen : UInt32) (tag : ReplayTag) :
    (c.removeTagFromGeneration gen tag).seen = c.seen.erase tag := by
  unfold removeTagFromGeneration
  dsimp only
  split
  · rfl
  · split_ifs <;> rfl

theorem order_removeTagFromGeneration (c : ReplayCache) (gen : UInt32) (tag : ReplayTag) :
    (c.removeTagFromGeneration gen tag).order = c.order := by
  unfold removeTagFromGeneration
  dsimp only
  split
  · rfl
  · split_ifs <;> rfl

theorem capacity_removeTagFromGeneration (c : ReplayCache) (gen : UInt32) (tag : ReplayTag) :
    (c.removeTagFromGeneration gen tag).capacity = c.capacity := by
  unfold removeTagFromGeneration
  dsimp only
  split
  · rfl
  · split_ifs <;> rfl

/-- **The oldest tag is evicted.** -/
theorem Coherent.evict (h : Coherent c) {gen : UInt32} {oldest : ReplayTag}
    {rest : List (UInt32 × ReplayTag)} (horder : c.order = (gen, oldest) :: rest) :
    Coherent ({ c with order := rest }.removeTagFromGeneration gen oldest) := by
  have hnodup := h.nodup
  rw [horder, List.map_cons, List.nodup_cons] at hnodup
  have hother : ∀ g tag, (g, tag) ∈ rest → tag ≠ oldest := by
    rintro g tag hmem rfl
    exact hnodup.1 (List.mem_map.mpr ⟨_, hmem, rfl⟩)
  have hmem : ∀ g tag, (g, tag) ∈ rest ↔ (g, tag) ∈ c.order ∧ tag ≠ oldest := by
    intro g tag
    rw [horder, List.mem_cons]
    constructor
    · exact fun hrest => ⟨.inr hrest, hother g tag hrest⟩
    · rintro ⟨heq | hrest, hne⟩
      · exact absurd (congrArg Prod.snd heq) hne
      · exact hrest
  refine ⟨?_, fun tag => ?_, fun g tag => ?_, ?_⟩
  · rw [order_removeTagFromGeneration]
    exact hnodup.2
  · rw [order_removeTagFromGeneration, seen_removeTagFromGeneration, Finset.mem_erase, h.seen]
    constructor
    · rintro ⟨hne, g, hg⟩
      exact ⟨g, (hmem g tag).mpr ⟨hg, hne⟩⟩
    · rintro ⟨g, hg⟩
      obtain ⟨hg, hne⟩ := (hmem g tag).mp hg
      exact ⟨hne, g, hg⟩
  · rw [order_removeTagFromGeneration, batch_removeTagFromGeneration]
    show tag ∈ (if g = gen then (c.batch gen).erase oldest else c.batch g) ↔ (g, tag) ∈ rest
    rw [hmem]
    split_ifs with hg
    · subst hg
      rw [Finset.mem_erase, h.batch, and_comm]
    · rw [h.batch]
      refine (and_iff_left_of_imp fun hin heq => ?_).symm
      have hfirst : (gen, oldest) ∈ c.order := by
        rw [horder]
        exact List.mem_cons_self
      exact hg (h.generation_unique (heq ▸ hin) hfirst)
  · rw [order_removeTagFromGeneration, capacity_removeTagFromGeneration]
    have hle := h.length_le
    rw [horder, List.length_cons] at hle
    exact (Nat.le_succ _).trans hle

/-- **A fresh tag is inserted**, when there is room. -/
theorem Coherent.insertTag (h : Coherent c) {tag : ReplayTag} (hfresh : tag ∉ c.seen)
    (hroom : c.order.length < c.capacity) : Coherent (c.insertTag tag) := by
  have hnew : tag ∉ c.order.map Prod.snd := by
    rwa [h.seen_eq, List.mem_toFinset] at hfresh
  have hmem : ∀ g t, (g, t) ∈ c.order ++ [(c.generation, tag)] ↔
      (g, t) ∈ c.order ∨ g = c.generation ∧ t = tag := by
    intro g t
    rw [List.mem_append, List.mem_singleton, Prod.mk.injEq]
  refine ⟨?_, fun t => ?_, fun g t => ?_, ?_⟩
  · show ((c.order ++ [(c.generation, tag)]).map Prod.snd).Nodup
    rw [List.map_append]
    exact List.Nodup.append h.nodup (List.nodup_singleton tag) (List.disjoint_singleton.mpr hnew)
  · show t ∈ insert tag c.seen ↔ ∃ g, (g, t) ∈ c.order ++ [(c.generation, tag)]
    simp only [Finset.mem_insert, h.seen, hmem, exists_or, exists_eq_left]
    exact or_comm
  · show t ∈ (Function.update c.byGeneration c.generation
        (some (insert tag (c.batch c.generation))) g).getD ∅ ↔ (g, t) ∈ c.order ++ _
    rw [hmem]
    by_cases hg : g = c.generation
    · subst hg
      rw [Function.update_self, Option.getD_some, Finset.mem_insert, h.batch]
      simp [or_comm]
    · rw [Function.update_of_ne hg]
      refine (h.batch g t).trans ?_
      simp [hg]
  · show (c.order ++ [(c.generation, tag)]).length ≤ c.capacity
    rw [List.length_append]
    exact hroom

/-! ## What an advance leaves -/

theorem order_popOldest_sublist (c : ReplayCache) : c.popOldest.order.Sublist c.order := by
  unfold ReplayCache.popOldest
  split
  · exact List.Sublist.refl _
  · exact List.filter_sublist

@[simp] theorem capacity_popOldest (c : ReplayCache) : c.popOldest.capacity = c.capacity := by
  unfold ReplayCache.popOldest
  split <;> rfl

theorem trim_shrinks (fuel : ℕ) (c : ReplayCache) :
    (ReplayCache.trim fuel c).order.Sublist c.order ∧
      (ReplayCache.trim fuel c).capacity = c.capacity := by
  induction fuel generalizing c with
  | zero => exact ⟨List.Sublist.refl _, rfl⟩
  | succ fuel ih =>
    unfold ReplayCache.trim
    split_ifs
    · obtain ⟨horder, hcapacity⟩ := ih c.popOldest
      exact ⟨horder.trans c.order_popOldest_sublist, hcapacity.trans c.capacity_popOldest⟩
    · exact ⟨List.Sublist.refl _, rfl⟩

/-- An advance takes tags away, and nothing else is in order after it. -/
theorem advanceEpoch_shrinks (c : ReplayCache) :
    c.advanceEpoch.order.Sublist c.order ∧ c.advanceEpoch.capacity = c.capacity := by
  unfold ReplayCache.advanceEpoch
  obtain ⟨horder, hcapacity⟩ := trim_shrinks (c.popOldest.activeGenerations ++
    [c.popOldest.generation + 1]).length { c.popOldest with
      generation := c.popOldest.generation + 1
      activeGenerations := c.popOldest.activeGenerations ++ [c.popOldest.generation + 1] }
  exact ⟨horder.trans c.order_popOldest_sublist, hcapacity.trans c.capacity_popOldest⟩

theorem pressureAdvance_shrinks (c : ReplayCache) :
    c.pressureAdvance.order.Sublist c.order ∧ c.pressureAdvance.capacity = c.capacity := by
  unfold pressureAdvance
  split_ifs
  · exact c.advanceEpoch_shrinks
  · exact ⟨List.Sublist.refl _, rfl⟩

theorem Coherent.pressureAdvance (h : Coherent c) : Coherent c.pressureAdvance := by
  unfold ReplayCache.pressureAdvance
  split_ifs
  · exact h.advanceEpoch
  · exact h

/-- Making room takes tags away, in any state. -/
theorem makeRoom_shrinks (c : ReplayCache) :
    c.makeRoom.order.Sublist c.order ∧ c.makeRoom.capacity = c.capacity := by
  unfold ReplayCache.makeRoom
  by_cases hfull : 0 < c.capacity ∧ c.capacity ≤ c.seen.card
  · rw [if_pos hfull]
    obtain ⟨d, hd, hdorder, hdcapacity⟩ : ∃ d, d = (if c.advancesWhenFull then
        c.advanceEpoch else c) ∧ d.order.Sublist c.order ∧ d.capacity = c.capacity := by
      refine ⟨_, rfl, ?_⟩
      split_ifs
      · exact c.advanceEpoch_shrinks
      · exact ⟨List.Sublist.refl _, rfl⟩
    rw [← hd]
    dsimp only
    split_ifs
    · split
      · exact ⟨hdorder, hdcapacity⟩
      · rename_i gen oldest rest horder
        rw [order_removeTagFromGeneration, capacity_removeTagFromGeneration]
        rw [horder] at hdorder
        exact ⟨(List.sublist_cons_self _ rest).trans hdorder, hdcapacity⟩
    · exact ⟨hdorder, hdcapacity⟩
  · rw [if_neg hfull]
    exact ⟨List.Sublist.refl _, rfl⟩

/-- **There is room afterwards**: a full cache advances, or evicts its oldest tag. -/
theorem Coherent.makeRoom (h : Coherent c) (hpos : 0 < c.capacity) :
    Coherent c.makeRoom ∧ c.makeRoom.order.length < c.capacity := by
  unfold ReplayCache.makeRoom
  by_cases hfull : 0 < c.capacity ∧ c.capacity ≤ c.seen.card
  · rw [if_pos hfull]
    -- what is left when the large cache has advanced
    obtain ⟨d, hd, hdcoherent, hdcapacity⟩ : ∃ d, d = (if c.advancesWhenFull then
        c.advanceEpoch else c) ∧ Coherent d ∧ d.capacity = c.capacity := by
      refine ⟨_, rfl, ?_⟩
      split_ifs
      · exact ⟨h.advanceEpoch, c.advanceEpoch_shrinks.2⟩
      · exact ⟨h, rfl⟩
    have hlength := hdcoherent.card_seen
    rw [← hd]
    dsimp only
    split_ifs with hstill
    · split
      · rename_i hnil
        rw [hnil, List.length_nil] at hlength
        omega
      · rename_i gen oldest rest horder
        refine ⟨hdcoherent.evict horder, ?_⟩
        rw [order_removeTagFromGeneration, ← hdcapacity]
        have hle := hdcoherent.length_le
        rw [horder, List.length_cons] at hle
        exact hle
    · refine ⟨hdcoherent, ?_⟩
      rw [← hlength, ← hdcapacity]
      exact not_le.mp hstill
  · rw [if_neg hfull]
    refine ⟨h, ?_⟩
    rw [← h.card_seen]
    exact not_le.mp fun hle => hfull ⟨hpos, hle⟩

/-! ## Runs -/

theorem Coherent.checkAndInsert (h : Coherent c) (hpos : 0 < c.capacity) (tag : ReplayTag) :
    Coherent (c.checkAndInsert tag).2 ∧ (c.checkAndInsert tag).2.capacity = c.capacity := by
  cases hscan : c.ctContains tag with
  | true =>
    rw [checkAndInsert_of_contains hscan]
    exact ⟨h, rfl⟩
  | false =>
    rw [checkAndInsert_of_not_contains hscan]
    obtain ⟨hadvance, hadvanceCapacity⟩ := c.pressureAdvance_shrinks
    obtain ⟨horder, hcapacity⟩ := c.pressureAdvance.makeRoom_shrinks
    obtain ⟨hroom, hlt⟩ := h.pressureAdvance.makeRoom (hadvanceCapacity ▸ hpos)
    have hfresh : tag ∉ c.pressureAdvance.makeRoom.seen := by
      rw [hroom.seen]
      rintro ⟨gen, hmem⟩
      have hseen := (h.seen tag).mpr ⟨gen, (horder.trans hadvance).subset hmem⟩
      rw [← h.ctContains, hscan] at hseen
      cases hseen
    exact ⟨hroom.insertTag hfresh (hcapacity ▸ hlt), hcapacity.trans hadvanceCapacity⟩

/-- A call of the cache. -/
inductive Call where
  | checkAndInsert (tag : ReplayTag)
  | advanceEpoch
  | clear

/-- What each call does to a cache. -/
def call (c : ReplayCache) : Call → ReplayCache
  | .checkAndInsert tag => (c.checkAndInsert tag).2
  | .advanceEpoch => c.advanceEpoch
  | .clear => c.clear

/-- **Every run of calls keeps the structures together.** -/
theorem Coherent.run {capacity : ℕ} (hpos : 0 < capacity) (calls : List Call) :
    Coherent (calls.foldl call (withCapacity capacity)) ∧
      (calls.foldl call (withCapacity capacity)).capacity = capacity := by
  refine Run.foldl_preserves (fun c => Coherent c ∧ c.capacity = capacity) ?_
    ⟨coherent_withCapacity capacity, rfl⟩
  rintro c i - ⟨h, hcapacity⟩
  cases i with
  | checkAndInsert tag =>
    obtain ⟨hnext, hsame⟩ := h.checkAndInsert (hcapacity ▸ hpos) tag
    exact ⟨hnext, hsame.trans hcapacity⟩
  | advanceEpoch => exact ⟨h.advanceEpoch, c.advanceEpoch_shrinks.2.trans hcapacity⟩
  | clear => exact ⟨Coherent.clear c, hcapacity⟩

/-! ## The window of a small cache -/

/-- The tags that a run of `checkAndInsert` calls accepts, in order. -/
def accepted : ReplayCache → List ReplayTag → List ReplayTag
  | _, [] => []
  | c, tag :: tags =>
    (if (c.checkAndInsert tag).1 then [tag] else []) ++ accepted (c.checkAndInsert tag).2 tags

theorem Represents.accepted {capacity : ℕ} {w shown : List ReplayTag} (h : Represents capacity c w)
    (hpos : 0 < capacity) (hinv : Window.Inv (policy capacity) shown w) (tags : List ReplayTag) :
    ReplayCache.accepted c tags = Window.accepted (policy capacity) w tags := by
  induction tags generalizing c w shown with
  | nil => rfl
  | cons tag tags ih =>
    obtain ⟨haccept, -, hnext⟩ := h.checkAndInsert hpos ⟨shown, hinv⟩ tag
    rw [ReplayCache.accepted, Window.accepted, haccept, Window.submit_fst,
      ih hnext (hinv.submit (policy_wellFormed hpos) tag)]
    by_cases htag : tag ∈ w
    · simp [htag]
    · simp [htag]

/-- **A small cache refuses the last tags it accepted.** -/
theorem refused_iff_mem_rtake {capacity : ℕ} (hpos : 0 < capacity)
    (hsmall : capacity < minCapacityForPressureAdvance) (tags : List ReplayTag) (tag : ReplayTag) :
    ((ReplayCache.run (withCapacity capacity) tags).checkAndInsert tag).1 = false ↔
      tag ∈ (ReplayCache.accepted (withCapacity capacity) tags).rtake capacity := by
  have hstart := represents_withCapacity capacity
  have hinv := Window.Inv.nil (α := ReplayTag) (policy capacity)
  have hflush : (policy capacity).flushAt = none := if_neg (not_le.mpr hsmall)
  have hwindow := Window.run_eq_rtake (P := policy capacity) hpos hflush [] tags
  rw [List.rtake_nil, List.nil_append, policy_capacity] at hwindow
  rw [checkAndInsert_fst, (hstart.run hpos hinv tags).2.2.ctContains tag, hwindow,
    hstart.accepted hpos hinv tags]
  simp

/-! ## The theorem -/

/-- **The representation of the cache, and its window.**  After any calls on an empty cache the tags
in order are different, the set of seen tags is that of the order and the disjoint union of the sets
of the generations, each of which holds the tags in order with that generation, no more tags are
stored than the capacity, and exactly the seen tags are refused.  Below the size that advances by
itself, a cache that is only asked refuses exactly the last tags that it accepted, as many as its
capacity. -/
theorem represented (capacity : ℕ) (hpos : 1 ≤ capacity) :
    (∀ calls : List Call, ∀ c, c = calls.foldl call (withCapacity capacity) →
        (c.order.map Prod.snd).Nodup ∧
        c.seen = (c.order.map Prod.snd).toFinset ∧
        (∀ tag, tag ∈ c.seen ↔ ∃ gen, tag ∈ c.batch gen) ∧
        (∀ gen gen', gen ≠ gen' → Disjoint (c.batch gen) (c.batch gen')) ∧
        (∀ gen tag, tag ∈ c.batch gen ↔ (gen, tag) ∈ c.order) ∧
        c.order.length ≤ capacity ∧ c.seen.card ≤ capacity ∧
        ∀ tag, (c.checkAndInsert tag).1 = false ↔ tag ∈ c.seen) ∧
      (capacity < minCapacityForPressureAdvance → ∀ tags tag,
        ((ReplayCache.run (withCapacity capacity) tags).checkAndInsert tag).1 = false ↔
          tag ∈ (ReplayCache.accepted (withCapacity capacity) tags).rtake capacity) := by
  refine ⟨?_, fun hsmall tags tag => refused_iff_mem_rtake hpos hsmall tags tag⟩
  rintro calls c rfl
  obtain ⟨h, hcapacity⟩ := Coherent.run hpos calls
  have hlength := h.length_le
  rw [hcapacity] at hlength
  refine ⟨h.nodup, h.seen_eq, fun tag => ?_, fun gen gen' hne => ?_, h.batch, hlength,
    h.card_seen.trans_le hlength, fun tag => ?_⟩
  · rw [h.seen]
    exact exists_congr fun gen => (h.batch gen tag).symm
  · refine Finset.disjoint_left.mpr fun tag hmem hmem' => hne ?_
    exact h.generation_unique ((h.batch gen tag).mp hmem) ((h.batch gen' tag).mp hmem')
  · rw [checkAndInsert_fst, Bool.not_eq_false', h.ctContains]

/-- A cache of three tags that has seen two calls. -/
theorem represented_three :
    ((ReplayCache.run (withCapacity 3) [ctScanDummy]).checkAndInsert ctScanDummy).1 = false ↔
      ctScanDummy ∈ (ReplayCache.accepted (withCapacity 3) [ctScanDummy]).rtake 3 :=
  (represented 3 (by decide)).2 (by decide) [ctScanDummy] ctScanDummy

end ReplayCache

end Aegis
