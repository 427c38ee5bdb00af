import Aegis.Lib.Run

/-!
# Sampling

Programs draw numbers to shuffle a list, to deal it out in hands and to pick an item of each hand.
What is said here holds whatever is drawn.

* `swapAlong_perm` — **a shuffle loses and invents nothing**.
* `take_swapAlong` — which items it brings to the front is a matter of their positions.
* `take_swapTo_range` — the front of a shuffle does not change when it goes on.
* `flatten_deal_perm` — dealing loses and invents nothing, and `length_deal_hand` — **the hands are
  as long as each other**, up to one item.
* `nodup_of_picks` — items of disjoint hands, one of each, are distinct.
* `Draws.bind_returns`, `Draws.mapM_returns` — what a computation has done when it succeeds.
* `Draws.Total.bind`, `Draws.total_mapM` — when it does not panic.
-/

namespace Sampling

variable {α β σ ω ε : Type}

/-- A generator that draws from ranges. -/
structure Rng (σ : Type) where
  /-- `gen_range(lo..hi)`. -/
  genRange : ℕ → ℕ → σ → ℕ × σ
  genRange_mem : ∀ {lo hi : ℕ} (s : σ), lo < hi →
    lo ≤ (genRange lo hi s).1 ∧ (genRange lo hi s).1 < hi

/-- One that starts from a seed. -/
structure SeededRng (σ : Type) extends Rng σ where
  seedFromU64 : UInt64 → σ

/-- A generator that draws what is written for its seed, as long as that is in range. -/
def scripted (script : UInt64 → List ℕ) : SeededRng (List ℕ) where
  genRange lo hi draws :=
    match draws with
    | [] => (lo, [])
    | d :: draws => (if lo ≤ d ∧ d < hi then d else lo, draws)
  genRange_mem := by
    intro lo hi draws h
    match draws with
    | [] => exact ⟨le_rfl, h⟩
    | d :: draws =>
      simp only
      split_ifs with hd
      · exact hd
      · exact ⟨le_rfl, h⟩
  seedFromU64 := script

/-! ## Shuffles -/

/-- `slice::swap`, of two indices in bounds. -/
def swap (l : List α) (i j : ℕ) : List α :=
  match l[i]?, l[j]? with
  | some a, some b => (l.set i b).set j a
  | _, _ => l

theorem swap_perm (l : List α) (i j : ℕ) : (swap l i j).Perm l := by
  unfold swap
  split
  · rename_i a b ha hb
    obtain ⟨hi, rfl⟩ := List.getElem?_eq_some_iff.mp ha
    obtain ⟨hj, rfl⟩ := List.getElem?_eq_some_iff.mp hb
    exact List.set_set_perm hi hj
  · exact List.Perm.refl l

/-- Each of the indices is swapped with one that is drawn from its range. -/
def swapAlong (r : Rng σ) (range : ℕ → ℕ × ℕ) (indices : List ℕ) (l : List α) (s : σ) :
    List α × σ :=
  indices.foldl
    (fun t i =>
      let (j, s) := r.genRange (range i).1 (range i).2 t.2
      (swap t.1 i j, s))
    (l, s)

/-- **A shuffle loses and invents nothing.** -/
theorem swapAlong_perm (r : Rng σ) (range : ℕ → ℕ × ℕ) (indices : List ℕ) (l : List α) (s : σ) :
    (swapAlong r range indices l s).1.Perm l :=
  Run.foldl_preserves (fun t : List α × σ => t.1.Perm l)
    (fun t i _ h => (swap_perm t.1 i _).trans h) (List.Perm.refl l)

theorem map_swap (f : α → β) (l : List α) (i j : ℕ) : swap (l.map f) i j = (swap l i j).map f := by
  unfold swap
  rw [List.getElem?_map, List.getElem?_map]
  cases l[i]? with
  | none => rfl
  | some a =>
    cases l[j]? with
    | none => rfl
    | some b => simp only [Option.map_some, List.map_set]

theorem map_swapAlong (r : Rng σ) (range : ℕ → ℕ × ℕ) (indices : List ℕ) (f : α → β) (l : List α)
    (s : σ) :
    swapAlong r range indices (l.map f) s =
      ((swapAlong r range indices l s).1.map f, (swapAlong r range indices l s).2) := by
  unfold swapAlong
  induction indices generalizing l s with
  | nil => rfl
  | cons i indices ih =>
    rw [List.foldl_cons, List.foldl_cons]
    simp only
    rw [map_swap]
    exact ih _ _

/-- The positions of the items that a shuffle of `n` items brings to the first `k` places. -/
def pick (r : Rng σ) (n k : ℕ) (s : σ) : List (Fin n) :=
  (swapAlong r (fun i => (i, n)) (List.range k) (List.finRange n) s).1.take k

/-- **Which items a shuffle brings to the front** is a matter of their positions. -/
theorem take_swapAlong (r : Rng σ) (k : ℕ) (l : List α) (s : σ) :
    (swapAlong r (fun i => (i, l.length)) (List.range k) l s).1.take k =
      (pick r l.length k s).map l.get := by
  have hmap := map_swapAlong r (fun i => (i, l.length)) (List.range k) l.get
    (List.finRange l.length) s
  rw [List.map_get_finRange] at hmap
  rw [hmap, pick, List.map_take]

/-- If all the items are brought to the front, all their positions are. -/
theorem pick_perm_of_eq (r : Rng σ) (n : ℕ) (s : σ) : (pick r n n s).Perm (List.finRange n) := by
  have hperm := swapAlong_perm r (fun i => (i, n)) (List.range n) (List.finRange n) s
  unfold pick
  rw [List.take_of_length_le (by rw [hperm.length_eq, List.length_finRange])]
  exact hperm

theorem swap_self (l : List α) (i : ℕ) : swap l i i = l := by
  unfold swap
  cases h : l[i]? with
  | none => rfl
  | some a =>
    obtain ⟨hi, rfl⟩ := List.getElem?_eq_some_iff.mp h
    simp

/-- A generator with nothing written leaves every item where it is. -/
theorem swapAlong_nothing (script : UInt64 → List ℕ) (n : ℕ) (indices : List ℕ)
    (l : List α) : swapAlong (scripted script).toRng (fun i => (i, n)) indices l [] = (l, []) := by
  unfold swapAlong
  induction indices with
  | nil => rfl
  | cons i indices ih =>
    rw [List.foldl_cons]
    show List.foldl _ (swap l i i, []) indices = _
    rw [swap_self]
    exact ih

/-- One that has the position `k` written brings its item to the front. -/
theorem mem_take_swapAlong (script : UInt64 → List ℕ) {k : ℕ} (hk : 0 < k) {l : List α}
    (hlt : k < l.length) :
    l[k] ∈ (swapAlong (scripted script).toRng (fun i => (i, l.length)) (List.range k) l [k]).1.take
      k := by
  obtain ⟨m, rfl⟩ := Nat.exists_eq_succ_of_ne_zero hk.ne'
  simp only [Nat.succ_eq_add_one, List.range_succ_eq_map]
  unfold swapAlong
  rw [List.foldl_cons]
  have hnothing := swapAlong_nothing script l.length ((List.range m).map Nat.succ)
    (swap l 0 (m + 1))
  unfold swapAlong at hnothing
  have hdraw : (scripted script).toRng.genRange 0 l.length [m + 1] = (m + 1, []) := by
    show (if 0 ≤ m + 1 ∧ m + 1 < l.length then m + 1 else 0, ([] : List ℕ)) = _
    rw [if_pos ⟨Nat.zero_le _, by omega⟩]
  simp only [hdraw, hnothing]
  unfold swap
  rw [List.getElem?_eq_getElem (by omega : 0 < l.length), List.getElem?_eq_getElem (by omega)]
  refine List.mem_take_iff_getElem.mpr ⟨0, by simp; omega, ?_⟩
  simp

/-! ## Shuffles along a given course -/

/-- Each of the indices is swapped with its target. -/
def swapTo (target : ℕ → ℕ) (indices : List ℕ) (l : List α) : List α :=
  indices.foldl (fun l i => swap l i (target i)) l

theorem swapTo_append (target : ℕ → ℕ) (indices indices' : List ℕ) (l : List α) :
    swapTo target (indices ++ indices') l = swapTo target indices' (swapTo target indices l) :=
  List.foldl_append

theorem swapTo_perm (target : ℕ → ℕ) (indices : List ℕ) (l : List α) :
    (swapTo target indices l).Perm l :=
  Run.foldl_preserves (fun l' : List α => l'.Perm l)
    (fun l' i _ h => (swap_perm l' i (target i)).trans h) (List.Perm.refl l)

/-- A swap further on leaves the front as it is. -/
theorem take_swap {k i j : ℕ} (hi : k ≤ i) (hj : k ≤ j) (l : List α) :
    (swap l i j).take k = l.take k := by
  unfold swap
  split
  · rw [List.take_set_of_le hj, List.take_set_of_le hi]
  · rfl

/-- **The front of a shuffle does not change when it goes on**, towards the end of the list. -/
theorem take_swapTo_range {target : ℕ → ℕ} (h : ∀ i, i ≤ target i) {k k' : ℕ} (hk : k ≤ k')
    (l : List α) :
    (swapTo target (List.range k') l).take k = (swapTo target (List.range k) l).take k := by
  obtain ⟨m, rfl⟩ := Nat.exists_eq_add_of_le hk
  rw [List.range_add, swapTo_append]
  refine Run.foldl_preserves
    (fun l' : List α => l'.take k = (swapTo target (List.range k) l).take k) ?_ rfl
  intro l' i hi hl'
  obtain ⟨j, -, rfl⟩ := List.mem_map.mp hi
  have hle : k ≤ k + j := Nat.le_add_right k j
  exact (take_swap hle (hle.trans (h (k + j))) l').trans hl'

/-! ## Dealing -/

/-- The items go to the hands in turn. -/
def deal (n : ℕ) (l : List α) : List (List α) :=
  l.zipIdx.foldl (fun hands p => hands.modify (p.2 % n) (· ++ [p.1])) (List.replicate n [])

theorem flatten_modify_perm {hands : List (List α)} {k : ℕ} (h : k < hands.length) (a : α) :
    (hands.modify k (· ++ [a])).flatten.Perm (hands.flatten ++ [a]) := by
  induction hands generalizing k with
  | nil => exact absurd h (Nat.not_lt_zero _)
  | cons hand hands ih =>
    cases k with
    | zero =>
      rw [List.modify_zero_cons, List.flatten_cons, List.flatten_cons, List.append_assoc,
        List.append_assoc]
      exact (List.perm_append_comm).append_left hand
    | succ k =>
      rw [List.modify_succ_cons, List.flatten_cons, List.flatten_cons, List.append_assoc]
      exact (ih (Nat.lt_of_succ_lt_succ h)).append_left hand

theorem foldl_deal {n : ℕ} (hn : 0 < n) (l : List α) (k : ℕ) {hands : List (List α)}
    (hlength : hands.length = n) :
    ((l.zipIdx k).foldl (fun hands p => hands.modify (p.2 % n) (· ++ [p.1])) hands).length = n ∧
      ((l.zipIdx k).foldl (fun hands p => hands.modify (p.2 % n) (· ++ [p.1])) hands).flatten.Perm
        (hands.flatten ++ l) := by
  induction l generalizing k hands with
  | nil => exact ⟨hlength, by rw [List.append_nil]; exact List.Perm.refl _⟩
  | cons a l ih =>
    rw [List.zipIdx_cons, List.foldl_cons]
    have hmodify : (hands.modify (k % n) (· ++ [a])).length = n := by
      rw [List.length_modify]
      exact hlength
    obtain ⟨hlength', hperm⟩ := ih (k + 1) hmodify
    refine ⟨hlength', hperm.trans ?_⟩
    have hmod : k % n < hands.length := by
      rw [hlength]
      exact Nat.mod_lt k hn
    have hall := (flatten_modify_perm hmod a).append_right l
    rw [List.append_assoc, List.singleton_append] at hall
    exact hall

theorem length_deal {n : ℕ} (hn : 0 < n) (l : List α) : (deal n l).length = n :=
  (foldl_deal hn l 0 List.length_replicate).1

/-- **Dealing loses and invents nothing.** -/
theorem flatten_deal_perm {n : ℕ} (hn : 0 < n) (l : List α) : (deal n l).flatten.Perm l := by
  have h := (foldl_deal hn l 0 (List.length_replicate (n := n) (a := []))).2
  rw [List.flatten_replicate_nil, List.nil_append] at h
  exact h

/-- How many of the first `k` items go to the hand `i` of `n`. -/
def share (n k i : ℕ) : ℕ := k / n + if i < k % n then 1 else 0

theorem share_succ {n : ℕ} (hn : 0 < n) (k : ℕ) {i : ℕ} (hi : i < n) :
    share n (k + 1) i = if k % n = i then share n k i + 1 else share n k i := by
  have hmod := Nat.mod_lt k hn
  have hsplit := Nat.div_add_mod k n
  unfold share
  by_cases hlast : k % n + 1 = n
  · -- the last of a round
    have hk : k + 1 = n * (k / n + 1) := by
      rw [Nat.mul_add, Nat.mul_one]
      omega
    rw [hk, Nat.mul_div_cancel_left _ hn, Nat.mul_mod_right, if_neg (Nat.not_lt_zero i)]
    split_ifs <;> omega
  · have hk : k + 1 = n * (k / n) + (k % n + 1) := by omega
    have hlt : k % n + 1 < n := by omega
    rw [hk, Nat.mul_add_div hn, Nat.div_eq_of_lt hlt, Nat.mul_add_mod, Nat.mod_eq_of_lt hlt]
    split_ifs <;> omega

theorem length_foldl_deal {n : ℕ} (hn : 0 < n) (l : List α) (k : ℕ) {hands : List (List α)}
    (hlength : hands.length = n)
    (h : ∀ i hand, hands[i]? = some hand → hand.length = share n k i) (i : ℕ) (hand : List α)
    (hhand : ((l.zipIdx k).foldl (fun hands p => hands.modify (p.2 % n) (· ++ [p.1]))
      hands)[i]? = some hand) : hand.length = share n (k + l.length) i := by
  induction l generalizing k hands with
  | nil => exact h i hand hhand
  | cons a l ih =>
    rw [List.zipIdx_cons, List.foldl_cons] at hhand
    have hnext := ih (k + 1) (by rw [List.length_modify]; exact hlength) ?_ hhand
    · rw [hnext, List.length_cons, Nat.add_right_comm, Nat.add_assoc]
    · intro j hand' hhand'
      rw [List.getElem?_modify] at hhand'
      obtain ⟨before, hbefore, rfl⟩ := Option.map_eq_some_iff.mp hhand'
      have hj : j < n := hlength ▸ (List.getElem?_eq_some_iff.mp hbefore).1
      have hshare := h j before hbefore
      rw [share_succ hn k hj]
      split_ifs
      · rw [List.length_append, List.length_singleton, hshare]
      · exact hshare

/-- **The hands are as long as each other**, up to one item. -/
theorem length_deal_hand {n : ℕ} (hn : 0 < n) (l : List α) {hand : List α} (h : hand ∈ deal n l) :
    l.length / n ≤ hand.length ∧ hand.length ≤ l.length / n + 1 := by
  obtain ⟨i, hi⟩ := List.getElem?_of_mem h
  have hlength := length_foldl_deal hn l 0 List.length_replicate (by
    intro j hand' hhand'
    rw [List.eq_of_mem_replicate (List.mem_of_getElem? hhand')]
    simp [share]) i hand hi
  rw [hlength, Nat.zero_add]
  unfold share
  split_ifs <;> omega

theorem mem_flatten_of_picks {items : List α} {hands : List (List α)}
    (h : List.Forall₂ (· ∈ ·) items hands) {a : α} (ha : a ∈ items) : a ∈ hands.flatten := by
  induction h with
  | nil => exact absurd ha List.not_mem_nil
  | @cons b hand items hands hb _ ih =>
    rw [List.flatten_cons]
    rcases List.mem_cons.mp ha with rfl | ha
    · exact List.mem_append_left _ hb
    · exact List.mem_append_right _ (ih ha)

/-- **Items of disjoint hands, one of each, are distinct.** -/
theorem nodup_of_picks {items : List α} {hands : List (List α)}
    (h : List.Forall₂ (· ∈ ·) items hands) (hnodup : hands.flatten.Nodup) : items.Nodup := by
  induction h with
  | nil => exact List.nodup_nil
  | @cons a hand items hands ha hrest ih =>
    rw [List.flatten_cons, List.nodup_append] at hnodup
    obtain ⟨-, hnodup', hdisjoint⟩ := hnodup
    refine List.nodup_cons.mpr ⟨?_, ih hnodup'⟩
    intro hmem
    exact hdisjoint a ha a (mem_flatten_of_picks hrest hmem) rfl

/-! ## Computations that draw -/

/-- A computation that draws, and can fail; it is `none` where it panics. -/
abbrev Draws (ω ε α : Type) := StateT ω (ExceptT ε Option) α

namespace Draws

/-- A draw that panics. -/
def panics : Draws ω ε α := fun _ => (none : Option (Except ε (α × ω)))

/-- A draw that panics if there is no value. -/
def orPanic : Option α → Draws ω ε α
  | some a => pure a
  | none => panics

/-- A draw that ends with an error if there is one. -/
def orThrow : Except ε α → Draws ω ε α
  | .ok a => pure a
  | .error e => throw e

/-- It fails with another error. -/
def mapThrow {ε' : Type} (f : ε → ε') (x : Draws ω ε α) : Draws ω ε' α := fun s =>
  Option.map (Except.mapError f) (x s : Option (Except ε (α × ω)))

/-- The number that is drawn from the range. -/
def draw (r : Rng ω) (lo hi : ℕ) : Draws ω ε ℕ := fun s =>
  (some (.ok (r.genRange lo hi s)) : Option (Except ε (ℕ × ω)))

/-- It succeeds with this value. -/
def Returns (x : Draws ω ε α) (s : ω) (a : α) (t : ω) : Prop :=
  x s = (some (.ok (a, t)) : Option (Except ε (α × ω)))

instance [DecidableEq ω] [DecidableEq ε] [DecidableEq α] (x : Draws ω ε α) (s : ω) (a : α) (t : ω) :
    Decidable (Returns x s a t) :=
  inferInstanceAs (Decidable (@Eq (Option (Except ε (α × ω))) (x s) (some (.ok (a, t)))))

variable {s t : ω}

theorem pure_returns {a b : α} (h : Returns (pure a : Draws ω ε α) s b t) : b = a ∧ t = s := by
  cases h
  exact ⟨rfl, rfl⟩

theorem not_throw_returns {e : ε} {a : α} : ¬Returns (throw e : Draws ω ε α) s a t := by
  intro h
  cases h

theorem not_panics_returns {a : α} : ¬Returns (panics : Draws ω ε α) s a t := by
  intro h
  cases h

theorem bind_apply (x : Draws ω ε α) (f : α → Draws ω ε β) (s : ω) :
    (x >>= f) s =
      match (x s : Option (Except ε (α × ω))) with
      | none => (none : Option (Except ε (β × ω)))
      | some (.error e) => (some (.error e) : Option (Except ε (β × ω)))
      | some (.ok (a, u)) => f a u := by
  show Option.bind (x s : Option (Except ε (α × ω))) _ = _
  rcases (x s : Option (Except ε (α × ω))) with _ | _ | _ <;> rfl

/-- **Two computations in sequence succeed when both do.** -/
theorem bind_returns {x : Draws ω ε α} {f : α → Draws ω ε β} {b : β}
    (h : Returns (x >>= f) s b t) : ∃ a u, Returns x s a u ∧ Returns (f a) u b t := by
  unfold Returns at h ⊢
  rw [bind_apply] at h
  split at h
  · cases h
  · cases h
  · rename_i a u hx
    exact ⟨a, u, hx, h⟩

theorem orPanic_returns {x : Option α} {a : α} (h : Returns (orPanic x : Draws ω ε α) s a t) :
    x = some a := by
  cases x with
  | none => exact absurd h not_panics_returns
  | some b =>
    obtain ⟨rfl, -⟩ := pure_returns h
    rfl

theorem orThrow_returns {x : Except ε α} {a : α}
    (h : Returns (orThrow x : Draws ω ε α) s a t) : x = .ok a := by
  cases x with
  | error e => exact absurd h not_throw_returns
  | ok b =>
    obtain ⟨rfl, -⟩ := pure_returns h
    rfl

theorem mapThrow_returns {ε' : Type} {f : ε → ε'} {x : Draws ω ε α} {a : α} :
    Returns (mapThrow f x) s a t ↔ Returns x s a t := by
  unfold Returns mapThrow
  rcases (x s : Option (Except ε (α × ω))) with _ | _ | _
  · exact iff_of_false nofun nofun
  · exact iff_of_false nofun nofun
  · exact ⟨fun h => by cases h; rfl, fun h => by cases h; rfl⟩

/-- **A loop that succeeds has succeeded in every round.** -/
theorem mapM_returns {f : α → Draws ω ε β} {l : List α} {out : List β}
    (R : α → β → Prop) (hround : ∀ a ∈ l, ∀ b s t, Returns (f a) s b t → R a b)
    (h : Returns (l.mapM f) s out t) : List.Forall₂ R l out := by
  induction l generalizing s t out with
  | nil =>
    rw [List.mapM_nil] at h
    obtain ⟨rfl, -⟩ := pure_returns h
    exact .nil
  | cons a l ih =>
    rw [List.mapM_cons] at h
    obtain ⟨b, u, hb, h⟩ := bind_returns h
    obtain ⟨bs, v, hbs, h⟩ := bind_returns h
    obtain ⟨rfl, rfl⟩ := pure_returns h
    exact .cons (hround a List.mem_cons_self b _ _ hb)
      (ih (fun a' ha' => hround a' (List.mem_cons_of_mem a ha')) hbs)

/-! ## Computations that do not panic -/

/-- It does not panic, whatever is drawn. -/
def Total (x : Draws ω ε α) : Prop := ∀ s, (x s : Option (Except ε (α × ω))) ≠ none

theorem total_pure (a : α) : Total (pure a : Draws ω ε α) := by
  intro s h
  cases h

theorem total_throw (e : ε) : Total (throw e : Draws ω ε α) := by
  intro s h
  cases h

theorem total_orPanic {x : Option α} (h : x ≠ none) : Total (orPanic x : Draws ω ε α) := by
  obtain ⟨a, rfl⟩ := Option.ne_none_iff_exists'.mp h
  exact total_pure a

theorem total_orThrow (x : Except ε α) : Total (orThrow x : Draws ω ε α) := by
  cases x with
  | error e => exact total_throw e
  | ok a => exact total_pure a

theorem Total.mapThrow {ε' : Type} {x : Draws ω ε α} (h : Total x) (f : ε → ε') :
    Total (mapThrow f x) := by
  intro s hnone
  exact h s (Option.map_eq_none_iff (f := Except.mapError f).mp hnone)

theorem Total.bind {x : Draws ω ε α} {f : α → Draws ω ε β} (hx : Total x)
    (hf : ∀ a s u, Returns x s a u → Total (f a)) : Total (x >>= f) := by
  intro s
  rw [bind_apply]
  split
  · rename_i hnone
    exact absurd hnone (hx s)
  · nofun
  · rename_i a u hreturns
    exact hf a s u hreturns u

theorem total_mapM {f : α → Draws ω ε β} {l : List α} (h : ∀ a ∈ l, Total (f a)) :
    Total (l.mapM f) := by
  induction l with
  | nil =>
    rw [List.mapM_nil]
    exact total_pure []
  | cons a l ih =>
    rw [List.mapM_cons]
    refine (h a List.mem_cons_self).bind fun b _ _ _ => ?_
    refine (ih fun a' ha' => h a' (List.mem_cons_of_mem a ha')).bind fun bs _ _ _ => ?_
    exact total_pure (b :: bs)

/-- One of the items, at an index that is drawn. -/
def choose (r : Rng ω) (l : List α) : Draws ω ε α := do
  let idx ← draw r 0 l.length
  orPanic l[idx]?

theorem mem_of_choose {r : Rng ω} {l : List α} {a : α}
    (h : Returns (choose r l : Draws ω ε α) s a t) : a ∈ l := by
  obtain ⟨idx, u, -, hget⟩ := bind_returns h
  exact List.mem_of_getElem? (orPanic_returns hget)

theorem total_choose (r : Rng ω) {l : List α} (h : l ≠ []) :
    Total (choose r l : Draws ω ε α) := by
  intro s
  obtain ⟨-, hlt⟩ := r.genRange_mem s (List.length_pos_iff.mpr h)
  exact total_orPanic (by rw [List.getElem?_eq_getElem hlt]; nofun) _

end Draws

end Sampling
