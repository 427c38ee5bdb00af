import Mathlib

/-!
# Items on the move

Items lie at places, at each in the order in which they came.  A move takes the first item of a
place and puts it, changed, behind whatever lies at another place.

* `queue_move` — what a move does at each place.
* `perm_move` — **a move loses and adds nothing.**
* `sum_move` — what a move does to a weight.
-/

namespace Placement

variable {π τ : Type} [DecidableEq π]

/-- What lies at a place, first come first. -/
def queue (l : List (π × τ)) (p : π) : List τ := (l.filter fun x => x.1 = p).map Prod.snd

/-- An item is put down. -/
def put (l : List (π × τ)) (p : π) (t : τ) : List (π × τ) := l ++ [(p, t)]

/-- The first item of a place is taken. -/
def take (l : List (π × τ)) (p : π) : List (π × τ) := l.eraseP fun x => x.1 = p

/-- The first item of `p` goes to `q` as `t`. -/
def move (l : List (π × τ)) (p q : π) (t : τ) : List (π × τ) := put (take l p) q t

variable {l : List (π × τ)} {p q : π} {t t' : τ} {ts : List τ}

theorem queue_cons (x : π × τ) (l : List (π × τ)) (p : π) :
    queue (x :: l) p = if x.1 = p then x.2 :: queue l p else queue l p := by
  unfold queue
  by_cases h : x.1 = p
  · rw [List.filter_cons_of_pos (by simpa using h), List.map_cons, if_pos h]
  · rw [List.filter_cons_of_neg (by simpa using h), if_neg h]

theorem queue_put (l : List (π × τ)) (p q : π) (t : τ) :
    queue (put l p t) q = if p = q then queue l q ++ [t] else queue l q := by
  unfold queue put
  rw [List.filter_append, List.map_append]
  by_cases h : p = q
  · rw [if_pos h]
    simp [h]
  · rw [if_neg h]
    simp [h]

theorem mem_queue : t ∈ queue l p ↔ (p, t) ∈ l := by
  unfold queue
  constructor
  · intro h
    obtain ⟨⟨q, u⟩, hmem, rfl⟩ := List.mem_map.mp h
    obtain ⟨hmem, hq⟩ := List.mem_filter.mp hmem
    rw [← of_decide_eq_true hq]
    exact hmem
  · intro h
    exact List.mem_map.mpr ⟨(p, t), List.mem_filter.mpr ⟨h, decide_eq_true rfl⟩, rfl⟩

theorem queue_take (l : List (π × τ)) (p q : π) :
    queue (take l p) q = if p = q then (queue l q).tail else queue l q := by
  unfold take
  induction l with
  | nil =>
    rw [List.eraseP_nil]
    split <;> rfl
  | cons x l ih =>
    by_cases hx : x.1 = p
    · rw [List.eraseP_cons_of_pos (by simpa using hx), queue_cons, hx]
      by_cases hpq : p = q
      · rw [if_pos hpq, if_pos hpq, List.tail_cons]
      · rw [if_neg hpq, if_neg hpq]
    · rw [List.eraseP_cons_of_neg (by simpa using hx), queue_cons, queue_cons, ih]
      by_cases hpq : p = q
      · subst hpq
        rw [if_pos rfl, if_neg hx, if_pos rfl, if_neg hx]
      · rw [if_neg hpq, if_neg hpq]

/-! ## Moves -/

/-- **What a move does at each place.** -/
theorem queue_move (l : List (π × τ)) (p q r : π) (t : τ) :
    queue (move l p q t) r =
      (if p = r then (queue l r).tail else queue l r) ++ if q = r then [t] else [] := by
  rw [move, queue_put, queue_take]
  by_cases h : q = r
  · rw [if_pos h, if_pos h]
  · rw [if_neg h, if_neg h, List.append_nil]

theorem perm_take (h : queue l p = t :: ts) : ((p, t) :: take l p).Perm l := by
  unfold take
  induction l with
  | nil => cases h
  | cons x l ih =>
    rw [queue_cons] at h
    by_cases hx : x.1 = p
    · rw [if_pos hx, List.cons.injEq] at h
      rw [List.eraseP_cons_of_pos (by simpa using hx), ← hx, ← h.1]
    · rw [if_neg hx] at h
      rw [List.eraseP_cons_of_neg (by simpa using hx)]
      exact (List.Perm.swap x (p, t) _).trans ((ih h).cons x)

/-- **A move keeps every item**, as long as it does not change what is looked at. -/
theorem perm_move {κ : Type} (f : π × τ → κ) (h : queue l p = t :: ts)
    (hkeep : f (q, t') = f (p, t)) : ((move l p q t').map f).Perm (l.map f) := by
  refine List.Perm.trans ?_ ((perm_take h).map f)
  rw [move, put, List.map_append, List.map_cons, List.map_cons, List.map_nil, hkeep]
  exact List.perm_append_singleton _ _

/-- What a move does to a weight. -/
theorem sum_move (w : π × τ → ℕ) (q : π) (t' : τ) (h : queue l p = t :: ts) :
    ((move l p q t').map w).sum + w (p, t) = (l.map w).sum + w (q, t') := by
  have hperm := ((perm_take h).map w).sum_eq
  rw [List.map_cons, List.sum_cons] at hperm
  rw [move, put, List.map_append, List.sum_append, List.map_cons, List.map_nil, List.sum_singleton]
  omega

omit [DecidableEq π] in
theorem sum_put (w : π × τ → ℕ) : ((put l p t).map w).sum = (l.map w).sum + w (p, t) := by
  rw [put, List.map_append, List.sum_append, List.map_cons, List.map_nil, List.sum_singleton]

end Placement
