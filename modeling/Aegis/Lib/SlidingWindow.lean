import Mathlib

/-!
# Sliding windows

A limiter keeps the times at which it admitted something, forgets those that have left the
window when it admits the next one, and admits only while fewer than `limit` are left.

* `Inv.record` — one more admission, at a time that is not earlier.
* `Inv.bound` — no window holds more admissions than the limit.
-/

namespace SlidingWindow

/-- The times that are still in the window at `now`. -/
def recent (width : ℕ) (times : List ℕ) (now : ℕ) : List ℕ := times.filter (now - width ≤ ·)

/-- An admission is recorded. -/
def record (width : ℕ) (times : List ℕ) (now : ℕ) : List ℕ := recent width times now ++ [now]

/-- What holds of the admissions so far and the times that are kept, when it is `clock`. -/
structure Inv (width limit clock : ℕ) (log times : List ℕ) : Prop where
  /-- No admission is later. -/
  le_clock : ∀ t ∈ log, t ≤ clock
  /-- The admissions in the window are kept, from now on. -/
  kept : ∀ now, clock ≤ now → (recent width log now).length ≤ (recent width times now).length
  bound : ∀ s, (log.filter fun t => s ≤ t ∧ t ≤ s + width).length ≤ limit

variable {width limit clock : ℕ} {log times : List ℕ}

theorem Inv.nil (width limit clock : ℕ) (times : List ℕ) : Inv width limit clock [] times :=
  ⟨by simp, by simp [recent], by simp⟩

/-- Time passes. -/
theorem Inv.mono (h : Inv width limit clock log times) {now : ℕ} (hnow : clock ≤ now) :
    Inv width limit now log times where
  le_clock t ht := (h.le_clock t ht).trans hnow
  kept n hn := h.kept n (hnow.trans hn)
  bound := h.bound

/-- Pruning does not forget what is still in the window later. -/
theorem recent_recent (width : ℕ) (times : List ℕ) {now later : ℕ} (h : now ≤ later) :
    recent width (recent width times now) later = recent width times later := by
  unfold recent
  rw [List.filter_filter]
  refine List.filter_congr fun t _ => ?_
  rw [Bool.and_eq_left_iff_imp, decide_eq_true_eq, decide_eq_true_eq]
  omega

/-- **One more admission**, when fewer than `limit` are in the window. -/
theorem Inv.record (h : Inv width limit clock log times) {now : ℕ} (hnow : clock ≤ now)
    (hroom : (recent width times now).length < limit) :
    Inv width limit now (log ++ [now]) (SlidingWindow.record width times now) := by
  refine ⟨fun t ht => ?_, fun later hlater => ?_, fun s => ?_⟩
  · rcases List.mem_append.mp ht with ht | ht
    · exact (h.le_clock t ht).trans hnow
    · exact (List.mem_singleton.mp ht).le
  · have hold := h.kept later (hnow.trans hlater)
    have happend : ∀ l l' : List ℕ, recent width (l ++ l') later =
        recent width l later ++ recent width l' later := fun l l' => by
      unfold recent
      rw [List.filter_append]
    rw [SlidingWindow.record, happend, happend, recent_recent width times hlater,
      List.length_append, List.length_append]
    exact Nat.add_le_add_right hold _
  · rw [List.filter_append, List.length_append]
    by_cases hs : s ≤ now ∧ now ≤ s + width
    · -- all of the window at `s` is in the window at `now`
      have hsub : (log.filter fun t => s ≤ t ∧ t ≤ s + width).length ≤
          (recent width log now).length := by
        refine List.Sublist.length_le (List.monotone_filter_right _ fun t ht => ?_)
        rw [decide_eq_true_eq] at ht ⊢
        omega
      have hkept := h.kept now hnow
      have hlast : ([now].filter fun t => decide (s ≤ t ∧ t ≤ s + width)).length ≤ 1 :=
        List.length_filter_le _ [now]
      omega
    · have hlast : ([now].filter fun t => decide (s ≤ t ∧ t ≤ s + width)) = [] := by
        simpa using hs
      rw [hlast, List.length_nil, Nat.add_zero]
      exact h.bound s

end SlidingWindow
