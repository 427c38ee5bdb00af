import Mathlib.Data.List.Sort

/-!
# Order statistics of a sorted list

What the number of entries below or above a bound says about the entry at a position, in any linear
order.

* `OrderStatistics.mem_of_majority` — **the entries in the middle of a sorted list lie in every
  interval that holds more than half of its entries.**
-/

namespace Aegis

namespace OrderStatistics

variable {α : Type*} {l : List α} {i : ℕ}

/-! ## Counting entries -/

/-- A property that passes to earlier entries does not reach a position that is not below the number
of entries that have it. -/
theorem not_of_countP_le {r : α → α → Prop} {p : α → Bool} (hsorted : l.Pairwise r)
    (hclosed : ∀ x y, r x y → p y → p x) (hlt : i < l.length) (hcount : l.countP p ≤ i) :
    ¬p l[i] := by
  intro hp
  have hprefix : ∀ x ∈ l.take (i + 1), p x := by
    intro x hx
    obtain ⟨j, hj, rfl⟩ := List.mem_take_iff_getElem.mp hx
    have hji : j ≤ i := by omega
    rcases hji.lt_or_eq with h | h
    · exact hclosed _ _ (List.pairwise_iff_getElem.mp hsorted j i (by omega) hlt h) hp
    · subst h
      exact hp
  have hmono := (List.take_sublist (i + 1) l).countP_le (p := p)
  rw [List.countP_eq_length.mpr hprefix, List.length_take] at hmono
  omega

/-- No entry has two properties that exclude each other. -/
theorem countP_add_countP_le {p q : α → Bool} (l : List α) (h : ∀ x, p x → q x → False) :
    l.countP p + l.countP q ≤ l.length := by
  rw [List.length_eq_countP_add_countP p]
  refine Nat.add_le_add_left (List.countP_mono_left ?_) _
  intro x _ hq
  simpa using fun hp => h x hp hq

/-! ## Bounds -/

variable [LinearOrder α] {lo hi : α}

theorem le_getElem_of_countP_le (hsorted : l.Pairwise (· ≤ ·)) (hlt : i < l.length)
    (hcount : l.countP (· < lo) ≤ i) : lo ≤ l[i] := by
  have hnot := not_of_countP_le (p := (decide <| · < lo)) hsorted
    (fun x y hxy hy => decide_eq_true (lt_of_le_of_lt hxy (of_decide_eq_true hy))) hlt hcount
  simpa using hnot

theorem getElem_le_of_countP_le (hsorted : l.Pairwise (· ≤ ·)) (hlt : i < l.length)
    (hcount : l.countP (hi < ·) + i < l.length) : l[i] ≤ hi := by
  have hreverse : l.reverse.Pairwise (· ≥ ·) := List.pairwise_reverse.mpr hsorted
  have hnot := not_of_countP_le (i := l.length - 1 - i) (p := (decide <| hi < ·)) hreverse
    (fun x y hxy hy => decide_eq_true (lt_of_lt_of_le (of_decide_eq_true hy) hxy))
    (by rw [List.length_reverse]; omega) (by rw [List.countP_reverse]; omega)
  rw [List.getElem_reverse] at hnot
  have hindex : l.length - 1 - (l.length - 1 - i) = i := by omega
  simpa [hindex] using hnot

/-! ## The middle -/

/-- **Every middle entry of a sorted list lies in an interval that holds more than half of the
entries**: there are at most two, one if the number of entries is odd. -/
theorem mem_of_majority (hsorted : l.Pairwise (· ≤ ·))
    (hmajority : l.length < 2 * l.countP fun x => decide (lo ≤ x ∧ x ≤ hi)) (hlt : i < l.length)
    (hlower : l.length ≤ 2 * i + 2) (hupper : 2 * i ≤ l.length) : lo ≤ l[i] ∧ l[i] ≤ hi := by
  have hbelow := countP_add_countP_le (p := fun x => decide (lo ≤ x ∧ x ≤ hi))
    (q := (decide <| · < lo)) l (by simp +contextual)
  have habove := countP_add_countP_le (p := fun x => decide (lo ≤ x ∧ x ≤ hi))
    (q := (decide <| hi < ·)) l (by simp +contextual)
  exact ⟨le_getElem_of_countP_le hsorted hlt (by omega),
    getElem_le_of_countP_le hsorted hlt (by omega)⟩

end OrderStatistics

end Aegis
