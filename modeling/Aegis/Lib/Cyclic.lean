import Mathlib

/-!
# Cyclic order

A scan of a table starts at a cursor and goes round.  Which of two places it reaches first depends
on the cursor alone, not on the length of the table, so it stays so when the table grows.

* `exists_mod_eq_iff` — the places a scan has reached when it comes to another.
* `Before.of_move` — the order seen from a place the scan has come to.
-/

namespace Cyclic

/-- A scan that starts at `c` reaches `j` before `i`. -/
def Before (c j i : ℕ) : Prop := (c ≤ j ∧ (i < c ∨ j < i)) ∨ (j < c ∧ i < c ∧ j < i)

instance (c j i : ℕ) : Decidable (Before c j i) := by
  unfold Before
  infer_instance

variable {c j i s : ℕ}

/-- Of two places one is reached first. -/
theorem before_of_not (h : ¬Before c j i) (hne : i ≠ j) : Before c i j := by
  unfold Before at *
  omega

/-- The place of the cursor is the first. -/
theorem before_self (h : i ≠ c) : Before c c i := by
  unfold Before
  omega

/-- From the next place on, a place is reached last. -/
theorem not_before_succ : ¬Before (i + 1) i s := by
  unfold Before
  omega

/-- **A scan that has come to `i`**, before `s`, reaches before `s` only what it would have reached
before `s` and after `i`. -/
theorem Before.of_move {c' : ℕ} (h : Before c' j s) (hc' : c' = i ∨ c' = i + 1)
    (his : Before c i s) (hji : j ≠ i) : Before c j s ∧ ¬Before c j i := by
  unfold Before at *
  omega

/-- A scan of `n` places reaches every one. -/
theorem exists_mod_eq {n : ℕ} (hc : c ≤ n) (hj : j < n) : ∃ k < n, (c + k) % n = j := by
  by_cases hcj : c ≤ j
  · refine ⟨j - c, by omega, ?_⟩
    rw [Nat.add_sub_cancel' hcj, Nat.mod_eq_of_lt hj]
  · refine ⟨j + n - c, by omega, ?_⟩
    rw [Nat.add_sub_cancel' (by omega), Nat.add_mod_right, Nat.mod_eq_of_lt hj]

/-- The places that a scan of `n` places has reached when it comes to its place number `t`. -/
theorem exists_mod_eq_iff {n t : ℕ} (hc : c ≤ n) (ht : t < n) :
    (∃ k < t, (c + k) % n = j) ↔ j < n ∧ Before c j ((c + t) % n) := by
  have hmod : ∀ k, k < n → (c + k) % n = if c + k < n then c + k else c + k - n := by
    intro k hk
    split
    · exact Nat.mod_eq_of_lt (by omega)
    · rw [Nat.mod_eq_sub_mod (by omega), Nat.mod_eq_of_lt (by omega)]
  constructor
  · rintro ⟨k, hk, rfl⟩
    rw [hmod k (by omega), hmod t ht]
    unfold Before
    split_ifs <;> omega
  · rintro ⟨hj, hbefore⟩
    rw [hmod t ht] at hbefore
    unfold Before at hbefore
    by_cases hcj : c ≤ j
    · refine ⟨j - c, ?_, ?_⟩
      · split_ifs at hbefore <;> omega
      · rw [Nat.add_sub_cancel' hcj, Nat.mod_eq_of_lt hj]
    · refine ⟨j + n - c, ?_, ?_⟩
      · split_ifs at hbefore <;> omega
      · rw [Nat.add_sub_cancel' (by omega), Nat.add_mod_right, Nat.mod_eq_of_lt hj]

end Cyclic
