import Mathlib

/-!
# Texts by their bytes

A text is a list of characters, and a program may index it by bytes.  An index inside a character
is no boundary, and a range that starts or ends at one does not exist.

* `splitAtByte_append` — a text is cut between its characters.
* `strRange_append` — a range is cut off what comes before it.
-/

namespace Utf8

/-- The length in bytes. -/
def len (s : List Char) : ℕ := (s.map Char.utf8Size).sum

/-- The text before and after a byte, if that byte starts a character. -/
def splitAtByte : ℕ → List Char → Option (List Char × List Char)
  | 0, s => some ([], s)
  | _ + 1, [] => none
  | n + 1, c :: s =>
    if c.utf8Size ≤ n + 1 then
      (splitAtByte (n + 1 - c.utf8Size) s).map fun p => (c :: p.1, p.2)
    else none

/-- `s.get(start..stop)` for `start ≤ stop`; where it is `none`, `s[start..stop]` panics. -/
def strRange (start stop : ℕ) (s : List Char) : Option (List Char) :=
  (splitAtByte start s).bind fun p => (splitAtByte (stop - start) p.2).map Prod.fst

@[simp] theorem len_nil : len [] = 0 := rfl

@[simp] theorem len_cons (c : Char) (s : List Char) : len (c :: s) = c.utf8Size + len s := by
  rw [len, List.map_cons, List.sum_cons, len]

@[simp] theorem len_append (s t : List Char) : len (s ++ t) = len s + len t := by
  rw [len, List.map_append, List.sum_append, len, len]

theorem splitAtByte_cons {n : ℕ} (c : Char) (s : List Char) (h : c.utf8Size ≤ n) :
    splitAtByte n (c :: s) = (splitAtByte (n - c.utf8Size) s).map fun p => (c :: p.1, p.2) := by
  have hpos := c.utf8Size_pos
  cases n with
  | zero => omega
  | succ n => rw [splitAtByte, if_pos h]

/-- No character ends before the byte. -/
theorem splitAtByte_of_lt {n : ℕ} (c : Char) (s : List Char) (hn : 0 < n) (h : n < c.utf8Size) :
    splitAtByte n (c :: s) = none := by
  cases n with
  | zero => omega
  | succ n => rw [splitAtByte, if_neg (not_le.mpr h)]

/-- **A text is cut between its characters.** -/
theorem splitAtByte_append (s t : List Char) : splitAtByte (len s) (s ++ t) = some (s, t) := by
  induction s with
  | nil => rw [len_nil, splitAtByte, List.nil_append]
  | cons c s ih =>
    rw [len_cons, List.cons_append, splitAtByte_cons c _ (Nat.le_add_right _ _),
      Nat.add_sub_cancel_left, ih]
    rfl

/-- **A range is cut off what comes before it.** -/
theorem strRange_append (s t : List Char) (n : ℕ) :
    strRange (len s) (len s + n) (s ++ t) = (splitAtByte n t).map Prod.fst := by
  rw [strRange, splitAtByte_append, Option.bind_some, Nat.add_sub_cancel_left]

end Utf8
