import Mathlib

/-!
# Rounding to binary64 precision

A double is represented by the rational it stands for, and every operation is
the exact one followed by `round`: to the nearest multiple of the unit in the
last place of a 53-bit significand, ties to the even multiple.  The exponent is
unbounded, so this is binary64 for magnitudes between the smallest normal number
and the largest finite one.

* `abs_round_sub_le` — one operation is off by at most a relative `2⁻⁵³`.
* `round_of_representable` — a number that fits the significand is not rounded.
* `round_mono`, `round_round` — rounding keeps the order, and rounding twice is rounding once.
* `Lawful`, `lawful_round` — what a program may rely on.
-/

namespace Binary64

/-! ## Rounding to an integer -/

/-- The nearest integer, ties to the even one. -/
def roundHalfEven (q : ℚ) : ℤ :=
  if q - ⌊q⌋ < 1 / 2 then ⌊q⌋
  else if 1 / 2 < q - ⌊q⌋ then ⌊q⌋ + 1
  else if ⌊q⌋ % 2 = 0 then ⌊q⌋ else ⌊q⌋ + 1

theorem abs_roundHalfEven_sub_le (q : ℚ) : |(roundHalfEven q : ℚ) - q| ≤ 1 / 2 := by
  have h0 : (⌊q⌋ : ℚ) ≤ q := Int.floor_le q
  have h1 : q < ⌊q⌋ + 1 := Int.lt_floor_add_one q
  rw [abs_le]
  unfold roundHalfEven
  split_ifs with hlt hgt _ <;> push_cast <;> constructor <;> linarith

theorem roundHalfEven_intCast (z : ℤ) : roundHalfEven z = z := by
  simp [roundHalfEven]

/-! ## Rounding to a significand -/

/-- The exponent of the unit in the last place of a 53-bit significand. -/
def ulpExponent (q : ℚ) : ℤ := Int.log 2 |q| - 52

/-- The nearest number with a 53-bit significand. -/
def round (q : ℚ) : ℚ :=
  roundHalfEven (q / 2 ^ ulpExponent q) * 2 ^ ulpExponent q

@[simp] theorem round_zero : round 0 = 0 := by
  have h := roundHalfEven_intCast 0
  rw [Int.cast_zero] at h
  rw [round, zero_div, h, Int.cast_zero, zero_mul]

/-- **One rounding is off by at most a relative `2⁻⁵³`.** -/
theorem abs_round_sub_le (q : ℚ) : |round q - q| ≤ |q| / 2 ^ 53 := by
  by_cases hq : q = 0
  · simp [hq]
  have hpos : 0 < |q| := abs_pos.mpr hq
  have hu : (0 : ℚ) < 2 ^ ulpExponent q := by positivity
  have hsplit : round q - q =
      ((roundHalfEven (q / 2 ^ ulpExponent q) : ℚ) - q / 2 ^ ulpExponent q) *
        2 ^ ulpExponent q := by
    rw [round, sub_mul, div_mul_cancel₀ _ hu.ne']
  have hlog : (2 : ℚ) ^ Int.log 2 |q| ≤ |q| := by
    exact_mod_cast Int.zpow_log_le_self (b := 2) (by norm_num) hpos
  have hulp : (2 : ℚ) ^ ulpExponent q = 2 ^ Int.log 2 |q| / 2 ^ 52 := by
    rw [ulpExponent, zpow_sub₀ (by norm_num)]
    norm_num
  calc |round q - q|
      = |(roundHalfEven (q / 2 ^ ulpExponent q) : ℚ) - q / 2 ^ ulpExponent q| *
          2 ^ ulpExponent q := by rw [hsplit, abs_mul, abs_of_pos hu]
    _ ≤ 1 / 2 * 2 ^ ulpExponent q :=
        mul_le_mul_of_nonneg_right (abs_roundHalfEven_sub_le _) hu.le
    _ = 2 ^ Int.log 2 |q| / 2 ^ 53 := by rw [hulp]; ring
    _ ≤ |q| / 2 ^ 53 := by gcongr

theorem round_le {q : ℚ} (hq : 0 ≤ q) : round q ≤ q * (1 + 1 / 2 ^ 53) := by
  have h := (abs_le.mp (abs_round_sub_le q)).2
  rw [abs_of_nonneg hq] at h
  linarith

theorem le_round {q : ℚ} (hq : 0 ≤ q) : q * (1 - 1 / 2 ^ 53) ≤ round q := by
  have h := (abs_le.mp (abs_round_sub_le q)).1
  rw [abs_of_nonneg hq] at h
  linarith

theorem round_nonneg {q : ℚ} (hq : 0 ≤ q) : 0 ≤ round q :=
  le_trans (mul_nonneg hq (by norm_num)) (le_round hq)

/-- A multiple of its own unit in the last place is not rounded. -/
theorem round_of_representable {q : ℚ} (z : ℤ) (h : q = z * 2 ^ ulpExponent q) :
    round q = q := by
  have hu : (2 : ℚ) ^ ulpExponent q ≠ 0 := by positivity
  have hz : q / 2 ^ ulpExponent q = z := by
    rw [div_eq_iff hu]
    exact h
  rw [round, hz, roundHalfEven_intCast]
  exact h.symm

/-- **A number with a significand of at most 53 bits is not rounded.** -/
theorem round_of_significand (n e : ℤ) (hn : |n| < 2 ^ 53) :
    round (n * 2 ^ e : ℚ) = n * 2 ^ e := by
  by_cases hzero : n = 0
  · simp [hzero]
  have hpos : (0 : ℚ) < |(n : ℚ) * 2 ^ e| := by positivity
  have htwo : (0 : ℚ) < 2 ^ e := zpow_pos two_pos e
  have hlt : |(n : ℚ) * 2 ^ e| < 2 ^ (53 + e) := by
    have hn' : |(n : ℚ)| < 2 ^ (53 : ℤ) := by exact_mod_cast hn
    rw [abs_mul, abs_of_pos htwo, zpow_add₀ two_ne_zero]
    exact mul_lt_mul_of_pos_right hn' htwo
  have hlog : Int.log 2 |(n : ℚ) * 2 ^ e| < 53 + e :=
    (Int.lt_zpow_iff_log_lt (by norm_num) hpos).mp (by exact_mod_cast hlt)
  have hu : 0 ≤ e - ulpExponent ((n : ℚ) * 2 ^ e) := by
    unfold ulpExponent
    omega
  refine round_of_representable (n * 2 ^ (e - ulpExponent ((n : ℚ) * 2 ^ e)).toNat) ?_
  have hshift : (2 : ℚ) ^ e = 2 ^ (e - ulpExponent ((n : ℚ) * 2 ^ e)).toNat *
      2 ^ ulpExponent ((n : ℚ) * 2 ^ e) := by
    rw [← zpow_natCast, Int.toNat_of_nonneg hu, ← zpow_add₀ two_ne_zero, sub_add_cancel]
  push_cast
  rw [mul_assoc, ← hshift]

/-! ## Order -/

theorem roundHalfEven_le_floor_add_one (q : ℚ) : roundHalfEven q ≤ ⌊q⌋ + 1 := by
  unfold roundHalfEven
  split_ifs <;> omega

theorem floor_le_roundHalfEven (q : ℚ) : ⌊q⌋ ≤ roundHalfEven q := by
  unfold roundHalfEven
  split_ifs <;> omega

theorem roundHalfEven_mono {q r : ℚ} (h : q ≤ r) : roundHalfEven q ≤ roundHalfEven r := by
  rcases (Int.floor_mono h).lt_or_eq with hlt | heq
  · calc roundHalfEven q ≤ ⌊q⌋ + 1 := roundHalfEven_le_floor_add_one q
      _ ≤ ⌊r⌋ := hlt
      _ ≤ roundHalfEven r := floor_le_roundHalfEven r
  · -- both lie between the same two integers, and the fractions are ordered
    unfold roundHalfEven
    rw [heq]
    split_ifs <;> first | omega | (exfalso; linarith)

/-- The significand of a positive number has 53 bits. -/
theorem significand_mem {q : ℚ} (hq : 0 < q) :
    (2 : ℚ) ^ 52 ≤ q / 2 ^ ulpExponent q ∧ q / 2 ^ ulpExponent q < 2 ^ 53 := by
  have hu : (0 : ℚ) < 2 ^ ulpExponent q := by positivity
  have hlow : (2 : ℚ) ^ Int.log 2 q ≤ q := by
    exact_mod_cast Int.zpow_log_le_self (b := 2) (by norm_num) hq
  have hhigh : q < (2 : ℚ) ^ (Int.log 2 q + 1) := by
    exact_mod_cast Int.lt_zpow_succ_log_self (b := 2) (by norm_num) q
  have hexp : ulpExponent q = Int.log 2 q - 52 := by rw [ulpExponent, abs_of_pos hq]
  rw [le_div_iff₀ hu, div_lt_iff₀ hu, hexp, zpow_sub₀ two_ne_zero]
  rw [zpow_add_one₀ two_ne_zero] at hhigh
  norm_num
  constructor <;> linarith

theorem round_le_zpow {q : ℚ} (hq : 0 < q) : round q ≤ 2 ^ (ulpExponent q + 53) := by
  have hu : (0 : ℚ) < 2 ^ ulpExponent q := by positivity
  have hfloor : ⌊q / 2 ^ ulpExponent q⌋ < 2 ^ 53 :=
    Int.floor_lt.mpr (by exact_mod_cast (significand_mem hq).2)
  have hle : roundHalfEven (q / 2 ^ ulpExponent q) ≤ 2 ^ 53 :=
    (roundHalfEven_le_floor_add_one _).trans hfloor
  calc round q ≤ 2 ^ 53 * 2 ^ ulpExponent q :=
        mul_le_mul_of_nonneg_right (by exact_mod_cast hle) hu.le
    _ = 2 ^ (ulpExponent q + 53) := by
        rw [zpow_add₀ two_ne_zero, mul_comm]
        norm_num

theorem zpow_le_round {q : ℚ} (hq : 0 < q) : 2 ^ (ulpExponent q + 52) ≤ round q := by
  have hu : (0 : ℚ) < 2 ^ ulpExponent q := by positivity
  have hfloor : (2 : ℤ) ^ 52 ≤ ⌊q / 2 ^ ulpExponent q⌋ :=
    Int.le_floor.mpr (by exact_mod_cast (significand_mem hq).1)
  have hle : 2 ^ 52 ≤ roundHalfEven (q / 2 ^ ulpExponent q) :=
    hfloor.trans (floor_le_roundHalfEven _)
  calc (2 : ℚ) ^ (ulpExponent q + 52) = 2 ^ 52 * 2 ^ ulpExponent q := by
        rw [zpow_add₀ two_ne_zero, mul_comm]
        norm_num
    _ ≤ round q := mul_le_mul_of_nonneg_right (by exact_mod_cast hle) hu.le

/-- **Rounding keeps the order.** -/
theorem round_mono {q r : ℚ} (hq : 0 ≤ q) (h : q ≤ r) : round q ≤ round r := by
  rcases hq.eq_or_lt with rfl | hpos
  · rw [round_zero]
    exact round_nonneg h
  have hr : 0 < r := hpos.trans_le h
  have hexp : ulpExponent q ≤ ulpExponent r := by
    rw [ulpExponent, ulpExponent, abs_of_pos hpos, abs_of_pos hr]
    exact Int.sub_le_sub_right (Int.log_mono_right hpos h) 52
  rcases hexp.lt_or_eq with hlt | heq
  · calc round q ≤ 2 ^ (ulpExponent q + 53) := round_le_zpow hpos
      _ ≤ 2 ^ (ulpExponent r + 52) := zpow_le_zpow_right₀ one_le_two (by omega)
      _ ≤ round r := zpow_le_round hr
  · unfold round
    rw [heq]
    have hu : (0 : ℚ) < 2 ^ ulpExponent r := by positivity
    refine mul_le_mul_of_nonneg_right ?_ hu.le
    exact_mod_cast roundHalfEven_mono (div_le_div_of_nonneg_right h hu.le)

/-- **Rounding twice is rounding once.** -/
theorem round_round {q : ℚ} (hq : 0 ≤ q) : round (round q) = round q := by
  rcases hq.eq_or_lt with rfl | hpos
  · rw [round_zero, round_zero]
  have hfloor : ⌊q / 2 ^ ulpExponent q⌋ < 2 ^ 53 :=
    Int.floor_lt.mpr (by exact_mod_cast (significand_mem hpos).2)
  have hle : roundHalfEven (q / 2 ^ ulpExponent q) ≤ 2 ^ 53 :=
    (roundHalfEven_le_floor_add_one _).trans hfloor
  have hlow : (2 : ℤ) ^ 52 ≤ ⌊q / 2 ^ ulpExponent q⌋ :=
    Int.le_floor.mpr (by exact_mod_cast (significand_mem hpos).1)
  have hnonneg : 0 ≤ roundHalfEven (q / 2 ^ ulpExponent q) :=
    le_trans (by norm_num) (hlow.trans (floor_le_roundHalfEven _))
  rcases hle.lt_or_eq with hlt | heq
  · exact round_of_significand _ _ (by rwa [abs_of_nonneg hnonneg])
  · -- the significand overflowed: it is a power of two
    have hpow : round q = ((1 : ℤ) : ℚ) * 2 ^ (ulpExponent q + 53) := by
      rw [round, heq, zpow_add₀ two_ne_zero]
      push_cast
      ring
    rw [hpow]
    exact round_of_significand 1 _ (by norm_num)

/-! ## What a program may rely on -/

/-- The laws of a rounding, on numbers that are not negative. -/
structure Lawful (fl : ℚ → ℚ) : Prop where
  zero : fl 0 = 0
  one : fl 1 = 1
  mono : ∀ {x y : ℚ}, 0 ≤ x → x ≤ y → fl x ≤ fl y
  idem : ∀ {x : ℚ}, 0 ≤ x → fl (fl x) = fl x
  near : ∀ {x : ℚ}, 0 ≤ x → x ≤ 1 → fl x ≤ x + 1 / 2 ^ 53

/-- **Binary64 rounding is lawful.** -/
theorem lawful_round : Lawful round where
  zero := round_zero
  one := by
    have h := round_of_significand 1 0 (by norm_num)
    rwa [zpow_zero, mul_one, Int.cast_one] at h
  mono := round_mono
  idem := round_round
  near := by
    intro x hx hone
    calc round x ≤ x * (1 + 1 / 2 ^ 53) := round_le hx
      _ = x + x * (1 / 2 ^ 53) := by ring
      _ ≤ x + 1 / 2 ^ 53 := by
        have hle : x * (1 / 2 ^ 53) ≤ 1 / 2 ^ 53 := mul_le_of_le_one_left (by norm_num) hone
        linarith

namespace Lawful

variable {fl : ℚ → ℚ}

theorem nonneg (h : Lawful fl) {x : ℚ} (hx : 0 ≤ x) : 0 ≤ fl x := by
  have hle := h.mono le_rfl hx
  rwa [h.zero] at hle

theorem le_one (h : Lawful fl) {x : ℚ} (hx : 0 ≤ x) (hone : x ≤ 1) : fl x ≤ 1 := by
  have hle := h.mono hx hone
  rwa [h.one] at hle

end Lawful

/-! ## Operations -/

/-- `n as f64`. -/
def ofNat (n : ℕ) : ℚ := round n

/-- Product of two doubles. -/
def mul (x y : ℚ) : ℚ := round (x * y)

/-- Quotient of two doubles. -/
def div (x y : ℚ) : ℚ := round (x / y)

/-- `x as usize` for a double that is not negative. -/
def toNat (x : ℚ) : ℕ := ⌊x⌋₊

theorem ofNat_nonneg (n : ℕ) : 0 ≤ ofNat n :=
  round_nonneg (Nat.cast_nonneg n)

/-- A whole number times a factor well below one truncates to at most itself. -/
theorem toNat_mul_ofNat_le {n : ℕ} {r : ℚ} (hr0 : 0 ≤ r) (hr : r ≤ 9 / 10) :
    toNat (mul (ofNat n) r) ≤ n := by
  have hn : (0 : ℚ) ≤ n := Nat.cast_nonneg n
  have hof : ofNat n ≤ n * (1 + 1 / 2 ^ 53) := round_le hn
  have hprod : ofNat n * r ≤ n * (1 + 1 / 2 ^ 53) * (9 / 10) :=
    mul_le_mul hof hr hr0 (mul_nonneg hn (by norm_num))
  have hmul : mul (ofNat n) r ≤ ofNat n * r * (1 + 1 / 2 ^ 53) :=
    round_le (mul_nonneg (ofNat_nonneg n) hr0)
  have hle : mul (ofNat n) r ≤ n := by
    norm_num at hmul hprod ⊢
    nlinarith
  calc toNat (mul (ofNat n) r) ≤ ⌊(n : ℚ)⌋₊ := Nat.floor_mono hle
    _ = n := Nat.floor_natCast n

/-- A whole number from 2 on times a factor from 4/5 on does not truncate to zero. -/
theorem toNat_mul_ofNat_pos {n : ℕ} {r : ℚ} (hn2 : 2 ≤ n) (hr : 4 / 5 ≤ r) :
    0 < toNat (mul (ofNat n) r) := by
  have hn : (2 : ℚ) ≤ n := by exact_mod_cast hn2
  have hof : (n : ℚ) * (1 - 1 / 2 ^ 53) ≤ ofNat n := le_round (by linarith)
  have hprod : (n : ℚ) * (1 - 1 / 2 ^ 53) * (4 / 5) ≤ ofNat n * r :=
    mul_le_mul hof hr (by norm_num) (ofNat_nonneg n)
  have hmul : ofNat n * r * (1 - 1 / 2 ^ 53) ≤ mul (ofNat n) r :=
    le_round (mul_nonneg (ofNat_nonneg n) (by linarith))
  have hle : (1 : ℚ) ≤ mul (ofNat n) r := by
    norm_num at hmul hprod ⊢
    linarith
  exact Nat.floor_pos.mpr hle

end Binary64
