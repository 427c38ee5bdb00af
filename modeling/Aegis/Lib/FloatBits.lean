import Aegis.Lib.Binary64

/-!
# Doubles by their bits

A double is its 64 bits, whatever they stand for: a number, an infinity or not a number.
Comparisons are made on the bits, and a difference is rounded as in `Binary64`.

* `clamp_clamp` — clamping twice is clamping once.
-/

/-- A double, by its 64 bits. -/
structure F64 where
  bits : UInt64
  deriving DecidableEq, Repr

namespace F64

/-- `0.0`. -/
def zero : F64 := ⟨0⟩

/-- `1.0`. -/
def one : F64 := ⟨0x3FF0000000000000⟩

/-- The bits without the sign. -/
def magnitude (x : F64) : UInt64 := x.bits &&& 0x7FFFFFFFFFFFFFFF

/-- The exponent is the greatest there is, and the fraction is not zero. -/
def isNaN (x : F64) : Bool := decide (0x7FF0000000000000 < x.magnitude)

/-- The exponent is less than the greatest there is. -/
def isFinite (x : F64) : Bool := decide (x.magnitude < 0x7FF0000000000000)

/-- The order of the numbers: by magnitude, negative numbers the other way round. -/
def key (x : F64) : ℤ :=
  if x.bits < 0x8000000000000000 then x.magnitude.toNat else -x.magnitude.toNat

/-- `x < y`. -/
def lt (x y : F64) : Bool := !x.isNaN && !y.isNaN && decide (x.key < y.key)

/-- `x <= y`. -/
def le (x y : F64) : Bool := !x.isNaN && !y.isNaN && decide (x.key ≤ y.key)

/-- `x.clamp(lo, hi)`. -/
def clamp (x lo hi : F64) : F64 :=
  if x.lt lo then lo else if hi.lt x then hi else x

theorem lt_irrefl (x : F64) : x.lt x = false := by simp [lt]

/-- **Clamping twice is clamping once.** -/
theorem clamp_clamp {lo hi : F64} (h : hi.lt lo = false) (x : F64) :
    (x.clamp lo hi).clamp lo hi = x.clamp lo hi := by
  unfold clamp
  by_cases hlo : x.lt lo = true
  · simp [hlo, lt_irrefl, h]
  · by_cases hhi : hi.lt x = true
    · simp [hlo, hhi, h, lt_irrefl]
    · simp [hlo, hhi]

/-- The number a finite double stands for. -/
def value (x : F64) : ℚ :=
  let exponent := (x.magnitude >>> 52).toNat
  let fraction := (x.magnitude &&& 0xFFFFFFFFFFFFF).toNat
  let number : ℚ :=
    if exponent = 0 then fraction * 2 ^ (-1074 : ℤ)
    else (2 ^ 52 + fraction) * 2 ^ ((exponent : ℤ) - 1075)
  if x.bits < 0x8000000000000000 then number else -number

/-- `(x - y).abs() > f64::EPSILON`. -/
def apart (x y : F64) : Bool :=
  if x.isFinite && y.isFinite then decide (1 / 2 ^ 52 < |Binary64.round (x.value - y.value)|)
  -- an infinity is apart from everything but itself
  else !x.isNaN && !y.isNaN && decide (x ≠ y)

end F64
