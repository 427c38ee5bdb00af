import Mathlib

/-!
# The field with 256 elements

Bytes under exclusive or, and under multiplication modulo `x⁸ + x⁴ + x³ + x + 1`.  A product is
the sum of the shifts of one factor by the bits of the other, so it is additive in both factors,
and an identity between products needs to be checked on single bits only.

* `ext_bits` — additive functions that agree on single bits are equal.
* `pow_256` — every element is its own 256th power, for squaring is additive.
* `mul_pow_254` — hence its 254th power is its inverse, if it has one.
-/

/-- A byte, as an element of the field. -/
structure GF256 where
  byte : UInt8
  deriving DecidableEq

namespace GF256

/-! ## Bytes as sums of bits -/

/-- The byte shifted by one place, and reduced. -/
def xtime (a : UInt8) : UInt8 := if a &&& 0x80 = 0 then a <<< 1 else a <<< 1 ^^^ 0x1b

/-- The `i`-th bit of `b`, times `a`. -/
def scaleBit (i : ℕ) (b a : UInt8) : UInt8 := if b.toNat.testBit i then a else 0

/-- The shifts of `a` by the first `k` bits of `b`. -/
def shifts (a b : UInt8) : ℕ → UInt8
  | 0 => 0
  | k + 1 => shifts a b k ^^^ scaleBit k b (xtime^[k] a)

/-- The product of two bytes, in eight rounds. -/
def mulByte (a b : UInt8) : UInt8 := shifts a b 8

/-- A function that takes sums to sums. -/
def Additive (f : UInt8 → UInt8) : Prop := ∀ x y, f (x ^^^ y) = f x ^^^ f y

theorem xor_xor_xor_comm (a b c d : UInt8) : a ^^^ b ^^^ (c ^^^ d) = a ^^^ c ^^^ (b ^^^ d) := by
  rw [UInt8.xor_assoc, UInt8.xor_assoc, ← UInt8.xor_assoc b, ← UInt8.xor_assoc c,
    UInt8.xor_comm b c]

theorem Additive.zero {f : UInt8 → UInt8} (hf : Additive f) : f 0 = 0 := by
  have h := hf 0 0
  rw [UInt8.xor_self, UInt8.xor_self] at h
  exact h

theorem Additive.comp {f g : UInt8 → UInt8} (hf : Additive f) (hg : Additive g) :
    Additive fun x => f (g x) := by
  intro x y
  simp only [hg x y, hf (g x) (g y)]

theorem Additive.xor {f g : UInt8 → UInt8} (hf : Additive f) (hg : Additive g) :
    Additive fun x => f x ^^^ g x := by
  intro x y
  simp only [hf x y, hg x y, xor_xor_xor_comm]

/-- A byte is the sum of its bits. -/
theorem eq_sum_bits (b : UInt8) : b = (b &&& 1) ^^^ (b &&& 2) ^^^ (b &&& 4) ^^^ (b &&& 8) ^^^
    (b &&& 16) ^^^ (b &&& 32) ^^^ (b &&& 64) ^^^ (b &&& 128) := by
  decide +kernel +revert

theorem and_bit (i : Fin 8) (b : UInt8) :
    b &&& 1 <<< UInt8.ofNat i = 0 ∨ b &&& 1 <<< UInt8.ofNat i = 1 <<< UInt8.ofNat i := by
  decide +kernel +revert

/-- **Additive functions that agree on single bits are equal.** -/
theorem ext_bits {f g : UInt8 → UInt8} (hf : Additive f) (hg : Additive g)
    (h : ∀ i : Fin 8, f (1 <<< UInt8.ofNat i) = g (1 <<< UInt8.ofNat i)) (b : UInt8) :
    f b = g b := by
  have hbit : ∀ i : Fin 8, f (b &&& 1 <<< UInt8.ofNat i) = g (b &&& 1 <<< UInt8.ofNat i) := by
    intro i
    rcases and_bit i b with hi | hi
    · rw [hi, hf.zero, hg.zero]
    · rw [hi, h i]
  have h0 := hbit 0
  have h1 := hbit 1
  have h2 := hbit 2
  have h3 := hbit 3
  have h4 := hbit 4
  have h5 := hbit 5
  have h6 := hbit 6
  have h7 := hbit 7
  rw [eq_sum_bits b]
  simp only [hf _ _, hg _ _]
  exact congrArg₂ _ (congrArg₂ _ (congrArg₂ _ (congrArg₂ _ (congrArg₂ _ (congrArg₂ _
    (congrArg₂ _ h0 h1) h2) h3) h4) h5) h6) h7

/-! ## Products -/

theorem additive_xtime : Additive xtime := by
  have hmask : ∀ a : UInt8, xtime a = a <<< 1 ^^^ if a.toNat.testBit 7 then 0x1b else 0 := by
    decide +kernel
  intro x y
  rw [hmask, hmask, hmask, UInt8.toNat_xor, Nat.testBit_xor, UInt8.shiftLeft_xor, xor_xor_xor_comm]
  congr 1
  cases x.toNat.testBit 7 <;> cases y.toNat.testBit 7 <;> rfl

theorem additive_iterate_xtime (k : ℕ) : Additive xtime^[k] := by
  induction k with
  | zero => exact fun x y => rfl
  | succ k ih =>
    intro x y
    rw [Function.iterate_succ_apply', Function.iterate_succ_apply', Function.iterate_succ_apply',
      ih, additive_xtime]

theorem additive_scaleBit (i : ℕ) (b : UInt8) : Additive (scaleBit i b) := by
  intro x y
  unfold scaleBit
  split
  · rfl
  · simp

theorem scaleBit_xor (i : ℕ) (b c a : UInt8) :
    scaleBit i (b ^^^ c) a = scaleBit i b a ^^^ scaleBit i c a := by
  unfold scaleBit
  rw [UInt8.toNat_xor, Nat.testBit_xor]
  cases b.toNat.testBit i <;> cases c.toNat.testBit i <;> simp

theorem additive_shifts_left (b : UInt8) (k : ℕ) : Additive fun a => shifts a b k := by
  induction k with
  | zero => exact fun x y => UInt8.xor_self.symm
  | succ k ih => exact ih.xor ((additive_scaleBit k b).comp (additive_iterate_xtime k))

theorem additive_shifts_right (a : UInt8) (k : ℕ) : Additive fun b => shifts a b k := by
  induction k with
  | zero => exact fun x y => UInt8.xor_self.symm
  | succ k ih => exact ih.xor fun x y => scaleBit_xor k x y _

theorem additive_mulByte_left (b : UInt8) : Additive fun a => mulByte a b :=
  additive_shifts_left b 8

theorem additive_mulByte_right (a : UInt8) : Additive (mulByte a) := additive_shifts_right a 8

theorem mulByte_comm (a b : UInt8) : mulByte a b = mulByte b a := by
  refine ext_bits (additive_mulByte_right a) (additive_mulByte_left a) (fun i => ?_) b
  refine ext_bits (additive_mulByte_left _) (additive_mulByte_right _) (fun j => ?_) a
  decide +kernel +revert

theorem mulByte_assoc (a b c : UInt8) : mulByte (mulByte a b) c = mulByte a (mulByte b c) := by
  refine ext_bits (additive_mulByte_right _)
    ((additive_mulByte_right a).comp (additive_mulByte_right b)) (fun i => ?_) c
  refine ext_bits ((additive_mulByte_left _).comp (additive_mulByte_right a))
    ((additive_mulByte_right a).comp (additive_mulByte_left _)) (fun j => ?_) b
  refine ext_bits ((additive_mulByte_left _).comp (additive_mulByte_left _))
    (additive_mulByte_left _) (fun k => ?_) a
  decide +kernel +revert

theorem one_mulByte (a : UInt8) : mulByte 1 a = a :=
  ext_bits (additive_mulByte_right 1) (g := id) (fun _ _ => rfl) (by decide +kernel) a

/-! ## The ring -/

instance : Zero GF256 := ⟨⟨0⟩⟩
instance : One GF256 := ⟨⟨1⟩⟩
instance : Add GF256 := ⟨fun a b => ⟨a.byte ^^^ b.byte⟩⟩
instance : Neg GF256 := ⟨fun a => a⟩
instance : Mul GF256 := ⟨fun a b => ⟨mulByte a.byte b.byte⟩⟩

@[ext] theorem ext {a b : GF256} (h : a.byte = b.byte) : a = b := by
  cases a
  cases b
  exact congrArg _ h

@[simp] theorem byte_zero : (0 : GF256).byte = 0 := rfl
@[simp] theorem byte_one : (1 : GF256).byte = 1 := rfl
@[simp] theorem byte_add (a b : GF256) : (a + b).byte = a.byte ^^^ b.byte := rfl
@[simp] theorem byte_mul (a b : GF256) : (a * b).byte = mulByte a.byte b.byte := rfl

theorem mk_eq_zero {b : UInt8} : (⟨b⟩ : GF256) = 0 ↔ b = 0 :=
  ⟨congrArg byte, fun h => congrArg mk h⟩

instance : CommRing GF256 where
  add_assoc a b c := ext (UInt8.xor_assoc _ _ _)
  zero_add a := ext UInt8.zero_xor
  add_zero a := ext UInt8.xor_zero
  add_comm a b := ext (UInt8.xor_comm _ _)
  neg_add_cancel a := ext UInt8.xor_self
  mul_assoc a b c := ext (mulByte_assoc _ _ _)
  mul_comm a b := ext (mulByte_comm _ _)
  one_mul a := ext (one_mulByte _)
  mul_one a := ext ((mulByte_comm _ _).trans (one_mulByte _))
  zero_mul a := ext (additive_mulByte_left a.byte).zero
  mul_zero a := ext (additive_mulByte_right a.byte).zero
  left_distrib a b c := ext (additive_mulByte_right a.byte _ _)
  right_distrib a b c := ext (additive_mulByte_left c.byte _ _)
  nsmul := nsmulRec
  zsmul := zsmulRec

theorem sub_eq_add (a b : GF256) : a - b = a + b := by
  rw [sub_eq_add_neg]
  rfl

theorem add_self (a : GF256) : a + a = 0 := ext UInt8.xor_self

/-! ## Inverses -/

/-- The square of a byte. -/
def sqByte (a : UInt8) : UInt8 := mulByte a a

/-- Squares of sums are sums of squares. -/
theorem additive_sqByte : Additive sqByte := by
  intro x y
  have h : ((⟨x⟩ : GF256) + ⟨y⟩) * (⟨x⟩ + ⟨y⟩) = ⟨x⟩ * ⟨x⟩ + ⟨y⟩ * ⟨y⟩ := by
    have hcross : (⟨x⟩ : GF256) * ⟨y⟩ + ⟨y⟩ * ⟨x⟩ = 0 := by
      rw [mul_comm (⟨y⟩ : GF256), add_self]
    linear_combination hcross
  exact congrArg byte h

theorem additive_iterate_sqByte (k : ℕ) : Additive sqByte^[k] := by
  induction k with
  | zero => exact fun x y => rfl
  | succ k ih =>
    intro x y
    rw [Function.iterate_succ_apply', Function.iterate_succ_apply', Function.iterate_succ_apply',
      ih, additive_sqByte]

theorem byte_pow_two_pow (a : GF256) (k : ℕ) : (a ^ 2 ^ k).byte = sqByte^[k] a.byte := by
  induction k with
  | zero => rw [pow_zero, pow_one, Function.iterate_zero_apply]
  | succ k ih =>
    rw [pow_succ, pow_mul, pow_two, byte_mul, ih, Function.iterate_succ_apply', sqByte]

/-- Every element is its own 256th power. -/
theorem pow_256 (a : GF256) : a ^ 256 = a := by
  refine ext ((byte_pow_two_pow a 8).trans ?_)
  exact ext_bits (additive_iterate_sqByte 8) (g := id) (fun _ _ => rfl) (by decide +kernel) a.byte

/-- The only idempotents are zero and one. -/
theorem eq_zero_or_one_of_idempotent {e : GF256} (h : e * e = e) : e = 0 ∨ e = 1 := by
  have hbyte : ∀ b : UInt8, mulByte b b = b → b = 0 ∨ b = 1 := by
    decide +kernel
  rcases hbyte e.byte (congrArg byte h) with h0 | h1
  · exact Or.inl (ext h0)
  · exact Or.inr (ext h1)

theorem mul_pow_254 {a : GF256} (h : a ≠ 0) : a * a ^ 254 = 1 := by
  have hidem : (a * a ^ 254) * (a * a ^ 254) = a * a ^ 254 := by
    calc (a * a ^ 254) * (a * a ^ 254) = a ^ 256 * a ^ 254 := by ring
      _ = a * a ^ 254 := by rw [pow_256]
  rcases eq_zero_or_one_of_idempotent hidem with h0 | h1
  · refine absurd ?_ h
    calc a = a ^ 256 := (pow_256 a).symm
      _ = a * (a * a ^ 254) := by ring
      _ = 0 := by rw [h0, mul_zero]
  · exact h1

/-- **The field with 256 elements.** -/
instance : Field GF256 where
  inv a := a ^ 254
  exists_pair_ne := ⟨0, 1, by decide⟩
  mul_inv_cancel a h := mul_pow_254 h
  inv_zero := zero_pow (by decide)
  nnqsmul := _
  qsmul := _

theorem inv_eq_pow (a : GF256) : a⁻¹ = a ^ 254 := rfl

end GF256
