import Mathlib

/-!
# Interpolation at zero

A polynomial is given by the list of its coefficients, the constant term first.  A list of `t`
different points and values determines the one list of `t` coefficients through them, and
its constant term is a weighted sum of the values.

* `horner_zero_eq_atZero` — any points, at least as many as coefficients, give the constant term.
* `existsUnique_coeffs` — through `t` points goes one list of `t` coefficients.
* `getLast_eq_zero_iff` — the leading coefficient vanishes if and only if one point less gives
  the constant term already.
-/

namespace Interpolation

open Polynomial

variable {F : Type*} [Field F]

/-! ## Lists of coefficients -/

/-- Horner's scheme. -/
def horner (coeffs : List F) (x : F) : F := coeffs.foldr (fun c y => y * x + c) 0

/-- The polynomial with these coefficients, the constant one first. -/
noncomputable def poly : List F → F[X]
  | [] => 0
  | c :: coeffs => X * poly coeffs + C c

theorem eval_poly (coeffs : List F) (x : F) : (poly coeffs).eval x = horner coeffs x := by
  induction coeffs with
  | nil => simp [poly, horner]
  | cons c coeffs ih =>
    simp only [poly, horner, List.foldr_cons, eval_add, eval_mul, eval_X, eval_C] at ih ⊢
    rw [ih, mul_comm]

theorem coeff_poly (coeffs : List F) (i : ℕ) : (poly coeffs).coeff i = coeffs.getD i 0 := by
  induction coeffs generalizing i with
  | nil => simp [poly]
  | cons c coeffs ih =>
    cases i with
    | zero => simp [poly]
    | succ i => simp [poly, ih, coeff_X_mul, coeff_C_succ]

theorem degree_poly_lt (coeffs : List F) : (poly coeffs).degree < coeffs.length := by
  rw [degree_lt_iff_coeff_zero]
  intro i hi
  rw [coeff_poly, List.getD_eq_default _ _ hi]

/-- Lists of one length with one polynomial are one list. -/
theorem eq_of_poly_eq {l l' : List F} (hlen : l.length = l'.length) (h : poly l = poly l') :
    l = l' := by
  refine List.ext_getElem hlen fun i hi hi' => ?_
  have hcoeff := congrArg (fun p => p.coeff i) h
  simp only [coeff_poly, List.getD_eq_getElem _ _ hi, List.getD_eq_getElem _ _ hi'] at hcoeff
  exact hcoeff

/-- The first coefficients of a polynomial. -/
theorem poly_coeffs {p : F[X]} {t : ℕ} (h : p.degree < t) :
    poly ((List.range t).map p.coeff) = p := by
  ext i
  rw [coeff_poly]
  by_cases hi : i < t
  · simp [hi]
  · rw [List.getD_eq_default _ _ (by simpa using hi)]
    exact ((degree_lt_iff_coeff_zero p t).mp h i (not_lt.mp hi)).symm

theorem horner_zero (c : F) (coeffs : List F) : horner (c :: coeffs) 0 = c := by
  simp [horner]

/-- A vanishing leading coefficient can be left out. -/
theorem poly_concat_zero (coeffs : List F) : poly (coeffs ++ [0]) = poly coeffs := by
  induction coeffs with
  | nil => simp [poly]
  | cons c coeffs ih => simp [poly, ih]

/-! ## The constant term -/

variable [DecidableEq F]

/-- What the value at `x` counts for. -/
def weight (xs : List F) (x : F) : F := ((xs.filter (· ≠ x)).map fun y => y / (y - x)).prod

/-- The value at zero through the points. -/
def atZero (xs : List F) (r : F → F) : F := (xs.map fun x => r x * weight xs x).sum

theorem eval_zero_basis {xs : List F} (hnodup : xs.Nodup) (x : F) :
    (Lagrange.basis xs.toFinset id x).eval 0 = weight xs x := by
  have hfilter : (xs.filter (· ≠ x)).toFinset = xs.toFinset.erase x := by
    ext y
    simp [and_comm]
  rw [Lagrange.basis, eval_prod, weight, ← List.prod_toFinset _ (hnodup.filter _), hfilter]
  refine Finset.prod_congr rfl fun y hy => ?_
  have hne : x - y ≠ 0 := sub_ne_zero.mpr (Finset.ne_of_mem_erase hy).symm
  have hne' : y - x ≠ 0 := sub_ne_zero.mpr (Finset.ne_of_mem_erase hy)
  simp only [Lagrange.basisDivisor, id, eval_mul, eval_C, eval_sub, eval_X]
  field_simp
  ring

theorem eval_zero_interpolate {xs : List F} (hnodup : xs.Nodup) (r : F → F) :
    (Lagrange.interpolate xs.toFinset id r).eval 0 = atZero xs r := by
  rw [Lagrange.interpolate_apply, eval_finsetSum, atZero, ← List.sum_toFinset _ hnodup]
  refine Finset.sum_congr rfl fun x _ => ?_
  rw [eval_mul, eval_C, eval_zero_basis hnodup]

/-- **Any points give the constant term**, if there are at least as many as coefficients. -/
theorem horner_zero_eq_atZero {xs coeffs : List F} (hnodup : xs.Nodup)
    (hlen : coeffs.length ≤ xs.length) :
    atZero xs (horner coeffs) = horner coeffs 0 := by
  have hdegree : (poly coeffs).degree < xs.toFinset.card := by
    refine (degree_poly_lt coeffs).trans_le ?_
    rw [List.toFinset_card_of_nodup hnodup]
    exact_mod_cast hlen
  rw [← eval_poly, Lagrange.eq_interpolate_of_eval_eq (horner coeffs) (Set.injOn_id _) hdegree
    (fun x _ => eval_poly coeffs x), eval_zero_interpolate hnodup]

/-! ## Coefficients through points -/

/-- Lists of one length that agree at as many points are equal. -/
theorem eq_of_horner_eq {xs l l' : List F} (hnodup : xs.Nodup) (hl : l.length = xs.length)
    (hl' : l'.length = xs.length) (h : ∀ x ∈ xs, horner l x = horner l' x) : l = l' := by
  have hcard : ((xs.length : ℕ) : WithBot ℕ) = xs.toFinset.card := by
    rw [List.toFinset_card_of_nodup hnodup]
  refine eq_of_poly_eq (hl.trans hl'.symm) ?_
  refine eq_of_degrees_lt_of_eval_finset_eq xs.toFinset ?_ ?_ fun x hx => ?_
  · rw [← hcard, ← hl]
    exact degree_poly_lt l
  · rw [← hcard, ← hl']
    exact degree_poly_lt l'
  · rw [eval_poly, eval_poly, h x (List.mem_toFinset.mp hx)]

/-- **Through `t` points goes one list of `t` coefficients.** -/
theorem existsUnique_coeffs {xs : List F} (hnodup : xs.Nodup) (r : F → F) :
    ∃! coeffs : List F, coeffs.length = xs.length ∧ ∀ x ∈ xs, horner coeffs x = r x := by
  have hdegree : (Lagrange.interpolate xs.toFinset id r).degree < xs.length := by
    have h := Lagrange.degree_interpolate_lt r (Set.injOn_id (xs.toFinset : Set F))
    rwa [List.toFinset_card_of_nodup hnodup] at h
  refine ⟨(List.range xs.length).map (Lagrange.interpolate xs.toFinset id r).coeff,
    ⟨by simp, fun x hx => ?_⟩, ?_⟩
  · rw [← eval_poly, poly_coeffs hdegree]
    exact Lagrange.eval_interpolate_at_node r (Set.injOn_id _) (List.mem_toFinset.mpr hx)
  · rintro coeffs ⟨hlen, hvalues⟩
    refine eq_of_horner_eq hnodup hlen (by simp) fun x hx => ?_
    rw [hvalues x hx, ← eval_poly, poly_coeffs hdegree]
    exact (Lagrange.eval_interpolate_at_node r (Set.injOn_id _) (List.mem_toFinset.mpr hx)).symm

/-- **The leading coefficient vanishes** if and only if the other points give the constant
term already. -/
theorem getLast_eq_zero_iff {xs : List F} {init : List F} {top : F} (hnodup : xs.Nodup)
    (hzero : 0 ∉ xs) (hlen : init.length = xs.length) :
    top = 0 ↔ atZero xs (horner (init ++ [top])) = horner (init ++ [top]) 0 := by
  constructor
  · rintro rfl
    have hdrop : horner (init ++ [0]) = horner init := by
      funext x
      rw [← eval_poly, ← eval_poly, poly_concat_zero]
    rw [hdrop]
    exact horner_zero_eq_atZero hnodup hlen.le
  · intro h
    -- the polynomial of smaller degree through the points agrees at zero as well
    obtain ⟨lower, ⟨hlower, hvalues⟩, -⟩ :=
      existsUnique_coeffs hnodup (horner (init ++ [top]))
    have hlower0 : horner lower 0 = horner (init ++ [top]) 0 := by
      rw [← h, ← horner_zero_eq_atZero hnodup hlower.le]
      refine congrArg List.sum (List.map_congr_left fun x hx => ?_)
      rw [hvalues x hx]
    have hextend : horner (lower ++ [0]) = horner lower := by
      funext x
      rw [← eval_poly, ← eval_poly, poly_concat_zero]
    have heq : init ++ [top] = lower ++ [0] := by
      refine eq_of_horner_eq (List.nodup_cons.mpr ⟨hzero, hnodup⟩) (by simp [hlen])
        (by simp [hlower]) fun x hx => ?_
      rw [hextend]
      rcases List.mem_cons.mp hx with rfl | hx
      · exact hlower0.symm
      · exact (hvalues x hx).symm
    exact (List.append_inj' heq rfl).2 |> List.singleton_injective

end Interpolation
