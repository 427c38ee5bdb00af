import Aegis.Lib.Run
import Aegis.Topology.Shamir

/-!
# What shares of a seed give away

A seed is interpolated from any shares, once they are as many as the threshold.  One share less
does not leave all seeds possible: the leading coefficients are never zero, so a seed that the
shares make by themselves is ruled out, in every byte, and every other seed is equally possible.

* `reconstructSeed_eq` — what the interpolation computes.
* `reconstruct_of_split` — shares of a split give the seed, in any order.
* `ncard_consistent` — how many coefficients agree with a seed and one share too few.
* `secrecy_of_split` — the seeds that one share too few leaves possible are equally likely.
-/

namespace Aegis

open Buffer

namespace Shamir

open GF256 Interpolation

/-! ## Lagrange's weights -/

/-- The indices of the shares, in the field. -/
def indices (shares : List SeedShare) : List GF256 := shares.map fun s => ⟨s.x⟩

/-- The products over all shares but the `i`-th. -/
theorem foldl_ratio (si : SeedShare) (i : ℕ) (l : List (SeedShare × ℕ)) (r : UInt8 × UInt8) :
    (⟨(l.foldl (fun r sj => if i = sj.2 then r
        else (gfMul r.1 sj.1.x, gfMul r.2 (gfAdd si.x sj.1.x))) r).1⟩ : GF256) =
      ⟨r.1⟩ * ((l.filter fun sj => i ≠ sj.2).map fun sj => (⟨sj.1.x⟩ : GF256)).prod ∧
    (⟨(l.foldl (fun r sj => if i = sj.2 then r
        else (gfMul r.1 sj.1.x, gfMul r.2 (gfAdd si.x sj.1.x))) r).2⟩ : GF256) =
      ⟨r.2⟩ * ((l.filter fun sj => i ≠ sj.2).map fun sj => (⟨si.x⟩ + ⟨sj.1.x⟩ : GF256)).prod := by
  induction l generalizing r with
  | nil => simp
  | cons sj l ih =>
    rw [List.foldl_cons]
    by_cases hi : i = sj.2
    · rw [if_pos hi, List.filter_cons_of_neg (by simpa using hi)]
      exact ih r
    · rw [if_neg hi, List.filter_cons_of_pos (by simpa using hi)]
      obtain ⟨hnum, hden⟩ := ih (gfMul r.1 sj.1.x, gfMul r.2 (gfAdd si.x sj.1.x))
      refine ⟨hnum.trans ?_, hden.trans ?_⟩
      · rw [mk_gfMul, List.map_cons, List.prod_cons, mul_assoc]
      · rw [mk_gfMul, mk_gfAdd, List.map_cons, List.prod_cons, mul_assoc]

/-- The other shares, by their place and by their index. -/
theorem filter_zipIdx {shares : List SeedShare} (hnodup : (shares.map SeedShare.x).Nodup)
    {si : SeedShare} {i : ℕ} (hi : (si, i) ∈ shares.zipIdx) :
    (shares.zipIdx.filter fun sj => i ≠ sj.2).map (fun sj => (⟨sj.1.x⟩ : GF256)) =
      (indices shares).filter (· ≠ ⟨si.x⟩) := by
  have hindices : indices shares = shares.zipIdx.map fun sj => (⟨sj.1.x⟩ : GF256) := by
    rw [indices]
    conv_lhs => rw [← List.zipIdx_map_fst 0 shares]
    rw [List.map_map]
    rfl
  rw [hindices, List.filter_map]
  congr 1
  refine List.filter_congr fun sj hsj => ?_
  have hi' : shares[i]? = some si := List.mk_mem_zipIdx_iff_getElem?.mp hi
  have hj' : shares[sj.2]? = some sj.1 := List.mem_zipIdx_iff_getElem?.mp hsj
  have hiff : i = sj.2 ↔ sj.1.x = si.x := by
    constructor
    · rintro rfl
      rw [hi'] at hj'
      rw [Option.some.inj hj']
    · intro hx
      refine (List.getElem?_inj (l := shares.map SeedShare.x) ?_ hnodup).mp ?_
      · rw [List.length_map]
        exact (List.getElem?_eq_some_iff.mp hi').1
      · rw [List.getElem?_map, List.getElem?_map, hi', hj', Option.map_some, Option.map_some, hx]
  simp [hiff]

theorem prod_map_div (x : GF256) (l : List GF256) :
    (l.map fun y => y / (y - x)).prod = l.prod * (l.map fun y => x + y).prod⁻¹ := by
  induction l with
  | nil => simp
  | cons y l ih =>
    rw [List.map_cons, List.prod_cons, ih, List.prod_cons, List.map_cons, List.prod_cons, mul_inv,
      div_eq_mul_inv, sub_eq_add, add_comm y x]
    ring

/-- A share's ratio is its weight, and is well defined. -/
theorem lagrangeRatio_spec {shares : List SeedShare} (hnodup : (shares.map SeedShare.x).Nodup)
    {si : SeedShare} {i : ℕ} (hi : (si, i) ∈ shares.zipIdx) :
    (lagrangeRatio shares i si).2 ≠ 0 ∧
      (⟨(lagrangeRatio shares i si).1⟩ : GF256) * (⟨(lagrangeRatio shares i si).2⟩ : GF256)⁻¹ =
        weight (indices shares) ⟨si.x⟩ := by
  obtain ⟨hnum, hden⟩ := foldl_ratio si i shares.zipIdx (1, 1)
  have hfilter := filter_zipIdx hnodup hi
  have hothers : (shares.zipIdx.filter fun sj => i ≠ sj.2).map
      (fun sj => (⟨si.x⟩ + ⟨sj.1.x⟩ : GF256)) =
        ((indices shares).filter (· ≠ ⟨si.x⟩)).map fun y => ⟨si.x⟩ + y := by
    rw [← hfilter, List.map_map]
    rfl
  have hone : (⟨1⟩ : GF256) = 1 := rfl
  rw [hfilter] at hnum
  rw [hothers] at hden
  simp only [hone, one_mul] at hnum hden
  refine ⟨?_, ?_⟩
  · intro hzero
    have hprod : (((indices shares).filter (· ≠ ⟨si.x⟩)).map fun y =>
        (⟨si.x⟩ + y : GF256)).prod = 0 := by
      rw [← hden]
      exact mk_eq_zero.mpr hzero
    obtain ⟨y, hy, hsum⟩ := List.mem_map.mp (List.prod_eq_zero_iff.mp hprod)
    obtain ⟨-, hne⟩ := List.mem_filter.mp hy
    rw [← sub_eq_add, sub_eq_zero] at hsum
    exact (of_decide_eq_true hne) hsum.symm
  · rw [weight, prod_map_div, ← hden, ← hnum]
    rfl

/-! ## Reconstruction -/

/-- The sum over all shares. -/
theorem foldlM_lagrange {shares : List SeedShare} (hnodup : (shares.map SeedShare.x).Nodup)
    (byteIdx : Fin 32) {l : List (SeedShare × ℕ)} (hl : ∀ si ∈ l, si ∈ shares.zipIdx)
    (acc : UInt8) :
    ∃ b, l.foldlM (fun acc si =>
        let r := lagrangeRatio shares si.2 si.1
        if r.2 = 0 then .error .duplicateX
        else
          let li := gfMul r.1 (gfInv r.2)
          .ok (gfAdd acc (gfMul (si.1.y.get byteIdx) li))) acc =
        (.ok b : Except ShamirError UInt8) ∧
      (⟨b⟩ : GF256) = ⟨acc⟩ +
        (l.map fun si => ⟨si.1.y.get byteIdx⟩ * weight (indices shares) ⟨si.1.x⟩).sum := by
  induction l generalizing acc with
  | nil => exact ⟨acc, rfl, by simp⟩
  | cons si l ih =>
    obtain ⟨hden, hweight⟩ := lagrangeRatio_spec hnodup (hl si List.mem_cons_self)
    obtain ⟨b, hb, hsum⟩ := ih (fun x hx => hl x (List.mem_cons_of_mem _ hx))
      (gfAdd acc (gfMul (si.1.y.get byteIdx) (gfMul (lagrangeRatio shares si.2 si.1).1
        (gfInv (lagrangeRatio shares si.2 si.1).2))))
    refine ⟨b, ?_, ?_⟩
    · rw [List.foldlM_cons]
      simp only [if_neg hden]
      exact hb
    · rw [hsum, mk_gfAdd, mk_gfMul, mk_gfMul, mk_gfInv, hweight, List.map_cons, List.sum_cons,
        add_assoc]

/-- **A byte is interpolated** from the values of the shares. -/
theorem lagrangeAtZero_eq {shares : List SeedShare} (hnodup : (shares.map SeedShare.x).Nodup)
    (byteIdx : Fin 32) {r : GF256 → GF256}
    (hr : ∀ s ∈ shares, r ⟨s.x⟩ = ⟨s.y.get byteIdx⟩) :
    lagrangeAtZero shares byteIdx = .ok (atZero (indices shares) r).byte := by
  obtain ⟨b, hb, hsum⟩ := foldlM_lagrange hnodup byteIdx (fun si hsi => hsi) 0
  have hvalues : (shares.zipIdx.map fun si =>
      (⟨si.1.y.get byteIdx⟩ : GF256) * weight (indices shares) ⟨si.1.x⟩) =
        shares.map fun s => r ⟨s.x⟩ * weight (indices shares) ⟨s.x⟩ := by
    conv_rhs => rw [← List.zipIdx_map_fst 0 shares]
    rw [List.map_map]
    refine List.map_congr_left fun si hsi => ?_
    have hmem : si.1 ∈ shares := by
      rw [← List.zipIdx_map_fst 0 shares]
      exact List.mem_map_of_mem hsi
    simp only [Function.comp_apply, hr _ hmem, List.zipIdx_map_fst]
  have hzero : (⟨0⟩ : GF256) = 0 := rfl
  rw [hvalues, hzero, zero_add] at hsum
  refine hb.trans (congrArg Except.ok ?_)
  rw [atZero, indices, List.map_map]
  exact congrArg byte hsum

theorem checkShares_eq {shares : List SeedShare} (hzero : ∀ s ∈ shares, s.x ≠ 0)
    {seen : List UInt8} (hnodup : (shares.map SeedShare.x).Nodup)
    (hseen : ∀ s ∈ shares, s.x ∉ seen) : checkShares seen shares = .ok () := by
  induction shares generalizing seen with
  | nil => rfl
  | cons s shares ih =>
    obtain ⟨hs, hnodup⟩ := List.nodup_cons.mp hnodup
    unfold checkShares
    rw [if_neg (hzero s List.mem_cons_self), if_neg (hseen s List.mem_cons_self)]
    refine ih (fun t ht => hzero t (List.mem_cons_of_mem _ ht)) hnodup fun t ht => ?_
    rw [List.mem_cons, not_or]
    refine ⟨fun hx => hs ?_, hseen t (List.mem_cons_of_mem _ ht)⟩
    rw [← hx]
    exact List.mem_map_of_mem ht

theorem foldlM_reconstructByte {shares : List SeedShare} {bytes : Bytes 32}
    (h : ∀ i, lagrangeAtZero shares i = .ok (bytes.get i)) (l : List (Fin 32))
    (secret : Bytes 32) :
    l.foldlM (reconstructByte shares) secret =
      .ok (List.Vector.ofFn fun i => if i ∈ l then bytes.get i else secret.get i) := by
  induction l generalizing secret with
  | nil => simp [pure, Except.pure]
  | cons j l ih =>
    rw [List.foldlM_cons, reconstructByte, h]
    refine (ih (secret.set j (bytes.get j))).trans (congrArg Except.ok ?_)
    refine List.Vector.ext fun i => ?_
    rw [List.Vector.get_ofFn, List.Vector.get_ofFn]
    by_cases hij : j = i
    · subst hij
      simp
    · simp [List.Vector.get_set_of_ne hij, Ne.symm hij]

/-- **What the interpolation computes.** -/
theorem reconstructSeed_eq {shares : List SeedShare} (hne : shares ≠ [])
    (hzero : ∀ s ∈ shares, s.x ≠ 0) (hnodup : (shares.map SeedShare.x).Nodup)
    {r : Fin 32 → GF256 → GF256} (hr : ∀ i, ∀ s ∈ shares, r i ⟨s.x⟩ = ⟨s.y.get i⟩) :
    reconstructSeed shares =
      .ok (List.Vector.ofFn fun i => (atZero (indices shares) (r i)).byte) := by
  have hbytes : ∀ i, lagrangeAtZero shares i = .ok ((List.Vector.ofFn fun i =>
      (atZero (indices shares) (r i)).byte : Bytes 32).get i) := by
    intro i
    rw [List.Vector.get_ofFn]
    exact lagrangeAtZero_eq hnodup i (hr i)
  unfold reconstructSeed
  rw [if_neg (by simpa using hne), checkShares_eq hzero hnodup fun _ _ => List.not_mem_nil]
  refine (foldlM_reconstructByte hbytes _ _).trans (congrArg Except.ok ?_)
  refine List.Vector.ext fun i => ?_
  simp

/-! ## The shares of a split -/

theorem mem_sharesOf {n : ℕ} (hn : n ≤ 255) {coeffs : Coeffs} {s : SeedShare} :
    s ∈ sharesOf n coeffs ↔ (s.x ≠ 0 ∧ s.x.toNat ≤ n) ∧
      ∀ i, (⟨s.y.get i⟩ : GF256) = horner ((coeffs i).map mk) ⟨s.x⟩ := by
  have hvalue : ∀ i, (⟨s.y.get i⟩ : GF256) = horner ((coeffs i).map mk) ⟨s.x⟩ ↔
      s.y.get i = evalPoly (coeffs i) s.x := by
    intro i
    rw [← mk_evalPoly]
    exact ⟨congrArg byte, congrArg mk⟩
  simp only [hvalue]
  rw [sharesOf, List.mem_map]
  constructor
  · rintro ⟨x, hx, rfl⟩
    rw [List.mem_range'_1] at hx
    have hlt : (UInt8.ofNat x).toNat = x := UInt8.toNat_ofNat_of_lt' (by show x < 256; omega)
    refine ⟨⟨fun h => ?_, by simp only [hlt]; omega⟩, fun i => by simp⟩
    have h0 := congrArg UInt8.toNat h
    simp only [hlt, UInt8.toNat_zero] at h0
    omega
  · rintro ⟨⟨hpos, hle⟩, hy⟩
    have hne : s.x.toNat ≠ 0 := fun h => hpos (UInt8.toNat_inj.mp h)
    refine ⟨s.x.toNat, List.mem_range'_1.mpr (by omega), ?_⟩
    rw [UInt8.ofNat_toNat]
    refine congrArg (SeedShare.mk s.x) (List.Vector.ext fun i => ?_)
    rw [List.Vector.get_ofFn, hy i]

theorem nodup_indices {shares : List SeedShare} (h : (shares.map SeedShare.x).Nodup) :
    (indices shares).Nodup := by
  have hmk : Function.Injective (mk : UInt8 → GF256) := fun a b hab => congrArg byte hab
  have hmap := h.map hmk
  rw [List.map_map] at hmap
  exact hmap

/-- Different shares of a split have different indices. -/
theorem nodup_x_of_sharesOf {n : ℕ} (hn : n ≤ 255) {coeffs : Coeffs} {chosen : List SeedShare}
    (hnodup : chosen.Nodup) (hsub : ∀ s ∈ chosen, s ∈ sharesOf n coeffs) :
    (chosen.map SeedShare.x).Nodup := by
  refine hnodup.map_on fun s hs t ht hx => ?_
  obtain ⟨-, hs⟩ := (mem_sharesOf hn).mp (hsub s hs)
  obtain ⟨-, ht⟩ := (mem_sharesOf hn).mp (hsub t ht)
  rcases s with ⟨x, y⟩
  rcases t with ⟨x', y'⟩
  obtain rfl : x = x' := hx
  refine congrArg (SeedShare.mk x) (List.Vector.ext fun i => ?_)
  exact congrArg byte ((hs i).trans (ht i).symm)

theorem horner_zero_of_drawable {secretByte : UInt8} {threshold : ℕ} {coeffs : List UInt8}
    (h : Drawable secretByte threshold coeffs) : horner (coeffs.map mk) 0 = ⟨secretByte⟩ := by
  obtain ⟨-, hhead, -⟩ := h
  cases coeffs with
  | nil => cases hhead
  | cons c coeffs =>
    obtain rfl := Option.some.inj hhead
    exact horner_zero _ _

/-- **Shamir's scheme is correct**: from at least `threshold` different shares of a split, in any
order, the seed is reconstructed. -/
theorem reconstruct_of_split {threshold n : ℕ} (hpos : 1 ≤ threshold) (hle : threshold ≤ n)
    (hn : n ≤ 255) (secret : Bytes 32) (rng : List UInt8)
    {res : Except ShamirError (List SeedShare)} {rest : List UInt8}
    (h : splitSeed secret threshold n rng = some (res, rest)) :
    ∃ shares, res = .ok shares ∧ ∀ chosen : List SeedShare, chosen.Nodup →
      (∀ s ∈ chosen, s ∈ shares) → threshold ≤ chosen.length →
      reconstructSeed chosen = .ok secret := by
  rw [splitSeed_eq hpos hle hn] at h
  obtain ⟨⟨coeffs, rest'⟩, hdraw, heq⟩ := Option.map_eq_some_iff.mp h
  obtain ⟨rfl, -⟩ := Prod.mk.inj heq
  refine ⟨_, rfl, fun chosen hnodup hsub hlen => ?_⟩
  have hdrawable := (exists_drawAll_iff hpos secret coeffs).mp ⟨rng, rest', hdraw⟩
  have hx := nodup_x_of_sharesOf hn hnodup hsub
  have hshare := fun s hs => (mem_sharesOf hn).mp (hsub s hs)
  have hne : chosen ≠ [] := by
    rintro rfl
    simp at hlen
    omega
  rw [reconstructSeed_eq hne (fun s hs => (hshare s hs).1.1) hx
    (r := fun i => horner ((coeffs i).map mk)) fun i s hs => ((hshare s hs).2 i).symm]
  refine congrArg Except.ok (List.Vector.ext fun i => ?_)
  rw [List.Vector.get_ofFn, horner_zero_eq_atZero (nodup_indices hx) (by
    rw [List.length_map, (hdrawable i).length, indices, List.length_map]
    exact hlen), horner_zero_of_drawable (hdrawable i)]

/-! ## One share too few -/

section TooFew

variable {threshold n : ℕ} {observed : List SeedShare}

theorem zero_notMem_indices (hzero : ∀ s ∈ observed, s.x ≠ 0) : 0 ∉ indices observed := by
  intro hmem
  obtain ⟨s, hs, hs0⟩ := List.mem_map.mp hmem
  exact hzero s hs (mk_eq_zero.mp hs0)

/-- **The leading coefficient** vanishes when the shares by themselves make the byte at zero. -/
theorem leading_eq_zero_iff (hthreshold : 2 ≤ threshold)
    (hnodup : (observed.map SeedShare.x).Nodup) (hzero : ∀ s ∈ observed, s.x ≠ 0)
    (hlen : observed.length = threshold - 1) {coeffs : List UInt8}
    (hlength : coeffs.length = threshold) :
    coeffs.getD (threshold - 1) 0 = 0 ↔
      atZero (indices observed) (horner (coeffs.map mk)) = horner (coeffs.map mk) 0 := by
  obtain ⟨init, top, rfl⟩ : ∃ init top, coeffs = init ++ [top] := by
    refine ⟨_, _, (List.dropLast_append_getLast (l := coeffs) ?_).symm⟩
    rintro rfl
    simp at hlength
    omega
  have hinit : init.length = threshold - 1 := by
    rw [List.length_append, List.length_singleton] at hlength
    omega
  have hcount : (init.map mk).length = (indices observed).length := by
    simp [indices, hinit, hlen]
  have htop : (init ++ [top]).getD (threshold - 1) 0 = top := by
    simp [← hinit]
  rw [htop, ← mk_eq_zero, List.map_append, List.map_singleton]
  exact getLast_eq_zero_iff (nodup_indices hnodup) (zero_notMem_indices hzero) hcount

/-- A byte that can be drawn is not the one that the shares make by themselves. -/
theorem ne_atZero_of_drawable (hthreshold : 2 ≤ threshold)
    (hnodup : (observed.map SeedShare.x).Nodup) (hzero : ∀ s ∈ observed, s.x ≠ 0)
    (hlen : observed.length = threshold - 1) {secretByte : UInt8} {coeffs : List UInt8}
    (h : Drawable secretByte threshold coeffs) :
    atZero (indices observed) (horner (coeffs.map mk)) ≠ ⟨secretByte⟩ := by
  intro heq
  refine h.leading (by omega) ((leading_eq_zero_iff hthreshold hnodup hzero hlen h.length).mpr ?_)
  rw [heq, horner_zero_of_drawable h]

/-- Any other byte is drawn with the shares' values in one way. -/
theorem existsUnique_drawable (hthreshold : 2 ≤ threshold)
    (hnodup : (observed.map SeedShare.x).Nodup) (hzero : ∀ s ∈ observed, s.x ≠ 0)
    (hlen : observed.length = threshold - 1) {secretByte : UInt8} {r : GF256 → GF256}
    (hne : atZero (indices observed) r ≠ ⟨secretByte⟩) :
    ∃! coeffs, Drawable secretByte threshold coeffs ∧
      ∀ x ∈ indices observed, horner (coeffs.map mk) x = r x := by
  have hnot := zero_notMem_indices hzero
  have hpoints : (0 :: indices observed).Nodup :=
    List.nodup_cons.mpr ⟨hnot, nodup_indices hnodup⟩
  have hcount : (0 :: indices observed).length = threshold := by
    simp only [indices, List.length_cons, List.length_map, hlen]
    omega
  obtain ⟨l, ⟨hl, hvalues⟩, hunique⟩ :=
    existsUnique_coeffs hpoints fun x => if x = 0 then ⟨secretByte⟩ else r x
  have hmk : (l.map byte).map mk = l := by
    simp [Function.comp_def]
  have hsecret : horner l 0 = ⟨secretByte⟩ := by
    rw [hvalues 0 List.mem_cons_self, if_pos rfl]
  have hr : ∀ x ∈ indices observed, horner l x = r x := by
    intro x hx
    rw [hvalues x (List.mem_cons_of_mem _ hx), if_neg (by rintro rfl; exact hnot hx)]
  have hatZero : atZero (indices observed) (horner l) = atZero (indices observed) r :=
    congrArg List.sum (List.map_congr_left fun x hx => by rw [hr x hx])
  have hlength : (l.map byte).length = threshold := by
    rw [List.length_map, hl, hcount]
  refine ⟨l.map byte, ⟨⟨hlength, ?_, fun _ hlead => ?_⟩, ?_⟩, ?_⟩
  · cases l with
    | nil =>
      simp at hlength
      omega
    | cons c l =>
      rw [horner_zero] at hsecret
      simp [hsecret]
  · -- a vanishing leading coefficient would make the byte the one of the shares
    have hvanish := (leading_eq_zero_iff hthreshold hnodup hzero hlen hlength).mp hlead
    rw [hmk, hatZero, hsecret] at hvanish
    exact hne hvanish
  · rw [hmk]
    exact hr
  · rintro coeffs ⟨hdrawable, hcoeffs⟩
    have heq : coeffs.map mk = l := by
      refine hunique _ ⟨by rw [List.length_map, hdrawable.length, hcount], fun x hx => ?_⟩
      rcases List.mem_cons.mp hx with rfl | hx
      · rw [if_pos rfl]
        exact horner_zero_of_drawable hdrawable
      · rw [if_neg (by rintro rfl; exact hnot hx)]
        exact hcoeffs x hx
    rw [← heq]
    simp [Function.comp_def]

/-- Different indices have values. -/
theorem exists_values (hnodup : (observed.map SeedShare.x).Nodup) :
    ∃ r : Fin 32 → GF256 → GF256, ∀ i, ∀ s ∈ observed, r i ⟨s.x⟩ = ⟨s.y.get i⟩ := by
  refine ⟨fun i z => ((observed.find? fun s => s.x = z.byte).map fun s =>
    (⟨s.y.get i⟩ : GF256)).getD 0, fun i s hs => ?_⟩
  induction observed with
  | nil => cases hs
  | cons t observed ih =>
    obtain ⟨ht, hnodup⟩ := List.nodup_cons.mp hnodup
    by_cases hx : t.x = s.x
    · have hst : s = t := by
        refine (List.mem_cons.mp hs).resolve_right fun hmem => ht ?_
        rw [hx]
        exact List.mem_map_of_mem hmem
      subst hst
      simp
    · have hmem : s ∈ observed := (List.mem_cons.mp hs).resolve_left fun h => hx (h ▸ rfl)
      simpa [hx] using ih hnodup hmem

/-- The coefficients with which a split of `secret` hands out the observed shares. -/
def consistent (threshold n : ℕ) (observed : List SeedShare) (secret : Bytes 32) : Set Coeffs :=
  {coeffs | ∃ rng shares rest, drawAll secret threshold rng = some (coeffs, rest) ∧
    splitSeed secret threshold n rng = some (.ok shares, rest) ∧ ∀ s ∈ observed, s ∈ shares}

theorem mem_consistent (hthreshold : 2 ≤ threshold) (hle : threshold ≤ n) (hn : n ≤ 255)
    (hindex : ∀ s ∈ observed, s.x ≠ 0 ∧ s.x.toNat ≤ n) {r : Fin 32 → GF256 → GF256}
    (hr : ∀ i, ∀ s ∈ observed, r i ⟨s.x⟩ = ⟨s.y.get i⟩) {secret : Bytes 32} {coeffs : Coeffs} :
    coeffs ∈ consistent threshold n observed secret ↔
      ∀ i, Drawable (secret.get i) threshold (coeffs i) ∧
        ∀ x ∈ indices observed, horner ((coeffs i).map mk) x = r i x := by
  have hshares : (∀ s ∈ observed, s ∈ sharesOf n coeffs) ↔
      ∀ i, ∀ x ∈ indices observed, horner ((coeffs i).map mk) x = r i x := by
    constructor
    · intro h i x hx
      obtain ⟨s, hs, rfl⟩ := List.mem_map.mp hx
      rw [hr i s hs]
      exact (((mem_sharesOf hn).mp (h s hs)).2 i).symm
    · intro h s hs
      refine (mem_sharesOf hn).mpr ⟨hindex s hs, fun i => ?_⟩
      rw [← hr i s hs]
      exact (h i _ (List.mem_map_of_mem hs)).symm
  rw [forall_and, ← exists_drawAll_iff (by omega), ← hshares]
  constructor
  · rintro ⟨rng, shares, rest, hdraw, hsplit, hobserved⟩
    rw [splitSeed_eq (by omega) hle hn, hdraw] at hsplit
    obtain ⟨hshares, -⟩ := Prod.mk.inj (Option.some.inj hsplit)
    obtain rfl := Except.ok.inj hshares
    exact ⟨⟨rng, rest, hdraw⟩, hobserved⟩
  · rintro ⟨⟨rng, rest, hdraw⟩, hobserved⟩
    refine ⟨rng, _, rest, hdraw, ?_, hobserved⟩
    rw [splitSeed_eq (by omega) hle hn, hdraw]
    rfl

/-- **One share too few** rules out a secret that shares a byte with what these shares make by
themselves, and is consistent with every other secret in exactly one way. -/
theorem ncard_consistent (hthreshold : 2 ≤ threshold) (hle : threshold ≤ n) (hn : n ≤ 255)
    (hnodup : (observed.map SeedShare.x).Nodup) (hlen : observed.length = threshold - 1)
    (hindex : ∀ s ∈ observed, s.x ≠ 0 ∧ s.x.toNat ≤ n) :
    ∃ excluded, reconstructSeed observed = .ok excluded ∧ ∀ secret,
      (consistent threshold n observed secret).ncard =
        if ∀ i, secret.get i ≠ excluded.get i then 1 else 0 := by
  obtain ⟨r, hr⟩ := exists_values hnodup
  have hne : observed ≠ [] := by
    rintro rfl
    simp at hlen
    omega
  have hzero : ∀ s ∈ observed, s.x ≠ 0 := fun s hs => (hindex s hs).1
  refine ⟨_, reconstructSeed_eq hne hzero hnodup hr, fun secret => ?_⟩
  have hexcluded : ∀ i, secret.get i ≠ (List.Vector.ofFn (fun i =>
      (atZero (indices observed) (r i)).byte) : Bytes 32).get i ↔
        atZero (indices observed) (r i) ≠ ⟨secret.get i⟩ := by
    intro i
    rw [List.Vector.get_ofFn, ne_comm]
    exact not_congr ⟨fun h => GF256.ext h, fun h => congrArg byte h⟩
  simp only [hexcluded]
  split_ifs with hall
  · choose coeffs hcoeffs hunique using fun i =>
      existsUnique_drawable hthreshold hnodup hzero hlen (hall i)
    rw [Set.ncard_eq_one]
    refine ⟨coeffs, Set.ext fun c => ?_⟩
    rw [mem_consistent hthreshold hle hn hindex hr, Set.mem_singleton_iff]
    constructor
    · exact fun h => funext fun i => hunique i (c i) (h i)
    · rintro rfl
      exact hcoeffs
  · obtain ⟨i, hi⟩ := not_forall.mp hall
    have hempty : consistent threshold n observed secret = ∅ := by
      refine Set.eq_empty_of_forall_notMem fun coeffs hcoeffs => hi ?_
      obtain ⟨hdrawable, hvalues⟩ :=
        (mem_consistent hthreshold hle hn hindex hr).mp hcoeffs i
      have hatZero : atZero (indices observed) (horner ((coeffs i).map mk)) =
          atZero (indices observed) (r i) :=
        congrArg List.sum (List.map_congr_left fun x hx => by rw [hvalues x hx])
      rw [← hatZero]
      exact ne_atZero_of_drawable hthreshold hnodup hzero hlen hdrawable
    rw [hempty, Set.ncard_empty]

/-- **Secrecy**: one share too few is consistent with every secret in as many ways as with any
other, among the secrets that differ in every byte from what the shares make by themselves. -/
theorem secrecy_of_split (hthreshold : 2 ≤ threshold) (hle : threshold ≤ n) (hn : n ≤ 255)
    (hnodup : (observed.map SeedShare.x).Nodup) (hlen : observed.length = threshold - 1)
    (hindex : ∀ s ∈ observed, s.x ≠ 0 ∧ s.x.toNat ≤ n) :
    ∃ excluded, reconstructSeed observed = .ok excluded ∧
      (∀ secret secret', (∀ i, secret.get i ≠ excluded.get i) →
        (∀ i, secret'.get i ≠ excluded.get i) →
        (consistent threshold n observed secret).ncard =
          (consistent threshold n observed secret').ncard) ∧
      ∀ secret, (consistent threshold n observed secret).ncard =
        if ∀ i, secret.get i ≠ excluded.get i then 1 else 0 := by
  obtain ⟨excluded, hrec, hncard⟩ := ncard_consistent hthreshold hle hn hnodup hlen hindex
  refine ⟨excluded, hrec, fun secret secret' h h' => ?_, hncard⟩
  rw [hncard, hncard, if_pos h, if_pos h']

end TooFew

/-! ### Shares of the zero seed -/

theorem drawable_pair (b : UInt8) : Drawable b 2 [b, 1] := ⟨rfl, rfl, fun _ => by simp⟩

/-- The zero seed, shared with the line of slope one, and its last two shares. -/
theorem reconstruct_of_split_line : ∃ rng rest shares,
    splitSeed (Bytes.zero 32) 2 3 rng = some (.ok shares, rest) ∧
      reconstructSeed shares.tail = .ok (Bytes.zero 32) := by
  obtain ⟨rng, rest, hdraw⟩ : ∃ rng rest, drawAll (Bytes.zero 32) 2 rng = some
      (fun i => [(Bytes.zero 32).get i, 1], rest) :=
    (exists_drawAll_iff (by omega) _ _).mpr fun i => drawable_pair _
  have hsplit : splitSeed (Bytes.zero 32) 2 3 rng = some (.ok (sharesOf 3 fun i =>
      [(Bytes.zero 32).get i, 1]), rest) := by
    rw [splitSeed_eq (by omega) (by omega) (by omega), hdraw]
    rfl
  obtain ⟨shares, hshares, hreconstruct⟩ :=
    reconstruct_of_split (by omega) (by omega) (by omega) (Bytes.zero 32) rng hsplit
  obtain rfl := Except.ok.inj hshares
  refine ⟨rng, rest, _, hsplit, hreconstruct _ ?_ (fun s hs => List.mem_of_mem_tail hs) ?_⟩
  · refine (List.Nodup.of_map SeedShare.x ?_).tail
    rw [sharesOf, List.map_map]
    decide
  · rw [List.length_tail, sharesOf, List.length_map, List.length_range']

/-- The share at 1 that is zero. -/
def zeroShare : SeedShare := ⟨1, Bytes.zero 32⟩

theorem nodup_zeroShare : ([zeroShare].map SeedShare.x).Nodup := List.nodup_singleton _

theorem reconstructSeed_zeroShare : reconstructSeed [zeroShare] = .ok (Bytes.zero 32) := by
  rw [reconstructSeed_eq (r := fun _ _ => 0) (by simp) (by simp [zeroShare]) (by simp) (by
    intro i s hs
    obtain rfl := List.mem_singleton.mp hs
    rw [zeroShare, Bytes.zero, List.Vector.get_replicate]
    rfl)]
  refine congrArg Except.ok (List.Vector.ext fun i => ?_)
  rw [List.Vector.get_ofFn, Bytes.zero, List.Vector.get_replicate]
  simp [atZero]

/-- The share leaves the secrets of ones and of twos equally possible. -/
theorem secrecy_of_split_zeroShare :
    (consistent 2 2 [zeroShare] (List.Vector.replicate 32 1)).ncard =
      (consistent 2 2 [zeroShare] (List.Vector.replicate 32 2)).ncard := by
  obtain ⟨excluded, hrec, hncard, -⟩ := secrecy_of_split (n := 2) le_rfl le_rfl (by omega)
    nodup_zeroShare rfl (by simp [zeroShare])
  obtain rfl := Except.ok.inj (reconstructSeed_zeroShare.symm.trans hrec)
  refine hncard _ _ (fun i => ?_) fun i => ?_
  all_goals
    rw [Bytes.zero, List.Vector.get_replicate, List.Vector.get_replicate]
    simp

/-- **A share gives something away**: one that is zero rules out the zero secret, and not the
secret of ones. -/
theorem ncard_ne_zeroShare :
    (consistent 2 2 [zeroShare] (Bytes.zero 32)).ncard = 0 ∧
      (consistent 2 2 [zeroShare] (List.Vector.replicate 32 1)).ncard = 1 := by
  obtain ⟨excluded, hrec, hncard⟩ := ncard_consistent (n := 2) le_rfl le_rfl (by omega)
    nodup_zeroShare rfl (by simp [zeroShare])
  obtain rfl := Except.ok.inj (reconstructSeed_zeroShare.symm.trans hrec)
  refine ⟨?_, ?_⟩
  · rw [hncard, if_neg]
    exact fun h => h 0 rfl
  · rw [hncard, if_pos]
    intro i
    rw [Bytes.zero, List.Vector.get_replicate, List.Vector.get_replicate]
    simp

end Shamir

end Aegis
