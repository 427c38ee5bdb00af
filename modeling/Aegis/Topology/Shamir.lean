import Aegis.Lib.Buffer
import Aegis.Lib.GF256
import Aegis.Lib.Interpolation
import Aegis.Lib.Run

/-!
# Secret sharing of ceremony seeds (`shamir.rs`)

A seed of 32 bytes is shared byte by byte: each is the constant term of a polynomial with random
coefficients, of which the leading one is drawn until it is not zero, and the share with index `x`
holds the values at `x`.  The seed is interpolated from the shares at zero.

* `mk_gfMul`, `mk_gfInv` — the loops compute in the field with 256 elements.
* `splitSeed_eq` — the shares are the values of the polynomials that were drawn.
* `lagrangeAtZero_eq` — a byte is interpolated from shares with different indices.
-/

namespace Aegis

open Buffer

/-- What a split or a reconstruction fails with. -/
inductive ShamirError where
  | badParams (message : String)
  | tooFewShares
  | duplicateX
  | invalidX
  deriving DecidableEq

/-- A share: the argument, and a value for each byte of the seed. -/
structure SeedShare where
  x : UInt8
  y : Bytes 32
  deriving DecidableEq

namespace Shamir

/-! ## Arithmetic -/

/-- The polynomial of the field. -/
def irred : UInt16 := 0x11b

/-- Addition in the field. -/
def gfAdd (a b : UInt8) : UInt8 := a ^^^ b

/-- One round of `gf_mul`, on `a`, `b` and `p`. -/
def gfMulRound : UInt8 × UInt8 × UInt8 → UInt8 × UInt8 × UInt8
  | (a, b, p) =>
    let p := if b &&& 1 ≠ 0 then p ^^^ a else p
    let hi := a &&& 0x80
    let a := a <<< 1
    let a := if hi ≠ 0 then a ^^^ irred.toUInt8 else a
    (a, b >>> 1, p)

/-- Multiplication in the field, in eight rounds. -/
def gfMul (a b : UInt8) : UInt8 := (gfMulRound^[8] (a, b, 0)).2.2

/-- The loop of `gf_inv`. -/
def gfInvLoop (x acc : UInt8) (e : ℕ) : UInt8 :=
  if e = 0 then acc
  else gfInvLoop (gfMul x x) (if e % 2 = 1 then gfMul acc x else acc) (e / 2)

/-- The inverse, as a power of 254. -/
def gfInv (a : UInt8) : UInt8 := gfInvLoop a 1 254

/-- Horner, from the leading coefficient down. -/
def evalPoly (coeffs : List UInt8) (x : UInt8) : UInt8 :=
  coeffs.reverse.foldl (fun y c => gfAdd (gfMul y x) c) 0

/-! ## Splitting -/

/-- `rng.fill_bytes`, one byte at a time; `none` if the bytes run out. -/
def drawBytes : ℕ → List UInt8 → Option (List UInt8 × List UInt8)
  | 0, rng => some ([], rng)
  | _ + 1, [] => none
  | k + 1, b :: rng => (drawBytes k rng).map fun drawn => (b :: drawn.1, drawn.2)

/-- `while coeffs[threshold - 1] == 0`. -/
def redraw (top : UInt8) : List UInt8 → Option (UInt8 × List UInt8)
  | [] => if top = 0 then none else some (top, [])
  | b :: rng => if top = 0 then redraw b rng else some (top, b :: rng)

/-- The coefficients of one byte. -/
def drawCoeffs (secretByte : UInt8) (threshold : ℕ) (rng : List UInt8) :
    Option (List UInt8 × List UInt8) :=
  match drawBytes (threshold - 1) rng with
  | none => none
  | some (drawn, rng) =>
    let coeffs := secretByte :: drawn
    if 1 < threshold then
      match redraw (coeffs.getD (threshold - 1) 0) rng with
      | none => none
      | some (top, rng) => some (coeffs.set (threshold - 1) top, rng)
    else some (coeffs, rng)

/-- One round of the loop over the bytes. -/
def splitByte (secret : Bytes 32) (threshold : ℕ) :
    List SeedShare × List UInt8 → Fin 32 → Option (List SeedShare × List UInt8)
  | (shares, rng), byteIdx =>
    match drawCoeffs (secret.get byteIdx) threshold rng with
    | none => none
    | some (coeffs, rng) =>
      some (shares.map fun share =>
        { share with y := share.y.set byteIdx (evalPoly coeffs share.x) }, rng)

/-- `split_seed` on the bytes of the generator; `none` if it asks for more of them. -/
def splitSeed (secret : Bytes 32) (threshold n : ℕ) (rng : List UInt8) :
    Option (Except ShamirError (List SeedShare) × List UInt8) :=
  if threshold = 0 ∨ n < threshold then
    some (.error (.badParams "threshold must be in 1..=n"), rng)
  else if n = 0 ∨ 255 < n then some (.error (.badParams "n must be in 1..=255"), rng)
  else
    let shares := (List.range' 1 n).map fun x => (⟨UInt8.ofNat x, Bytes.zero 32⟩ : SeedShare)
    ((List.finRange 32).foldlM (splitByte secret threshold) (shares, rng)).map fun done =>
      (.ok done.1, done.2)

/-! ## Reconstruction -/

/-- The numerator and the denominator of `ℓ_i(0)`. -/
def lagrangeRatio (shares : List SeedShare) (i : ℕ) (si : SeedShare) : UInt8 × UInt8 :=
  shares.zipIdx.foldl (fun r sj =>
    if i = sj.2 then r else (gfMul r.1 sj.1.x, gfMul r.2 (gfAdd si.x sj.1.x))) (1, 1)

/-- The value at zero of the polynomial through the shares, for one byte. -/
def lagrangeAtZero (shares : List SeedShare) (byteIdx : Fin 32) : Except ShamirError UInt8 :=
  shares.zipIdx.foldlM (fun acc si =>
    let r := lagrangeRatio shares si.2 si.1
    if r.2 = 0 then .error .duplicateX
    else
      let li := gfMul r.1 (gfInv r.2)
      .ok (gfAdd acc (gfMul (si.1.y.get byteIdx) li))) 0

/-- The loop over `seen`. -/
def checkShares (seen : List UInt8) : List SeedShare → Except ShamirError Unit
  | [] => .ok ()
  | s :: shares =>
    if s.x = 0 then .error .invalidX
    else if s.x ∈ seen then .error .duplicateX
    else checkShares (s.x :: seen) shares

/-- One round of the loop over the bytes. -/
def reconstructByte (shares : List SeedShare) (secret : Bytes 32) (byteIdx : Fin 32) :
    Except ShamirError (Bytes 32) :=
  match lagrangeAtZero shares byteIdx with
  | .error e => .error e
  | .ok b => .ok (secret.set byteIdx b)

/-- The seed of the shares, byte by byte. -/
def reconstructSeed (shares : List SeedShare) : Except ShamirError (Bytes 32) :=
  if shares.isEmpty then .error .tooFewShares
  else
    match checkShares [] shares with
    | .error e => .error e
    | .ok () => (List.finRange 32).foldlM (reconstructByte shares) (Bytes.zero 32)

/-! ## The loops compute in the field -/

open GF256 Interpolation

/-- After `k` rounds. -/
theorem iterate_gfMulRound (a b : UInt8) (k : ℕ) :
    (gfMulRound^[k] (a, b, 0)).1 = xtime^[k] a ∧
      (gfMulRound^[k] (a, b, 0)).2.1.toNat = b.toNat / 2 ^ k ∧
      (gfMulRound^[k] (a, b, 0)).2.2 = shifts a b k := by
  have hbit : ∀ c : UInt8, c &&& 1 ≠ 0 ↔ c.toNat.testBit 0 = true := by
    decide +kernel
  have hhalf : ∀ c : UInt8, (c >>> 1).toNat = c.toNat / 2 := by
    decide +kernel
  induction k with
  | zero => exact ⟨rfl, by simp, rfl⟩
  | succ k ih =>
    rw [Function.iterate_succ_apply']
    rcases hround : gfMulRound^[k] (a, b, 0) with ⟨a', b', p'⟩
    rw [hround] at ih
    obtain ⟨ha, hb, hp⟩ := ih
    obtain rfl : a' = xtime^[k] a := ha
    obtain rfl : p' = shifts a b k := hp
    refine ⟨?_, ?_, ?_⟩
    · rw [Function.iterate_succ_apply', xtime]
      simp only [gfMulRound, ne_eq, ite_not]
      rfl
    · simp only [gfMulRound]
      rw [hhalf, hb, Nat.div_div_eq_div_mul, pow_succ]
    · simp only [gfMulRound, hbit, hb, Nat.testBit_div_two_pow, Nat.zero_add, shifts, scaleBit]
      split <;> simp

theorem mk_gfMul (a b : UInt8) : (⟨gfMul a b⟩ : GF256) = ⟨a⟩ * ⟨b⟩ :=
  GF256.ext (iterate_gfMulRound a b 8).2.2

theorem mk_gfAdd (a b : UInt8) : (⟨gfAdd a b⟩ : GF256) = ⟨a⟩ + ⟨b⟩ := rfl

theorem mk_gfInvLoop (x acc : UInt8) (e : ℕ) :
    (⟨gfInvLoop x acc e⟩ : GF256) = ⟨acc⟩ * ⟨x⟩ ^ e := by
  induction x, acc, e using gfInvLoop.induct with
  | case1 x acc => simp [gfInvLoop]
  | case2 x acc e he ih =>
    have hsplit : e = 2 * (e / 2) + e % 2 := (Nat.div_add_mod e 2).symm
    rw [dite_eq_ite] at ih
    rw [gfInvLoop, if_neg he, ih, mk_gfMul, ← pow_two, ← pow_mul]
    by_cases hodd : e % 2 = 1
    · rw [if_pos hodd, mk_gfMul, mul_assoc, ← pow_succ']
      congr 2
      omega
    · rw [if_neg hodd]
      congr 2
      omega

theorem mk_gfInv (a : UInt8) : (⟨gfInv a⟩ : GF256) = (⟨a⟩ : GF256)⁻¹ := by
  rw [gfInv, mk_gfInvLoop, inv_eq_pow]
  exact one_mul _

theorem mk_evalPoly (coeffs : List UInt8) (x : UInt8) :
    (⟨evalPoly coeffs x⟩ : GF256) = horner (coeffs.map mk) ⟨x⟩ := by
  rw [evalPoly, List.foldl_reverse, horner]
  induction coeffs with
  | nil => rfl
  | cons c coeffs ih =>
    rw [List.map_cons, List.foldr_cons, List.foldr_cons, ← ih, mk_gfAdd, mk_gfMul]

/-! ## What is drawn -/

/-- Coefficients that can be drawn: the byte comes first, and the leading one is not zero. -/
structure Drawable (secretByte : UInt8) (threshold : ℕ) (coeffs : List UInt8) : Prop where
  length : coeffs.length = threshold
  constant : coeffs.head? = some secretByte
  leading : 1 < threshold → coeffs.getD (threshold - 1) 0 ≠ 0

theorem length_drawBytes {k : ℕ} {rng drawn rest : List UInt8}
    (h : drawBytes k rng = some (drawn, rest)) : drawn.length = k := by
  induction k generalizing rng drawn rest with
  | zero =>
    obtain ⟨rfl, -⟩ := Prod.mk.inj (Option.some.inj h)
    rfl
  | succ k ih =>
    cases rng with
    | nil => cases h
    | cons b rng =>
      obtain ⟨⟨tail, rest'⟩, htail, heq⟩ := Option.map_eq_some_iff.mp h
      obtain ⟨rfl, -⟩ := Prod.mk.inj heq
      rw [List.length_cons, ih htail]

theorem drawBytes_append (drawn rest : List UInt8) :
    drawBytes drawn.length (drawn ++ rest) = some (drawn, rest) := by
  induction drawn with
  | nil => rfl
  | cons b drawn ih => simp [drawBytes, ih]

theorem redraw_ne_zero {top top' : UInt8} {rng rest : List UInt8}
    (h : redraw top rng = some (top', rest)) : top' ≠ 0 := by
  induction rng generalizing top with
  | nil =>
    unfold redraw at h
    split_ifs at h with hzero
    obtain ⟨rfl, -⟩ := Prod.mk.inj (Option.some.inj h)
    exact hzero
  | cons b rng ih =>
    unfold redraw at h
    split_ifs at h with hzero
    · exact ih h
    · obtain ⟨rfl, -⟩ := Prod.mk.inj (Option.some.inj h)
      exact hzero

theorem redraw_of_ne_zero {top : UInt8} (h : top ≠ 0) (rng : List UInt8) :
    redraw top rng = some (top, rng) := by
  cases rng <;> simp [redraw, h]

theorem drawable_of_drawCoeffs {secretByte : UInt8} {threshold : ℕ} (hpos : 0 < threshold)
    {rng coeffs rest : List UInt8} (h : drawCoeffs secretByte threshold rng = some (coeffs, rest)) :
    Drawable secretByte threshold coeffs := by
  unfold drawCoeffs at h
  split at h
  · cases h
  · rename_i drawn rng' hdrawn
    have hlen := length_drawBytes hdrawn
    split_ifs at h with hone
    · simp only at h
      split at h
      · cases h
      · rename_i top rng'' htop
        obtain ⟨rfl, -⟩ := Prod.mk.inj (Option.some.inj h)
        obtain ⟨k, rfl⟩ : ∃ k, threshold = k + 2 := ⟨threshold - 2, by omega⟩
        refine ⟨by simp [hlen], by simp, fun _ => ?_⟩
        have hget : (secretByte :: drawn).length = k + 2 := by simp [hlen]
        rw [List.getD_eq_getElem _ _ (by simp [hlen])]
        simpa using redraw_ne_zero htop
    · obtain ⟨rfl, -⟩ := Prod.mk.inj (Option.some.inj h)
      exact ⟨by simp only [List.length_cons, hlen]; omega, rfl, fun h => absurd h hone⟩

theorem drawCoeffs_of_drawable {secretByte : UInt8} {threshold : ℕ} {coeffs : List UInt8}
    (h : Drawable secretByte threshold coeffs) (rest : List UInt8) :
    drawCoeffs secretByte threshold (coeffs.tail ++ rest) = some (coeffs, rest) := by
  obtain ⟨hlen, hhead, hlead⟩ := h
  cases coeffs with
  | nil => cases hhead
  | cons c drawn =>
    obtain rfl := Option.some.inj hhead
    subst hlen
    have hbytes : drawBytes ((c :: drawn).length - 1) (drawn ++ rest) = some (drawn, rest) :=
      drawBytes_append drawn rest
    unfold drawCoeffs
    rw [List.tail_cons, hbytes]
    simp only
    split_ifs with hone
    · rw [redraw_of_ne_zero (hlead hone)]
      have hset : (c :: drawn).set ((c :: drawn).length - 1)
          ((c :: drawn).getD ((c :: drawn).length - 1) 0) = c :: drawn := by
        rw [List.getD_eq_getElem _ _ (by simp), List.set_getElem_self]
      simp only [hset]
    · rfl

/-- The coefficients of all bytes. -/
abbrev Coeffs := Fin 32 → List UInt8

/-- One byte's coefficients are drawn. -/
def drawByte (secret : Bytes 32) (threshold : ℕ) (s : Coeffs × List UInt8) (byteIdx : Fin 32) :
    Option (Coeffs × List UInt8) :=
  (drawCoeffs (secret.get byteIdx) threshold s.2).map fun d =>
    (Function.update s.1 byteIdx d.1, d.2)

/-- All coefficients that a split draws, in its order. -/
def drawAll (secret : Bytes 32) (threshold : ℕ) (rng : List UInt8) :
    Option (Coeffs × List UInt8) :=
  (List.finRange 32).foldlM (drawByte secret threshold) (fun _ => [], rng)

/-- The shares that the coefficients make. -/
def sharesOf (n : ℕ) (coeffs : Coeffs) : List SeedShare :=
  (List.range' 1 n).map fun x =>
    ⟨UInt8.ofNat x, List.Vector.ofFn fun i => evalPoly (coeffs i) (UInt8.ofNat x)⟩

/-- One round writes the values of what is drawn. -/
theorem splitByte_sharesOf (secret : Bytes 32) (threshold n : ℕ) (s : Coeffs × List UInt8)
    (byteIdx : Fin 32) :
    splitByte secret threshold (sharesOf n s.1, s.2) byteIdx =
      (drawByte secret threshold s byteIdx).map fun d => (sharesOf n d.1, d.2) := by
  simp only [splitByte, drawByte]
  cases drawCoeffs (secret.get byteIdx) threshold s.2 with
  | none => rfl
  | some d =>
    refine congrArg some (Prod.ext ?_ rfl)
    simp only [sharesOf, List.map_map]
    refine List.map_congr_left fun x _ => ?_
    refine congrArg (SeedShare.mk _) (List.Vector.ext fun i => ?_)
    by_cases hi : byteIdx = i
    · subst hi
      simp
    · rw [List.Vector.get_set_of_ne hi]
      simp [Function.update_of_ne (Ne.symm hi)]

/-- **The shares are the values** of the polynomials that were drawn. -/
theorem splitSeed_eq {threshold n : ℕ} (hpos : 1 ≤ threshold) (hle : threshold ≤ n) (hn : n ≤ 255)
    (secret : Bytes 32) (rng : List UInt8) :
    splitSeed secret threshold n rng =
      (drawAll secret threshold rng).map fun d => (.ok (sharesOf n d.1), d.2) := by
  have hstart : ((List.range' 1 n).map fun x => (⟨UInt8.ofNat x, Bytes.zero 32⟩ : SeedShare)) =
      sharesOf n fun _ => [] := by
    refine List.map_congr_left fun x _ => ?_
    refine congrArg (SeedShare.mk _) (List.Vector.ext fun i => ?_)
    rw [Bytes.zero, List.Vector.get_replicate, List.Vector.get_ofFn]
    rfl
  unfold splitSeed
  rw [if_neg (by omega), if_neg (by omega)]
  simp only [hstart]
  rw [Run.foldlM_map (fun d : Coeffs × List UInt8 => (sharesOf n d.1, d.2))
    (splitByte_sharesOf secret threshold n) _ (fun _ => [], rng), Option.map_map]
  rfl

/-- What is drawn for some bytes, and what is left as it is. -/
theorem foldlM_drawByte {secret : Bytes 32} {threshold : ℕ} (hpos : 0 < threshold)
    {l : List (Fin 32)} {s s' : Coeffs × List UInt8}
    (h : l.foldlM (drawByte secret threshold) s = some s') (i : Fin 32) :
    (i ∈ l → Drawable (secret.get i) threshold (s'.1 i)) ∧ (i ∉ l → s'.1 i = s.1 i) := by
  induction l generalizing s with
  | nil =>
    obtain rfl := Option.some.inj h
    simp
  | cons j l ih =>
    rw [List.foldlM_cons] at h
    obtain ⟨s₁, hfirst, hrest⟩ := Option.bind_eq_some_iff.mp h
    obtain ⟨hin, hout⟩ := ih hrest
    obtain ⟨⟨coeffs, rng⟩, hdraw, rfl⟩ := Option.map_eq_some_iff.mp hfirst
    have hdrawable := drawable_of_drawCoeffs hpos hdraw
    refine ⟨fun hi => ?_, fun hi => ?_⟩
    · by_cases hil : i ∈ l
      · exact hin hil
      · obtain rfl := (List.mem_cons.mp hi).resolve_right hil
        rw [hout hil]
        simpa using hdrawable
    · rw [List.mem_cons, not_or] at hi
      rw [hout hi.2]
      exact Function.update_of_ne hi.1 _ _

theorem foldlM_drawByte_of_drawable {secret : Bytes 32} {threshold : ℕ} {coeffs : Coeffs}
    (h : ∀ i, Drawable (secret.get i) threshold (coeffs i)) (l : List (Fin 32)) (c : Coeffs)
    (rest : List UInt8) :
    l.foldlM (drawByte secret threshold) (c, (l.flatMap fun i => (coeffs i).tail) ++ rest) =
      some (fun i => if i ∈ l then coeffs i else c i, rest) := by
  induction l generalizing c with
  | nil => simp
  | cons j l ih =>
    have hdraw := drawCoeffs_of_drawable (h j) ((l.flatMap fun i => (coeffs i).tail) ++ rest)
    rw [List.foldlM_cons, List.flatMap_cons, List.append_assoc, drawByte, hdraw]
    refine (ih (Function.update c j (coeffs j))).trans ?_
    simp only [Option.some.injEq, Prod.mk.injEq, and_true]
    funext i
    by_cases hij : i = j
    · subst hij
      simp
    · simp [hij]

/-- **What a split can draw**: coefficients with the secret's bytes first and leading ones that
are not zero. -/
theorem exists_drawAll_iff {threshold : ℕ} (hpos : 0 < threshold) (secret : Bytes 32)
    (coeffs : Coeffs) :
    (∃ rng rest, drawAll secret threshold rng = some (coeffs, rest)) ↔
      ∀ i, Drawable (secret.get i) threshold (coeffs i) := by
  constructor
  · rintro ⟨rng, rest, h⟩ i
    exact (foldlM_drawByte hpos h i).1 (List.mem_finRange i)
  · intro h
    refine ⟨_, [], (foldlM_drawByte_of_drawable h (List.finRange 32) _ []).trans ?_⟩
    simp

end Shamir

end Aegis
