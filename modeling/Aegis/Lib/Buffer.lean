import Mathlib

/-!
# Buffers: windows, in-place writes and stream XOR on fixed-width byte strings

The small theory of flat memory the rest of the development is written in.  A
buffer is a list; the three things a program does to one are to read a window
(`slice`), to overwrite a window (`writeAt`) and to XOR a key stream into a
window (`xorAt`).  Both updates keep the length, so they lift to the fixed-width
arrays `Bytes n`.

* `slice_writeAt`, `slice_writeAt_of_disjoint` — reading back what was written,
  and the frame: a window the write does not touch is unchanged.
* `slice_writeAt_inside`, `slice_xorAt_inside` — an update inside a window is
  the same update of the window.
* `drop_writeAt_of_le`, `drop_writeAt_congr` (and the same for `xorAt`) — an
  update below a cut leaves the tail alone, and an update above it sees only the
  tail.
* `writeAt_slice` — writing back what is there changes nothing.
* `trimEnd_append_eq_left_iff` — when trimming the end of a padded string gives the
  string back.
* `xorAt_xorAt`, `xorAt_comm` — stream encryption is its own inverse, and two
  layers come off in any order.
* `leValue_leBytes`, `leBytes_leValue` — little-endian numbers survive the wire.
-/

namespace Buffer

variable {α : Type}

/-! ## Windows -/

/-- The window of `n` entries starting at `off`. -/
def slice (off n : ℕ) (l : List α) : List α := (l.drop off).take n

theorem length_slice (off n : ℕ) (l : List α) :
    (slice off n l).length = min n (l.length - off) := by
  simp [slice]

theorem length_slice_of_le {off n : ℕ} {l : List α} (h : off + n ≤ l.length) :
    (slice off n l).length = n := by
  rw [length_slice]
  omega

theorem getElem?_slice (off n : ℕ) (l : List α) (i : ℕ) :
    (slice off n l)[i]? = if i < n then l[off + i]? else none := by
  simp [slice, List.getElem?_take]

theorem slice_zero_of_length {l : List α} {n : ℕ} (h : l.length = n) : slice 0 n l = l := by
  rw [slice, List.drop_zero, List.take_of_length_le h.le]

/-- A window of a window is a window. -/
theorem slice_slice {a m off n : ℕ} {l : List α} (h : off + n ≤ m) :
    slice off n (slice a m l) = slice (a + off) n l := by
  apply List.ext_getElem?
  intro i
  simp only [getElem?_slice]
  by_cases hi : i < n
  · rw [if_pos hi, if_pos hi, if_pos (by omega), Nat.add_assoc]
  · rw [if_neg hi, if_neg hi]

/-- Tails that agree from `m` on agree further on. -/
theorem drop_eq_of_drop_eq {m k : ℕ} {l l' : List α} (h : l.drop m = l'.drop m) (hm : m ≤ k) :
    l.drop k = l'.drop k := by
  have hk := congrArg (List.drop (k - m)) h
  rwa [List.drop_drop, List.drop_drop, Nat.add_sub_cancel' hm] at hk

/-- A window reads only what lies behind its start. -/
theorem slice_of_drop_eq {m off n : ℕ} {l l' : List α} (h : l.drop m = l'.drop m)
    (hm : m ≤ off) : slice off n l = slice off n l' := by
  have key : ∀ k : List α, slice off n k = slice (off - m) n (k.drop m) := by
    intro k
    rw [slice, slice, List.drop_drop, Nat.add_sub_cancel' hm]
  rw [key, key, h]

/-- Two adjacent windows make one. -/
theorem slice_append_slice (off n k : ℕ) (l : List α) :
    slice off n l ++ slice (off + n) k l = slice off (n + k) l := by
  rw [slice, slice, slice, List.take_add, List.drop_drop]

theorem slice_append_left {off n : ℕ} {l r : List α} (h : off + n ≤ l.length) :
    slice off n (l ++ r) = slice off n l := by
  rw [slice, slice, List.drop_append_of_le_length (by omega),
    List.take_append_of_le_length (by rw [List.length_drop]; omega)]

theorem slice_append_right {off n : ℕ} {l r : List α} (h : l.length ≤ off) :
    slice off n (l ++ r) = slice (off - l.length) n r := by
  rw [slice, slice, List.drop_append, List.drop_eq_nil_of_le h, List.nil_append]

/-- `l.get(start..stop)`; where it is `none`, `l[start..stop]` panics. -/
def getRange (start stop : ℕ) (l : List α) : Option (List α) :=
  if start ≤ stop ∧ stop ≤ l.length then some (slice start (stop - start) l) else none

theorem getRange_eq_some {start stop : ℕ} {l : List α} (h : start ≤ stop) (hstop : stop ≤ l.length) :
    getRange start stop l = some (slice start (stop - start) l) := if_pos ⟨h, hstop⟩

/-! ## Overwriting a window -/

/-- Overwrite the entries from `off` on with `src`; what would fall off the end
is dropped, so the length never changes. -/
def writeAt (l : List α) (off : ℕ) (src : List α) : List α :=
  l.mapIdx fun p x => if p < off then x else src.getD (p - off) x

@[simp] theorem length_writeAt (l : List α) (off : ℕ) (src : List α) :
    (writeAt l off src).length = l.length := by
  simp [writeAt]

theorem getElem?_writeAt (l : List α) (off : ℕ) (src : List α) (i : ℕ) :
    (writeAt l off src)[i]? =
      l[i]?.map fun x => if i < off then x else src.getD (i - off) x := by
  simp [writeAt]

/-- An update inside a window is the same update of the window. -/
theorem slice_writeAt_inside {a n off : ℕ} (l : List α) (src : List α) (h : a ≤ off) :
    slice a n (writeAt l off src) = writeAt (slice a n l) (off - a) src := by
  apply List.ext_getElem?
  intro i
  simp only [getElem?_slice, getElem?_writeAt]
  by_cases hi : i < n
  · rw [if_pos hi, if_pos hi]
    have h1 : (a + i < off) ↔ (i < off - a) := by omega
    have h2 : a + i - off = i - (off - a) := by omega
    simp only [h1, h2]
  · rw [if_neg hi, if_neg hi, Option.map_none]

theorem writeAt_zero_of_length {l src : List α} (h : src.length = l.length) :
    writeAt l 0 src = src := by
  apply List.ext_getElem
  · simp [h]
  · intro i h1 h2
    simp [writeAt, List.getElem?_eq_getElem h2]

/-- **What was written is read back.** -/
theorem slice_writeAt {l : List α} {off : ℕ} {src : List α} {n : ℕ} (hn : src.length = n)
    (h : off + n ≤ l.length) : slice off n (writeAt l off src) = src := by
  rw [slice_writeAt_inside _ _ le_rfl, Nat.sub_self, writeAt_zero_of_length]
  rw [length_slice_of_le h, hn]

/-- **The frame of a write**: a window it does not touch reads as before. -/
theorem slice_writeAt_of_disjoint {l : List α} {off : ℕ} {src : List α} {a n : ℕ}
    (h : a + n ≤ off ∨ off + src.length ≤ a) :
    slice a n (writeAt l off src) = slice a n l := by
  apply List.ext_getElem?
  intro i
  simp only [getElem?_slice, getElem?_writeAt]
  by_cases hi : i < n
  · rw [if_pos hi, if_pos hi]
    rcases h with h | h
    · simp only [if_pos (show a + i < off by omega), Option.map_id']
    · have hnone : src[a + i - off]? = none := List.getElem?_eq_none (by omega)
      simp [hnone]
  · rw [if_neg hi, if_neg hi]

/-- Reading a part of what was just written. -/
theorem slice_writeAt_of_subset {l : List α} {off : ℕ} {src : List α} {a n : ℕ} (hoff : off ≤ a)
    (hsrc : a + n ≤ off + src.length) (h : off + src.length ≤ l.length) :
    slice a n (writeAt l off src) = slice (a - off) n src := by
  have hwin : slice off src.length (writeAt l off src) = src := slice_writeAt rfl h
  calc slice a n (writeAt l off src)
      = slice (off + (a - off)) n (writeAt l off src) := by rw [Nat.add_sub_cancel' hoff]
    _ = slice (a - off) n (slice off src.length (writeAt l off src)) :=
        (slice_slice (by omega)).symm
    _ = slice (a - off) n src := by rw [hwin]

theorem drop_eq_slice (m : ℕ) (l : List α) : l.drop m = slice m (l.length - m) l := by
  rw [slice, List.take_of_length_le (by rw [List.length_drop])]

/-- A write below a cut leaves the tail alone. -/
theorem drop_writeAt_of_le {l : List α} {off : ℕ} {src : List α} {m : ℕ}
    (h : off + src.length ≤ m) : (writeAt l off src).drop m = l.drop m := by
  rw [drop_eq_slice, drop_eq_slice, length_writeAt, slice_writeAt_of_disjoint (Or.inr h)]

/-- A write above a cut sees only the tail. -/
theorem drop_writeAt_congr {l l' : List α} {off : ℕ} {src : List α} {m : ℕ}
    (h : l.drop m = l'.drop m) (hlen : l.length = l'.length) (hm : m ≤ off) :
    (writeAt l off src).drop m = (writeAt l' off src).drop m := by
  rw [drop_eq_slice, drop_eq_slice, slice_writeAt_inside _ _ hm, slice_writeAt_inside _ _ hm,
    length_writeAt, length_writeAt, hlen, slice_of_drop_eq h le_rfl]

/-- Writing back what is there changes nothing. -/
theorem writeAt_slice (l : List α) (off n : ℕ) : writeAt l off (slice off n l) = l := by
  apply List.ext_getElem?
  intro i
  rw [getElem?_writeAt]
  cases hi : l[i]? with
  | none => rfl
  | some x =>
    by_cases h : i < off
    · simp [h]
    · by_cases hn : i - off < n
      · simp [h, getElem?_slice, hn, Nat.add_sub_cancel' (not_lt.mp h), hi]
      · simp [h, getElem?_slice, hn]

/-- Copy the window `[s, e)` of a buffer to offset `d` of the same buffer. -/
def copyWithin (l : List α) (s e d : ℕ) : List α := writeAt l d (slice s (e - s) l)

@[simp] theorem length_copyWithin (l : List α) (s e d : ℕ) :
    (copyWithin l s e d).length = l.length := by
  simp [copyWithin]

/-- Copying inside a window is the same copy of the window. -/
theorem slice_copyWithin_inside {a n s e : ℕ} (d : ℕ) (l : List α) (hse : s ≤ e) (he : e ≤ n) :
    slice a n (copyWithin l (a + s) (a + e) (a + d)) = copyWithin (slice a n l) s e d := by
  have hlen : a + e - (a + s) = e - s := by omega
  have hoff : a + d - a = d := by omega
  rw [copyWithin, copyWithin, slice_writeAt_inside _ _ (by omega), slice_slice (by omega), hlen,
    hoff]

theorem slice_copyWithin_of_disjoint {l : List α} {s e d a n : ℕ}
    (h : a + n ≤ d ∨ d + (e - s) ≤ a) : slice a n (copyWithin l s e d) = slice a n l := by
  refine slice_writeAt_of_disjoint ?_
  rw [length_slice]
  omega

theorem writeAt_append {l : List α} {off : ℕ} {src : List α}
    (h : off + src.length = l.length) : writeAt l off src = l.take off ++ src := by
  have htake : (writeAt l off src).take off = l.take off :=
    slice_writeAt_of_disjoint (a := 0) (n := off) (Or.inl (by omega))
  have hdrop : (writeAt l off src).drop off = src := by
    rw [drop_eq_slice, length_writeAt]
    exact slice_writeAt (by omega) (by omega)
  rw [← List.take_append_drop off (writeAt l off src), htake, hdrop]

theorem writeAt_zero {l src : List α} (h : src.length ≤ l.length) :
    writeAt l 0 src = src ++ l.drop src.length := by
  have hread : slice 0 src.length (writeAt l 0 src) = src :=
    slice_writeAt rfl (by omega)
  have htake : (writeAt l 0 src).take src.length = src := hread
  have hdrop : (writeAt l 0 src).drop src.length = l.drop src.length :=
    drop_writeAt_of_le (by omega)
  rw [← List.take_append_drop src.length (writeAt l 0 src), htake, hdrop]

/-- Moving everything behind the first `k` entries to the front and overwriting
the last `k` is a shift. -/
theorem writeAt_copyWithin_zero {l pad : List α} {n k : ℕ} (hl : l.length = n) (hk : k ≤ n)
    (hpad : pad.length = k) :
    writeAt (copyWithin l k n 0) (n - k) pad = l.drop k ++ pad := by
  have hwin : slice k (n - k) l = l.drop k := by
    rw [drop_eq_slice, hl]
  have hlen : (l.drop k).length = n - k := by
    rw [List.length_drop, hl]
  rw [writeAt_append (by rw [length_copyWithin]; omega), copyWithin, hwin,
    writeAt_zero (by omega), ← hlen, List.take_left]

/-! ## Whole chunks -/

/-- The whole chunks of `n` items a stream consists of, without its tail. -/
def chunks (n : ℕ) (l : List α) : List (List α) :=
  (List.range (l.length / n)).map fun i => slice (i * n) n l

/-- One more chunk behind whole chunks. -/
theorem chunks_append {n : ℕ} {l r : List α} (hn : 0 < n) (hl : n ∣ l.length) (hr : r.length = n) :
    chunks n (l ++ r) = chunks n l ++ [r] := by
  obtain ⟨m, hm⟩ := hl
  have hlen : (l ++ r).length / n = m + 1 := by
    rw [List.length_append, hm, hr, ← Nat.mul_succ, Nat.mul_div_cancel_left _ hn]
  have hlast : slice (m * n) n (l ++ r) = r := by
    rw [slice_append_right (by rw [hm, Nat.mul_comm]), hm, Nat.mul_comm n m, Nat.sub_self,
      slice_zero_of_length hr]
  rw [chunks, chunks, hlen, hm, Nat.mul_div_cancel_left _ hn, List.range_succ, List.map_append,
    List.map_singleton, hlast]
  refine congrArg (· ++ [r]) (List.map_congr_left fun i hi => slice_append_left ?_)
  rw [hm, ← Nat.succ_mul, Nat.mul_comm n m]
  exact Nat.mul_le_mul_right n (List.mem_range.mp hi)

theorem chunks_nil (n : ℕ) : chunks n ([] : List α) = [] := by
  unfold chunks
  rw [List.length_nil, Nat.zero_div, List.range_zero, List.map_nil]

/-- A tail shorter than a chunk is not one. -/
theorem chunks_append_of_lt {n : ℕ} {l tail : List α} (hl : n ∣ l.length)
    (htail : tail.length < n) : chunks n (l ++ tail) = chunks n l := by
  obtain ⟨m, hm⟩ := hl
  have hn : 0 < n := Nat.zero_lt_of_lt htail
  have hlen : (l ++ tail).length / n = m := by
    rw [List.length_append, hm, Nat.mul_add_div hn, Nat.div_eq_of_lt htail, Nat.add_zero]
  unfold chunks
  rw [hlen, hm, Nat.mul_div_cancel_left _ hn]
  refine List.map_congr_left fun i hi => slice_append_left ?_
  rw [hm, ← Nat.succ_mul, Nat.mul_comm n m]
  exact Nat.mul_le_mul_right n (List.mem_range.mp hi)

/-- **Whole chunks are read back**, and a tail shorter than one is not. -/
theorem chunks_flatten_append {n : ℕ} {pieces : List (List α)} {tail : List α}
    (hpieces : ∀ p ∈ pieces, p.length = n) (htail : tail.length < n) :
    chunks n (pieces.flatten ++ tail) = pieces := by
  have hn : 0 < n := Nat.zero_lt_of_lt htail
  have hwhole : n ∣ pieces.flatten.length ∧ chunks n pieces.flatten = pieces := by
    clear htail
    induction pieces using List.reverseRecOn with
    | nil => exact ⟨Nat.dvd_zero n, chunks_nil n⟩
    | append_singleton pieces p ih =>
      obtain ⟨hdvd, hchunks⟩ := ih fun q hq => hpieces q (List.mem_append_left _ hq)
      have hp : p.length = n := hpieces p (List.mem_append_right _ (List.mem_singleton_self p))
      rw [List.flatten_append, List.flatten_cons, List.flatten_nil, List.append_nil]
      refine ⟨?_, ?_⟩
      · rw [List.length_append, hp]
        exact Nat.dvd_add hdvd (dvd_refl n)
      · rw [chunks_append hn hdvd hp, hchunks]
  rw [chunks_append_of_lt hwhole.1 htail, hwhole.2]

/-! ## The last entry of a kind -/

/-- The position of the last entry that satisfies `p`. -/
def rposition (p : α → Bool) : List α → Option ℕ
  | [] => none
  | a :: l =>
    match rposition p l with
    | some i => some (i + 1)
    | none => if p a then some 0 else none

theorem rposition_append (p : α → Bool) (l r : List α) :
    rposition p (l ++ r) =
      match rposition p r with
      | some i => some (l.length + i)
      | none => rposition p l := by
  induction l with
  | nil => cases h : rposition p r <;> simp [rposition, h]
  | cons a l ih =>
    rw [List.cons_append, rposition, ih]
    cases rposition p r with
    | none => rfl
    | some i =>
      simp only [List.length_cons, Option.some.injEq]
      omega

theorem rposition_eq_none_iff (p : α → Bool) (l : List α) :
    rposition p l = none ↔ ∀ a ∈ l, p a = false := by
  induction l with
  | nil => simp [rposition]
  | cons a l ih =>
    rw [rposition, List.forall_mem_cons, ← ih]
    cases h : rposition p l <;> cases ha : p a <;> simp

theorem rposition_lt {p : α → Bool} {l : List α} {i : ℕ} (h : rposition p l = some i) :
    i < l.length := by
  induction l generalizing i with
  | nil => cases h
  | cons a l ih =>
    rw [rposition] at h
    cases hl : rposition p l with
    | some k =>
      simp only [hl, Option.some.injEq] at h
      have hk := ih hl
      rw [List.length_cons]
      omega
    | none =>
      cases ha : p a with
      | true =>
        simp only [hl, ha, if_true, Option.some.injEq] at h
        rw [List.length_cons]
        omega
      | false => simp [hl, ha] at h

/-- Everything up to and including the last entry that satisfies `p`. -/
def trimEnd (p : α → Bool) (l : List α) : List α :=
  l.take (((rposition p l).map (· + 1)).getD 0)

theorem length_trimEnd (p : α → Bool) (l : List α) :
    (trimEnd p l).length = ((rposition p l).map (· + 1)).getD 0 := by
  rw [trimEnd, List.length_take]
  cases h : rposition p l with
  | none => simp
  | some i =>
    have hi := rposition_lt h
    simp only [Option.map_some, Option.getD_some]
    omega

/-- **When trimming recovers what was padded**: the padding is all trimmed and the
contents do not end in something that would be. -/
theorem trimEnd_append_eq_left_iff (p : α → Bool) (l r : List α) :
    trimEnd p (l ++ r) = l ↔ (∀ a ∈ r, p a = false) ∧ ∀ a, l.getLast? = some a → p a = true := by
  have happ := rposition_append p l r
  constructor
  · intro h
    have hlen := congrArg List.length h
    rw [length_trimEnd] at hlen
    cases hr : rposition p r with
    | some i =>
      -- an entry behind `l` is kept
      simp only [hr] at happ
      simp only [happ, Option.map_some, Option.getD_some] at hlen
      omega
    | none =>
      simp only [hr] at happ
      refine ⟨(rposition_eq_none_iff p r).mp hr, ?_⟩
      intro a ha
      obtain ⟨init, rfl⟩ := List.getLast?_eq_some_iff.mp ha
      by_contra hpa
      -- the last entry of `l` is trimmed
      have hlast : rposition p [a] = none := by
        simp [rposition, hpa]
      have hinit := rposition_append p init [a]
      simp only [hlast] at hinit
      rw [happ, hinit] at hlen
      cases hi : rposition p init with
      | none => simp [hi] at hlen
      | some i =>
        have hlt := rposition_lt hi
        simp only [hi, Option.map_some, Option.getD_some, List.length_append,
          List.length_singleton] at hlen
        omega
  · rintro ⟨hr, hl⟩
    have hnone := (rposition_eq_none_iff p r).mpr hr
    simp only [hnone] at happ
    rw [trimEnd, happ]
    cases hlast : l.getLast? with
    | none =>
      rw [List.getLast?_eq_none_iff] at hlast
      subst hlast
      simp [rposition]
    | some a =>
      obtain ⟨init, rfl⟩ := List.getLast?_eq_some_iff.mp hlast
      have hpa := hl a hlast
      have hkeep : rposition p (init ++ [a]) = some init.length := by
        rw [rposition_append]
        simp [rposition, hpa]
      have hlen : init.length + 1 = (init ++ [a]).length := by
        rw [List.length_append, List.length_singleton]
      rw [hkeep, Option.map_some, Option.getD_some, hlen, List.take_left]

/-! ## XOR with a key stream -/

/-- XOR the key stream `ks` into the bytes from `off` on. -/
def xorAt (l : List UInt8) (off : ℕ) (ks : List UInt8) : List UInt8 :=
  l.mapIdx fun p x => if p < off then x else x ^^^ ks.getD (p - off) 0

@[simp] theorem length_xorAt (l : List UInt8) (off : ℕ) (ks : List UInt8) :
    (xorAt l off ks).length = l.length := by
  simp [xorAt]

theorem getElem?_xorAt (l : List UInt8) (off : ℕ) (ks : List UInt8) (i : ℕ) :
    (xorAt l off ks)[i]? =
      l[i]?.map fun x => if i < off then x else x ^^^ ks.getD (i - off) 0 := by
  simp [xorAt]

theorem xor_right_comm (x a b : UInt8) : x ^^^ a ^^^ b = x ^^^ b ^^^ a := by
  rw [UInt8.xor_assoc, UInt8.xor_comm a b, ← UInt8.xor_assoc]

/-- **Stream encryption is its own inverse.** -/
@[simp] theorem xorAt_xorAt (l : List UInt8) (off : ℕ) (ks : List UInt8) :
    xorAt (xorAt l off ks) off ks = l := by
  apply List.ext_getElem?
  intro i
  rw [getElem?_xorAt, getElem?_xorAt, Option.map_map]
  cases hi : l[i]? with
  | none => rfl
  | some x =>
    by_cases h : i < off
    · simp [h]
    · simp [h]

/-- Layers of key stream come off in any order. -/
theorem xorAt_comm (l : List UInt8) (off off' : ℕ) (ks ks' : List UInt8) :
    xorAt (xorAt l off ks) off' ks' = xorAt (xorAt l off' ks') off ks := by
  apply List.ext_getElem?
  intro i
  simp only [getElem?_xorAt, Option.map_map]
  congr 1
  funext x
  simp only [Function.comp]
  split <;> split
  · rfl
  · rfl
  · rfl
  · exact xor_right_comm x _ _

/-- XOR inside a window is the same XOR of the window. -/
theorem slice_xorAt_inside {a n off : ℕ} (l ks : List UInt8) (h : a ≤ off) :
    slice a n (xorAt l off ks) = xorAt (slice a n l) (off - a) ks := by
  apply List.ext_getElem?
  intro i
  simp only [getElem?_slice, getElem?_xorAt]
  by_cases hi : i < n
  · rw [if_pos hi, if_pos hi]
    have h1 : (a + i < off) ↔ (i < off - a) := by omega
    have h2 : a + i - off = i - (off - a) := by omega
    simp only [h1, h2]
  · rw [if_neg hi, if_neg hi, Option.map_none]

/-- The frame of an XOR. -/
theorem slice_xorAt_of_disjoint {l : List UInt8} {off : ℕ} {ks : List UInt8} {a n : ℕ}
    (h : a + n ≤ off ∨ off + ks.length ≤ a) : slice a n (xorAt l off ks) = slice a n l := by
  apply List.ext_getElem?
  intro i
  simp only [getElem?_slice, getElem?_xorAt]
  by_cases hi : i < n
  · rw [if_pos hi, if_pos hi]
    rcases h with h | h
    · simp only [if_pos (show a + i < off by omega), Option.map_id']
    · have hnone : ks[a + i - off]? = none := List.getElem?_eq_none (by omega)
      simp [hnone]
  · rw [if_neg hi, if_neg hi]

/-- An XOR below a cut leaves the tail alone. -/
theorem drop_xorAt_of_le {l : List UInt8} {off : ℕ} {ks : List UInt8} {m : ℕ}
    (h : off + ks.length ≤ m) : (xorAt l off ks).drop m = l.drop m := by
  rw [drop_eq_slice, drop_eq_slice, length_xorAt, slice_xorAt_of_disjoint (Or.inr h)]

/-- An XOR above a cut sees only the tail. -/
theorem drop_xorAt_congr {l l' : List UInt8} {off : ℕ} {ks : List UInt8} {m : ℕ}
    (h : l.drop m = l'.drop m) (hlen : l.length = l'.length) (hm : m ≤ off) :
    (xorAt l off ks).drop m = (xorAt l' off ks).drop m := by
  rw [drop_eq_slice, drop_eq_slice, slice_xorAt_inside _ _ hm, slice_xorAt_inside _ _ hm,
    length_xorAt, length_xorAt, hlen, slice_of_drop_eq h le_rfl]

/-! ## Fixed-width arrays -/

/-- An array of `n` bytes: the width is part of the type. -/
abbrev Bytes (n : ℕ) := List.Vector UInt8 n

namespace Bytes

variable {n : ℕ}

/-- The array of `n` zero bytes. -/
def zero (n : ℕ) : Bytes n := List.Vector.replicate n 0

/-- The window of `k` bytes at `off`, which must lie inside the array. -/
def window (b : Bytes n) (off k : ℕ) (h : off + k ≤ n) : Bytes k :=
  ⟨slice off k b.toList, length_slice_of_le (by rw [b.toList_length]; exact h)⟩

/-- The byte at index `i`. -/
def byte (b : Bytes n) (i : ℕ) (h : i < n) : UInt8 := b.get ⟨i, h⟩

/-- Overwrite the array in place. -/
def put (b : Bytes n) (off : ℕ) (src : List UInt8) : Bytes n :=
  ⟨writeAt b.toList off src, by rw [length_writeAt, b.toList_length]⟩

/-- XOR a key stream into the array in place. -/
def xor (b : Bytes n) (off : ℕ) (ks : List UInt8) : Bytes n :=
  ⟨xorAt b.toList off ks, by rw [length_xorAt, b.toList_length]⟩

/-- Copy the window `[s, e)` to offset `d` in place. -/
def move (b : Bytes n) (s e d : ℕ) : Bytes n :=
  ⟨copyWithin b.toList s e d, by rw [length_copyWithin, b.toList_length]⟩

@[simp] theorem toList_window (b : Bytes n) (off k : ℕ) (h : off + k ≤ n) :
    (b.window off k h).toList = slice off k b.toList :=
  List.Vector.toList_mk _ _

@[simp] theorem toList_put (b : Bytes n) (off : ℕ) (src : List UInt8) :
    (b.put off src).toList = writeAt b.toList off src :=
  List.Vector.toList_mk _ _

@[simp] theorem toList_xor (b : Bytes n) (off : ℕ) (ks : List UInt8) :
    (b.xor off ks).toList = xorAt b.toList off ks :=
  List.Vector.toList_mk _ _

@[simp] theorem toList_move (b : Bytes n) (s e d : ℕ) :
    (b.move s e d).toList = copyWithin b.toList s e d :=
  List.Vector.toList_mk _ _

/-- Two arrays with the same bytes are the same array. -/
theorem getElem?_toList (b : Bytes n) {i : ℕ} (h : i < n) :
    b.toList[i]? = some (b.byte i h) := by
  rw [byte, List.Vector.get_eq_get_toList, List.getElem?_eq_getElem (by simpa using h)]
  rfl

/-- Reading a byte that was just written. -/
theorem byte_put_of_mem (b : Bytes n) (off : ℕ) {src : List UInt8} {i : ℕ} (h : i < n)
    (hoff : off ≤ i) (hsrc : i < off + src.length) :
    (b.put off src).byte i h = src.get ⟨i - off, by omega⟩ := by
  have hget := getElem?_toList (b.put off src) h
  rw [toList_put, getElem?_writeAt, getElem?_toList b h, Option.map_some,
    if_neg (Nat.not_lt.mpr hoff), List.getD_eq_getElem _ _ (by omega), Option.some.injEq] at hget
  exact hget.symm

/-- Reading a byte outside what was just written. -/
theorem byte_put_of_not_mem (b : Bytes n) (off : ℕ) {src : List UInt8} {i : ℕ} (h : i < n)
    (hout : i < off ∨ off + src.length ≤ i) : (b.put off src).byte i h = b.byte i h := by
  have hget := getElem?_toList (b.put off src) h
  rw [toList_put, getElem?_writeAt, getElem?_toList b h, Option.map_some, Option.some.injEq] at hget
  rw [← hget]
  split_ifs with hlt
  · rfl
  · rw [List.getD_eq_default _ _ (by omega)]

theorem ext_toList {b c : Bytes n} (h : b.toList = c.toList) : b = c :=
  Subtype.ext h

end Bytes

/-! ## Little-endian numbers -/

/-- The `k` low bytes of a number, least significant first. -/
def leBytes : ℕ → ℕ → List UInt8
  | 0, _ => []
  | k + 1, n => UInt8.ofNat (n % 256) :: leBytes k (n / 256)

/-- The number a little-endian byte string stands for. -/
def leValue : List UInt8 → ℕ
  | [] => 0
  | b :: bs => b.toNat + 256 * leValue bs

@[simp] theorem length_leBytes (k n : ℕ) : (leBytes k n).length = k := by
  induction k generalizing n with
  | zero => rfl
  | succ k ih => rw [leBytes, List.length_cons, ih]

/-- **A little-endian number survives the wire**, up to its width. -/
theorem leValue_leBytes (k n : ℕ) : leValue (leBytes k n) = n % 256 ^ k := by
  induction k generalizing n with
  | zero => rw [pow_zero, Nat.mod_one]; rfl
  | succ k ih =>
    have hb : (UInt8.ofNat (n % 256)).toNat = n % 256 := by
      rw [UInt8.toNat_ofNat']
      exact Nat.mod_mod _ _
    rw [leBytes, leValue, ih, hb, pow_succ', Nat.mod_mul]

/-- **Bytes are those of the number they stand for.** -/
theorem leBytes_leValue (l : List UInt8) : leBytes l.length (leValue l) = l := by
  induction l with
  | nil => rfl
  | cons b l ih =>
    have hb := b.toNat_lt
    have hlow : (b.toNat + 256 * leValue l) % 256 = b.toNat := by omega
    have hhigh : (b.toNat + 256 * leValue l) / 256 = leValue l := by omega
    rw [List.length_cons, leValue, leBytes, hlow, hhigh, ih, UInt8.ofNat_toNat]

end Buffer
