import Aegis.Lib.Utf8
import Aegis.Relay.PeerHealth
import Aegis.Topology.Shamir

/-!
# Shares as text (`shamir.rs`)

A share is written as 66 hexadecimal digits.  The decoder checks the length in bytes, cuts the text
at every second byte and leaves the two characters to a general integer parser.  The parser takes a
leading plus sign, and a cut inside a character panics: `none`.

* `hexDecode_eq` — what the loop over the pairs returns.
* `decodesExactly_iff` — **on which texts the decoder is exact.**
-/

namespace Aegis

open Buffer Utf8

namespace Shamir

/-! ## The integer parser of the language -/

/-- `char::to_digit(16)`. -/
def toDigit16 (c : Char) : Option ℕ :=
  if '0' ≤ c ∧ c ≤ '9' then some (c.toNat - '0'.toNat)
  else if 'a' ≤ c ∧ c ≤ 'f' then some (c.toNat - 'a'.toNat + 10)
  else if 'A' ≤ c ∧ c ≤ 'F' then some (c.toNat - 'A'.toNat + 10)
  else none

/-- One digit of `u8::from_str_radix(_, 16)`. -/
def radixStep (acc : UInt8) (c : Char) : Except String UInt8 :=
  match toDigit16 c with
  | none => .error "invalid digit found in string"
  | some d =>
    if acc.toNat * 16 + d < 256 then .ok (UInt8.ofNat (acc.toNat * 16 + d))
    else .error "number too large to fit in target type"

/-- `u8::from_str_radix(_, 16)`: at most one plus sign, and at least one digit. -/
def u8FromStrRadix16 : List Char → Except String UInt8
  | [] => .error "cannot parse integer from empty string"
  | ['+'] => .error "invalid digit found in string"
  | '+' :: digits => digits.foldlM radixStep 0
  | digits => digits.foldlM radixStep 0

/-! ## Encoding and decoding -/

/-- `format!("{:02x}")`. -/
def hexByte (b : UInt8) : List Char := [hexChar (b.toNat / 16), hexChar (b.toNat % 16)]

/-- A share in hexadecimal, the argument first. -/
def encodeShareHex (share : SeedShare) : List Char :=
  hexByte share.x ++ share.y.toList.flatMap hexByte

/-- The loop of `hex_decode`, over the indices. -/
def hexDecodeLoop (hex : List Char) : List ℕ → Option (Except String (List UInt8))
  | [] => some (.ok [])
  | i :: indices =>
    match strRange i (i + 2) hex with
    | none => none
    | some pair =>
      match u8FromStrRadix16 pair with
      | .error e => some (.error e)
      | .ok b => (hexDecodeLoop hex indices).map fun r => r.map fun bytes => b :: bytes

/-- `hex_decode`; `none` where it panics. -/
def hexDecode (hex : List Char) : Option (Except String (List UInt8)) :=
  if len hex % 2 ≠ 0 then some (.error "odd hex length")
  else hexDecodeLoop hex (List.range' 0 (len hex / 2) 2)

/-- `decode_share_hex`; `none` where it panics. -/
def decodeShareHex (hex : List Char) : Option (Except String SeedShare) :=
  let hex := trimLabel hex
  if len hex ≠ 66 then
    some (.error ("share hex must be 66 chars (1-byte x + 32-byte y), got " ++ toString (len hex)))
  else
    match hexDecode hex with
    | none => none
    | some (.error e) => some (.error e)
    | some (.ok bytes) =>
      match bytes[0]? with
      | none => none
      | some x =>
        if x = 0 then some (.error "share x must be in 1..=255")
        else
          match getRange 1 33 bytes with
          | none => none
          | some y => if h : y.length = 32 then some (.ok ⟨x, ⟨y, h⟩⟩) else none

/-! ## What the decoder takes -/

/-- The character is a hexadecimal digit. -/
def isHexDigit (c : Char) : Bool := (toDigit16 c).isSome

/-- A pair that the integer parser takes: two digits, or a plus sign and a digit. -/
def takesPair (a b : Char) : Bool := (isHexDigit a || a == '+') && isHexDigit b

/-- The integer parser takes every pair. -/
def takesPairs : List Char → Bool
  | [] => true
  | [_] => false
  | a :: b :: rest => takesPair a b && takesPairs rest

/-- The first pair that is not taken has a cut inside a character: two bytes on, or behind the first
character. -/
def cutsChar : List Char → Bool
  | [] => false
  | [a] => decide (2 < a.utf8Size)
  | a :: b :: rest =>
    if takesPair a b then cutsChar rest
    else decide (2 < a.utf8Size) || (decide (a.utf8Size = 1) && decide (1 < b.utf8Size))

/-- What a pair stands for. -/
def pairValue (a b : Char) : UInt8 :=
  UInt8.ofNat ((toDigit16 a).getD 0 * 16 + (toDigit16 b).getD 0)

/-- What the pairs stand for. -/
def pairValues : List Char → List UInt8
  | a :: b :: rest => pairValue a b :: pairValues rest
  | _ => []

/-! ## Digits -/

theorem toDigit16_of_not_ascii {c : Char} (h : 128 ≤ c.toNat) : toDigit16 c = none := by
  have hle : ∀ d : Char, d.toNat < 128 → ¬c ≤ d := by
    intro d hd hcd
    have : c.toNat ≤ d.toNat := hcd
    omega
  unfold toDigit16
  rw [if_neg fun hc => hle '9' (by decide) hc.2, if_neg fun hc => hle 'f' (by decide) hc.2,
    if_neg fun hc => hle 'F' (by decide) hc.2]

/-- **What a digit is**: one byte, and the lower-case digit of its value. -/
theorem toDigit16_spec {c : Char} {d : ℕ} (h : toDigit16 c = some d) :
    d < 16 ∧ hexChar d = c.toLower ∧ c.utf8Size = 1 ∧ (d = 0 → c = '0') := by
  have hascii : c.toNat < 128 := by
    by_contra hlarge
    rw [toDigit16_of_not_ascii (not_lt.mp hlarge)] at h
    cases h
  have hall : ∀ n : Fin 128, ∀ d, toDigit16 (Char.ofNat n) = some d →
      d < 16 ∧ hexChar d = (Char.ofNat n).toLower ∧ (Char.ofNat n).utf8Size = 1 ∧
        (d = 0 → Char.ofNat n = '0') := by
    intro n d hd
    have hcases : ∀ n : Fin 128, (toDigit16 (Char.ofNat n)).all fun d =>
        decide (d < 16 ∧ hexChar d = (Char.ofNat n).toLower ∧ (Char.ofNat n).utf8Size = 1 ∧
          (d = 0 → Char.ofNat n = '0')) := by decide +kernel
    have hn := hcases n
    rw [hd] at hn
    exact of_decide_eq_true hn
  have hc := hall ⟨c.toNat, hascii⟩ d
  rw [Char.ofNat_toNat] at hc
  exact hc h

theorem isHexDigit_iff {c : Char} : isHexDigit c = true ↔ ∃ d, toDigit16 c = some d :=
  Option.isSome_iff_exists

theorem toDigit16_plus : toDigit16 '+' = none := by decide

theorem radixStep_of_lt {acc : UInt8} {c : Char} {d : ℕ} (hd : toDigit16 c = some d)
    (hacc : acc.toNat < 16) : radixStep acc c = .ok (UInt8.ofNat (acc.toNat * 16 + d)) := by
  have hlt := (toDigit16_spec hd).1
  unfold radixStep
  rw [hd]
  exact if_pos (by omega)

theorem radixStep_of_none {acc : UInt8} {c : Char} (hc : toDigit16 c = none) :
    radixStep acc c = .error "invalid digit found in string" := by
  unfold radixStep
  rw [hc]

/-- One character alone. -/
theorem u8FromStrRadix16_single {a : Char} (h : toDigit16 a = none) :
    u8FromStrRadix16 [a] = .error "invalid digit found in string" := by
  unfold u8FromStrRadix16
  split
  · contradiction
  · rfl
  · rename_i digits hne heq
    exact absurd (List.cons.inj heq).2.symm hne
  · rw [List.foldlM_cons, radixStep_of_none h]
    rfl

/-- **What the parser makes of a pair.** -/
theorem u8FromStrRadix16_pair (a b : Char) :
    u8FromStrRadix16 [a, b] =
      if takesPair a b then .ok (pairValue a b)
      else .error "invalid digit found in string" := by
  unfold takesPair isHexDigit pairValue
  by_cases hplus : a = '+'
  · subst hplus
    show [b].foldlM radixStep 0 = _
    rw [List.foldlM_cons, toDigit16_plus]
    cases hb : toDigit16 b with
    | none =>
      rw [radixStep_of_none hb]
      rfl
    | some d =>
      rw [radixStep_of_lt hb (by decide)]
      rfl
  · have hdigits : u8FromStrRadix16 [a, b] = [a, b].foldlM radixStep 0 := by
      unfold u8FromStrRadix16
      split
      · contradiction
      · rename_i heq
        exact absurd (List.cons.inj heq).1 hplus
      · rename_i heq
        exact absurd (List.cons.inj heq).1 hplus
      · rfl
    rw [hdigits, List.foldlM_cons]
    cases ha : toDigit16 a with
    | none =>
      rw [radixStep_of_none ha]
      simp [hplus]
      rfl
    | some da =>
      have hlt := (toDigit16_spec ha).1
      have hval : (UInt8.ofNat ((0 : UInt8).toNat * 16 + da)).toNat = da := by
        rw [UInt8.toNat_ofNat']
        show (0 * 16 + da) % 256 = da
        omega
      rw [radixStep_of_lt ha (by decide)]
      show [b].foldlM radixStep _ = _
      rw [List.foldlM_cons]
      cases hb : toDigit16 b with
      | none =>
        rw [radixStep_of_none hb]
        rfl
      | some db =>
        rw [radixStep_of_lt hb (by rw [hval]; exact hlt), hval]
        rfl

/-- Both characters of a pair that is taken are one byte long. -/
theorem utf8Size_of_takesPair {a b : Char} (h : takesPair a b = true) :
    a.utf8Size = 1 ∧ b.utf8Size = 1 := by
  unfold takesPair at h
  obtain ⟨ha, hb⟩ := Bool.and_eq_true_iff.mp h
  obtain ⟨db, hdb⟩ := isHexDigit_iff.mp hb
  refine ⟨?_, (toDigit16_spec hdb).2.2.1⟩
  rcases Bool.or_eq_true_iff.mp ha with hdigit | hplus
  · obtain ⟨da, hda⟩ := isHexDigit_iff.mp hdigit
    exact (toDigit16_spec hda).2.2.1
  · rw [eq_of_beq hplus]
    decide

/-! ## The loop -/

/-- A character of more than one byte is no digit. -/
theorem toDigit16_of_size {c : Char} (h : c.utf8Size ≠ 1) : toDigit16 c = none := by
  cases hc : toDigit16 c with
  | none => rfl
  | some d => exact absurd (toDigit16_spec hc).2.2.1 h

/-- Where the next two bytes are cut off. -/
theorem splitAtByte_two (a : Char) (rest : List Char) :
    splitAtByte 2 (a :: rest) =
      if 2 < a.utf8Size then none
      else if a.utf8Size = 2 then some ([a], rest)
      else (splitAtByte 1 rest).map fun p => (a :: p.1, p.2) := by
  have hpos := a.utf8Size_pos
  by_cases hlong : 2 < a.utf8Size
  · rw [if_pos hlong, splitAtByte_of_lt a rest (by decide) hlong]
  · rw [if_neg hlong, splitAtByte_cons a rest (not_lt.mp hlong)]
    by_cases htwo : a.utf8Size = 2
    · rw [if_pos htwo, htwo, Nat.sub_self, splitAtByte]
      rfl
    · rw [if_neg htwo, show 2 - a.utf8Size = 1 by omega]

theorem splitAtByte_one (b : Char) (rest : List Char) :
    splitAtByte 1 (b :: rest) = if 1 < b.utf8Size then none else some ([b], rest) := by
  have hpos := b.utf8Size_pos
  by_cases hlong : 1 < b.utf8Size
  · rw [if_pos hlong, splitAtByte_of_lt b rest (by decide) hlong]
  · rw [if_neg hlong, splitAtByte_cons b rest (not_lt.mp hlong), show 1 - b.utf8Size = 0 by omega]
    cases rest <;> rfl

/-- What the loop makes of the next two bytes, `none` where they are cut. -/
def readPair (text : List Char) : Option (Except String UInt8) :=
  (splitAtByte 2 text).map fun p => u8FromStrRadix16 p.1

/-- One round of the loop, behind what it has read. -/
theorem hexDecodeLoop_succ (before text : List Char) (k : ℕ) :
    hexDecodeLoop (before ++ text) (List.range' (len before) (k + 1) 2) =
      match readPair text with
      | none => none
      | some (.error e) => some (.error e)
      | some (.ok b) =>
        (hexDecodeLoop (before ++ text) (List.range' (len before + 2) k 2)).map fun r =>
          r.map fun bytes => b :: bytes := by
  rw [List.range'_succ, hexDecodeLoop, strRange_append, readPair]
  cases splitAtByte 2 text with
  | none => rfl
  | some p =>
    simp only [Option.map_some]
    cases u8FromStrRadix16 p.1 <;> rfl

/-- A text of one character, which is of two bytes or is cut. -/
theorem readPair_single {a : Char} (h : 2 ≤ a.utf8Size) :
    readPair [a] =
      if 2 < a.utf8Size then none else some (.error "invalid digit found in string") := by
  unfold readPair
  rw [splitAtByte_two]
  by_cases hlong : 2 < a.utf8Size
  · rw [if_pos hlong, if_pos hlong]
    rfl
  · rw [if_neg hlong, if_neg hlong, if_pos (by omega), Option.map_some,
      u8FromStrRadix16_single (toDigit16_of_size (by omega))]

theorem readPair_of_takes {a b : Char} (h : takesPair a b = true) (rest : List Char) :
    readPair (a :: b :: rest) = some (.ok (pairValue a b)) := by
  obtain ⟨ha, hb⟩ := utf8Size_of_takesPair h
  unfold readPair
  rw [splitAtByte_two, ha, if_neg (by decide), if_neg (by decide), splitAtByte_one, hb,
    if_neg (by decide)]
  simp only [Option.map_some]
  rw [u8FromStrRadix16_pair, if_pos h]

/-- A pair that is not taken is an error, or is cut. -/
theorem readPair_of_not_takes {a b : Char} (h : ¬takesPair a b = true) (rest : List Char) :
    readPair (a :: b :: rest) =
      if cutsChar (a :: b :: rest) then none
      else some (.error "invalid digit found in string") := by
  have hpos := a.utf8Size_pos
  have hpos' := b.utf8Size_pos
  unfold readPair
  rw [splitAtByte_two, cutsChar, if_neg h]
  by_cases hlong : 2 < a.utf8Size
  · simp [hlong]
  by_cases htwo : a.utf8Size = 2
  · rw [if_neg hlong, if_pos htwo, Option.map_some,
      u8FromStrRadix16_single (toDigit16_of_size (by omega))]
    simp [htwo]
  · have hone : a.utf8Size = 1 := by omega
    rw [if_neg hlong, if_neg htwo, splitAtByte_one]
    by_cases hlong' : 1 < b.utf8Size
    · simp [hone, hlong']
    · rw [if_neg hlong']
      simp only [Option.map_some]
      rw [u8FromStrRadix16_pair, if_neg h]
      simp [hone, hlong']

/-- **What the loop over the pairs returns**, behind what it has read. -/
theorem hexDecodeLoop_append (before text : List Char) (k : ℕ) (hlen : len text = 2 * k) :
    hexDecodeLoop (before ++ text) (List.range' (len before) k 2) =
      if cutsChar text then none
      else if takesPairs text then some (.ok (pairValues text))
      else some (.error "invalid digit found in string") := by
  induction text using cutsChar.induct generalizing before k with
  | case1 =>
    obtain rfl : k = 0 := by simpa using hlen.symm
    rfl
  | case2 a =>
    have hpos := a.utf8Size_pos
    rw [len_cons, len_nil] at hlen
    obtain ⟨k, rfl⟩ : ∃ m, k = m + 1 := ⟨k - 1, by omega⟩
    rw [hexDecodeLoop_succ, readPair_single (by omega), cutsChar]
    by_cases hlong : 2 < a.utf8Size
    · simp [hlong]
    · simp [hlong, takesPairs]
  | case3 a b rest htakes ih =>
    obtain ⟨ha, hb⟩ := utf8Size_of_takesPair htakes
    rw [len_cons, len_cons, ha, hb] at hlen
    obtain ⟨k, rfl⟩ : ∃ m, k = m + 1 := ⟨k - 1, by omega⟩
    have hnext := ih (before ++ [a, b]) k (by omega)
    rw [len_append, len_cons, len_cons, len_nil, ha, hb, List.append_assoc] at hnext
    rw [show [a, b] ++ rest = a :: b :: rest from rfl] at hnext
    rw [hexDecodeLoop_succ, readPair_of_takes htakes]
    simp only
    rw [hnext, cutsChar, if_pos htakes, takesPairs, htakes, Bool.true_and, pairValues]
    split_ifs <;> rfl
  | case4 a b rest htakes =>
    have hpos := a.utf8Size_pos
    rw [len_cons, len_cons] at hlen
    obtain ⟨k, rfl⟩ : ∃ m, k = m + 1 := ⟨k - 1, by omega⟩
    have hnot : takesPairs (a :: b :: rest) = false := by
      rw [takesPairs, (Bool.not_eq_true _).mp htakes, Bool.false_and]
    rw [hexDecodeLoop_succ, readPair_of_not_takes htakes, hnot]
    by_cases hcut : cutsChar (a :: b :: rest) = true
    · rw [if_pos hcut, if_pos hcut]
    · rw [if_neg hcut, if_neg hcut]
      rfl

/-- **What `hex_decode` returns** on a text of an even number of bytes. -/
theorem hexDecode_eq {text : List Char} {k : ℕ} (hlen : len text = 2 * k) :
    hexDecode text =
      if cutsChar text then none
      else if takesPairs text then some (.ok (pairValues text))
      else some (.error "invalid digit found in string") := by
  unfold hexDecode
  rw [if_neg (by omega), hlen, Nat.mul_div_cancel_left _ (by decide)]
  exact hexDecodeLoop_append [] text k hlen

/-! ## Texts that are taken -/

theorem takesPairs_spec {text : List Char} (h : takesPairs text = true) :
    len text = 2 * (pairValues text).length ∧ text.length = 2 * (pairValues text).length ∧
      cutsChar text = false := by
  induction text using takesPairs.induct with
  | case1 => exact ⟨rfl, rfl, rfl⟩
  | case2 a => cases h
  | case3 a b rest ih =>
    rw [takesPairs, Bool.and_eq_true] at h
    obtain ⟨hpair, hrest⟩ := h
    obtain ⟨hlen, hlength, hcuts⟩ := ih hrest
    obtain ⟨ha, hb⟩ := utf8Size_of_takesPair hpair
    rw [len_cons, len_cons, ha, hb, hlen, pairValues, List.length_cons, List.length_cons,
      List.length_cons, hlength, cutsChar, if_pos hpair]
    exact ⟨by omega, by omega, hcuts⟩

theorem takesPairs_of_digits {text : List Char} (h : ∀ c ∈ text, isHexDigit c = true) {k : ℕ}
    (hlen : text.length = 2 * k) : takesPairs text = true := by
  induction text using takesPairs.induct generalizing k with
  | case1 => rfl
  | case2 a => simp at hlen; omega
  | case3 a b rest ih =>
    rw [List.length_cons, List.length_cons] at hlen
    have ha := h a List.mem_cons_self
    have hb := h b (List.mem_cons_of_mem a List.mem_cons_self)
    have hrest : takesPairs rest = true :=
      ih (fun c hc => h c (List.mem_cons_of_mem a (List.mem_cons_of_mem b hc)))
        (k := k - 1) (by omega)
    rw [takesPairs, takesPair, ha, hb, hrest]
    rfl

theorem digits_of_takesPairs {text : List Char} (h : takesPairs text = true) (hplus : '+' ∉ text) :
    ∀ c ∈ text, isHexDigit c = true := by
  induction text using takesPairs.induct with
  | case1 => exact fun c hc => absurd hc List.not_mem_nil
  | case2 a => cases h
  | case3 a b rest ih =>
    rw [takesPairs, takesPair, Bool.and_eq_true, Bool.and_eq_true, Bool.or_eq_true] at h
    obtain ⟨⟨ha, hb⟩, hrest⟩ := h
    have ha' : isHexDigit a = true := by
      refine ha.resolve_right fun heq => hplus ?_
      rw [eq_of_beq heq]
      exact List.mem_cons_self
    have hrest' := ih hrest fun hmem =>
      hplus (List.mem_cons_of_mem a (List.mem_cons_of_mem b hmem))
    intro c hc
    rcases List.mem_cons.mp hc with rfl | hc
    · exact ha'
    rcases List.mem_cons.mp hc with rfl | hc
    · exact hb
    · exact hrest' c hc

/-- **Digits are written back in lower case.** -/
theorem flatMap_hexByte_pairValues {text : List Char} (h : ∀ c ∈ text, isHexDigit c = true) {k : ℕ}
    (hlen : text.length = 2 * k) :
    (pairValues text).flatMap hexByte = text.map Char.toLower := by
  induction text using takesPairs.induct generalizing k with
  | case1 => rfl
  | case2 a => simp at hlen; omega
  | case3 a b rest ih =>
    rw [List.length_cons, List.length_cons] at hlen
    obtain ⟨da, hda⟩ := isHexDigit_iff.mp (h a List.mem_cons_self)
    obtain ⟨db, hdb⟩ := isHexDigit_iff.mp (h b (List.mem_cons_of_mem a List.mem_cons_self))
    obtain ⟨hlta, hchara, -⟩ := toDigit16_spec hda
    obtain ⟨hltb, hcharb, -⟩ := toDigit16_spec hdb
    have hrest := ih (fun c hc => h c (List.mem_cons_of_mem a (List.mem_cons_of_mem b hc)))
      (k := k - 1) (by omega)
    have hvalue : (pairValue a b).toNat = da * 16 + db := by
      rw [pairValue, hda, hdb, UInt8.toNat_ofNat']
      exact Nat.mod_eq_of_lt (by simp only [Option.getD_some]; omega)
    rw [pairValues, List.flatMap_cons, hrest, hexByte, hvalue,
      show (da * 16 + db) / 16 = da by omega, show (da * 16 + db) % 16 = db by omega, hchara,
      hcharb]
    rfl

/-- The pairs that stand for zero. -/
theorem pairValue_eq_zero_iff {a b : Char} (h : takesPair a b = true) :
    pairValue a b = 0 ↔ [a, b] = ['0', '0'] ∨ [a, b] = ['+', '0'] := by
  constructor
  · intro hzero
    unfold takesPair at h
    obtain ⟨ha, hb⟩ := Bool.and_eq_true_iff.mp h
    obtain ⟨db, hdb⟩ := isHexDigit_iff.mp hb
    obtain ⟨hltb, -, -, hzerob⟩ := toDigit16_spec hdb
    have hnat := congrArg UInt8.toNat hzero
    rw [pairValue, hdb, UInt8.toNat_ofNat'] at hnat
    change ((toDigit16 a).getD 0 * 16 + db) % 256 = 0 at hnat
    rcases Bool.or_eq_true_iff.mp ha with hdigit | hplus
    · obtain ⟨da, hda⟩ := isHexDigit_iff.mp hdigit
      obtain ⟨hlta, -, -, hzeroa⟩ := toDigit16_spec hda
      rw [hda, Option.getD_some] at hnat
      rw [hzeroa (by omega), hzerob (by omega)]
      exact Or.inl rfl
    · obtain rfl := eq_of_beq hplus
      rw [toDigit16_plus, Option.getD_none] at hnat
      rw [hzerob (by omega)]
      exact Or.inr rfl
  · rintro (heq | heq)
    · obtain ⟨rfl, hb⟩ := List.cons.inj heq
      obtain ⟨rfl, -⟩ := List.cons.inj hb
      decide
    · obtain ⟨rfl, hb⟩ := List.cons.inj heq
      obtain ⟨rfl, -⟩ := List.cons.inj hb
      decide

/-! ## When the decoder is exact -/

/-- 66 hexadecimal digits, whose first byte is not zero. -/
def IsShareText (text : List Char) : Prop :=
  text.length = 66 ∧ (∀ c ∈ text, isHexDigit c = true) ∧ text.take 2 ≠ ['0', '0']

/-- The decoder takes the text exactly if it is 66 digits and its first byte is not zero; what it
takes is written back in lower case; and for every other text it returns an error. -/
def DecodesExactly (hex : List Char) : Prop :=
  ((∃ share, decodeShareHex hex = some (.ok share)) ↔ IsShareText (trimLabel hex)) ∧
    (∀ share, decodeShareHex hex = some (.ok share) →
      encodeShareHex share = (trimLabel hex).map Char.toLower) ∧
    (¬IsShareText (trimLabel hex) → ∃ e, decodeShareHex hex = some (.error e))

/-- 33 pairs that the integer parser takes, some with a plus sign, the first of which is not zero. -/
def HasSign (text : List Char) : Prop :=
  text.length = 66 ∧ takesPairs text = true ∧ '+' ∈ text ∧ text.take 2 ≠ ['0', '0'] ∧
    text.take 2 ≠ ['+', '0']

/-- 66 bytes, and behind pairs that the integer parser takes a cut inside a character. -/
def HasCut (text : List Char) : Prop := len text = 66 ∧ cutsChar text = true

theorem IsShareText.takesPairs {text : List Char} (h : IsShareText text) :
    takesPairs text = true := takesPairs_of_digits h.2.1 (k := 33) h.1

theorem IsShareText.len_eq {text : List Char} (h : IsShareText text) : len text = 66 := by
  obtain ⟨hlen, hlength, -⟩ := takesPairs_spec h.takesPairs
  rw [hlen, ← hlength, h.1]

theorem decodeShareHex_of_hasCut {hex : List Char} (h : HasCut (trimLabel hex)) :
    decodeShareHex hex = none := by
  unfold decodeShareHex
  simp only
  rw [if_neg (not_not.mpr h.1), hexDecode_eq (k := 33) h.1, if_pos h.2]

theorem decodeShareHex_of_not_taken {hex : List Char} (hcut : ¬HasCut (trimLabel hex))
    (h : ¬(len (trimLabel hex) = 66 ∧ takesPairs (trimLabel hex) = true)) :
    ∃ e, decodeShareHex hex = some (.error e) := by
  unfold decodeShareHex
  simp only
  by_cases hlen : len (trimLabel hex) = 66
  · rw [if_neg (not_not.mpr hlen), hexDecode_eq (k := 33) hlen, if_neg fun hc => hcut ⟨hlen, hc⟩,
      if_neg fun ht => h ⟨hlen, ht⟩]
    exact ⟨_, rfl⟩
  · rw [if_pos hlen]
    exact ⟨_, rfl⟩

/-- **What is decoded** of pairs that the integer parser takes. -/
theorem decodeShareHex_of_taken {hex : List Char} (hlen : len (trimLabel hex) = 66)
    (htakes : takesPairs (trimLabel hex) = true) :
    ∃ a b rest share, trimLabel hex = a :: b :: rest ∧ takesPair a b = true ∧
      share.x = pairValue a b ∧ share.y.toList = pairValues rest ∧
      decodeShareHex hex =
        if share.x = 0 then some (.error "share x must be in 1..=255") else some (.ok share) := by
  obtain ⟨hlen', -, hcut⟩ := takesPairs_spec htakes
  have hdecode : hexDecode (trimLabel hex) = some (.ok (pairValues (trimLabel hex))) := by
    rw [hexDecode_eq (k := 33) hlen, hcut, htakes]
    rfl
  unfold decodeShareHex
  simp only
  rw [if_neg (not_not.mpr hlen), hdecode]
  generalize trimLabel hex = text at *
  match text with
  | [] => cases hlen
  | [a] => cases htakes
  | a :: b :: rest =>
    rw [takesPairs, Bool.and_eq_true] at htakes
    have hrest : (pairValues rest).length = 32 := by
      rw [hlen, pairValues, List.length_cons] at hlen'
      omega
    refine ⟨a, b, rest, ⟨pairValue a b, ⟨pairValues rest, hrest⟩⟩, rfl, htakes.1, rfl, rfl, ?_⟩
    have hrange : getRange 1 33 (pairValue a b :: pairValues rest) = some (pairValues rest) := by
      rw [getRange_eq_some (by decide) (by rw [List.length_cons, hrest])]
      exact congrArg some (slice_zero_of_length hrest)
    rw [pairValues]
    simp only [List.getElem?_cons_zero, hrange, dif_pos hrest]

/-! ## Exact answers -/

section Exact

variable {hex : List Char}

/-- An error is exact for a text that is no share. -/
theorem DecodesExactly.of_error {e : String} (hdecode : decodeShareHex hex = some (.error e))
    (hnot : ¬IsShareText (trimLabel hex)) : DecodesExactly hex := by
  refine ⟨iff_of_false ?_ hnot, ?_, fun _ => ⟨e, hdecode⟩⟩
  · rintro ⟨share, hsome⟩
    rw [hdecode] at hsome
    cases Option.some.inj hsome
  · intro share hsome
    rw [hdecode] at hsome
    cases Option.some.inj hsome

/-- A share is exact for its text. -/
theorem DecodesExactly.of_ok {share : SeedShare} (hdecode : decodeShareHex hex = some (.ok share))
    (hshare : IsShareText (trimLabel hex))
    (hback : encodeShareHex share = (trimLabel hex).map Char.toLower) : DecodesExactly hex := by
  refine ⟨iff_of_true ⟨share, hdecode⟩ hshare, ?_, fun hnot => absurd hshare hnot⟩
  intro share' hsome
  obtain rfl := Except.ok.inj (Option.some.inj (hdecode.symm.trans hsome))
  exact hback

/-- An exact decoder does not panic. -/
theorem DecodesExactly.ne_none (h : DecodesExactly hex) : decodeShareHex hex ≠ none := by
  obtain ⟨hok, -, herror⟩ := h
  intro hnone
  by_cases hshare : IsShareText (trimLabel hex)
  · obtain ⟨share, hsome⟩ := hok.mpr hshare
    rw [hnone] at hsome
    cases hsome
  · obtain ⟨e, hsome⟩ := herror hshare
    rw [hnone] at hsome
    cases hsome

/-- A plus sign is no digit. -/
theorem IsShareText.not_mem_plus {text : List Char} (h : IsShareText text) : '+' ∉ text :=
  fun hmem => absurd (h.2.1 '+' hmem) (by decide)

/-- **What pairs that the integer parser takes decode to**, by their first two characters. -/
theorem decodeShareHex_cases (hlen : len (trimLabel hex) = 66)
    (htakes : takesPairs (trimLabel hex) = true) :
    (((trimLabel hex).take 2 = ['0', '0'] ∨ (trimLabel hex).take 2 = ['+', '0']) ∧
      decodeShareHex hex = some (.error "share x must be in 1..=255")) ∨
    ((trimLabel hex).take 2 ≠ ['0', '0'] ∧ (trimLabel hex).take 2 ≠ ['+', '0'] ∧
      ∃ share, decodeShareHex hex = some (.ok share) ∧
        encodeShareHex share = (pairValues (trimLabel hex)).flatMap hexByte) := by
  obtain ⟨a, b, rest, share, htext, hpair, hx, hy, hdecode⟩ := decodeShareHex_of_taken hlen htakes
  have htake : (trimLabel hex).take 2 = [a, b] := by rw [htext]; rfl
  have hzero : share.x = 0 ↔ (trimLabel hex).take 2 = ['0', '0'] ∨
      (trimLabel hex).take 2 = ['+', '0'] := by
    rw [hx, htake]
    exact pairValue_eq_zero_iff hpair
  by_cases hx0 : share.x = 0
  · rw [if_pos hx0] at hdecode
    exact Or.inl ⟨hzero.mp hx0, hdecode⟩
  · rw [if_neg hx0] at hdecode
    rw [hzero, not_or] at hx0
    refine Or.inr ⟨hx0.1, hx0.2, share, hdecode, ?_⟩
    rw [htext, pairValues, List.flatMap_cons, encodeShareHex, hx, hy]

theorem decodesExactly_of_taken (hlen : len (trimLabel hex) = 66)
    (htakes : takesPairs (trimLabel hex) = true) (hsign : ¬HasSign (trimLabel hex)) :
    DecodesExactly hex := by
  obtain ⟨hlen', hlength, -⟩ := takesPairs_spec htakes
  have hsixtySix : (trimLabel hex).length = 66 := by rw [hlength, ← hlen', hlen]
  rcases decodeShareHex_cases hlen htakes with
    ⟨hzero, hdecode⟩ | ⟨hzero, hplusZero, share, hdecode, hencode⟩
  · -- a zero index is refused, however it is written
    refine .of_error hdecode fun hshare => ?_
    refine hshare.not_mem_plus (List.mem_of_mem_take (i := 2) ?_)
    rw [hzero.resolve_left hshare.2.2]
    exact List.mem_cons_self
  · have hplus : '+' ∉ trimLabel hex := fun hmem =>
      hsign ⟨hsixtySix, htakes, hmem, hzero, hplusZero⟩
    have hdigits := digits_of_takesPairs htakes hplus
    refine .of_ok hdecode ⟨hsixtySix, hdigits, hzero⟩ ?_
    rw [hencode]
    exact flatMap_hexByte_pairValues hdigits (k := 33) hsixtySix

/-- A sign that is taken for a digit makes a share of a text that is none. -/
theorem DecodesExactly.not_hasSign (h : DecodesExactly hex) : ¬HasSign (trimLabel hex) := by
  rintro ⟨hlength, htakes, hplus, hzero, hplusZero⟩
  obtain ⟨hlen, hlength', -⟩ := takesPairs_spec htakes
  rcases decodeShareHex_cases (by rw [hlen, ← hlength', hlength]) htakes with
    ⟨hzero', -⟩ | ⟨-, -, share, hdecode, -⟩
  · exact hzero'.elim hzero hplusZero
  · exact (h.1.mp ⟨share, hdecode⟩).not_mem_plus hplus

end Exact

/-- **On which texts the decoder is exact**: on all but those in which a sign is taken for a digit,
and those that are cut inside a character. -/
theorem decodesExactly_iff (hex : List Char) :
    DecodesExactly hex ↔ ¬HasSign (trimLabel hex) ∧ ¬HasCut (trimLabel hex) := by
  constructor
  · intro h
    exact ⟨h.not_hasSign, fun hcut => h.ne_none (decodeShareHex_of_hasCut hcut)⟩
  · rintro ⟨hsign, hcut⟩
    by_cases htaken : len (trimLabel hex) = 66 ∧ takesPairs (trimLabel hex) = true
    · exact decodesExactly_of_taken htaken.1 htaken.2 hsign
    · obtain ⟨e, he⟩ := decodeShareHex_of_not_taken hcut htaken
      exact .of_error he fun hshare => htaken ⟨hshare.len_eq, hshare.takesPairs⟩

/-- A share with a plus sign is taken, and the decoder panics on a text of 66 bytes that starts with
a character of three. -/
theorem not_decodesExactly :
    decodeShareHex ('+' :: '1' :: List.replicate 64 '0') = some (.ok ⟨1, Bytes.zero 32⟩) ∧
      ¬IsShareText (trimLabel ('+' :: '1' :: List.replicate 64 '0')) ∧
      decodeShareHex ('€' :: List.replicate 63 'a') = none := by
  refine ⟨by decide +kernel, ?_, by decide +kernel⟩
  rintro ⟨-, hdigits, -⟩
  exact absurd (hdigits '+' (by decide +kernel)) (by decide)

end Shamir

end Aegis
