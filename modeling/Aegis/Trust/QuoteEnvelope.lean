import Aegis.Lib.Buffer

/-!
# The hardware quote envelope (`tee.rs`)

A hardware quote travels with its report data in an envelope: a magic, a version, the platform,
two lengths of four bytes each, and the two byte strings.  The parser checks lengths that an attacker
chooses, and slices by them.  Where an index or a slice is out of range it would panic: `none`.

* `encode_eq_ok_iff`, `parse_layout` — both sides, by the layout.
* `envelope_bijection` — **the envelopes that are accepted are exactly those that are encoded.**
-/

namespace Aegis

open Buffer

/-- The platforms a quote may be of. -/
inductive TeePlatform where
  | intelDcap
  | amdSevSnp
  deriving DecidableEq, Repr

namespace TeePlatform

/-- The platform of a tag. -/
def fromEnvelopeTag (tag : UInt8) : Option TeePlatform :=
  match tag with
  | 0 => some .intelDcap
  | 1 => some .amdSevSnp
  | _ => none

/-- The tag of a platform. -/
def envelopeTag : TeePlatform → UInt8
  | intelDcap => 0
  | amdSevSnp => 1

@[simp] theorem fromEnvelopeTag_envelopeTag (p : TeePlatform) :
    fromEnvelopeTag p.envelopeTag = some p := by
  cases p <;> rfl

theorem envelopeTag_of_fromEnvelopeTag {tag : UInt8} {p : TeePlatform}
    (h : fromEnvelopeTag tag = some p) : tag = p.envelopeTag := by
  unfold fromEnvelopeTag at h
  split at h
  · obtain rfl := Option.some.inj h
    rfl
  · obtain rfl := Option.some.inj h
    rfl
  · cases h

end TeePlatform

/-- What an envelope is refused for. -/
inductive AttestationError where
  | envelopeError (message : String)
  deriving DecidableEq, Repr

/-- A quote, and the data it reports. -/
structure HardwareQuoteEnvelope where
  platform : TeePlatform
  reportData : List UInt8
  quoteBlob : List UInt8
  deriving DecidableEq, Repr

namespace HardwareQuoteEnvelope

/-- `ATQ1`. -/
def hardwareQuoteEnvelopeMagic : List UInt8 := [0x41, 0x54, 0x51, 0x31]

/-- The version of the envelopes that are made. -/
def hardwareQuoteEnvelopeVersion : UInt8 := 1

/-- The longest report data. -/
def hardwareQuoteEnvelopeMaxReportData : ℕ := 65536

/-- The longest quote. -/
def hardwareQuoteEnvelopeMaxQuoteBlob : ℕ := 1048576

/-- The magic, the version, the platform and two lengths. -/
def headerLen : ℕ := 4 + 1 + 1 + 4 + 4

/-- `u32::try_from`. -/
def u32TryFrom (n : ℕ) : Option ℕ := if n < 2 ^ 32 then some n else none

/-- `usize::checked_add`. -/
def checkedAdd (a b : ℕ) : Option ℕ := if a + b < 2 ^ 64 then some (a + b) else none

/-- The envelope of a quote, unless a part of it is too long. -/
def encodeHardwareQuoteEnvelope (platform : TeePlatform) (reportData quoteBlob : List UInt8) :
    Except AttestationError (List UInt8) :=
  match u32TryFrom reportData.length with
  | none => .error (.envelopeError "report_data too long")
  | some reportLen =>
    match u32TryFrom quoteBlob.length with
    | none => .error (.envelopeError "quote_blob too long")
    | some quoteLen =>
      if hardwareQuoteEnvelopeMaxReportData < reportLen then
        .error (.envelopeError "report_data exceeds envelope limit")
      else if hardwareQuoteEnvelopeMaxQuoteBlob < quoteLen then
        .error (.envelopeError "quote_blob exceeds envelope limit")
      else
        .ok (hardwareQuoteEnvelopeMagic ++ [hardwareQuoteEnvelopeVersion] ++
          [platform.envelopeTag] ++ leBytes 4 reportLen ++ leBytes 4 quoteLen ++ reportData ++
          quoteBlob)

/-- The end of `parse_hardware_quote_envelope`, from the lengths on. -/
def parseBody (bytes : List UInt8) (platform : TeePlatform) (reportLen quoteLen : ℕ) :
    Option (Except AttestationError HardwareQuoteEnvelope) :=
  if hardwareQuoteEnvelopeMaxReportData < reportLen then
    some (.error (.envelopeError "report_data length exceeds limit"))
  else if hardwareQuoteEnvelopeMaxQuoteBlob < quoteLen then
    some (.error (.envelopeError "quote_blob length exceeds limit"))
  else
    match checkedAdd headerLen reportLen with
    | none => some (.error (.envelopeError "report_data length overflow"))
    | some reportEnd =>
      match checkedAdd reportEnd quoteLen with
      | none => some (.error (.envelopeError "quote_blob length overflow"))
      | some total =>
        if bytes.length ≠ total then
          some (.error (.envelopeError ("length mismatch: header declares " ++ toString total ++
            " bytes, got " ++ toString bytes.length)))
        else
          match getRange headerLen reportEnd bytes, getRange reportEnd total bytes with
          | some reportData, some quoteBlob => some (.ok ⟨platform, reportData, quoteBlob⟩)
          | _, _ => none

/-- `parse_hardware_quote_envelope`; `none` where it panics. -/
def parseHardwareQuoteEnvelope (bytes : List UInt8) :
    Option (Except AttestationError HardwareQuoteEnvelope) :=
  if bytes.length < headerLen then some (.error (.envelopeError "truncated header"))
  else if getRange 0 4 bytes ≠ some hardwareQuoteEnvelopeMagic then
    some (.error (.envelopeError "bad magic"))
  else
    match bytes[4]? with
    | none => none
    | some version =>
      if version ≠ hardwareQuoteEnvelopeVersion then
        some (.error (.envelopeError "unsupported version"))
      else
        match bytes[5]? with
        | none => none
        | some tag =>
          match TeePlatform.fromEnvelopeTag tag with
          | none => some (.error (.envelopeError "unknown platform tag"))
          | some platform =>
            match getRange 6 10 bytes, getRange 10 14 bytes with
            | some reportLen, some quoteLen =>
              parseBody bytes platform (leValue reportLen) (leValue quoteLen)
            | _, _ => none

/-! ## The layout -/

/-- The bytes of an envelope. -/
def layout (e : HardwareQuoteEnvelope) : List UInt8 :=
  hardwareQuoteEnvelopeMagic ++ [hardwareQuoteEnvelopeVersion, e.platform.envelopeTag] ++
    leBytes 4 e.reportData.length ++ leBytes 4 e.quoteBlob.length ++ e.reportData ++ e.quoteBlob

/-- The limits of an envelope. -/
def WithinLimits (e : HardwareQuoteEnvelope) : Prop :=
  e.reportData.length ≤ hardwareQuoteEnvelopeMaxReportData ∧
    e.quoteBlob.length ≤ hardwareQuoteEnvelopeMaxQuoteBlob

theorem encode_eq_ok_iff {e : HardwareQuoteEnvelope} {b : List UInt8} :
    encodeHardwareQuoteEnvelope e.platform e.reportData e.quoteBlob = .ok b ↔
      e.WithinLimits ∧ b = e.layout := by
  unfold encodeHardwareQuoteEnvelope u32TryFrom WithinLimits
  have hreport : hardwareQuoteEnvelopeMaxReportData < 2 ^ 32 := by decide
  have hquote : hardwareQuoteEnvelopeMaxQuoteBlob < 2 ^ 32 := by decide
  by_cases hr : e.reportData.length ≤ hardwareQuoteEnvelopeMaxReportData
  · by_cases hq : e.quoteBlob.length ≤ hardwareQuoteEnvelopeMaxQuoteBlob
    · rw [if_pos (hr.trans_lt hreport), if_pos (hq.trans_lt hquote)]
      simp only [if_neg (not_lt.mpr hr), if_neg (not_lt.mpr hq)]
      unfold layout
      simp [hr, hq, eq_comm]
    · refine iff_of_false ?_ fun h => hq h.1.2
      rw [if_pos (hr.trans_lt hreport)]
      split_ifs with hlt <;> simp [not_lt.mpr hr, not_le.mp hq]
  · refine iff_of_false ?_ fun h => hr h.1.1
    split_ifs with hlt hlt' <;> simp [not_le.mp hr]

/-! ## The header -/

/-- A window is what stands in it. -/
theorem slice_middle {before middle after : List UInt8} {off n : ℕ} (hoff : before.length = off)
    (hn : middle.length = n) : slice off n (before ++ middle ++ after) = middle := by
  rw [List.append_assoc, slice_append_right hoff.le, hoff, Nat.sub_self,
    slice_append_left (by omega), slice_zero_of_length hn]

/-- A byte string with a whole header. -/
theorem exists_header {b : List UInt8} (h : headerLen ≤ b.length) :
    ∃ magic version tag reportLen quoteLen rest, b = magic ++ [version, tag] ++ reportLen ++
      quoteLen ++ rest ∧ magic.length = 4 ∧ reportLen.length = 4 ∧ quoteLen.length = 4 := by
  have hlen : 14 ≤ b.length := h
  refine ⟨slice 0 4 b, b[4], b[5], slice 6 4 b, slice 10 4 b, b.drop 14, ?_,
    length_slice_of_le (by omega), length_slice_of_le (by omega), length_slice_of_le (by omega)⟩
  have hfour : [b[4], b[5]] = slice 4 2 b := by
    apply List.ext_getElem?
    intro i
    rw [getElem?_slice]
    match i with
    | 0 => simp
    | 1 => simp
    | i + 2 => simp
  rw [hfour, slice_append_slice, slice_append_slice, slice_append_slice, slice, List.drop_zero,
    List.take_append_drop]

/-- **What the parser reads from a whole header.** -/
theorem parse_header {magic reportLen quoteLen : List UInt8} (rest : List UInt8)
    (version tag : UInt8) (hmagic : magic.length = 4) (hreport : reportLen.length = 4)
    (hquote : quoteLen.length = 4) :
    parseHardwareQuoteEnvelope (magic ++ [version, tag] ++ reportLen ++ quoteLen ++ rest) =
      if magic ≠ hardwareQuoteEnvelopeMagic then some (.error (.envelopeError "bad magic"))
      else if version ≠ hardwareQuoteEnvelopeVersion then
        some (.error (.envelopeError "unsupported version"))
      else
        match TeePlatform.fromEnvelopeTag tag with
        | none => some (.error (.envelopeError "unknown platform tag"))
        | some platform =>
          parseBody (magic ++ [version, tag] ++ reportLen ++ quoteLen ++ rest) platform
            (leValue reportLen) (leValue quoteLen) := by
  obtain ⟨b, hb⟩ : ∃ b, magic ++ [version, tag] ++ reportLen ++ quoteLen ++ rest = b := ⟨_, rfl⟩
  have hlen : 14 + rest.length = b.length := by
    rw [← hb]
    simp [hmagic, hreport, hquote]
    omega
  have hrange : ∀ start n l, start + n ≤ 14 → slice start n b = l →
      getRange start (start + n) b = some l := by
    intro start n l hle hslice
    rw [getRange_eq_some (by omega) (by omega), Nat.add_sub_cancel_left, hslice]
  have hzero : slice 0 4 b = magic := by
    rw [← hb, List.append_assoc, List.append_assoc, List.append_assoc]
    exact slice_middle (show ([] : List UInt8).length = 0 from rfl) hmagic
  have hsix : slice 6 4 b = reportLen := by
    rw [← hb, List.append_assoc]
    exact slice_middle (by simp [hmagic]) hreport
  have hten : slice 10 4 b = quoteLen := by
    rw [← hb]
    exact slice_middle (by simp [hmagic, hreport]) hquote
  have hversion : b[4]? = some version := by
    rw [← hb]
    simp [hmagic]
  have htag : b[5]? = some tag := by
    rw [← hb]
    simp [List.getElem?_append, hmagic]
  rw [hb]
  unfold parseHardwareQuoteEnvelope
  rw [if_neg (by rw [← hlen]; unfold headerLen; omega), hrange 0 4 magic (by omega) hzero,
    hversion, htag, hrange 6 4 reportLen (by omega) hsix, hrange 10 4 quoteLen (by omega) hten]
  simp only [ne_eq, Option.some.injEq]

/-! ## The body -/

theorem checkedAdd_of_lt {a b : ℕ} (h : a + b < 2 ^ 64) : checkedAdd a b = some (a + b) := if_pos h

/-- **What the parser makes of the two lengths.**  Within the limits nothing overflows, and the
slices are in range. -/
theorem parseBody_of_le {b : List UInt8} (platform : TeePlatform) {reportLen quoteLen : ℕ}
    (hreport : reportLen ≤ hardwareQuoteEnvelopeMaxReportData)
    (hquote : quoteLen ≤ hardwareQuoteEnvelopeMaxQuoteBlob)
    (hlen : b.length = headerLen + reportLen + quoteLen) :
    parseBody b platform reportLen quoteLen =
      some (.ok ⟨platform, slice headerLen reportLen b,
        slice (headerLen + reportLen) quoteLen b⟩) := by
  have hmaxReport : hardwareQuoteEnvelopeMaxReportData = 65536 := rfl
  have hmaxQuote : hardwareQuoteEnvelopeMaxQuoteBlob = 1048576 := rfl
  have hheader : headerLen = 14 := rfl
  unfold parseBody
  rw [if_neg (not_lt.mpr hreport), if_neg (not_lt.mpr hquote), checkedAdd_of_lt (by omega)]
  simp only
  rw [checkedAdd_of_lt (by omega)]
  simp only
  rw [if_neg (not_not.mpr hlen), getRange_eq_some (by omega) (by omega),
    getRange_eq_some (by omega) (by omega)]
  simp only [Nat.add_sub_cancel_left]

/-- The body never panics, and what it accepts has the length that the header declares. -/
theorem parseBody_cases (b : List UInt8) (platform : TeePlatform) (reportLen quoteLen : ℕ) :
    (reportLen ≤ hardwareQuoteEnvelopeMaxReportData ∧
        quoteLen ≤ hardwareQuoteEnvelopeMaxQuoteBlob ∧
        b.length = headerLen + reportLen + quoteLen) ∨
      ∃ message, parseBody b platform reportLen quoteLen =
        some (.error (.envelopeError message)) := by
  have hmaxReport : hardwareQuoteEnvelopeMaxReportData = 65536 := rfl
  have hmaxQuote : hardwareQuoteEnvelopeMaxQuoteBlob = 1048576 := rfl
  have hheader : headerLen = 14 := rfl
  by_cases hreport : hardwareQuoteEnvelopeMaxReportData < reportLen
  · right
    exact ⟨_, if_pos hreport⟩
  by_cases hquote : hardwareQuoteEnvelopeMaxQuoteBlob < quoteLen
  · right
    unfold parseBody
    rw [if_neg hreport, if_pos hquote]
    exact ⟨_, rfl⟩
  by_cases hlen : b.length = headerLen + reportLen + quoteLen
  · exact Or.inl ⟨not_lt.mp hreport, not_lt.mp hquote, hlen⟩
  · right
    unfold parseBody
    rw [if_neg hreport, if_neg hquote, checkedAdd_of_lt (by omega)]
    simp only
    rw [checkedAdd_of_lt (by omega)]
    simp only
    rw [if_pos hlen]
    exact ⟨_, rfl⟩

/-! ## Both directions -/

/-- **What was encoded is parsed.** -/
theorem parse_layout {e : HardwareQuoteEnvelope} (h : e.WithinLimits) :
    parseHardwareQuoteEnvelope e.layout = some (.ok e) := by
  obtain ⟨hreport, hquote⟩ := h
  have hlen : e.layout.length = headerLen + e.reportData.length + e.quoteBlob.length := by
    simp [layout, hardwareQuoteEnvelopeMagic, headerLen]
    omega
  have hvalue : ∀ n, n < 2 ^ 32 → leValue (leBytes 4 n) = n := by
    intro n hn
    rw [leValue_leBytes]
    exact Nat.mod_eq_of_lt hn
  have hmaxReport : hardwareQuoteEnvelopeMaxReportData < 2 ^ 32 := by decide
  have hmaxQuote : hardwareQuoteEnvelopeMaxQuoteBlob < 2 ^ 32 := by decide
  have hsplit : e.layout = hardwareQuoteEnvelopeMagic ++
      [hardwareQuoteEnvelopeVersion, e.platform.envelopeTag] ++
      leBytes 4 e.reportData.length ++ leBytes 4 e.quoteBlob.length ++
      (e.reportData ++ e.quoteBlob) := by
    rw [← List.append_assoc]
    rfl
  have hdata : slice headerLen e.reportData.length e.layout = e.reportData :=
    slice_middle (by simp [hardwareQuoteEnvelopeMagic, headerLen]) rfl
  have hblob : slice (headerLen + e.reportData.length) e.quoteBlob.length e.layout =
      e.quoteBlob := by
    rw [← List.append_nil e.layout]
    exact slice_middle (by simp [hardwareQuoteEnvelopeMagic, headerLen]; omega) rfl
  rw [hsplit, parse_header _ _ _ rfl (length_leBytes 4 _) (length_leBytes 4 _), ← hsplit,
    if_neg (not_not.mpr rfl), if_neg (not_not.mpr rfl), TeePlatform.fromEnvelopeTag_envelopeTag,
    hvalue _ (hreport.trans_lt hmaxReport), hvalue _ (hquote.trans_lt hmaxQuote)]
  simp only
  rw [parseBody_of_le e.platform hreport hquote hlen, hdata, hblob]

/-- **What the parser does with any bytes**: it accepts the layout of an envelope within the limits,
or returns an error. -/
theorem parse_cases (b : List UInt8) :
    (∃ e : HardwareQuoteEnvelope, e.WithinLimits ∧ b = e.layout) ∨
      ∃ message, parseHardwareQuoteEnvelope b = some (.error (.envelopeError message)) := by
  by_cases hshort : b.length < headerLen
  · exact Or.inr ⟨_, if_pos hshort⟩
  obtain ⟨magic, version, tag, reportLen, quoteLen, rest, hb, hmagic, hreport, hquote⟩ :=
    exists_header (not_lt.mp hshort)
  have hparse := parse_header rest version tag hmagic hreport hquote
  rw [← hb] at hparse
  rw [hparse]
  by_cases hmagic' : magic = hardwareQuoteEnvelopeMagic
  swap
  · exact Or.inr ⟨_, if_pos hmagic'⟩
  by_cases hversion : version = hardwareQuoteEnvelopeVersion
  swap
  · right
    rw [if_neg (not_not.mpr hmagic'), if_pos hversion]
    exact ⟨_, rfl⟩
  rw [if_neg (not_not.mpr hmagic'), if_neg (not_not.mpr hversion)]
  cases htag : TeePlatform.fromEnvelopeTag tag with
  | none => exact Or.inr ⟨_, rfl⟩
  | some platform =>
    simp only
    rcases parseBody_cases b platform (leValue reportLen) (leValue quoteLen) with
      ⟨hmaxReport, hmaxQuote, hlen⟩ | herror
    swap
    · exact Or.inr herror
    left
    -- the lengths of the header split the rest
    have hrest : rest.length = leValue reportLen + leValue quoteLen := by
      have hheader : headerLen = 14 := rfl
      rw [hb] at hlen
      simp [hmagic, hreport, hquote] at hlen
      omega
    have htake : (rest.take (leValue reportLen)).length = leValue reportLen := by
      rw [List.length_take]
      omega
    have hdrop : (rest.drop (leValue reportLen)).length = leValue quoteLen := by
      rw [List.length_drop]
      omega
    refine ⟨⟨platform, rest.take (leValue reportLen), rest.drop (leValue reportLen)⟩, ?_, ?_⟩
    · rw [WithinLimits, htake, hdrop]
      exact ⟨hmaxReport, hmaxQuote⟩
    · have hbytes : ∀ l : List UInt8, l.length = 4 → leBytes 4 (leValue l) = l := by
        intro l hl
        rw [← hl, leBytes_leValue]
      rw [layout, htake, hdrop, hbytes _ hreport, hbytes _ hquote, List.append_assoc,
        List.take_append_drop, hb, hmagic', hversion, TeePlatform.envelopeTag_of_fromEnvelopeTag htag]

/-- **The envelopes that are accepted are exactly those that are encoded.**  What is within the
limits, and nothing else, is encoded, and parsed to what it was; any bytes are accepted as an
envelope if and only if they are its encoding; and on no bytes is an index or a slice out of range. -/
theorem envelope_bijection :
    (∀ platform reportData quoteBlob,
        (reportData.length ≤ hardwareQuoteEnvelopeMaxReportData ∧
            quoteBlob.length ≤ hardwareQuoteEnvelopeMaxQuoteBlob ↔
          ∃ b, encodeHardwareQuoteEnvelope platform reportData quoteBlob = .ok b ∧
            parseHardwareQuoteEnvelope b = some (.ok ⟨platform, reportData, quoteBlob⟩))) ∧
      (∀ b e, parseHardwareQuoteEnvelope b = some (.ok e) ↔
        encodeHardwareQuoteEnvelope e.platform e.reportData e.quoteBlob = .ok b) ∧
      ∀ b, parseHardwareQuoteEnvelope b ≠ none := by
  refine ⟨fun platform reportData quoteBlob => ?_, fun b e => ?_, fun b => ?_⟩
  · constructor
    · intro h
      have hlimits : (⟨platform, reportData, quoteBlob⟩ : HardwareQuoteEnvelope).WithinLimits := h
      exact ⟨_, encode_eq_ok_iff.mpr ⟨hlimits, rfl⟩, parse_layout hlimits⟩
    · rintro ⟨b, hencode, -⟩
      exact (encode_eq_ok_iff (e := ⟨platform, reportData, quoteBlob⟩).mp hencode).1
  · rw [encode_eq_ok_iff]
    constructor
    · intro h
      rcases parse_cases b with ⟨e', hlimits, rfl⟩ | ⟨message, herror⟩
      · rw [parse_layout hlimits] at h
        obtain rfl := Except.ok.inj (Option.some.inj h)
        exact ⟨hlimits, rfl⟩
      · rw [herror] at h
        cases Option.some.inj h
    · rintro ⟨hlimits, rfl⟩
      exact parse_layout hlimits
  · rcases parse_cases b with ⟨e, hlimits, rfl⟩ | ⟨message, herror⟩
    · rw [parse_layout hlimits]
      exact Option.some_ne_none _
    · rw [herror]
      exact Option.some_ne_none _

end HardwareQuoteEnvelope

end Aegis
