import Aegis.Lib.HashSet
import Aegis.Relay.PeerHealth

/-!
# The registry of spent nullifiers (`nullifier.rs`)

A registry holds, for each epoch, the nullifiers that were spent in it.  It takes in the
registries of peers, drops an epoch as a whole, and is kept in a JSON file, where nullifiers
stand in hexadecimal under the decimal number of their epoch.

* `isSpent_tryRegister` — a nullifier is registered once, and nothing else changes.
* `isSpent_merge` — a merge is the union, and is never refused.
* `ofFile_toFile` — what is read back from a file has spent what was written to it.
-/

namespace Aegis

open Buffer

/-- What is spent once. -/
abbrev ReputationNullifier := Bytes 32

/-! ## Numbers and bytes as text -/

/-- The bytes of a text. -/
def utf8 (s : List Char) : List UInt8 := s.flatMap String.utf8EncodeChar

/-- `u64::to_string`. -/
def u64ToString (n : UInt64) : List Char := Nat.toDigits 10 n.toNat

/-- `str::parse::<u64>`: digits after at most one plus sign, within range. -/
def parseU64 (s : List Char) : Option UInt64 :=
  let digits := if s.head? = some '+' then s.tail else s
  if digits ≠ [] ∧ digits.all Char.isDigit ∧ Nat.ofDigitChars 10 digits 0 < 2 ^ 64 then
    some (UInt64.ofNat (Nat.ofDigitChars 10 digits 0))
  else none

theorem parseU64_u64ToString (n : UInt64) : parseU64 (u64ToString n) = some n := by
  have hdigits : ∀ c ∈ u64ToString n, c.isDigit := fun c hc =>
    Nat.isDigit_of_mem_toDigits (by decide) (by decide) hc
  have hhead : (u64ToString n).head? ≠ some '+' := by
    intro h
    exact absurd (hdigits '+' (List.mem_of_head? h)) (by decide)
  have hvalue : Nat.ofDigitChars 10 (u64ToString n) 0 = n.toNat := Nat.ofDigitChars_ten_toDigits
  simp only [parseU64, if_neg hhead, hvalue]
  rw [if_pos ⟨Nat.toDigits_ne_nil, List.all_eq_true.mpr hdigits, n.toNat_lt⟩, UInt64.ofNat_toNat]

theorem u64ToString_injective : Function.Injective u64ToString := by
  intro m n h
  have hparse := parseU64_u64ToString m
  rw [h, parseU64_u64ToString] at hparse
  exact (Option.some.inj hparse).symm

/-- `hex_nibble`. -/
def hexNibble (b : UInt8) : Option UInt8 :=
  if 0x30 ≤ b ∧ b ≤ 0x39 then some (b - 0x30)
  else if 0x61 ≤ b ∧ b ≤ 0x66 then some (b - 0x61 + 10)
  else if 0x41 ≤ b ∧ b ≤ 0x46 then some (b - 0x41 + 10)
  else none

/-- The bytes of `chunks(2)`, each from its two digits. -/
def hexPairs : List UInt8 → Option (List UInt8)
  | [] => some []
  | [_] => none
  | a :: b :: rest =>
    match hexNibble a, hexNibble b, hexPairs rest with
    | some hi, some lo, some out => some ((hi <<< 4 ||| lo) :: out)
    | _, _, _ => none

/-! ## Errors -/

/-- What a registry fails with. -/
inductive NullifierError where
  | alreadyUsed (epoch : UInt64)
  | mergeConflict (epoch : UInt64) (nullifierHex : List Char)
  | io (message : String)
  | json (message : String)
  | unsupportedVersion (version : UInt32)
  | invalidNullifierHex (text : List Char)
  deriving DecidableEq

/-- `parse_hex_32`. -/
def parseHex32 (s : List Char) : Except NullifierError ReputationNullifier :=
  let s := trimLabel s
  if (utf8 s).length ≠ 64 then .error (.invalidNullifierHex s)
  else
    match hexPairs (utf8 s) with
    | none => .error (.invalidNullifierHex s)
    | some out => if h : out.length = 32 then .ok ⟨out, h⟩ else .error (.invalidNullifierHex s)

/-! ## The registry -/

/-- The nullifiers that were spent, by their epochs. -/
structure NullifierRegistry where
  used : HashMap UInt64 (HashSet ReputationNullifier)

/-- What is written to a file. -/
structure NullifierRegistryFile where
  version : UInt32
  epochs : HashMap (List Char) (List (List Char))

/-- The version of the files that are written. -/
def registryFileVersion : UInt32 := 1

/-- How many nullifiers a merge brought, and how many were there. -/
structure NullifierMergeReport where
  added : ℕ
  alreadyPresent : ℕ
  deriving DecidableEq, Repr

/-- The orders in which a registry's epochs and their sets are handed out. -/
structure RegistryOrder where
  epochs : IterOrder UInt64 (HashSet ReputationNullifier)
  nullifiers : UInt64 → IterOrder ReputationNullifier Unit

namespace NullifierRegistry

/-- Nothing has been spent. -/
def new : NullifierRegistry := ⟨∅⟩

/-- The nullifier has been spent in this epoch. -/
def isSpent (r : NullifierRegistry) (epoch : UInt64) (nullifier : ReputationNullifier) : Bool :=
  match r.used.lookup epoch with
  | none => false
  | some set => decide (nullifier ∈ set)

/-- The nullifier is spent, unless it was. -/
def tryRegister (r : NullifierRegistry) (epoch : UInt64) (nullifier : ReputationNullifier) :
    Except NullifierError Unit × NullifierRegistry :=
  -- `entry(epoch).or_default()` leaves the set behind in both cases
  let set := (r.used.lookup epoch).getD ∅
  if nullifier ∈ set then (.error (.alreadyUsed epoch), ⟨r.used.insert epoch set⟩)
  else (.ok (), ⟨r.used.insert epoch (set.insert nullifier ())⟩)

/-- What was spent in an epoch is forgotten. -/
def forgetEpoch (r : NullifierRegistry) (epoch : UInt64) : NullifierRegistry :=
  ⟨r.used.erase epoch⟩

/-- The spent nullifiers, epoch by epoch. -/
def spent (o : RegistryOrder) (r : NullifierRegistry) : List (UInt64 × ReputationNullifier) :=
  (o.epochs.iter r.used).flatMap fun e => (e.2.iter (o.nullifiers e.1)).map (Prod.mk e.1)

/-- The loops of `merge`. -/
def mergeAll (r : NullifierRegistry) :
    List (UInt64 × ReputationNullifier) → NullifierMergeReport →
      Except NullifierError NullifierMergeReport × NullifierRegistry
  | [], report => (.ok report, r)
  | (epoch, nullifier) :: rest, report =>
    if r.isSpent epoch nullifier then
      mergeAll r rest { report with alreadyPresent := report.alreadyPresent + 1 }
    else
      match r.tryRegister epoch nullifier with
      | (.error e, r') => (.error e, r')
      | (.ok (), r') => mergeAll r' rest { report with added := report.added + 1 }

/-- What either registry has, with how many nullifiers are new. -/
def merge (o : RegistryOrder) (r other : NullifierRegistry) :
    Except NullifierError NullifierMergeReport × NullifierRegistry :=
  r.mergeAll (other.spent o) ⟨0, 0⟩

/-! ### The file -/

/-- `hexes.sort_unstable()`. -/
def sortHexes (hexes : List (List Char)) : List (List Char) :=
  hexes.insertionSort fun a b => a.map Char.toNat ≤ b.map Char.toNat

/-- An epoch's nullifiers, as they stand in the file. -/
def hexesOf (o : RegistryOrder) (epoch : UInt64) (set : HashSet ReputationNullifier) :
    List (List Char) :=
  sortHexes ((set.iter (o.nullifiers epoch)).map hex32)

/-- What `export_to_file` writes. -/
def toFile (o : RegistryOrder) (r : NullifierRegistry) : NullifierRegistryFile :=
  ⟨registryFileVersion, HashMap.insertAll ((o.epochs.iter r.used).map fun e =>
    (u64ToString e.1, hexesOf o e.1 e.2))⟩

/-- One nullifier of the file. -/
def loadNullifier (epoch : UInt64) (set : HashSet ReputationNullifier) (hex : List Char) :
    Except NullifierError (HashSet ReputationNullifier) :=
  match parseHex32 hex with
  | .error e => .error e
  | .ok parsed => if parsed ∈ set then .error (.mergeConflict epoch hex) else .ok (set.insert parsed ())

/-- One epoch of the file. -/
def loadEpoch (used : HashMap UInt64 (HashSet ReputationNullifier))
    (entry : Σ _ : List Char, List (List Char)) :
    Except NullifierError (HashMap UInt64 (HashSet ReputationNullifier)) :=
  match parseU64 entry.1 with
  | none => .error (.invalidNullifierHex entry.1)
  | some epoch =>
    match entry.2.foldlM (loadNullifier epoch) ∅ with
    | .error e => .error e
    | .ok set => .ok (used.insert epoch set)

/-- What `load_from_file` makes of the file's content. -/
def ofFile (o : IterOrder (List Char) (List (List Char))) (file : NullifierRegistryFile) :
    Except NullifierError NullifierRegistry :=
  if file.version ≠ registryFileVersion then .error (.unsupportedVersion file.version)
  else
    match (o.iter file.epochs).foldlM loadEpoch ∅ with
    | .error e => .error e
    | .ok used => .ok ⟨used⟩

/-! ## What is spent -/

section Spent

variable (r : NullifierRegistry)

theorem isSpent_iff {r : NullifierRegistry} {epoch : UInt64} {nullifier : ReputationNullifier} :
    r.isSpent epoch nullifier = true ↔
      ∃ set, r.used.lookup epoch = some set ∧ nullifier ∈ set := by
  unfold isSpent
  cases r.used.lookup epoch <;> simp

theorem isSpent_insert (used : HashMap UInt64 (HashSet ReputationNullifier)) (epoch e : UInt64)
    (set : HashSet ReputationNullifier) (n : ReputationNullifier) :
    isSpent ⟨used.insert epoch set⟩ e n =
      if e = epoch then decide (n ∈ set) else isSpent ⟨used⟩ e n := by
  unfold isSpent
  by_cases he : e = epoch
  · subst he
    simp
  · simp [he, AList.lookup_insert_ne he]

theorem isSpent_forgetEpoch (epoch e : UInt64) (n : ReputationNullifier) :
    (r.forgetEpoch epoch).isSpent e n = if e = epoch then false else r.isSpent e n := by
  unfold isSpent forgetEpoch
  by_cases he : e = epoch
  · subst he
    simp
  · simp [he, AList.lookup_erase_ne he]

theorem mem_getD_lookup {epoch : UInt64} {n : ReputationNullifier} :
    n ∈ (r.used.lookup epoch).getD ∅ ↔ r.isSpent epoch n = true := by
  rw [isSpent_iff]
  cases r.used.lookup epoch <;> simp

/-- **A nullifier is registered once**: what is spent is refused, and stays as it is. -/
theorem isSpent_tryRegister (epoch : UInt64) (n : ReputationNullifier) :
    (r.isSpent epoch n = true ∧ (r.tryRegister epoch n).1 = .error (.alreadyUsed epoch) ∧
        ∀ e m, (r.tryRegister epoch n).2.isSpent e m = r.isSpent e m) ∨
      (r.isSpent epoch n = false ∧ (r.tryRegister epoch n).1 = .ok () ∧
        ∀ e m, (r.tryRegister epoch n).2.isSpent e m = true ↔
          r.isSpent e m = true ∨ (e = epoch ∧ m = n)) := by
  have hset : ∀ m, m ∈ (r.used.lookup epoch).getD ∅ ↔ r.isSpent epoch m = true :=
    fun m => r.mem_getD_lookup
  by_cases hn : n ∈ (r.used.lookup epoch).getD ∅
  · refine Or.inl ⟨(hset n).mp hn, ?_⟩
    simp only [tryRegister, if_pos hn, isSpent_insert, true_and]
    intro e m
    by_cases he : e = epoch
    · subst he
      simp [hset]
    · simp [he]
  · refine Or.inr ⟨by simpa [hset] using hn, ?_⟩
    simp only [tryRegister, if_neg hn, isSpent_insert, true_and]
    intro e m
    by_cases he : e = epoch
    · subst he
      simp [hset, or_comm]
    · simp [he]

theorem mem_spent {o : RegistryOrder} {r : NullifierRegistry} {epoch : UInt64}
    {n : ReputationNullifier} : (epoch, n) ∈ r.spent o ↔ r.isSpent epoch n = true := by
  rw [isSpent_iff, spent, List.mem_flatMap]
  constructor
  · rintro ⟨⟨e, set⟩, hentry, hmem⟩
    obtain ⟨m, hm, heq⟩ := List.mem_map.mp hmem
    obtain ⟨rfl, rfl⟩ := Prod.mk.inj heq
    exact ⟨set, IterOrder.mem_iter.mp hentry, HashSet.mem_iter.mp hm⟩
  · rintro ⟨set, hlookup, hmem⟩
    refine ⟨⟨epoch, set⟩, IterOrder.mem_iter.mpr hlookup, List.mem_map.mpr ⟨n, ?_, rfl⟩⟩
    exact HashSet.mem_iter.mpr hmem

/-- The loops of a merge take in everything, and count it. -/
theorem isSpent_mergeAll (pairs : List (UInt64 × ReputationNullifier))
    (report : NullifierMergeReport) :
    ∃ report', (r.mergeAll pairs report).1 = .ok report' ∧
      report'.added + report'.alreadyPresent =
        report.added + report.alreadyPresent + pairs.length ∧
      ∀ e m, (r.mergeAll pairs report).2.isSpent e m = true ↔
        r.isSpent e m = true ∨ (e, m) ∈ pairs := by
  induction pairs generalizing r report with
  | nil => exact ⟨report, rfl, rfl, fun e m => by simp [mergeAll]⟩
  | cons p pairs ih =>
    obtain ⟨epoch, n⟩ := p
    unfold mergeAll
    by_cases hspent : r.isSpent epoch n = true
    · rw [if_pos hspent]
      obtain ⟨report', hok, hcount, hall⟩ :=
        ih r { report with alreadyPresent := report.alreadyPresent + 1 }
      refine ⟨report', hok, by rw [hcount, List.length_cons]; simp only; omega, fun e m => ?_⟩
      rw [hall e m, List.mem_cons]
      constructor
      · rintro (h | h)
        · exact Or.inl h
        · exact Or.inr (Or.inr h)
      · rintro (h | h | h)
        · exact Or.inl h
        · obtain ⟨rfl, rfl⟩ := Prod.mk.inj h
          exact Or.inl hspent
        · exact Or.inr h
    · rw [if_neg hspent]
      rcases r.isSpent_tryRegister epoch n with ⟨htrue, -⟩ | ⟨-, hnew, hafter⟩
      · exact absurd htrue hspent
      · rcases htry : r.tryRegister epoch n with ⟨res, r'⟩
        rw [htry] at hnew hafter
        subst hnew
        obtain ⟨report', hok, hcount, hall⟩ := ih r' { report with added := report.added + 1 }
        refine ⟨report', hok, by rw [hcount, List.length_cons]; simp only; omega, fun e m => ?_⟩
        rw [hall e m, hafter, List.mem_cons, Prod.mk.injEq, or_assoc]

/-- **A merge is the union**, and is never refused. -/
theorem isSpent_merge (o : RegistryOrder) (other : NullifierRegistry) :
    ∃ report, (r.merge o other).1 = .ok report ∧
      ∀ e m, (r.merge o other).2.isSpent e m = true ↔
        r.isSpent e m = true ∨ other.isSpent e m = true := by
  obtain ⟨report, hok, -, hall⟩ := r.isSpent_mergeAll (other.spent o) ⟨0, 0⟩
  refine ⟨report, hok, fun e m => ?_⟩
  rw [merge, hall e m, mem_spent]

end Spent

/-! ## What is read back from a file -/

section File

theorem hexChar_spec (n : Fin 16) :
    isWhiteSpace (hexChar n) = false ∧ ∃ b, String.utf8EncodeChar (hexChar n) = [b] ∧
      hexNibble b = some (UInt8.ofNat n) := by
  refine ⟨?_, (String.utf8EncodeChar (hexChar n)).headD 0, ?_, ?_⟩ <;> decide +revert

theorem byte_of_nibbles (b : UInt8) :
    UInt8.ofNat (b.toNat / 16) <<< 4 ||| UInt8.ofNat (b.toNat % 16) = b := by
  have hlt := b.toNat_lt
  have hsplit : (b.toNat / 16) <<< 4 ||| b.toNat % 16 = b.toNat := by
    rw [← Nat.shiftLeft_add_eq_or_of_lt (by omega), Nat.shiftLeft_eq]
    omega
  have hhi : b.toNat / 16 % 256 = b.toNat / 16 := by omega
  have hlo : b.toNat % 16 % 256 = b.toNat % 16 := by omega
  have hshift : (b.toNat / 16) <<< 4 % 256 = (b.toNat / 16) <<< 4 := by
    rw [Nat.shiftLeft_eq]
    omega
  apply UInt8.toNat_inj.mp
  simp [hhi, hlo, hshift, hsplit]

/-- The two digits of a byte. -/
theorem digits_spec (b : UInt8) : ∃ hi lo h l,
    String.utf8EncodeChar (hexChar (b.toNat / 16)) = [hi] ∧
      String.utf8EncodeChar (hexChar (b.toNat % 16)) = [lo] ∧
      hexNibble hi = some h ∧ hexNibble lo = some l ∧ h <<< 4 ||| l = b := by
  obtain ⟨-, hi, hhi, hhi'⟩ := hexChar_spec ⟨b.toNat / 16, by have := b.toNat_lt; omega⟩
  obtain ⟨-, lo, hlo, hlo'⟩ := hexChar_spec ⟨b.toNat % 16, by omega⟩
  exact ⟨hi, lo, _, _, hhi, hlo, hhi', hlo', byte_of_nibbles b⟩

theorem utf8_digits (bytes : List UInt8) :
    (utf8 (bytes.flatMap fun b => [hexChar (b.toNat / 16), hexChar (b.toNat % 16)])).length =
        2 * bytes.length ∧
      hexPairs (utf8 (bytes.flatMap fun b => [hexChar (b.toNat / 16), hexChar (b.toNat % 16)])) =
        some bytes := by
  induction bytes with
  | nil => exact ⟨rfl, rfl⟩
  | cons b bytes ih =>
    obtain ⟨hi, lo, h, l, hhi, hlo, hhi', hlo', hbyte⟩ := digits_spec b
    have hutf8 : utf8 ((b :: bytes).flatMap fun b =>
        [hexChar (b.toNat / 16), hexChar (b.toNat % 16)]) = hi :: lo :: utf8 (bytes.flatMap fun b =>
          [hexChar (b.toNat / 16), hexChar (b.toNat % 16)]) := by
      simp [utf8, hhi, hlo]
    rw [hutf8]
    refine ⟨?_, ?_⟩
    · simp only [List.length_cons, ih.1]
      omega
    · simp only [hexPairs, hhi', hlo', ih.2, hbyte]

theorem trimLabel_of_forall {s : List Char} (h : ∀ c ∈ s, isWhiteSpace c = false) :
    trimLabel s = s := by
  have hdrop : ∀ l : List Char, (∀ c ∈ l, isWhiteSpace c = false) → l.dropWhile isWhiteSpace = l := by
    intro l hl
    cases l with
    | nil => rfl
    | cons c l => simp [hl c List.mem_cons_self]
  rw [trimLabel, hdrop s h, hdrop s.reverse (by simpa using h), List.reverse_reverse]

/-- **A nullifier is read back from its hexadecimal digits.** -/
theorem parseHex32_hex32 (n : ReputationNullifier) : parseHex32 (hex32 n) = .ok n := by
  obtain ⟨hlen, hpairs⟩ := utf8_digits n.toList
  have htrim : trimLabel (hex32 n) = hex32 n := by
    refine trimLabel_of_forall fun c hc => ?_
    obtain ⟨b, -, hb⟩ := List.mem_flatMap.mp hc
    simp only [List.mem_cons, List.not_mem_nil, or_false] at hb
    rcases hb with rfl | rfl
    · exact (hexChar_spec ⟨b.toNat / 16, by have := b.toNat_lt; omega⟩).1
    · exact (hexChar_spec ⟨b.toNat % 16, by omega⟩).1
  unfold parseHex32
  rw [htrim]
  unfold hex32
  simp [hlen, hpairs]

theorem hex32_injective : Function.Injective hex32 := by
  intro m n h
  have hparse := parseHex32_hex32 m
  rw [h, parseHex32_hex32] at hparse
  exact (Except.ok.inj hparse).symm

/-- The nullifiers of an epoch are read back. -/
theorem foldlM_loadNullifier (epoch : UInt64) {hexes : List (List Char)} (hnodup : hexes.Nodup)
    (hhex : ∀ h ∈ hexes, ∃ n, h = hex32 n) :
    ∃ set, hexes.foldlM (loadNullifier epoch) ∅ = .ok set ∧ ∀ n, n ∈ set ↔ hex32 n ∈ hexes := by
  induction hexes using List.reverseRecOn with
  | nil => exact ⟨∅, rfl, fun n => by simp⟩
  | append_singleton hexes hex ih =>
    obtain ⟨hold, -, hnew⟩ := List.nodup_append.mp hnodup
    obtain ⟨set, hset, hmem⟩ := ih hold fun h hh => hhex h (List.mem_append_left _ hh)
    obtain ⟨n, rfl⟩ := hhex hex (by simp)
    have hfresh : n ∉ set := by
      rw [hmem]
      exact fun h => hnew _ h _ (by simp) rfl
    refine ⟨set.insert n (), ?_, fun m => ?_⟩
    · rw [Run.foldlM_concat]
      refine ⟨set, hset, ?_⟩
      simp [loadNullifier, parseHex32_hex32, hfresh]
    · simp [hmem, hex32_injective.eq_iff, or_comm]

variable {o : RegistryOrder} {r : NullifierRegistry}

theorem loadEpoch_hexesOf (used : HashMap UInt64 (HashSet ReputationNullifier)) (epoch : UInt64)
    (set : HashSet ReputationNullifier) :
    ∃ set', loadEpoch used ⟨u64ToString epoch, hexesOf o epoch set⟩ =
        .ok (used.insert epoch set') ∧ ∀ n, n ∈ set' ↔ n ∈ set := by
  have hperm : (hexesOf o epoch set).Perm ((set.iter (o.nullifiers epoch)).map hex32) :=
    List.perm_insertionSort _ _
  obtain ⟨set', hload, hmem⟩ := foldlM_loadNullifier epoch
    (hperm.nodup_iff.mpr ((set.nodup_iter _).map hex32_injective)) (by
      intro h hh
      obtain ⟨n, -, rfl⟩ := List.mem_map.mp (hperm.mem_iff.mp hh)
      exact ⟨n, rfl⟩)
  refine ⟨set', ?_, fun n => ?_⟩
  · simp [loadEpoch, parseU64_u64ToString, hload]
  · rw [hmem, hperm.mem_iff, List.mem_map_of_injective hex32_injective, HashSet.mem_iter]

/-- What stands in the file. -/
theorem lookup_toFile {s : List Char} {hexes : List (List Char)} :
    (r.toFile o).epochs.lookup s = some hexes ↔ ∃ epoch set,
      r.used.lookup epoch = some set ∧ s = u64ToString epoch ∧ hexes = hexesOf o epoch set := by
  have hnodup : (((o.epochs.iter r.used).map fun e =>
      (u64ToString e.1, hexesOf o e.1 e.2)).map Prod.fst).Nodup := by
    have hkeys := (o.epochs.nodup_keys_iter r.used).map u64ToString_injective
    rw [List.map_map] at hkeys ⊢
    exact hkeys
  rw [toFile, HashMap.lookup_insertAll hnodup, List.mem_map]
  constructor
  · rintro ⟨⟨epoch, set⟩, hentry, heq⟩
    obtain ⟨rfl, rfl⟩ := Prod.mk.inj heq
    exact ⟨epoch, set, IterOrder.mem_iter.mp hentry, rfl, rfl⟩
  · rintro ⟨epoch, set, hlookup, rfl, rfl⟩
    exact ⟨⟨epoch, set⟩, IterOrder.mem_iter.mpr hlookup, rfl⟩

/-- The epochs of the file are read back, one after another. -/
theorem foldlM_loadEpoch {entries : List (Σ _ : List Char, List (List Char))}
    (h : ∀ entry ∈ entries, ∃ epoch set, r.used.lookup epoch = some set ∧
      entry = ⟨u64ToString epoch, hexesOf o epoch set⟩) :
    ∃ used, entries.foldlM loadEpoch ∅ = .ok used ∧ ∀ e n, isSpent ⟨used⟩ e n = true ↔
      ∃ set, r.used.lookup e = some set ∧ n ∈ set ∧
        (⟨u64ToString e, hexesOf o e set⟩ : Σ _ : List Char, List (List Char)) ∈ entries := by
  induction entries using List.reverseRecOn with
  | nil => exact ⟨∅, rfl, fun e n => by simp [isSpent]⟩
  | append_singleton entries entry ih =>
    obtain ⟨used, hused, hspent⟩ := ih fun x hx => h x (List.mem_append_left _ hx)
    obtain ⟨epoch, set, hlookup, rfl⟩ := h entry (by simp)
    obtain ⟨set', hload, hmem⟩ := loadEpoch_hexesOf (o := o) used epoch set
    refine ⟨used.insert epoch set', Run.foldlM_concat.mpr ⟨used, hused, hload⟩, fun e n => ?_⟩
    rw [isSpent_insert]
    by_cases he : e = epoch
    · subst he
      simp [hmem, hlookup]
    · rw [if_neg he, hspent]
      simp [u64ToString_injective.eq_iff, he]

/-- **What is read back from a file has spent what was written to it.** -/
theorem ofFile_toFile {file : NullifierRegistryFile} (hversion : file.version = registryFileVersion)
    (hepochs : ∀ s, file.epochs.lookup s = (r.toFile o).epochs.lookup s)
    (order : IterOrder (List Char) (List (List Char))) :
    ∃ r', ofFile order file = .ok r' ∧ ∀ e n, r'.isSpent e n = r.isSpent e n := by
  have hentry : ∀ s hexes, (⟨s, hexes⟩ : Σ _ : List Char, List (List Char)) ∈
      order.iter file.epochs ↔ ∃ epoch set, r.used.lookup epoch = some set ∧
        s = u64ToString epoch ∧ hexes = hexesOf o epoch set := by
    intro s hexes
    rw [IterOrder.mem_iter, hepochs, lookup_toFile]
  have hentries : ∀ entry ∈ order.iter file.epochs, ∃ epoch set, r.used.lookup epoch = some set ∧
      entry = ⟨u64ToString epoch, hexesOf o epoch set⟩ := by
    rintro ⟨s, hexes⟩ hx
    obtain ⟨epoch, set, hlookup, rfl, rfl⟩ := (hentry s hexes).mp hx
    exact ⟨epoch, set, hlookup, rfl⟩
  obtain ⟨used, hused, hspent⟩ := foldlM_loadEpoch hentries
  refine ⟨⟨used⟩, by simp [ofFile, hversion, hused], fun e n => ?_⟩
  rw [Bool.eq_iff_iff, hspent, isSpent_iff]
  constructor
  · rintro ⟨set, hlookup, hn, -⟩
    exact ⟨set, hlookup, hn⟩
  · rintro ⟨set, hlookup, hn⟩
    exact ⟨set, hlookup, hn, (hentry _ _).mpr ⟨e, set, hlookup, rfl, rfl⟩⟩

end File

end NullifierRegistry

end Aegis
