import Aegis.Lib.FloatBits
import Aegis.Relay.HealthGossip
import Aegis.Trust.NullifierRegistry

/-!
# Signed ledger files (`reputation.rs`)

A ledger is kept in a JSON file, where scores stand under the hexadecimal ids of their relays.  The
operator signs a canonical encoding of the decay and the scores: the keys are sorted as texts, and
enter as the bytes that they stand for.  Several texts stand for the same bytes, and keys that stand
for none are left out of the encoding.

* `canonical_eq_iff` — the encoding determines the decay and the entries.
* `scores_of_loadFromFileVerified` — **a verified load returns a snapshot that was signed**,
  whatever the file holds.
* `ofFile_toFile` — what was saved with a signature is loaded.
-/

namespace Aegis

open Buffer

/-! ## Ledgers by the bits of their doubles -/

/-- `clamp01`. -/
def Score.clamp01 (x : F64) : F64 := x.clamp F64.zero F64.one

/-- A score as a ledger keeps it: every update and every load clamps it. -/
def Score : Type := { x : F64 // Score.clamp01 x = x }
  deriving DecidableEq

/-- The score nearest to a double. -/
def Score.clamp (x : F64) : Score :=
  ⟨Score.clamp01 x, F64.clamp_clamp (by decide) x⟩

theorem Score.clamp_val (s : Score) : Score.clamp s.val = s := Subtype.ext s.property

/-- A ledger, by the bits of its doubles. -/
structure StoredLedger where
  decay : F64
  scores : HashMap RelayId Score

/-- What is written to a file. -/
structure ReputationLedgerFile where
  version : UInt32
  decay : F64
  scores : HashMap (List Char) F64
  /-- The signature over `canonical_ledger_bytes`, in hexadecimal. -/
  signature : Option (List Char)
  signerPubkey : Option (List Char)

/-- What a load fails with. -/
inductive ReputationError where
  | invalidDecay (decay : F64)
  | io (message : String)
  | json (message : String)
  | unsupportedVersion (version : UInt32)
  | decayMismatch (fileDecay expectedDecay : F64)
  | invalidRelayId (text : List Char)
  | missingSignature
  | invalidSignature
  | invalidKey (what : String)
  deriving DecidableEq

/-- The version of the files that are written. -/
def ledgerFileVersion : UInt32 := 1

/-- `AEGIS-REPUTATION-LEDGER-v1`. -/
def ledgerSigDomain : List UInt8 := utf8 "AEGIS-REPUTATION-LEDGER-v1".toList

namespace StoredLedger

/-! ## Hexadecimal keys -/

/-- `hex_encode_bytes`. -/
def hexEncodeBytes (bytes : List UInt8) : List Char :=
  bytes.flatMap fun b => [hexChar (b.toNat / 16), hexChar (b.toNat % 16)]

/-- `trim_start_matches("0x")`. -/
def trimStart0x : List Char → List Char
  | '0' :: 'x' :: rest => trimStart0x rest
  | s => s

/-- The common body of `parse_hex32` and `parse_hex64`. -/
def parseHexBytes (n : ℕ) (expected : String) (s : List Char) : Except ReputationError (Bytes n) :=
  let s := trimStart0x (trimLabel s)
  if (utf8 s).length ≠ 2 * n then .error (.invalidKey expected)
  else
    match hexPairs (utf8 s) with
    | none => .error (.invalidKey "invalid hex digit")
    | some out => if h : out.length = n then .ok ⟨out, h⟩ else .error (.invalidKey "odd hex length")

/-- Thirty-two bytes, from their digits. -/
def parseHex32 : List Char → Except ReputationError (Bytes 32) :=
  parseHexBytes 32 "expected 64 hex chars"

/-- A signature, from its digits. -/
def parseHex64 : List Char → Except ReputationError (Bytes advertSigLen) :=
  parseHexBytes advertSigLen "expected 128 hex chars"

/-- The id of a relay, from its digits; the error has the text. -/
def parseHexRelay (s : List Char) : Except ReputationError RelayId :=
  match parseHex32 s with
  | .ok relay => .ok relay
  | .error (.invalidKey _) => .error (.invalidRelayId s)
  | .error other => .error other

/-! ## The canonical encoding -/

/-- One entry of the encoding. -/
def entryBytes (entry : RelayId × F64) : List UInt8 := entry.1.toList ++ u64Bytes entry.2.bits

/-- What an entry of a file adds to the encoding. -/
def pairBytes (pair : Σ _ : List Char, F64) : List UInt8 :=
  match parseHexRelay pair.1 with
  | .ok relay => entryBytes (relay, pair.2)
  | .error _ => []

/-- `pairs.sort_by(|a, b| a.0.cmp(&b.0))`. -/
def sortPairs (pairs : List (Σ _ : List Char, F64)) : List (Σ _ : List Char, F64) :=
  pairs.insertionSort fun a b => a.1.map Char.toNat ≤ b.1.map Char.toNat

/-- What is signed: the version, the decay and the entries, sorted by their texts. -/
def canonicalLedgerBytes (version : UInt32) (decay : F64) (o : IterOrder (List Char) F64)
    (scores : HashMap (List Char) F64) : List UInt8 :=
  ledgerSigDomain ++ leBytes 4 version.toNat ++ u64Bytes decay.bits ++
    (sortPairs (o.iter scores)).flatMap pairBytes

/-! ## Saving and loading -/

/-- The scores as they stand in a file. -/
def hexScores (o : IterOrder RelayId Score) (l : StoredLedger) : HashMap (List Char) F64 :=
  HashMap.insertAll ((o.iter l.scores).map fun e => (hex32 e.1, e.2.val))

variable {SK VK Text : Type} (E : Ed25519 SK VK)

/-- What `write_file` writes, with a signature if there is a key. -/
def toFile (o : IterOrder RelayId Score) (o' : IterOrder (List Char) F64) (l : StoredLedger)
    (signingKey : Option SK) : ReputationLedgerFile :=
  let scores := l.hexScores o
  { version := ledgerFileVersion
    decay := l.decay
    scores := scores
    signature := signingKey.map fun sk =>
      hexEncodeBytes (E.sign sk (canonicalLedgerBytes ledgerFileVersion l.decay o' scores)).toList
    signerPubkey := signingKey.map fun sk =>
      hexEncodeBytes (E.toBytes (E.verifyingKey sk)).toList }

/-- The file was signed with this key. -/
def verifyLedgerFile (o : IterOrder (List Char) F64) (file : ReputationLedgerFile)
    (verifyingKey : VK) : Except ReputationError Unit :=
  match file.signature, file.signerPubkey with
  | some sigHex, some pkHex =>
    match parseHex32 pkHex with
    | .error _ => .error .invalidSignature
    | .ok pkBytes =>
      if pkBytes ≠ E.toBytes verifyingKey then .error .invalidSignature
      else
        match parseHex64 sigHex with
        | .error _ => .error .invalidSignature
        | .ok sig =>
          if E.verify verifyingKey (canonicalLedgerBytes file.version file.decay o file.scores) sig
          then .ok ()
          else .error .invalidSignature
  | _, _ => .error .missingSignature

/-- One score of the file. -/
def loadScore (scores : HashMap RelayId Score) (entry : Σ _ : List Char, F64) :
    Except ReputationError (HashMap RelayId Score) :=
  match parseHexRelay entry.1 with
  | .error e => .error e
  | .ok relay => .ok (scores.insert relay (.clamp entry.2))

/-- A ledger with these scores, if its decay can be one. -/
def fromScores (decay : F64) (scores : HashMap RelayId Score) :
    Except ReputationError StoredLedger :=
  if F64.zero.lt decay && decay.le F64.one then .ok ⟨decay, scores⟩
  else .error (.invalidDecay decay)

/-- `load_from_file_with_verify` on what the file's text parses to.  `o` and `o'` are the orders in
which the encoding and the load go through the scores. -/
def ofFile (o o' : IterOrder (List Char) F64) (file : ReputationLedgerFile) (expectedDecay : F64)
    (verifyingKey : Option VK) : Except ReputationError StoredLedger :=
  if file.version ≠ ledgerFileVersion then .error (.unsupportedVersion file.version)
  else if file.decay.apart expectedDecay then .error (.decayMismatch file.decay expectedDecay)
  else
    match verifyingKey.elim (.ok ()) (verifyLedgerFile E o file) with
    | .error e => .error e
    | .ok () =>
      match (o'.iter file.scores).foldlM loadScore ∅ with
      | .error e => .error e
      | .ok scores => fromScores expectedDecay scores

/-- `load_from_file_with_verify`; `text` is the content of the file. -/
def loadFromFileWithVerify (fromStr : Text → Except String ReputationLedgerFile)
    (o o' : IterOrder (List Char) F64) (text : Except String Text) (expectedDecay : F64)
    (verifyingKey : Option VK) : Except ReputationError StoredLedger :=
  match text with
  | .error message => .error (.io message)
  | .ok text =>
    match fromStr text with
    | .error message => .error (.json message)
    | .ok file => ofFile E o o' file expectedDecay verifyingKey

/-- A file that must have been signed with this key. -/
def loadFromFileVerified (fromStr : Text → Except String ReputationLedgerFile)
    (o o' : IterOrder (List Char) F64) (text : Except String Text) (expectedDecay : F64)
    (verifyingKey : VK) : Except ReputationError StoredLedger :=
  loadFromFileWithVerify E fromStr o o' text expectedDecay (some verifyingKey)

/-! ## Keys are read back -/

theorem trimStart0x_of_not_mem {s : List Char} (h : 'x' ∉ s) : trimStart0x s = s := by
  unfold trimStart0x
  split
  · exact absurd (by simp) h
  · rfl

theorem hexChar_ne_x (n : Fin 16) : hexChar n ≠ 'x' := by
  decide +revert

/-- What the digits of some bytes are made of. -/
theorem mem_hexEncodeBytes {bytes : List UInt8} {c : Char} (h : c ∈ hexEncodeBytes bytes) :
    ∃ n : Fin 16, c = hexChar n := by
  obtain ⟨b, -, hb⟩ := List.mem_flatMap.mp h
  have hlt := b.toNat_lt
  simp only [List.mem_cons, List.not_mem_nil, or_false] at hb
  rcases hb with rfl | rfl
  · exact ⟨⟨b.toNat / 16, by omega⟩, rfl⟩
  · exact ⟨⟨b.toNat % 16, by omega⟩, rfl⟩

/-- **Bytes are read back from their hexadecimal digits.** -/
theorem parseHexBytes_hexEncodeBytes {n : ℕ} (expected : String) (b : Bytes n) :
    parseHexBytes n expected (hexEncodeBytes b.toList) = .ok b := by
  obtain ⟨hlen, hpairs⟩ := NullifierRegistry.utf8_digits b.toList
  have htrim : trimLabel (hexEncodeBytes b.toList) = hexEncodeBytes b.toList := by
    refine NullifierRegistry.trimLabel_of_forall fun c hc => ?_
    obtain ⟨d, rfl⟩ := mem_hexEncodeBytes hc
    exact (NullifierRegistry.hexChar_spec d).1
  have hzero : trimStart0x (hexEncodeBytes b.toList) = hexEncodeBytes b.toList := by
    refine trimStart0x_of_not_mem fun hx => ?_
    obtain ⟨d, hd⟩ := mem_hexEncodeBytes hx
    exact hexChar_ne_x d hd.symm
  unfold parseHexBytes
  rw [htrim, hzero]
  unfold hexEncodeBytes
  simp [hlen, hpairs]

theorem parseHexRelay_hex32 (relay : RelayId) : parseHexRelay (hex32 relay) = .ok relay := by
  have hparse := parseHexBytes_hexEncodeBytes "expected 64 hex chars" relay
  unfold parseHexRelay parseHex32
  rw [show hex32 relay = hexEncodeBytes relay.toList from rfl, hparse]

/-! ## What the encoding says -/

/-- The entries of a file whose keys stand for relays. -/
def decoded (pairs : List (Σ _ : List Char, F64)) : List (RelayId × F64) :=
  pairs.filterMap fun pair => (parseHexRelay pair.1).toOption.map fun relay => (relay, pair.2)

theorem flatMap_pairBytes (pairs : List (Σ _ : List Char, F64)) :
    pairs.flatMap pairBytes = (decoded pairs).flatMap entryBytes := by
  induction pairs with
  | nil => rfl
  | cons pair pairs ih =>
    unfold decoded at ih ⊢
    rw [List.flatMap_cons, ih, pairBytes, List.filterMap_cons]
    cases parseHexRelay pair.1 with
    | error e => rfl
    | ok relay => rfl

theorem u64Bytes_injective : Function.Injective u64Bytes := by
  intro m n h
  have hm := congrArg leValue h
  have hmod : ∀ k : UInt64, k.toNat % 256 ^ 8 = k.toNat := fun k =>
    Nat.mod_eq_of_lt (by simpa using k.toNat_lt)
  unfold u64Bytes at hm
  rw [leValue_leBytes, leValue_leBytes, hmod, hmod] at hm
  exact UInt64.toNat_inj.mp hm

theorem entryBytes_injective : Function.Injective entryBytes := by
  rintro ⟨relay, ⟨bits⟩⟩ ⟨relay', ⟨bits'⟩⟩ h
  have hlen : relay.toList.length = relay'.toList.length := by
    rw [relay.toList_length, relay'.toList_length]
  obtain ⟨hrelay, hbits⟩ := List.append_inj h hlen
  rw [Prod.mk.injEq, F64.mk.injEq]
  exact ⟨Bytes.ext_toList hrelay, u64Bytes_injective hbits⟩

/-- **Entries are read off the encoding**, one after another. -/
theorem flatMap_entryBytes_injective : Function.Injective (List.flatMap entryBytes) := by
  have hread : ∀ entries : List (RelayId × F64),
      chunks 40 (entries.flatMap entryBytes) = entries.map entryBytes := by
    intro entries
    have hlength : ∀ block ∈ entries.map entryBytes, block.length = 40 := by
      intro block hblock
      obtain ⟨entry, -, rfl⟩ := List.mem_map.mp hblock
      rw [entryBytes, List.length_append, length_u64Bytes, entry.1.toList_length]
    have hchunks := chunks_flatten_append hlength (show ([] : List UInt8).length < 40 by decide)
    rwa [List.append_nil] at hchunks
  intro entries entries' h
  have hmap := congrArg (chunks 40) h
  rw [hread, hread] at hmap
  exact List.map_injective_iff.mpr entryBytes_injective hmap

/-- **The encoding determines the decay and the entries.** -/
theorem canonical_eq_iff {version : UInt32} {decay decay' : F64} {o o' : IterOrder (List Char) F64}
    {scores scores' : HashMap (List Char) F64} :
    canonicalLedgerBytes version decay o scores = canonicalLedgerBytes version decay' o' scores' ↔
      decay = decay' ∧
        decoded (sortPairs (o.iter scores)) = decoded (sortPairs (o'.iter scores')) := by
  unfold canonicalLedgerBytes
  rw [List.append_assoc, List.append_assoc _ (u64Bytes decay'.bits), List.append_right_inj,
    flatMap_pairBytes, flatMap_pairBytes]
  constructor
  · intro h
    obtain ⟨hdecay, hentries⟩ := List.append_inj h (by rw [length_u64Bytes, length_u64Bytes])
    exact ⟨congrArg F64.mk (u64Bytes_injective hdecay), flatMap_entryBytes_injective hentries⟩
  · rintro ⟨rfl, hentries⟩
    rw [hentries]

/-! ## What a load returns -/

/-- The load takes every key, and keeps what the keys stand for. -/
theorem foldlM_loadScore {pairs : List (Σ _ : List Char, F64)} {scores : HashMap RelayId Score}
    (h : pairs.foldlM loadScore ∅ = .ok scores) :
    scores = HashMap.insertAll ((decoded pairs).map fun e => (e.1, Score.clamp e.2)) := by
  induction pairs using List.reverseRecOn generalizing scores with
  | nil => exact (Except.ok.inj h).symm
  | append_singleton pairs pair ih =>
    obtain ⟨before, hbefore, hpair⟩ := Run.foldlM_concat.mp h
    unfold loadScore at hpair
    cases hparse : parseHexRelay pair.1 with
    | error e =>
      rw [hparse] at hpair
      cases hpair
    | ok relay =>
      rw [hparse] at hpair
      have hdecoded : decoded (pairs ++ [pair]) = decoded pairs ++ [(relay, pair.2)] := by
        unfold decoded
        rw [List.filterMap_append, List.filterMap_cons, hparse]
        rfl
      rw [← Except.ok.inj hpair, ih hbefore, hdecoded, List.map_append, List.map_singleton,
        HashMap.insertAll_concat]

/-- What stands in a file that was saved. -/
theorem mem_iter_hexScores {o : IterOrder RelayId Score} {o' : IterOrder (List Char) F64}
    {l : StoredLedger} {pair : Σ _ : List Char, F64} :
    pair ∈ o'.iter (l.hexScores o) ↔ ∃ relay score, l.scores.lookup relay = some score ∧
      pair = ⟨hex32 relay, score.val⟩ := by
  obtain ⟨text, x⟩ := pair
  have hnodup : (((o.iter l.scores).map fun e => (hex32 e.1, e.2.val)).map Prod.fst).Nodup := by
    have hkeys := (o.nodup_keys_iter l.scores).map NullifierRegistry.hex32_injective
    rw [List.map_map] at hkeys ⊢
    exact hkeys
  rw [IterOrder.mem_iter, hexScores, HashMap.lookup_insertAll hnodup, List.mem_map]
  constructor
  · rintro ⟨⟨relay, score⟩, hentry, heq⟩
    obtain ⟨rfl, rfl⟩ := Prod.mk.inj heq
    exact ⟨relay, score, IterOrder.mem_iter.mp hentry, rfl⟩
  · rintro ⟨relay, score, hlookup, heq⟩
    cases heq
    exact ⟨⟨relay, score⟩, IterOrder.mem_iter.mpr hlookup, rfl⟩

/-- **The entries of a saved file are the ledger's**, each once. -/
theorem decoded_hexScores (o : IterOrder RelayId Score) (o' : IterOrder (List Char) F64)
    (l : StoredLedger) :
    ((decoded (o'.iter (l.hexScores o))).map Prod.fst).Nodup ∧
      ∀ relay x, (relay, x) ∈ decoded (o'.iter (l.hexScores o)) ↔
        ∃ score, l.scores.lookup relay = some score ∧ x = score.val := by
  have hkeys : ∀ pairs : List (Σ _ : List Char, F64),
      (∀ pair ∈ pairs, ∃ relay, pair.1 = hex32 relay) →
      ((decoded pairs).map Prod.fst).map hex32 = pairs.map Sigma.fst := by
    intro pairs hpairs
    induction pairs with
    | nil => rfl
    | cons pair pairs ih =>
      obtain ⟨relay, hrelay⟩ := hpairs pair List.mem_cons_self
      have hdecoded : decoded (pair :: pairs) = (relay, pair.2) :: decoded pairs := by
        unfold decoded
        rw [List.filterMap_cons, hrelay, parseHexRelay_hex32]
        rfl
      rw [hdecoded, List.map_cons, List.map_cons, List.map_cons, hrelay,
        ih fun p hp => hpairs p (List.mem_cons_of_mem _ hp)]
  refine ⟨List.Nodup.of_map hex32 ?_, fun relay x => ?_⟩
  · rw [hkeys]
    · exact o'.nodup_keys_iter _
    · intro pair hpair
      obtain ⟨relay, score, -, rfl⟩ := mem_iter_hexScores.mp hpair
      exact ⟨relay, rfl⟩
  · unfold decoded
    rw [List.mem_filterMap]
    constructor
    · rintro ⟨pair, hpair, heq⟩
      obtain ⟨relay', score, hlookup, rfl⟩ := mem_iter_hexScores.mp hpair
      rw [parseHexRelay_hex32] at heq
      obtain ⟨rfl, rfl⟩ := Prod.mk.inj (Option.some.inj heq)
      exact ⟨score, hlookup, rfl⟩
    · rintro ⟨score, hlookup, rfl⟩
      refine ⟨⟨hex32 relay, score.val⟩, mem_iter_hexScores.mpr ⟨relay, score, hlookup, rfl⟩, ?_⟩
      rw [parseHexRelay_hex32]
      rfl

theorem decoded_perm {pairs pairs' : List (Σ _ : List Char, F64)} (h : pairs.Perm pairs') :
    (decoded pairs).Perm (decoded pairs') := h.filterMap _

/-- **A file whose encoding is that of a ledger loads to its scores**, however it spells them. -/
theorem lookup_of_canonical {file : ReputationLedgerFile} {l : StoredLedger}
    {o o' o₂ : IterOrder (List Char) F64} {o₁ : IterOrder RelayId Score}
    {scores : HashMap RelayId Score}
    (hdecoded : decoded (sortPairs (o.iter file.scores)) =
      decoded (sortPairs (o₂.iter (l.hexScores o₁))))
    (hload : (o'.iter file.scores).foldlM loadScore ∅ = .ok scores) (relay : RelayId) :
    scores.lookup relay = l.scores.lookup relay := by
  have hsort : ∀ pairs, (sortPairs pairs).Perm pairs := fun pairs => List.perm_insertionSort _ _
  have hperm : (decoded (o'.iter file.scores)).Perm (decoded (o₂.iter (l.hexScores o₁))) :=
    calc (decoded (o'.iter file.scores)).Perm (decoded file.scores.entries) :=
          decoded_perm (o'.iter_perm _)
      _ |>.Perm (decoded (sortPairs (o.iter file.scores))) :=
          decoded_perm ((hsort _).trans (o.iter_perm _)).symm
      _ |>.Perm (decoded (o₂.iter (l.hexScores o₁))) := by
          rw [hdecoded]
          exact decoded_perm (hsort _)
  obtain ⟨hnodup, hmem⟩ := decoded_hexScores o₁ o₂ l
  have hkeys : (((decoded (o'.iter file.scores)).map fun e => (e.1, Score.clamp e.2)).map
      Prod.fst).Nodup := by
    rw [List.map_map]
    exact ((hperm.map Prod.fst).nodup_iff).mpr hnodup
  refine Option.ext fun score => ?_
  rw [foldlM_loadScore hload, HashMap.lookup_insertAll hkeys, List.mem_map]
  constructor
  · rintro ⟨⟨r, x⟩, hentry, heq⟩
    obtain ⟨rfl, rfl⟩ := Prod.mk.inj heq
    obtain ⟨score, hlookup, rfl⟩ := (hmem r x).mp (hperm.mem_iff.mp hentry)
    rw [Score.clamp_val]
    exact hlookup
  · intro hlookup
    refine ⟨(relay, score.val), hperm.mem_iff.mpr ((hmem _ _).mpr ⟨score, hlookup, rfl⟩), ?_⟩
    rw [Score.clamp_val]

/-! ## Verified loads -/

variable {E}

/-- An ideal scheme, and an operator that only signs through `save_to_file_signed`: what verifies
under the operator's key is the encoding of a ledger that was signed. -/
def Ideal (E : Ed25519 SK VK) (verifyingKey : VK) (signed : StoredLedger → Prop) : Prop :=
  ∀ m sig, E.verify verifyingKey m sig = true → ∃ l, signed l ∧ ∃ o o',
    m = canonicalLedgerBytes ledgerFileVersion l.decay o' (l.hexScores o)

/-- A file that verifies has a signature over its encoding. -/
theorem verify_of_verifyLedgerFile {o : IterOrder (List Char) F64} {file : ReputationLedgerFile}
    {verifyingKey : VK} (h : verifyLedgerFile E o file verifyingKey = .ok ()) :
    ∃ sig, E.verify verifyingKey (canonicalLedgerBytes file.version file.decay o file.scores) sig =
      true := by
  unfold verifyLedgerFile at h
  split at h
  · split at h
    · cases h
    · split at h
      · cases h
      · split at h
        · cases h
        · split at h
          · exact ⟨_, ‹_›⟩
          · cases h
  · cases h

/-- What a load with a key has checked, and what it returns. -/
theorem of_ofFile {o o' : IterOrder (List Char) F64} {file : ReputationLedgerFile}
    {expectedDecay : F64} {verifyingKey : VK} {l : StoredLedger}
    (h : ofFile E o o' file expectedDecay (some verifyingKey) = .ok l) :
    file.version = ledgerFileVersion ∧ file.decay.apart expectedDecay = false ∧
      verifyLedgerFile E o file verifyingKey = .ok () ∧
      (o'.iter file.scores).foldlM loadScore ∅ = .ok l.scores ∧ l.decay = expectedDecay := by
  unfold ofFile at h
  by_cases hversion : file.version ≠ ledgerFileVersion
  · rw [if_pos hversion] at h
    cases h
  rw [if_neg hversion] at h
  by_cases hdecay : file.decay.apart expectedDecay = true
  · rw [if_pos hdecay] at h
    cases h
  rw [if_neg hdecay, Option.elim_some] at h
  refine ⟨not_not.mp hversion, Bool.not_eq_true _ ▸ hdecay, ?_⟩
  cases hverify : verifyLedgerFile E o file verifyingKey with
  | error e =>
    rw [hverify] at h
    cases h
  | ok _ =>
    rw [hverify] at h
    refine ⟨rfl, ?_⟩
    cases hload : (o'.iter file.scores).foldlM loadScore ∅ with
    | error e =>
      rw [hload] at h
      cases h
    | ok scores =>
      rw [hload] at h
      change fromScores expectedDecay scores = .ok l at h
      unfold fromScores at h
      split at h
      · obtain rfl := Except.ok.inj h
        exact ⟨rfl, rfl⟩
      · cases h

/-- **A verified load returns a snapshot that was signed.**  For every file content, every reading
of it as JSON and every order of its entries: under an ideal scheme, a ledger that is loaded has
the scores of a ledger that the operator signed, with a decay within epsilon of the expected one. -/
theorem scores_of_loadFromFileVerified (E : Ed25519 SK VK) (verifyingKey : VK)
    (signed : StoredLedger → Prop) (hideal : Ideal E verifyingKey signed)
    (fromStr : Text → Except String ReputationLedgerFile) (o o' : IterOrder (List Char) F64)
    (text : Except String Text) (expectedDecay : F64) (l : StoredLedger)
    (hload : loadFromFileVerified E fromStr o o' text expectedDecay verifyingKey = .ok l) :
    ∃ snapshot, signed snapshot ∧ snapshot.decay.apart expectedDecay = false ∧
      ∀ relay, l.scores.lookup relay = snapshot.scores.lookup relay := by
  obtain ⟨file, hfile⟩ : ∃ file, ofFile E o o' file expectedDecay (some verifyingKey) = .ok l := by
    unfold loadFromFileVerified loadFromFileWithVerify at hload
    cases text with
    | error message => cases hload
    | ok text =>
      change (match fromStr text with
        | .error message => Except.error (ReputationError.json message)
        | .ok file => ofFile E o o' file expectedDecay (some verifyingKey)) = .ok l at hload
      cases hparse : fromStr text with
      | error message =>
        rw [hparse] at hload
        cases hload
      | ok file =>
        rw [hparse] at hload
        exact ⟨file, hload⟩
  obtain ⟨hversion, hdecay, hverify, hscores, -⟩ := of_ofFile hfile
  obtain ⟨sig, hsig⟩ := verify_of_verifyLedgerFile hverify
  obtain ⟨snapshot, hsigned, o₁, o₂, hbytes⟩ := hideal _ _ hsig
  rw [hversion] at hbytes
  obtain ⟨hdecay', hdecoded⟩ := canonical_eq_iff.mp hbytes
  refine ⟨snapshot, hsigned, ?_, lookup_of_canonical hdecoded hscores⟩
  rw [← hdecay']
  exact hdecay

/-! ## What was saved is loaded -/

/-- **The encoding does not depend on the order** in which the scores are handed out. -/
theorem sortPairs_iter (o o' : IterOrder (List Char) F64) (scores : HashMap (List Char) F64) :
    sortPairs (o.iter scores) = sortPairs (o'.iter scores) := by
  let r : (Σ _ : List Char, F64) → (Σ _ : List Char, F64) → Prop := fun a b =>
    a.1.map Char.toNat ≤ b.1.map Char.toNat
  have htotal : Std.Total r := ⟨fun a b => le_total (a.1.map Char.toNat) (b.1.map Char.toNat)⟩
  have htrans : IsTrans _ r := ⟨fun a b c hab hbc => le_trans hab hbc⟩
  have hsorted : ∀ pairs, (sortPairs pairs).Pairwise r := fun pairs =>
    List.pairwise_insertionSort r pairs
  have hmem : ∀ (o : IterOrder (List Char) F64) pair, pair ∈ sortPairs (o.iter scores) →
      scores.lookup pair.1 = some pair.2 := fun o pair hpair =>
    IterOrder.mem_iter.mp ((List.perm_insertionSort _ _).mem_iff.mp hpair)
  refine List.Perm.eq_of_pairwise ?_ (hsorted _) (hsorted _) ?_
  · -- two entries with one key are the same
    intro a b ha hb hab hba
    have hkey : a.1 = b.1 :=
      List.map_injective_iff.mpr (fun c d h => Char.ext (UInt32.toNat_inj.mp h))
        (le_antisymm hab hba)
    have hvalue : a.2 = b.2 := by
      have hlookup := hmem o a ha
      rw [hkey, hmem o' b hb] at hlookup
      exact (Option.some.inj hlookup).symm
    exact Sigma.ext hkey (heq_of_eq hvalue)
  · exact (List.perm_insertionSort _ _).trans
      (((o.iter_perm scores).trans (o'.iter_perm scores).symm).trans
        (List.perm_insertionSort _ _).symm)

theorem apart_self (x : F64) : x.apart x = false := by
  unfold F64.apart
  simp

theorem exists_foldlM_loadScore {pairs : List (Σ _ : List Char, F64)}
    (h : ∀ pair ∈ pairs, ∃ relay, parseHexRelay pair.1 = .ok relay) :
    ∃ scores, pairs.foldlM loadScore ∅ = .ok scores := by
  induction pairs using List.reverseRecOn with
  | nil => exact ⟨∅, rfl⟩
  | append_singleton pairs pair ih =>
    obtain ⟨before, hbefore⟩ := ih fun p hp => h p (List.mem_append_left _ hp)
    obtain ⟨relay, hrelay⟩ := h pair (List.mem_append_right _ (List.mem_singleton_self pair))
    refine ⟨before.insert relay (.clamp pair.2), Run.foldlM_concat.mpr ⟨before, hbefore, ?_⟩⟩
    unfold loadScore
    rw [hrelay]

theorem verifyLedgerFile_toFile {sk : SK} {l : StoredLedger} {o₁ : IterOrder RelayId Score}
    {o₂ : IterOrder (List Char) F64}
    (hverify : E.verify (E.verifyingKey sk)
      (canonicalLedgerBytes ledgerFileVersion l.decay o₂ (l.hexScores o₁))
      (E.sign sk (canonicalLedgerBytes ledgerFileVersion l.decay o₂ (l.hexScores o₁))) = true)
    (o : IterOrder (List Char) F64) :
    verifyLedgerFile E o (l.toFile E o₁ o₂ (some sk)) (E.verifyingKey sk) = .ok () := by
  have hbytes : canonicalLedgerBytes ledgerFileVersion l.decay o (l.hexScores o₁) =
      canonicalLedgerBytes ledgerFileVersion l.decay o₂ (l.hexScores o₁) := by
    unfold canonicalLedgerBytes
    rw [sortPairs_iter o o₂]
  unfold verifyLedgerFile toFile
  simp only [Option.map_some]
  rw [parseHex32, parseHexBytes_hexEncodeBytes, parseHex64, parseHexBytes_hexEncodeBytes]
  simp only [ne_eq, not_true_eq_false, if_false]
  rw [hbytes, if_pos hverify]

/-- **What was saved with a signature is loaded**, with the decay and the scores it had. -/
theorem ofFile_toFile {sk : SK} {l : StoredLedger} {o₁ : IterOrder RelayId Score}
    {o₂ : IterOrder (List Char) F64}
    (hverify : E.verify (E.verifyingKey sk)
      (canonicalLedgerBytes ledgerFileVersion l.decay o₂ (l.hexScores o₁))
      (E.sign sk (canonicalLedgerBytes ledgerFileVersion l.decay o₂ (l.hexScores o₁))) = true)
    (hdecay : F64.zero.lt l.decay = true ∧ l.decay.le F64.one = true)
    (o o' : IterOrder (List Char) F64) :
    ∃ l', ofFile E o o' (l.toFile E o₁ o₂ (some sk)) l.decay (some (E.verifyingKey sk)) = .ok l' ∧
      l'.decay = l.decay ∧ ∀ relay, l'.scores.lookup relay = l.scores.lookup relay := by
  have hkeys : ∀ pair ∈ o'.iter (l.hexScores o₁), ∃ relay, parseHexRelay pair.1 = .ok relay := by
    intro pair hpair
    obtain ⟨relay, score, -, rfl⟩ := mem_iter_hexScores.mp hpair
    exact ⟨relay, parseHexRelay_hex32 relay⟩
  obtain ⟨scores, hscores⟩ := exists_foldlM_loadScore hkeys
  have hfile : (l.toFile E o₁ o₂ (some sk)).version = ledgerFileVersion ∧
      (l.toFile E o₁ o₂ (some sk)).decay = l.decay ∧
      (l.toFile E o₁ o₂ (some sk)).scores = l.hexScores o₁ := ⟨rfl, rfl, rfl⟩
  generalize hsaved : l.toFile E o₁ o₂ (some sk) = file at hfile ⊢
  obtain ⟨hversion, hfileDecay, hfileScores⟩ := hfile
  have hdecoded : decoded (sortPairs (o₂.iter file.scores)) =
      decoded (sortPairs (o₂.iter (l.hexScores o₁))) := by rw [hfileScores]
  rw [← hfileScores] at hscores
  refine ⟨⟨l.decay, scores⟩, ?_, rfl, lookup_of_canonical hdecoded hscores⟩
  unfold ofFile
  rw [if_neg (not_not.mpr hversion), hfileDecay, apart_self, Option.elim_some, ← hsaved,
    verifyLedgerFile_toFile hverify, hsaved, hscores]
  simp [fromScores, hdecay.1, hdecay.2]

/-- A ledger with two relays, at 0.5 and 0.25, and a decay of 0.9. -/
def twoRelays : StoredLedger :=
  ⟨⟨0x3FECCCCCCCCCCCCD⟩,
    ((∅ : HashMap RelayId Score).insert (.replicate 32 1) (.clamp ⟨0x3FE0000000000000⟩)).insert
      (.replicate 32 0xAB) (.clamp ⟨0x3FD0000000000000⟩)⟩

/-- What is signed of `twoRelays`. -/
def twoRelaysBytes : List UInt8 :=
  canonicalLedgerBytes ledgerFileVersion twoRelays.decay .latestFirst
    (twoRelays.hexScores .latestFirst)

/-- A scheme under which `twoRelays` has been signed, and nothing else. -/
def twoRelaysEd25519 : Ed25519 UInt8 UInt8 where
  verifyingKey := id
  toBytes := List.Vector.replicate 32
  sign := fun key _ => List.Vector.replicate advertSigLen key
  verify := fun key m signature =>
    decide (m = twoRelaysBytes ∧ signature = List.Vector.replicate advertSigLen key)

/-- The file of `twoRelays`, with the two entries the other way round, one id behind a blank and
`0x`, and the other in capitals. -/
def respelledFile : ReputationLedgerFile :=
  { twoRelays.toFile twoRelaysEd25519 .latestFirst .latestFirst (some 1) with
    scores :=
      ((∅ : HashMap (List Char) F64).insert ((hex32 (.replicate 32 0xAB)).map Char.toUpper)
        ⟨0x3FD0000000000000⟩).insert (' ' :: '0' :: 'x' :: hex32 (.replicate 32 1))
        ⟨0x3FE0000000000000⟩ }

/-- A respelled file is loaded, and the scores are those that were signed. -/
theorem scores_of_loadFromFileVerified_respelled :
    ∃ l, loadFromFileVerified twoRelaysEd25519 (Except.ok : ReputationLedgerFile → _)
        .latestFirst (.lastly ((hex32 (.replicate 32 0xAB)).map Char.toUpper))
        (.ok respelledFile) twoRelays.decay 1 = .ok l ∧
      respelledFile.scores.lookup (hex32 (.replicate 32 1)) = none ∧
      ∀ relay, l.scores.lookup relay = twoRelays.scores.lookup relay := by
  have hideal : Ideal twoRelaysEd25519 1 (· = twoRelays) := by
    intro m sig h
    obtain ⟨rfl, -⟩ := of_decide_eq_true h
    exact ⟨twoRelays, rfl, .latestFirst, .latestFirst, rfl⟩
  have hload : (loadFromFileVerified twoRelaysEd25519 (Except.ok : ReputationLedgerFile → _)
      .latestFirst (.lastly ((hex32 (.replicate 32 0xAB)).map Char.toUpper))
      (.ok respelledFile) twoRelays.decay 1).isOk = true := by decide +kernel
  cases hresult : loadFromFileVerified twoRelaysEd25519 (Except.ok : ReputationLedgerFile → _)
      .latestFirst (.lastly ((hex32 (.replicate 32 0xAB)).map Char.toUpper))
      (.ok respelledFile) twoRelays.decay 1 with
  | error e =>
    rw [hresult] at hload
    cases hload
  | ok l =>
    obtain ⟨_, rfl, -, hscores⟩ :=
      scores_of_loadFromFileVerified twoRelaysEd25519 1 _ hideal .ok _ _ _ _ l hresult
    exact ⟨l, rfl, by decide +kernel, hscores⟩

end StoredLedger

end Aegis
