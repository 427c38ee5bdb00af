import Aegis.Topology.Ceremony
import Aegis.Trust.LedgerFile

/-!
# The protection of key seeds (`kem_seed_protect.rs`)

The seeds of a relay's keys are stored as they are, sealed for the user, or in the user's keychain;
the file then names the entry.  Which it is can be told from the file.

* `unprotect_of_protect` — **what has been protected is recovered**.
* `unprotect_of_not_points`, `unprotect_of_points` — what is in the keychain needs it, and nothing
  else does.
-/

namespace Aegis

open Buffer

/-! ## Machines -/

/-- A file: its mode and its contents. -/
structure StoredFile where
  /-- The permission bits. -/
  mode : ℕ
  contents : List UInt8
  deriving DecidableEq

/-- What outlasts a process: the files, and the entries of the service in the user's keychain. -/
structure Machine where
  files : FilePath → Option StoredFile
  keychain : List Char → Option (List Char)

/-- The target, and the feature that protects seeds there. -/
inductive Build where
  /-- Windows with `kem-dpapi`. -/
  | dpapi
  /-- Unix with `kem-keyring`. -/
  | keyring
  /-- Unix without. -/
  | unix
  /-- Windows without. -/
  | windows
  deriving DecidableEq

/-- The build runs on Unix. -/
def Build.isUnix : Build → Bool
  | .keyring | .unix => true
  | .dpapi | .windows => false

/-- What a process finds while it boots. -/
structure BootEnv where
  /-- Whether the keychain can be reached. -/
  keychain : Except String Unit
  /-- `CryptProtectData`, for the user. -/
  encrypt : List UInt8 → Except String (List UInt8)
  /-- Whether a file can be read, if it is there. -/
  read : FilePath → Except String Unit
  /-- Whether a file can be written. -/
  write : FilePath → Except String Unit
  /-- The bytes of the generator. -/
  rng : ℕ → UInt8

/-- `Path::display`. -/
def displayPath (path : FilePath) : String :=
  (if path.head? = some ['/'] then "/" else "") ++
    "/".intercalate ((path.filter (· ≠ ['/'])).map String.ofList)

/-! ## Protection (`kem_seed_protect.rs`) -/

/-- What a file that DPAPI has sealed begins with. -/
def kemSeedDpapiMagic : List UInt8 := ascii "AEGIS-KEM-DPAPI-v1\x00"

/-- What a file that points to the keychain begins with. -/
def kemSeedKeyringMagic : List UInt8 := ascii "AEGIS-KEM-KEYRING-v1\x00"

/-- DPAPI has sealed the file. -/
def isDpapiProtected (data : List UInt8) : Bool := kemSeedDpapiMagic.isPrefixOf data

/-- The file points to the keychain. -/
def isKeyringProtected (data : List UInt8) : Bool := kemSeedKeyringMagic.isPrefixOf data

/-- `str::from_utf8`. -/
def fromUtf8 (bytes : List UInt8) : Option (List Char) :=
  bytes.toByteArray.utf8Decode?.map Array.toList

section Protection

variable (decrypt : List UInt8 → Except String (List UInt8)) (b : Build) (env : BootEnv)

/-- `assert_kem_seed_file_mode_safe`, of a file that is there. -/
def assertKemSeedFileModeSafe (path : FilePath) (file : StoredFile) : Except String Unit :=
  let mode := file.mode &&& 0o777
  if b.isUnix ∧ mode &&& 0o077 ≠ 0 then
    .error ("kem.seeds at " ++ displayPath path ++ " has insecure mode " ++
      String.ofList (Nat.toDigits 8 mode) ++
      " (group/world access); expected owner-only (0600 or tighter)")
  else .ok ()

/-- `kem_keyring_account`. -/
def kemKeyringAccount (sha3 : List UInt8 → Bytes 32) (configPath : List Char)
    (relayIdHex : Option (List Char)) : List Char :=
  let byPath := "kem:cfg:".toList ++ StoredLedger.hexEncodeBytes
    (sha3 (ascii "aegis-kem-seed-v1" ++ utf8 configPath)).toList
  match relayIdHex with
  | none => byPath
  | some id =>
    let id := StoredLedger.trimStart0x (trimLabel id)
    if id = [] then byPath else "kem:relay:".toList ++ id

/-- `keyring_store`. -/
def keyringStore (m : Machine) (account : List Char) (plaintext : List UInt8) :
    Except String Machine :=
  match fromUtf8 plaintext with
  | none => .error "kem seed plaintext is not UTF-8"
  | some text =>
    match env.keychain with
    | .error e => .error ("keyring set_password: " ++ e)
    | .ok () => .ok { m with keychain := Function.update m.keychain account (some text) }

/-- `keyring_load`. -/
def keyringLoad (m : Machine) (account : List Char) : Except String (List UInt8) :=
  match env.keychain with
  | .error e => .error ("keyring get_password: " ++ e)
  | .ok () =>
    match m.keychain account with
    | none => .error "keyring get_password: no entry"
    | some text => .ok (utf8 text)

/-- `protect_seed_bytes`: what is to be stored. -/
def protectSeedBytes (m : Machine) (plaintext : List UInt8) (account : List Char) :
    Except String (List UInt8 × Machine) :=
  match b with
  | .dpapi =>
    match env.encrypt plaintext with
    | .error e => .error ("DPAPI CryptProtectData failed: " ++ e)
    | .ok cipher => .ok (kemSeedDpapiMagic ++ cipher, m)
  | .keyring =>
    match keyringStore env m account plaintext with
    | .ok m => .ok (kemSeedKeyringMagic ++ utf8 account, m)
    -- the file is all there is then
    | .error _ => .ok (plaintext, m)
  | .unix | .windows => .ok (plaintext, m)

/-- `unprotect_seed_bytes`; `decrypt` is `CryptUnprotectData`, for the user. -/
def unprotectSeedBytes (m : Machine) (data : List UInt8) : Except String (List UInt8) :=
  if isDpapiProtected data then
    if b = .dpapi then
      (decrypt (data.drop kemSeedDpapiMagic.length)).mapError
        ("DPAPI CryptUnprotectData failed: " ++ ·)
    else
      .error "kem.seeds is DPAPI-protected but this build has no kem-dpapi / Windows support"
  else if isKeyringProtected data then
    match fromUtf8 (data.drop kemSeedKeyringMagic.length) with
    | none => .error "kem.seeds keyring pointer account is not UTF-8"
    | some account =>
      if b = .keyring then keyringLoad env m account
      else
        .error ("kem.seeds is keyring-protected (account=" ++ String.ofList account ++
          ") but this build has no kem-keyring / Unix support")
  else .ok data

end Protection

/-! ## What is recovered -/

theorem fromUtf8_utf8 (s : List Char) : fromUtf8 (utf8 s) = some s := by
  have h := List.utf8Decode?_utf8Encode (l := s)
  unfold fromUtf8
  rw [show (utf8 s).toByteArray = s.utf8Encode from rfl, h]
  simp

/-- Whether the keychain answers. -/
def BootEnv.answers (env : BootEnv) : Bool := env.keychain.isOk

theorem BootEnv.keychain_of_answers {env : BootEnv} (h : env.answers = true) :
    env.keychain = .ok () := by
  unfold BootEnv.answers at h
  cases hkeychain : env.keychain with
  | ok => rfl
  | error e =>
    rw [hkeychain] at h
    cases h

theorem BootEnv.keychain_of_not_answers {env : BootEnv} (h : env.answers = false) :
    ∃ e, env.keychain = .error e := by
  unfold BootEnv.answers at h
  cases hkeychain : env.keychain with
  | error e => exact ⟨e, rfl⟩
  | ok =>
    rw [hkeychain] at h
    cases h

section Recovery

variable (decrypt : List UInt8 → Except String (List UInt8)) (b : Build)

theorem isDpapiProtected_append (cipher : List UInt8) :
    isDpapiProtected (kemSeedDpapiMagic ++ cipher) = true :=
  List.isPrefixOf_iff_prefix.mpr (List.prefix_append _ _)

theorem isKeyringProtected_append (account : List UInt8) :
    isKeyringProtected (kemSeedKeyringMagic ++ account) = true :=
  List.isPrefixOf_iff_prefix.mpr (List.prefix_append _ _)

/-- The magics differ. -/
theorem not_isDpapiProtected_keyring (account : List UInt8) :
    isDpapiProtected (kemSeedKeyringMagic ++ account) = false := by
  have hdpapi : kemSeedDpapiMagic = ascii "AEGIS-KEM-" ++ 68 :: ascii "PAPI-v1\x00" := by decide
  have hkeyring : kemSeedKeyringMagic = ascii "AEGIS-KEM-" ++ 75 :: ascii "EYRING-v1\x00" := by
    decide
  rw [Bool.eq_false_iff]
  intro h
  have hprefix := List.isPrefixOf_iff_prefix.mp h
  rw [hdpapi, hkeyring, List.append_assoc, List.prefix_append_right_inj] at hprefix
  simp at hprefix

/-- Text that begins otherwise is neither. -/
theorem not_protected_of_head {text : List Char} (h : text.head? = some 'x') :
    isDpapiProtected (utf8 text) = false ∧ isKeyringProtected (utf8 text) = false := by
  obtain ⟨rest, rfl⟩ : ∃ rest, text = 'x' :: rest := by
    cases text with
    | nil => cases h
    | cons c rest =>
      obtain rfl := Option.some.inj h
      exact ⟨rest, rfl⟩
  have hbytes : utf8 ('x' :: rest) = 120 :: utf8 rest := rfl
  have hdpapi : kemSeedDpapiMagic = 65 :: ascii "EGIS-KEM-DPAPI-v1\x00" := by decide
  have hkeyring : kemSeedKeyringMagic = 65 :: ascii "EGIS-KEM-KEYRING-v1\x00" := by decide
  unfold isDpapiProtected isKeyringProtected
  rw [hbytes, hdpapi, hkeyring]
  exact ⟨rfl, rfl⟩

/-- Whether what a file holds names an entry of the keychain. -/
def pointsToKeychain (data : List UInt8) : Bool :=
  decide (b = .keyring) && !isDpapiProtected data && isKeyringProtected data

/-- Only what is in the keychain needs it. -/
theorem unprotect_of_not_points {data : List UInt8} (h : pointsToKeychain b data = false)
    (env env' : BootEnv) (m : Machine) :
    unprotectSeedBytes decrypt b env m data = unprotectSeedBytes decrypt b env' m data := by
  unfold pointsToKeychain at h
  unfold unprotectSeedBytes
  cases hdpapi : isDpapiProtected data with
  | true => rfl
  | false =>
    cases hkeyring : isKeyringProtected data with
    | false => rfl
    | true =>
      have hb : b ≠ .keyring := by
        intro hb
        simp [hb, hdpapi, hkeyring] at h
      simp [hb]

/-- A keychain that answers is as good as another. -/
theorem unprotect_of_answers {env env' : BootEnv} (h : env.answers = true)
    (h' : env'.answers = true) (m : Machine) (data : List UInt8) :
    unprotectSeedBytes decrypt b env m data = unprotectSeedBytes decrypt b env' m data := by
  unfold unprotectSeedBytes keyringLoad
  rw [BootEnv.keychain_of_answers h, BootEnv.keychain_of_answers h']

/-- What is in the keychain is out of reach when it does not answer. -/
theorem unprotect_of_points {data : List UInt8} (h : pointsToKeychain b data = true)
    {env : BootEnv} (hdown : env.answers = false) (m : Machine) :
    ∃ e, unprotectSeedBytes decrypt b env m data = .error e := by
  obtain ⟨e, he⟩ := BootEnv.keychain_of_not_answers hdown
  unfold pointsToKeychain at h
  simp only [Bool.and_eq_true, decide_eq_true_eq, Bool.not_eq_true'] at h
  obtain ⟨⟨rfl, hdpapi⟩, hkeyring⟩ := h
  unfold unprotectSeedBytes keyringLoad
  rw [hdpapi, hkeyring, he]
  cases fromUtf8 (data.drop kemSeedKeyringMagic.length) with
  | none => exact ⟨_, rfl⟩
  | some account => exact ⟨_, rfl⟩

/-- **What has been protected is recovered**, by way of the keychain only if it has answered. -/
theorem unprotect_of_protect {env : BootEnv} (m : Machine) {text : List Char}
    (htext : text.head? = some 'x') (account : List Char)
    (hsealed : b = .dpapi → ∃ cipher, env.encrypt (utf8 text) = .ok cipher ∧
      decrypt cipher = .ok (utf8 text)) :
    ∃ stored m', protectSeedBytes b env m (utf8 text) account = .ok (stored, m') ∧
      m'.files = m.files ∧ unprotectSeedBytes decrypt b env m' stored = .ok (utf8 text) ∧
      pointsToKeychain b stored = (decide (b = .keyring) && env.answers) := by
  obtain ⟨hnodpapi, hnokeyring⟩ := not_protected_of_head htext
  have hplain : unprotectSeedBytes decrypt b env m (utf8 text) = .ok (utf8 text) := by
    unfold unprotectSeedBytes
    rw [hnodpapi, hnokeyring]
    rfl
  have hpoints : pointsToKeychain b (utf8 text) = false := by
    unfold pointsToKeychain
    rw [hnokeyring, Bool.and_false]
  unfold protectSeedBytes
  cases b with
  | unix | windows => exact ⟨_, _, rfl, rfl, hplain, rfl⟩
  | dpapi =>
    obtain ⟨cipher, hencrypt, hdecrypt⟩ := hsealed rfl
    refine ⟨kemSeedDpapiMagic ++ cipher, m, by rw [hencrypt], rfl, ?_, rfl⟩
    unfold unprotectSeedBytes
    rw [isDpapiProtected_append, List.drop_left, hdecrypt]
    rfl
  | keyring =>
    cases hanswers : env.answers with
    | false =>
      obtain ⟨e, he⟩ := BootEnv.keychain_of_not_answers hanswers
      refine ⟨utf8 text, m, ?_, rfl, hplain, hpoints⟩
      simp only [keyringStore, fromUtf8_utf8, he]
    | true =>
      have hkeychain := BootEnv.keychain_of_answers hanswers
      refine ⟨kemSeedKeyringMagic ++ utf8 account,
        { m with keychain := Function.update m.keychain account (some text) }, ?_, rfl, ?_, ?_⟩
      · simp only [keyringStore, fromUtf8_utf8, hkeychain]
      · unfold unprotectSeedBytes keyringLoad
        rw [not_isDpapiProtected_keyring, isKeyringProtected_append, List.drop_left, fromUtf8_utf8,
          hkeychain]
        simp
      · unfold pointsToKeychain
        rw [not_isDpapiProtected_keyring, isKeyringProtected_append]
        rfl

/-- What is recovered depends on the machine by its keychain only. -/
theorem unprotect_of_keychain_eq {m m' : Machine} (h : m'.keychain = m.keychain) (env : BootEnv)
    (data : List UInt8) :
    unprotectSeedBytes decrypt b env m' data = unprotectSeedBytes decrypt b env m data := by
  unfold unprotectSeedBytes keyringLoad
  rw [h]

end Recovery

end Aegis
