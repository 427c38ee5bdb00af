import Aegis.Client.Hops
import Aegis.Node.KemProtect

/-!
# The seeds of a relay's keys across restarts (`config.rs`)

A node draws the seeds of its KEM keys when it cannot resolve any, and stores them: in its
configuration, or in a file of their own.

* `boot_of_unresolved` — a node that resolves no seeds draws them, and holds them from then on.
* `boots_eq` — **a node that boots again and again keeps its keys**, and writes nothing more.  When
  the keychain that has them does not answer it draws others, once and for all; over a file that
  others can open it writes new seeds at every start, and never comes up.
-/

namespace Aegis

open Buffer

/-- What a start fails with. -/
inductive ConfigError where
  | io (message : String)
  | toml (message : String)
  | serialize (message : String)
  | hex (message : String)
  | missingKem
  | incompleteKem
  | kemProtect (message : String)
  deriving DecidableEq

/-! ## Paths -/

/-- `PathBuf::from`: a file, by the components of its path. -/
def filePathOf (s : List Char) : FilePath :=
  let components := (s.splitOn '/').filter fun c => c ≠ [] ∧ c ≠ ['.']
  if s.head? = some '/' then ['/'] :: components else components

/-- `kem.seeds`. -/
def defaultKemSeedFilename : List Char := "kem.seeds".toList

/-! ## Configuration -/

/-- The three seeds, in hexadecimal. -/
structure KemSeeds where
  x25519Seed : List Char
  mlkemD : List Char
  mlkemZ : List Char
  deriving DecidableEq

/-- The section of the configuration on the seeds. -/
structure KemFileConfig where
  file : Option (List Char)
  allowPlaintextKem : Bool
  x25519Seed : Option (List Char)
  mlkemD : Option (List Char)
  mlkemZ : Option (List Char)
  deriving DecidableEq

namespace KemFileConfig

/-- What stands for a section that is not there. -/
def default : KemFileConfig := ⟨none, false, none, none, none⟩

/-- Some seed is in the configuration itself. -/
def hasAnyInline (kem : KemFileConfig) : Bool :=
  kem.x25519Seed.isSome || kem.mlkemD.isSome || kem.mlkemZ.isSome

/-- The seeds of the configuration itself, if all three are there. -/
def inlineSeeds (kem : KemFileConfig) : Option KemSeeds :=
  match kem.x25519Seed, kem.mlkemD, kem.mlkemZ with
  | some x, some d, some z => some ⟨x, d, z⟩
  | _, _, _ => none

/-- `kem_seed_file_path`. -/
def seedFilePath (configPath : List Char) (kem : KemFileConfig) : FilePath :=
  match kem.file with
  | some f =>
    if f.head? = some '/' then filePathOf f else (filePathOf configPath).dropLast ++ filePathOf f
  | none => (filePathOf configPath).dropLast ++ [defaultKemSeedFilename]

end KemFileConfig

/-- The configuration of a node; `ω` has its other sections. -/
structure NodeConfigFile (ω : Type) where
  relayId : List Char
  kem : Option KemFileConfig
  rest : ω
  deriving DecidableEq

/-- What the node takes from other crates. -/
structure NodeEnv {ρ : Type} (C : Suite ρ) (ω : Type) where
  keys : KemKeys C
  /-- `toml::to_string`. -/
  seedsToToml : KemSeeds → Except String (List Char)
  /-- `toml::from_str`. -/
  seedsFromToml : List Char → Except String KemSeeds
  /-- `toml::to_string_pretty`. -/
  configToToml : NodeConfigFile ω → Except String (List Char)
  /-- `toml::from_str`. -/
  configFromToml : List Char → Except String (NodeConfigFile ω)
  /-- `CryptUnprotectData`, for the user. -/
  decrypt : List UInt8 → Except String (List UInt8)

/-! ## Seeds (`config.rs`) -/

/-- `fill_bytes` of 32 bytes, `n` bytes on. -/
def fillSeed (rng : ℕ → UInt8) (n : ℕ) : Bytes 32 := List.Vector.ofFn fun i => rng (n + i)

/-- `generate_kem_seeds`. -/
def generateKemSeeds (rng : ℕ → UInt8) : KemSeeds where
  x25519Seed := StoredLedger.hexEncodeBytes (fillSeed rng 0).toList
  mlkemD := StoredLedger.hexEncodeBytes (fillSeed rng 32).toList
  mlkemZ := StoredLedger.hexEncodeBytes (fillSeed rng 64).toList

section Seeds

variable {ρ ω : Type} {C : Suite ρ} (N : NodeEnv C ω) (b : Build) (env : BootEnv)

/-- `fs::read`. -/
def readFile (m : Machine) (path : FilePath) : Except String (List UInt8) :=
  match m.files path with
  | none => .error "not found"
  | some file => (env.read path).map fun () => file.contents

/-- What a file that is written has in the end; a new one gets the mode. -/
def put (m : Machine) (path : FilePath) (mode : ℕ) (contents : List UInt8) : Machine :=
  { m with
    files := Function.update m.files path
      (some ⟨((m.files path).map StoredFile.mode).getD mode, contents⟩) }

/-- `write_restricted_file`, or `fs::write` with the mode that it creates files with. -/
def writeFile (m : Machine) (path : FilePath) (mode : ℕ) (contents : List UInt8) :
    Except ConfigError Unit × Machine :=
  match env.write path with
  | .error e => (.error (.io e), m)
  | .ok () => (.ok (), put m path mode contents)

/-- `resolve_kem_seeds`. -/
def resolveKemSeeds (m : Machine) (configPath : List Char) (kem : KemFileConfig) :
    Except ConfigError KemSeeds :=
  if kem.hasAnyInline then
    match kem.inlineSeeds with
    | some seeds => .ok seeds
    | none => .error .incompleteKem
  else
    match m.files (kem.seedFilePath configPath) with
    | none => .error .missingKem
    | some file =>
      match assertKemSeedFileModeSafe b (kem.seedFilePath configPath) file with
      | .error e => .error (.kemProtect e)
      | .ok () =>
        match readFile env m (kem.seedFilePath configPath) with
        | .error e => .error (.io e)
        | .ok raw =>
          match unprotectSeedBytes N.decrypt b env m raw with
          | .error e => .error (.kemProtect e)
          | .ok plain =>
            match fromUtf8 plain with
            | none => .error (.kemProtect "kem seed plaintext is not UTF-8")
            | some text => (N.seedsFromToml text).mapError .toml

/-- `persist_kem_seeds_file_with_account`. -/
def persistKemSeedsFile (m : Machine) (path : FilePath) (seeds : KemSeeds) (account : List Char) :
    Except ConfigError Unit × Machine :=
  match N.seedsToToml seeds with
  | .error e => (.error (.serialize e), m)
  | .ok text =>
    match protectSeedBytes b env m (utf8 text) account with
    | .error e => (.error (.kemProtect e), m)
    | .ok (stored, m) => writeFile env m path 0o600 stored

/-- `toml::to_string_pretty` and `fs::write`. -/
def writeConfig (m : Machine) (configPath : List Char) (file : NodeConfigFile ω) :
    Except ConfigError (NodeConfigFile ω) × Machine :=
  match N.configToToml file with
  | .error e => (.error (.serialize e), m)
  | .ok text =>
    let (result, m) := writeFile env m (filePathOf configPath) 0o644 (utf8 text)
    (result.map fun () => file, m)

/-- The configuration with the seeds in it. -/
def NodeConfigFile.withInlineSeeds (file : NodeConfigFile ω) (kem : KemFileConfig)
    (seeds : KemSeeds) : NodeConfigFile ω :=
  { file with
    kem := some { kem with
      x25519Seed := some seeds.x25519Seed
      mlkemD := some seeds.mlkemD
      mlkemZ := some seeds.mlkemZ } }

/-- The configuration with the name of the file that has the seeds. -/
def NodeConfigFile.withSeedFile (file : NodeConfigFile ω) (kem : KemFileConfig) :
    NodeConfigFile ω :=
  { file with
    kem := some { kem with
      file := some (kem.file.getD defaultKemSeedFilename)
      x25519Seed := none
      mlkemD := none
      mlkemZ := none } }

/-- `load_or_init_kem`: the configuration in memory, and what is on the machine. -/
def loadOrInitKem (m : Machine) (configPath : List Char) (file : NodeConfigFile ω) :
    Except ConfigError (NodeConfigFile ω) × Machine :=
  let kem := file.kem.getD .default
  match resolveKemSeeds N b env m configPath kem with
  | .ok _ => (.ok { file with kem := some kem }, m)
  | .error _ =>
    let seeds := generateKemSeeds env.rng
    if kem.allowPlaintextKem then
      writeConfig N env m configPath (file.withInlineSeeds kem seeds)
    else
      match persistKemSeedsFile N b env m (kem.seedFilePath configPath) seeds
          (kemKeyringAccount C.sha3 configPath (some file.relayId)) with
      | (.error e, m) => (.error e, m)
      | (.ok (), m) => writeConfig N env m configPath (file.withSeedFile kem)

/-- `parse_hex32`. -/
def parseSeed (s : List Char) : Except ConfigError (Bytes 32) :=
  (parseRosterKey s).mapError fun
    | .hex message => .hex message
    | .roster _ => .missingKem

/-- The keys of the seeds. -/
def keysOfSeeds (seeds : KemSeeds) : Except ConfigError (RelayKemSecret C) := do
  let x ← parseSeed seeds.x25519Seed
  let d ← parseSeed seeds.mlkemD
  let z ← parseSeed seeds.mlkemZ
  pure (RelayKemSecret.generateDeterministic N.keys x d z).1

/-- `into_runtime`, as far as the keys go. -/
def NodeConfigFile.kemSecret (m : Machine) (configPath : List Char) (file : NodeConfigFile ω) :
    Except ConfigError (RelayKemSecret C) :=
  match file.kem with
  | none => .error .missingKem
  | some kem =>
    match resolveKemSeeds N b env m configPath kem with
    | .error e => .error e
    | .ok seeds => keysOfSeeds N seeds

/-- `NodeConfigFile::load`. -/
def NodeConfigFile.load (m : Machine) (configPath : List Char) :
    Except ConfigError (NodeConfigFile ω) :=
  match readFile env m (filePathOf configPath) with
  | .error e => .error (.io e)
  | .ok bytes =>
    match fromUtf8 bytes with
    | none => .error (.io "stream did not contain valid UTF-8")
    | some text => (N.configFromToml text).mapError .toml

/-- A start of the node, `run_relay`, up to its keys. -/
def boot (configPath : List Char) (m : Machine) :
    Except ConfigError (RelayKemSecret C) × Machine :=
  match NodeConfigFile.load N env m configPath with
  | .error e => (.error e, m)
  | .ok file =>
    match loadOrInitKem N b env m configPath file with
    | (.error e, m) => (.error e, m)
    | (.ok file, m) => (file.kemSecret N b env m configPath, m)

/-- A node that is started again and again: what each start gives, and the machine after it. -/
def boots (configPath : List Char) : Machine → List BootEnv →
    List (Except ConfigError (RelayKemSecret C) × Machine)
  | _, [] => []
  | m, env :: envs =>
    let start := boot N b env configPath m
    start :: boots configPath start.2 envs

end Seeds

/-! ## What is recovered -/

theorem parseSeed_hexEncodeBytes (seed : Bytes 32) :
    parseSeed (StoredLedger.hexEncodeBytes seed.toList) = .ok seed := by
  unfold parseSeed
  rw [RelayRoster.parseRosterKey_hexEncodeBytes]
  rfl

section Recovery

variable {ρ ω : Type} {C : Suite ρ} (N : NodeEnv C ω) (b : Build)

/-- The keys that a generator's bytes give. -/
def freshKeys (rng : ℕ → UInt8) : RelayKemSecret C :=
  (RelayKemSecret.generateDeterministic N.keys (fillSeed rng 0) (fillSeed rng 32)
    (fillSeed rng 64)).1

/-- Seeds that were drawn give keys. -/
theorem keysOfSeeds_generate (rng : ℕ → UInt8) :
    keysOfSeeds N (generateKemSeeds rng) = .ok (freshKeys N rng) := by
  unfold keysOfSeeds generateKemSeeds
  simp only [parseSeed_hexEncodeBytes]
  rfl

/-- The configuration that a node which has drawn seeds writes. -/
def NodeConfigFile.initialized (file : NodeConfigFile ω) (seeds : KemSeeds) : NodeConfigFile ω :=
  if (file.kem.getD .default).allowPlaintextKem then
    file.withInlineSeeds (file.kem.getD .default) seeds
  else file.withSeedFile (file.kem.getD .default)

/-- What is written in TOML is read back. -/
structure NodeEnv.ReadsBack : Prop where
  seeds : ∀ rng, ∃ text, N.seedsToToml (generateKemSeeds rng) = .ok text ∧
    N.seedsFromToml text = .ok (generateKemSeeds rng) ∧ text.head? = some 'x'
  config : ∀ text file, N.configFromToml text = .ok file → ∀ rng,
    ∃ text', N.configToToml (file.initialized (generateKemSeeds rng)) = .ok text' ∧
      N.configFromToml text' = .ok (file.initialized (generateKemSeeds rng))

/-- Files can be read and written, and what is sealed for the user is opened. -/
structure BootEnv.Healthy (env : BootEnv) : Prop where
  read : ∀ path, env.read path = .ok ()
  write : ∀ path, env.write path = .ok ()
  sealed : b = .dpapi → ∀ plain, ∃ cipher, env.encrypt plain = .ok cipher ∧
    N.decrypt cipher = .ok plain

/-! ## Resolving seeds -/

/-- Whether the seeds are in the keychain. -/
def needsKeychain (m : Machine) (configPath : List Char) (kem : KemFileConfig) : Bool :=
  !kem.hasAnyInline &&
    (m.files (kem.seedFilePath configPath)).any fun file => pointsToKeychain b file.contents

variable {N b}

theorem readFile_of_healthy {env : BootEnv} (henv : env.Healthy N b) {m : Machine} {path : FilePath}
    {file : StoredFile} (hfile : m.files path = some file) :
    readFile env m path = .ok file.contents := by
  unfold readFile
  rw [hfile, henv.read]
  rfl

/-- Only what is in the keychain needs it. -/
theorem resolve_of_not_needs {m : Machine} {configPath : List Char} {kem : KemFileConfig}
    (h : needsKeychain b m configPath kem = false) {env env' : BootEnv} (henv : env.Healthy N b)
    (henv' : env'.Healthy N b) :
    resolveKemSeeds N b env m configPath kem = resolveKemSeeds N b env' m configPath kem := by
  unfold resolveKemSeeds
  unfold needsKeychain at h
  cases hinline : kem.hasAnyInline with
  | true => rfl
  | false =>
    cases hfile : m.files (kem.seedFilePath configPath) with
    | none => rfl
    | some file =>
      rw [hinline, hfile] at h
      simp only [readFile_of_healthy henv hfile, readFile_of_healthy henv' hfile,
        unprotect_of_not_points N.decrypt b h env env']

/-- A keychain that answers is as good as another. -/
theorem resolve_of_answers (m : Machine) (configPath : List Char) (kem : KemFileConfig)
    {env env' : BootEnv} (henv : env.Healthy N b) (henv' : env'.Healthy N b)
    (h : env.answers = true) (h' : env'.answers = true) :
    resolveKemSeeds N b env m configPath kem = resolveKemSeeds N b env' m configPath kem := by
  unfold resolveKemSeeds
  cases hfile : m.files (kem.seedFilePath configPath) with
  | none => rfl
  | some file =>
    simp only [readFile_of_healthy henv hfile, readFile_of_healthy henv' hfile,
      unprotect_of_answers N.decrypt b h h']

/-- Seeds that are in the keychain are out of reach when it does not answer. -/
theorem resolve_of_needs {m : Machine} {configPath : List Char} {kem : KemFileConfig}
    (h : needsKeychain b m configPath kem = true) {env : BootEnv} (henv : env.Healthy N b)
    (hdown : env.answers = false) :
    ∃ e, resolveKemSeeds N b env m configPath kem = .error e := by
  unfold needsKeychain at h
  unfold resolveKemSeeds
  cases hinline : kem.hasAnyInline with
  | true => simp [hinline] at h
  | false =>
    cases hfile : m.files (kem.seedFilePath configPath) with
    | none => simp [hfile] at h
    | some file =>
      rw [hinline, hfile] at h
      obtain ⟨e, he⟩ := unprotect_of_points N.decrypt b h hdown m
      simp only [readFile_of_healthy henv hfile, he]
      cases assertKemSeedFileModeSafe b (kem.seedFilePath configPath) file with
      | error e => exact ⟨_, rfl⟩
      | ok => exact ⟨_, rfl⟩

/-! ## What the machine holds -/

variable (N b)

/-- A node can be started: its configuration is there, and other than the file of the seeds. -/
structure Bootable (m : Machine) (configPath : List Char) (file : NodeConfigFile ω) : Prop where
  load : ∃ stored text, m.files (filePathOf configPath) = some stored ∧
    fromUtf8 stored.contents = some text ∧ N.configFromToml text = .ok file
  apart : (file.kem.getD .default).seedFilePath configPath ≠ filePathOf configPath

/-- On Unix, nobody but its owner can open the file, if it is there. -/
def OwnerOnly (m : Machine) (path : FilePath) : Prop :=
  b.isUnix = true → ∀ stored, m.files path = some stored → stored.mode &&& 0o777 &&& 0o077 = 0

/-- The machine holds the seeds. -/
structure Holds (m : Machine) (configPath : List Char) (file : NodeConfigFile ω)
    (seeds : KemSeeds) : Prop extends Bootable N m configPath file where
  resolves : ∀ env : BootEnv, env.Healthy N b →
    (needsKeychain b m configPath (file.kem.getD .default) = true → env.answers = true) →
    resolveKemSeeds N b env m configPath (file.kem.getD .default) = .ok seeds

variable {N b}

/-- What stands in a file that others can open is not read. -/
theorem ownerOnly_of_resolve {env : BootEnv} {m : Machine} {configPath : List Char}
    {kem : KemFileConfig} {seeds : KemSeeds} (hinline : kem.hasAnyInline = false)
    (h : resolveKemSeeds N b env m configPath kem = .ok seeds) :
    OwnerOnly b m (kem.seedFilePath configPath) := by
  intro hunix stored hstored
  by_contra hmode
  unfold resolveKemSeeds assertKemSeedFileModeSafe at h
  rw [hinline, hstored] at h
  simp [hunix, hmode] at h

/-- Seeds that can be resolved now can be resolved later. -/
theorem Bootable.holds {m : Machine} {configPath : List Char} {file : NodeConfigFile ω}
    (h : Bootable N m configPath file) {env : BootEnv} (henv : env.Healthy N b) {seeds : KemSeeds}
    (hseeds : resolveKemSeeds N b env m configPath (file.kem.getD .default) = .ok seeds) :
    Holds N b m configPath file seeds := by
  refine ⟨h, fun env' henv' hneeds' => ?_⟩
  rw [← hseeds]
  cases hneeds : needsKeychain b m configPath (file.kem.getD .default) with
  | false => exact resolve_of_not_needs hneeds henv' henv
  | true =>
    refine resolve_of_answers m configPath _ henv' henv (hneeds' hneeds) ?_
    by_contra hdown
    obtain ⟨e, he⟩ := resolve_of_needs hneeds henv (Bool.eq_false_iff.mpr hdown)
    rw [he] at hseeds
    cases hseeds

/-- The file that the seeds were read from is its owner's alone. -/
theorem Holds.ownerOnly {m : Machine} {configPath : List Char} {file : NodeConfigFile ω}
    {seeds : KemSeeds} (h : Holds N b m configPath file seeds) {env : BootEnv}
    (henv : env.Healthy N b) (hinline : (file.kem.getD .default).hasAnyInline = false) :
    OwnerOnly b m ((file.kem.getD .default).seedFilePath configPath) :=
  -- a keychain that answers is all the seeds need
  ownerOnly_of_resolve hinline
    (h.resolves { env with keychain := .ok () } ⟨henv.read, henv.write, henv.sealed⟩ fun _ => rfl)

theorem Bootable.load_eq {m : Machine} {configPath : List Char} {file : NodeConfigFile ω}
    (h : Bootable N m configPath file) {env : BootEnv} (henv : env.Healthy N b) :
    NodeConfigFile.load N env m configPath = .ok file := by
  obtain ⟨stored, text, hstored, htext, hfile⟩ := h.load
  unfold NodeConfigFile.load
  rw [readFile_of_healthy henv hstored]
  simp only [htext, hfile]
  rfl

/-- **A start that resolves the seeds leaves the machine as it is.** -/
theorem boot_of_holds {m : Machine} {configPath : List Char} {file : NodeConfigFile ω}
    {seeds : KemSeeds} (h : Holds N b m configPath file seeds) {env : BootEnv}
    (henv : env.Healthy N b)
    (hneeds : needsKeychain b m configPath (file.kem.getD .default) = true → env.answers = true) :
    boot N b env configPath m = (keysOfSeeds N seeds, m) := by
  have hresolve := h.resolves env henv hneeds
  unfold boot loadOrInitKem NodeConfigFile.kemSecret
  rw [h.load_eq henv]
  simp only [hresolve]

/-! ## Drawing seeds -/

section Put

variable (m : Machine) (path : FilePath) (mode : ℕ) (contents : List UInt8)

@[simp] theorem keychain_put : (put m path mode contents).keychain = m.keychain := rfl

@[simp] theorem files_put_self :
    (put m path mode contents).files path =
      some ⟨((m.files path).map StoredFile.mode).getD mode, contents⟩ :=
  Function.update_self ..

theorem files_put_of_ne {other : FilePath} (h : other ≠ path) :
    (put m path mode contents).files other = m.files other :=
  Function.update_of_ne h ..

end Put

/-- Where the seeds are does not depend on whether the file is named. -/
theorem seedFilePath_withSeedFile (configPath : List Char) (file : NodeConfigFile ω)
    (kem : KemFileConfig) :
    ((file.withSeedFile kem).kem.getD .default).seedFilePath configPath =
      kem.seedFilePath configPath := by
  unfold NodeConfigFile.withSeedFile KemFileConfig.seedFilePath
  cases hfile : kem.file with
  | none =>
    have hname : filePathOf defaultKemSeedFilename = [defaultKemSeedFilename] := by decide
    have hrelative : defaultKemSeedFilename.head? ≠ some '/' := by decide
    simp [hname, hrelative]
  | some f => simp

theorem writeFile_of_healthy {env : BootEnv} (henv : env.Healthy N b) (m : Machine)
    (path : FilePath) (mode : ℕ) (contents : List UInt8) :
    writeFile env m path mode contents = (.ok (), put m path mode contents) := by
  unfold writeFile
  rw [henv.write]

/-- The configuration is written, and read at the next start. -/
theorem writeConfig_of_healthy (hN : N.ReadsBack) {env : BootEnv} (henv : env.Healthy N b)
    {m₀ : Machine} {configPath : List Char} {file : NodeConfigFile ω}
    (h : Bootable N m₀ configPath file) (m : Machine) (rng : ℕ → UInt8) :
    ∃ text, writeConfig N env m configPath (file.initialized (generateKemSeeds rng)) =
        (.ok (file.initialized (generateKemSeeds rng)),
          put m (filePathOf configPath) 0o644 (utf8 text)) ∧
      N.configFromToml text = .ok (file.initialized (generateKemSeeds rng)) := by
  obtain ⟨stored, old, -, -, hold⟩ := h.load
  obtain ⟨text, hwrite, hread⟩ := hN.config old file hold rng
  refine ⟨text, ?_, hread⟩
  unfold writeConfig
  simp only [hwrite, writeFile_of_healthy henv]
  rfl

/-- The seeds are stored where they are looked for. -/
theorem persist_of_healthy (hN : N.ReadsBack) {env : BootEnv} (henv : env.Healthy N b)
    (m : Machine) (path : FilePath) (rng : ℕ → UInt8) (account : List Char) :
    ∃ stored m', persistKemSeedsFile N b env m path (generateKemSeeds rng) account =
        (.ok (), put m' path 0o600 stored) ∧ m'.files = m.files ∧
      (∃ text, unprotectSeedBytes N.decrypt b env m' stored = .ok (utf8 text) ∧
        N.seedsFromToml text = .ok (generateKemSeeds rng)) ∧
      pointsToKeychain b stored = (decide (b = .keyring) && env.answers) := by
  obtain ⟨text, hwrite, hread, hhead⟩ := hN.seeds rng
  obtain ⟨stored, m', hprotect, hfiles, hunprotect, hpoints⟩ :=
    unprotect_of_protect N.decrypt b m hhead account fun hb => henv.sealed hb (utf8 text)
  refine ⟨stored, m', ?_, hfiles, ⟨text, hunprotect, hread⟩, hpoints⟩
  unfold persistKemSeedsFile
  simp only [hwrite, hprotect, writeFile_of_healthy henv]

/-- A new file is the owner's, and an old one stays so. -/
theorem ownerOnly_put {m : Machine} {path : FilePath} (h : OwnerOnly b m path) :
    b.isUnix = true → ((m.files path).map StoredFile.mode).getD 0o600 &&& 0o777 &&& 0o077 = 0 := by
  intro hunix
  cases hfile : m.files path with
  | none => decide
  | some stored => exact h hunix stored hfile

/-- The keys are those of the seeds. -/
theorem kemSecret_of_resolve {env : BootEnv} {m : Machine} {configPath : List Char}
    {file : NodeConfigFile ω} {kem : KemFileConfig} (hkem : file.kem = some kem) {seeds : KemSeeds}
    (h : resolveKemSeeds N b env m configPath (file.kem.getD .default) = .ok seeds) :
    file.kemSecret N b env m configPath = keysOfSeeds N seeds := by
  rw [hkem, Option.getD_some] at h
  unfold NodeConfigFile.kemSecret
  rw [hkem]
  simp only [h]

/-- Without seeds there are no keys. -/
theorem kemSecret_of_unresolved {env : BootEnv} {m : Machine} {configPath : List Char}
    {file : NodeConfigFile ω} {kem : KemFileConfig} (hkem : file.kem = some kem) {e : ConfigError}
    (h : resolveKemSeeds N b env m configPath (file.kem.getD .default) = .error e) :
    file.kemSecret N b env m configPath = .error e := by
  rw [hkem, Option.getD_some] at h
  unfold NodeConfigFile.kemSecret
  rw [hkem]
  simp only [h]

/-- A node that is to have its seeds in its configuration. -/
theorem boot_of_inline (hN : N.ReadsBack) {m : Machine} {configPath : List Char}
    {file : NodeConfigFile ω} (h : Bootable N m configPath file) {env : BootEnv}
    (henv : env.Healthy N b)
    (hfail : ∃ e, resolveKemSeeds N b env m configPath (file.kem.getD .default) = .error e)
    (hinline : (file.kem.getD .default).allowPlaintextKem = true) :
    ∃ m', boot N b env configPath m = (.ok (freshKeys N env.rng), m') ∧
      Holds N b m' configPath (file.initialized (generateKemSeeds env.rng))
        (generateKemSeeds env.rng) ∧
      needsKeychain b m' configPath
        ((file.initialized (generateKemSeeds env.rng)).kem.getD .default) = false := by
  obtain ⟨e, he⟩ := hfail
  obtain ⟨text, hwrite, hread⟩ := writeConfig_of_healthy hN henv h m env.rng
  have hfile : file.initialized (generateKemSeeds env.rng) =
      file.withInlineSeeds (file.kem.getD .default) (generateKemSeeds env.rng) := if_pos hinline
  rw [hfile] at hwrite hread ⊢
  have hresolve : ∀ env' : BootEnv, resolveKemSeeds N b env'
      (put m (filePathOf configPath) 0o644 (utf8 text)) configPath
      ((file.withInlineSeeds (file.kem.getD .default) (generateKemSeeds env.rng)).kem.getD
        .default) = .ok (generateKemSeeds env.rng) := fun _ => rfl
  refine ⟨put m (filePathOf configPath) 0o644 (utf8 text), ?_,
    { load := ⟨_, text, files_put_self .., fromUtf8_utf8 text, hread⟩
      apart := h.apart
      resolves := fun env' _ _ => hresolve env' }, rfl⟩
  unfold boot loadOrInitKem
  simp only [h.load_eq henv, he, hinline, if_true, hwrite]
  rw [kemSecret_of_resolve rfl (hresolve env), keysOfSeeds_generate]

/-- The name of the file is written into the configuration, and the seeds into the file: it keeps
its mode, and a new one gets the owner's. -/
theorem boot_writes (hN : N.ReadsBack) {m : Machine} {configPath : List Char}
    {file : NodeConfigFile ω} (h : Bootable N m configPath file) {env : BootEnv}
    (henv : env.Healthy N b)
    (hfail : ∃ e, resolveKemSeeds N b env m configPath (file.kem.getD .default) = .error e)
    (hinline : (file.kem.getD .default).allowPlaintextKem = false) :
    ∃ m' contents plain, boot N b env configPath m =
        ((file.withSeedFile (file.kem.getD .default)).kemSecret N b env m' configPath, m') ∧
      Bootable N m' configPath (file.withSeedFile (file.kem.getD .default)) ∧
      m'.files ((file.kem.getD .default).seedFilePath configPath) =
        some ⟨((m.files ((file.kem.getD .default).seedFilePath configPath)).map
          StoredFile.mode).getD 0o600, contents⟩ ∧
      unprotectSeedBytes N.decrypt b env m' contents = .ok (utf8 plain) ∧
      N.seedsFromToml plain = .ok (generateKemSeeds env.rng) ∧
      pointsToKeychain b contents = (decide (b = .keyring) && env.answers) := by
  obtain ⟨e, he⟩ := hfail
  obtain ⟨stored, m₁, hpersist, hfiles, ⟨plain, hunprotect, hseeds⟩, hpoints⟩ :=
    persist_of_healthy hN henv m ((file.kem.getD .default).seedFilePath configPath) env.rng
      (kemKeyringAccount C.sha3 configPath (some file.relayId))
  set seedPath := (file.kem.getD .default).seedFilePath configPath with hseedPath
  obtain ⟨text, hwrite, hread⟩ :=
    writeConfig_of_healthy hN henv h (put m₁ seedPath 0o600 stored) env.rng
  have hfile : file.initialized (generateKemSeeds env.rng) =
      file.withSeedFile (file.kem.getD .default) := if_neg (by simp [hinline])
  have hpath := seedFilePath_withSeedFile configPath file (file.kem.getD .default)
  rw [hfile] at hwrite hread
  set m' := put (put m₁ seedPath 0o600 stored) (filePathOf configPath) 0o644 (utf8 text) with hm'
  refine ⟨m', stored, plain, ?_, ⟨⟨_, text, files_put_self .., fromUtf8_utf8 text, hread⟩, ?_⟩, ?_,
    (unprotect_of_keychain_eq N.decrypt b rfl env stored).trans hunprotect, hseeds, hpoints⟩
  · unfold boot loadOrInitKem
    simp only [h.load_eq henv, he, hinline, ← hseedPath, hpersist, hwrite, Bool.false_eq_true,
      if_false]
  · rw [hpath]
    exact h.apart
  · rw [hm', files_put_of_ne _ _ _ _ h.apart, files_put_self, hfiles]

/-- A node that is to have its seeds in a file. -/
theorem boot_of_seedFile (hN : N.ReadsBack) {m : Machine} {configPath : List Char}
    {file : NodeConfigFile ω} (h : Bootable N m configPath file) {env : BootEnv}
    (henv : env.Healthy N b)
    (howner : OwnerOnly b m ((file.kem.getD .default).seedFilePath configPath))
    (hfail : ∃ e, resolveKemSeeds N b env m configPath (file.kem.getD .default) = .error e)
    (hinline : (file.kem.getD .default).allowPlaintextKem = false) :
    ∃ m', boot N b env configPath m = (.ok (freshKeys N env.rng), m') ∧
      Holds N b m' configPath (file.initialized (generateKemSeeds env.rng))
        (generateKemSeeds env.rng) ∧
      needsKeychain b m' configPath
          ((file.initialized (generateKemSeeds env.rng)).kem.getD .default) =
        (decide (b = .keyring) && env.answers) := by
  obtain ⟨m', stored, plain, hstart, hboot, hat, hrecover, hseeds, hpoints⟩ :=
    boot_writes hN h henv hfail hinline
  have hfile : file.initialized (generateKemSeeds env.rng) =
      file.withSeedFile (file.kem.getD .default) := if_neg (by simp [hinline])
  have hpath := seedFilePath_withSeedFile configPath file (file.kem.getD .default)
  have hnone : ((file.withSeedFile (file.kem.getD .default)).kem.getD .default).hasAnyInline =
      false := rfl
  rw [hfile]
  have hresolve : resolveKemSeeds N b env m' configPath
      ((file.withSeedFile (file.kem.getD .default)).kem.getD .default) =
        .ok (generateKemSeeds env.rng) := by
    have hmode : assertKemSeedFileModeSafe b ((file.kem.getD .default).seedFilePath configPath)
        ⟨((m.files ((file.kem.getD .default).seedFilePath configPath)).map
          StoredFile.mode).getD 0o600, stored⟩ = .ok () :=
      if_neg fun hbad => hbad.2 (ownerOnly_put howner hbad.1)
    unfold resolveKemSeeds
    rw [hnone, hpath]
    simp only [hat, hmode, readFile_of_healthy henv hat, hrecover, fromUtf8_utf8, hseeds]
    rfl
  refine ⟨m', ?_, hboot.holds henv hresolve, ?_⟩
  · rw [hstart, kemSecret_of_resolve rfl hresolve, keysOfSeeds_generate]
  · unfold needsKeychain
    rw [hnone, hpath, hat]
    exact hpoints

/-- **A node that resolves no seeds draws them, and holds them from then on**, whatever has been in
the way, unless it is to keep them in a file that others can open. -/
theorem boot_of_unresolved (hN : N.ReadsBack) {m : Machine} {configPath : List Char}
    {file : NodeConfigFile ω} (h : Bootable N m configPath file) {env : BootEnv}
    (henv : env.Healthy N b)
    (hkeeps : (file.kem.getD .default).allowPlaintextKem = true ∨
      OwnerOnly b m ((file.kem.getD .default).seedFilePath configPath))
    (hfail : ∃ e, resolveKemSeeds N b env m configPath (file.kem.getD .default) = .error e) :
    ∃ m', boot N b env configPath m = (.ok (freshKeys N env.rng), m') ∧
      Holds N b m' configPath (file.initialized (generateKemSeeds env.rng))
        (generateKemSeeds env.rng) ∧
      needsKeychain b m' configPath
          ((file.initialized (generateKemSeeds env.rng)).kem.getD .default) =
        (decide (b = .keyring) && env.answers && !(file.kem.getD .default).allowPlaintextKem) := by
  cases hinline : (file.kem.getD .default).allowPlaintextKem with
  | true =>
    rw [Bool.not_true, Bool.and_false]
    exact boot_of_inline hN h henv hfail hinline
  | false =>
    rw [Bool.not_false, Bool.and_true]
    rw [hinline] at hkeeps
    exact boot_of_seedFile hN h henv (hkeeps.resolve_left nofun) hfail hinline

/-! ## Starting again and again -/

theorem boots_cons {m m' : Machine} {configPath : List Char} {env : BootEnv}
    {keys : Except ConfigError (RelayKemSecret C)}
    (h : boot N b env configPath m = (keys, m')) (envs : List BootEnv) :
    boots N b configPath m (env :: envs) = (keys, m') :: boots N b configPath m' envs := by
  rw [boots, h]

/-- Seeds that are not in the keychain stay, and so does the machine. -/
theorem boots_of_not_needs {m : Machine} {configPath : List Char} {file : NodeConfigFile ω}
    {seeds : KemSeeds} (h : Holds N b m configPath file seeds)
    (hneeds : needsKeychain b m configPath (file.kem.getD .default) = false) {envs : List BootEnv}
    (henvs : ∀ env ∈ envs, env.Healthy N b) :
    boots N b configPath m envs = List.replicate envs.length (keysOfSeeds N seeds, m) := by
  induction envs with
  | nil => rfl
  | cons env envs ih =>
    have hboot := boot_of_holds h (henvs env List.mem_cons_self)
      fun htrue => absurd (hneeds.symm.trans htrue) nofun
    rw [boots_cons hboot, ih fun e he => henvs e (List.mem_cons_of_mem _ he)]
    rfl

variable (N)

/-- What the starts of a node give that holds the seeds: their keys, and the machine as it is.  If
the seeds are in the keychain, from the first start on that it does not answer they give the keys
that are drawn then, and leave the machine as it is after that. -/
def keptStarts (inKeychain : Bool) (seeds : KemSeeds) (kept redrawn : Machine)
    (envs : List BootEnv) : List (Except ConfigError (RelayKemSecret C) × Machine) :=
  let stays := fun env : BootEnv => !inKeychain || env.answers
  List.replicate (envs.takeWhile stays).length (keysOfSeeds N seeds, kept) ++
    (envs.dropWhile stays).head?.elim [] fun env =>
      List.replicate (envs.dropWhile stays).length (.ok (freshKeys N env.rng), redrawn)

variable {N}

theorem keptStarts_cons {inKeychain : Bool} {seeds : KemSeeds} {kept redrawn : Machine}
    {env : BootEnv} (h : (!inKeychain || env.answers) = true) (envs : List BootEnv) :
    keptStarts N inKeychain seeds kept redrawn (env :: envs) =
      (keysOfSeeds N seeds, kept) :: keptStarts N inKeychain seeds kept redrawn envs := by
  unfold keptStarts
  simp only [List.takeWhile_cons_of_pos (p := fun env : BootEnv => !inKeychain || env.answers) h,
    List.dropWhile_cons_of_pos (p := fun env : BootEnv => !inKeychain || env.answers) h]
  rfl

/-- A node that holds seeds keeps them as long as it can. -/
theorem boots_of_holds (hN : N.ReadsBack) {m : Machine} {configPath : List Char}
    {file : NodeConfigFile ω} {seeds : KemSeeds} (h : Holds N b m configPath file seeds)
    {envs : List BootEnv} (henvs : ∀ env ∈ envs, env.Healthy N b) :
    ∃ redrawn, boots N b configPath m envs =
      keptStarts N (needsKeychain b m configPath (file.kem.getD .default)) seeds m redrawn
        envs := by
  induction envs with
  | nil => exact ⟨m, rfl⟩
  | cons env envs ih =>
    have henv := henvs env List.mem_cons_self
    have hrest := fun e he => henvs e (List.mem_cons_of_mem env he)
    cases hstays : !needsKeychain b m configPath (file.kem.getD .default) || env.answers with
    | true =>
      have hboot := boot_of_holds h henv fun hneeds => by simpa [hneeds] using hstays
      obtain ⟨redrawn, hih⟩ := ih hrest
      exact ⟨redrawn, by rw [boots_cons hboot, hih, keptStarts_cons hstays]⟩
    | false =>
      obtain ⟨hneeds, hdown⟩ := Bool.or_eq_false_iff.mp hstays
      rw [Bool.not_eq_false'] at hneeds
      have hinline : (file.kem.getD .default).hasAnyInline = false := by
        unfold needsKeychain at hneeds
        simpa using (Bool.and_eq_true_iff.mp hneeds).1
      obtain ⟨m', hboot, hholds, hneeds'⟩ := boot_of_unresolved hN h.toBootable henv
        (Or.inr (h.ownerOnly henv hinline)) (resolve_of_needs hneeds henv hdown)
      rw [hdown, Bool.and_false, Bool.false_and] at hneeds'
      refine ⟨m', ?_⟩
      rw [boots_cons hboot, boots_of_not_needs hholds hneeds' hrest, keysOfSeeds_generate, hneeds]
      unfold keptStarts
      simp [hdown, List.replicate_succ]

/-! ## A file that others can open -/

variable (N b) in
/-- A start that ends with this error, and has replaced what was in the file by seeds it has
drawn, which it can read itself. -/
def Overwrites (path : FilePath) (mode : ℕ) (message : String) (env : BootEnv)
    (start : Except ConfigError (RelayKemSecret C) × Machine) : Prop :=
  start.1 = .error (.kemProtect message) ∧
    ∃ contents plain, start.2.files path = some ⟨mode, contents⟩ ∧
      unprotectSeedBytes N.decrypt b env start.2 contents = .ok (utf8 plain) ∧
      N.seedsFromToml plain = .ok (generateKemSeeds env.rng)

/-- The check of the mode says so. -/
theorem exists_of_not_ownerOnly {m : Machine} {path : FilePath} (h : ¬OwnerOnly b m path) :
    ∃ stored message, m.files path = some stored ∧
      assertKemSeedFileModeSafe b path stored = .error message := by
  unfold OwnerOnly at h
  push Not at h
  obtain ⟨hunix, stored, hstored, hmode⟩ := h
  exact ⟨stored, _, hstored, if_pos ⟨hunix, hmode⟩⟩

/-- Seeds in such a file are not resolved. -/
theorem resolve_of_open {env : BootEnv} {m : Machine} {configPath : List Char}
    {kem : KemFileConfig} (hinline : kem.hasAnyInline = false) {stored : StoredFile}
    (hstored : m.files (kem.seedFilePath configPath) = some stored) {message : String}
    (hmode : assertKemSeedFileModeSafe b (kem.seedFilePath configPath) stored = .error message) :
    resolveKemSeeds N b env m configPath kem = .error (.kemProtect message) := by
  unfold resolveKemSeeds
  rw [hinline, hstored]
  simp only [hmode]
  rfl

/-- **A node that is to keep its seeds in a file that others can open never comes up**, and draws
new ones at every start. -/
theorem boots_of_open (hN : N.ReadsBack) {m : Machine} {configPath : List Char}
    {file : NodeConfigFile ω} (h : Bootable N m configPath file) {stored : StoredFile}
    (hstored : m.files ((file.kem.getD .default).seedFilePath configPath) = some stored)
    {message : String}
    (hmode : assertKemSeedFileModeSafe b ((file.kem.getD .default).seedFilePath configPath)
      stored = .error message)
    (hinline : (file.kem.getD .default).allowPlaintextKem = false) {envs : List BootEnv}
    (henvs : ∀ env ∈ envs, env.Healthy N b)
    (hfail : ∀ env ∈ envs.head?, ∃ e, resolveKemSeeds N b env m configPath
      (file.kem.getD .default) = .error e) :
    List.Forall₂ (Overwrites N b ((file.kem.getD .default).seedFilePath configPath) stored.mode
      message) envs (boots N b configPath m envs) := by
  induction envs generalizing m file stored with
  | nil => exact .nil
  | cons env envs ih =>
    obtain ⟨m', contents, plain, hstart, hboot, hat, hrecover, hseeds, -⟩ :=
      boot_writes hN h (henvs env List.mem_cons_self) (hfail env rfl) hinline
    rw [hstored, Option.map_some, Option.getD_some] at hat
    have hpath := seedFilePath_withSeedFile configPath file (file.kem.getD .default)
    have hat' : m'.files (((file.withSeedFile (file.kem.getD .default)).kem.getD
        .default).seedFilePath configPath) = some ⟨stored.mode, contents⟩ := by
      rw [hpath, hat]
    have hmode' : assertKemSeedFileModeSafe b (((file.withSeedFile (file.kem.getD
        .default)).kem.getD .default).seedFilePath configPath) ⟨stored.mode, contents⟩ =
          .error message := by
      rw [hpath]
      exact hmode
    have hunread : ∀ env' : BootEnv, resolveKemSeeds N b env' m' configPath
        ((file.withSeedFile (file.kem.getD .default)).kem.getD .default) =
          .error (.kemProtect message) := fun env' => resolve_of_open rfl hat' hmode'
    rw [kemSecret_of_unresolved rfl (hunread env)] at hstart
    rw [boots_cons hstart]
    refine .cons ⟨rfl, contents, plain, hat, hrecover, hseeds⟩ ?_
    have hrest := ih hboot hat' hmode' hinline
      (fun e he => henvs e (List.mem_cons_of_mem _ he)) fun e _ => ⟨_, hunread e⟩
    rw [hpath] at hrest
    exact hrest

/-! ## The theorem -/

/-- **A node that is started again and again**, on a machine that nobody else changes, with any
build, whatever the first start finds there.

It comes up with the keys of the seeds that it resolves, or of ones it draws if there are none that
it can resolve, and at every further start with the same keys, and it writes nothing more.  Only if
these are in the keychain, and it does not answer at some start, does the node draw others; it keeps
those for good, whether the keychain answers again or not.  A node that resolves no seeds and is to
keep them in a file which others can open draws new ones at every start and never comes up. -/
theorem boots_eq (hN : N.ReadsBack) {m : Machine} {configPath : List Char} {file : NodeConfigFile ω}
    (h : Bootable N m configPath file) {env : BootEnv} {envs : List BootEnv}
    (henvs : ∀ e ∈ env :: envs, e.Healthy N b) :
    (∃ (seeds : KemSeeds) (inKeychain : Bool) (kept redrawn : Machine),
      boots N b configPath m (env :: envs) =
        (keysOfSeeds N seeds, kept) :: keptStarts N inKeychain seeds kept redrawn envs ∧
      ((resolveKemSeeds N b env m configPath (file.kem.getD .default) = .ok seeds ∧ kept = m ∧
          inKeychain = needsKeychain b m configPath (file.kem.getD .default)) ∨
        ((∃ e, resolveKemSeeds N b env m configPath (file.kem.getD .default) = .error e) ∧
          ((file.kem.getD .default).allowPlaintextKem = true ∨
            OwnerOnly b m ((file.kem.getD .default).seedFilePath configPath)) ∧
          seeds = generateKemSeeds env.rng ∧ keysOfSeeds N seeds = .ok (freshKeys N env.rng) ∧
          inKeychain = (decide (b = .keyring) && env.answers &&
            !(file.kem.getD .default).allowPlaintextKem)))) ∨
      ((∃ e, resolveKemSeeds N b env m configPath (file.kem.getD .default) = .error e) ∧
        (file.kem.getD .default).allowPlaintextKem = false ∧
        ∃ stored message,
          m.files ((file.kem.getD .default).seedFilePath configPath) = some stored ∧
          assertKemSeedFileModeSafe b ((file.kem.getD .default).seedFilePath configPath) stored =
            .error message ∧
          List.Forall₂ (Overwrites N b ((file.kem.getD .default).seedFilePath configPath)
            stored.mode message) (env :: envs) (boots N b configPath m (env :: envs))) := by
  have henv := henvs env List.mem_cons_self
  have hrest := fun e he => henvs e (List.mem_cons_of_mem env he)
  cases hresolve : resolveKemSeeds N b env m configPath (file.kem.getD .default) with
  | ok seeds =>
    have hholds := h.holds henv hresolve
    have hneeds : needsKeychain b m configPath (file.kem.getD .default) = true →
        env.answers = true := by
      intro hneeds
      by_contra hdown
      obtain ⟨e, he⟩ := resolve_of_needs hneeds henv (Bool.eq_false_iff.mpr hdown)
      rw [he] at hresolve
      cases hresolve
    obtain ⟨redrawn, hboots⟩ := boots_of_holds hN hholds hrest
    refine Or.inl ⟨seeds, _, m, redrawn, ?_, Or.inl ⟨rfl, rfl, rfl⟩⟩
    rw [boots_cons (boot_of_holds hholds henv hneeds), hboots]
  | error e =>
    by_cases hkeeps : (file.kem.getD .default).allowPlaintextKem = true ∨
        OwnerOnly b m ((file.kem.getD .default).seedFilePath configPath)
    · obtain ⟨kept, hboot, hholds, hneeds⟩ := boot_of_unresolved hN h henv hkeeps ⟨e, hresolve⟩
      obtain ⟨redrawn, hboots⟩ := boots_of_holds hN hholds hrest
      refine Or.inl ⟨generateKemSeeds env.rng, _, kept, redrawn, ?_,
        Or.inr ⟨⟨e, rfl⟩, hkeeps, rfl, keysOfSeeds_generate N env.rng, rfl⟩⟩
      rw [boots_cons hboot, hboots, hneeds, keysOfSeeds_generate]
    · obtain ⟨hinline, hopen⟩ := not_or.mp hkeeps
      rw [Bool.not_eq_true] at hinline
      obtain ⟨stored, message, hstored, hmode⟩ := exists_of_not_ownerOnly hopen
      refine Or.inr ⟨⟨e, rfl⟩, hinline, stored, message, hstored, hmode,
        boots_of_open hN h hstored hmode hinline henvs ?_⟩
      intro env' henv'
      obtain rfl := Option.some.inj henv'
      exact ⟨e, hresolve⟩

end Recovery

/-! ### Four starts -/

/-- The configuration that the node is first started with, and the one it writes. -/
def checksumConfigFile (named : Bool) : NodeConfigFile Unit where
  relayId := "01".toList
  kem := if named then some ⟨some defaultKemSeedFilename, false, none, none, none⟩ else none
  rest := ()

/-- Their text. -/
def checksumConfigText (named : Bool) : List Char :=
  if named then
    "relay_id = \"01\"\n\n[kem]\nfile = \"kem.seeds\"\nallow_plaintext_kem = false\n".toList
  else "relay_id = \"01\"\n".toList

/-- Seeds, from what stands between the quotation marks and around them. -/
def seedsOfParts : List (List Char) → Except String KemSeeds
  | [_, x, _, d, _, z, _] => .ok ⟨x, d, z⟩
  | _ => .error "missing field"

/-- A node over `checksumSuite`, whose texts can be read back. -/
def checksumNodeEnv : NodeEnv checksumSuite Unit where
  keys := ⟨fun seed => seed.head, fun d z => (d.head + z.head, d.head + z.head), fun key => [key]⟩
  seedsToToml seeds := .ok (['"'].intercalate ["x25519_seed = ".toList, seeds.x25519Seed,
    "\nmlkem_d = ".toList, seeds.mlkemD, "\nmlkem_z = ".toList, seeds.mlkemZ, "\n".toList])
  seedsFromToml text := seedsOfParts (text.splitOn '"')
  configToToml file :=
    if file = checksumConfigFile true then .ok (checksumConfigText true)
    else if file = checksumConfigFile false then .ok (checksumConfigText false)
    else .error "unsupported type"
  configFromToml text :=
    if text = checksumConfigText true then .ok (checksumConfigFile true)
    else if text = checksumConfigText false then .ok (checksumConfigFile false)
    else .error "missing field"
  decrypt := .ok

theorem readsBack_checksum : checksumNodeEnv.ReadsBack where
  seeds rng := by
    refine ⟨_, rfl, ?_, rfl⟩
    have hquote : ∀ seed : Bytes 32, '"' ∉ StoredLedger.hexEncodeBytes seed.toList := by
      intro seed hmem
      obtain ⟨n, hn⟩ := StoredLedger.mem_hexEncodeBytes hmem
      revert hn
      revert n
      decide
    show seedsOfParts (List.splitOn '"' _) = _
    rw [List.splitOn_intercalate]
    · rfl
    · simp only [generateKemSeeds, List.mem_cons, List.not_mem_nil, or_false]
      rintro l (rfl | rfl | rfl | rfl | rfl | rfl | rfl)
      · decide
      · exact hquote _
      · decide
      · exact hquote _
      · decide
      · exact hquote _
      · decide
    · simp
  config text file hfile rng := by
    have hinit : file.initialized (generateKemSeeds rng) = checksumConfigFile true := by
      change (if _ then _ else if _ then _ else _) = _ at hfile
      split_ifs at hfile
      · obtain rfl := Except.ok.inj hfile
        rfl
      · obtain rfl := Except.ok.inj hfile
        rfl
    rw [hinit]
    exact ⟨checksumConfigText true, rfl, rfl⟩

/-- A start whose generator repeats a byte. -/
def checksumBoot (answers : Bool) (byte : UInt8) : BootEnv where
  keychain := if answers then .ok () else .error "locked"
  encrypt := .ok
  read _ := .ok ()
  write _ := .ok ()
  rng _ := byte

/-- A machine that has the configuration only. -/
def checksumMachine : Machine where
  files := Function.update (fun _ => none) ["node.toml".toList]
    (some ⟨0o644, utf8 (checksumConfigText false)⟩)
  keychain _ := none

/-- The same with a file of seeds that the group can read. -/
def checksumOpenMachine : Machine where
  files := Function.update checksumMachine.files ["kem.seeds".toList] (some ⟨0o640, []⟩)
  keychain _ := none

theorem bootable_checksum : Bootable checksumNodeEnv checksumMachine "node.toml".toList
    (checksumConfigFile false) :=
  ⟨⟨_, checksumConfigText false, rfl, fromUtf8_utf8 _, rfl⟩, by decide⟩

theorem bootable_checksumOpen : Bootable checksumNodeEnv checksumOpenMachine "node.toml".toList
    (checksumConfigFile false) :=
  ⟨⟨_, checksumConfigText false, rfl, fromUtf8_utf8 _, rfl⟩, by decide⟩

theorem healthy_checksum (b : Build) (answers : Bool) (byte : UInt8) :
    (checksumBoot answers byte).Healthy checksumNodeEnv b :=
  ⟨fun _ => rfl, fun _ => rfl, fun _ plain => ⟨plain, rfl, rfl⟩⟩

/-- The keychain answers at the first two starts and the last; and a node whose file of seeds others
can read, twice. -/
theorem boots_eq_checksum :
    (boots checksumNodeEnv .keyring "node.toml".toList checksumMachine
        [checksumBoot true 1, checksumBoot true 2, checksumBoot false 3,
          checksumBoot true 4]).map Prod.fst =
      [.ok ⟨(1 : UInt8), (2 : UInt8)⟩, .ok ⟨(1 : UInt8), (2 : UInt8)⟩,
        .ok ⟨(3 : UInt8), (6 : UInt8)⟩, .ok ⟨(3 : UInt8), (6 : UInt8)⟩] ∧
    ∃ message, (boots checksumNodeEnv .keyring "node.toml".toList checksumOpenMachine
        [checksumBoot true 1, checksumBoot true 2]).map Prod.fst =
      [.error (.kemProtect message), .error (.kemProtect message)] := by
  constructor
  · have hhealthy : ∀ e ∈ [checksumBoot true 1, checksumBoot true 2, checksumBoot false 3,
        checksumBoot true 4], e.Healthy checksumNodeEnv .keyring := by
      simp only [List.mem_cons, List.not_mem_nil, or_false]
      rintro e (rfl | rfl | rfl | rfl) <;> exact healthy_checksum _ _ _
    rcases boots_eq readsBack_checksum bootable_checksum hhealthy with
      ⟨seeds, inKeychain, kept, redrawn, hboots, hseeds⟩ | ⟨-, -, stored, message, hstored, -⟩
    · rcases hseeds with ⟨hresolve, -⟩ | ⟨-, -, -, hkeys, hin⟩
      · cases hresolve
      · rw [hboots, hin]
        simp only [keptStarts, hkeys]
        rfl
    · cases hstored
  · have hhealthy : ∀ e ∈ [checksumBoot true 1, checksumBoot true 2],
        e.Healthy checksumNodeEnv .keyring := by
      simp only [List.mem_cons, List.not_mem_nil, or_false]
      rintro e (rfl | rfl) <;> exact healthy_checksum _ _ _
    rcases boots_eq readsBack_checksum bootable_checksumOpen hhealthy with
      ⟨seeds, inKeychain, kept, redrawn, -, hseeds⟩ | ⟨-, -, stored, message, -, -, hopen⟩
    · rcases hseeds with ⟨hresolve, -⟩ | ⟨-, hkeeps, -⟩
      · cases hresolve
      · rcases hkeeps with hinline | howner
        · cases hinline
        · exact absurd (howner rfl ⟨0o640, []⟩ rfl) (by decide)
    · obtain ⟨first, starts, hfirst, hstarts, hboots⟩ := List.forall₂_cons_left_iff.mp hopen
      obtain ⟨second, none, hsecond, hnone, rfl⟩ := List.forall₂_cons_left_iff.mp hstarts
      obtain rfl := List.forall₂_nil_left_iff.mp hnone
      exact ⟨message, by rw [hboots]; simp [hfirst.1, hsecond.1]⟩

end Aegis
