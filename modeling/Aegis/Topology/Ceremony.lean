import Aegis.Lib.Fallible
import Aegis.Topology.Admission
import Aegis.Topology.Consortium
import Aegis.Topology.SeedSharing
import Aegis.Topology.ShareHex

/-!
# The key ceremony (`ceremony.rs`)

A ceremony draws the seeds of the authorities, writes their public keys, and their seeds or shares
of them, to files below a directory, forms the consortium and signs a sample admission.

* `CeremonyFile.path_injective` — no two files of a ceremony have the same path.
* `Ceremony.generateAuthorities_spec` — what the files hold, whatever has been on the disk.
* `Ceremony.of_runCeremony` — what a ceremony that succeeds has done.
-/

namespace Aegis

open Buffer Fallible

/-! ## Files -/

/-- The components of a path. -/
abbrev FilePath := List (List Char)

/-- What `fs::read_to_string` gives for a path. -/
abbrev Disk := FilePath → Except String (List Char)

/-- The files of a ceremony. -/
inductive CeremonyFile where
  | pubkey (i : ℕ)
  | seed (i : ℕ)
  | share (i j : ℕ)
  | sampleAdmission
  | manifest
  | tomlSnippet
  deriving DecidableEq

/-- `usize::to_string`. -/
def decimal (n : ℕ) : List Char := Nat.toDigits 10 n

/-- The path of a file below the output directory. -/
def CeremonyFile.path (outDir : FilePath) : CeremonyFile → FilePath
  | .pubkey i =>
    outDir ++ ["authorities".toList, "authority-".toList ++ decimal i ++ ".pub.hex".toList]
  | .seed i =>
    outDir ++ ["authorities".toList, "authority-".toList ++ decimal i ++ ".seed.hex".toList]
  | .share i j =>
    outDir ++ ["authorities".toList, "authority-".toList ++ decimal i,
      "share-".toList ++ decimal j ++ ".hex".toList]
  | .sampleAdmission => outDir ++ ["sample_admission.json".toList]
  | .manifest => outDir ++ ["consortium.json".toList]
  | .tomlSnippet => outDir ++ ["roster_authority.toml.snippet".toList]

/-! ## Configuration -/

/-- What a ceremony is asked for. -/
structure CeremonyConfig where
  n : ℕ
  threshold : ℕ
  jurisdiction : String
  /-- Write the seeds themselves. -/
  writeSeeds : Bool
  shamirN : Option ℕ
  shamirThreshold : Option ℕ
  deriving DecidableEq

/-- What the consortium's file lists. -/
structure ConsortiumManifest where
  threshold : ℕ
  n : ℕ
  authorityPubkeysHex : List (List Char)
  sampleAdmissionPath : String
  shamirN : Option ℕ
  shamirThreshold : Option ℕ
  note : String
  deriving DecidableEq

/-- What a ceremony returns. -/
structure CeremonyOutput {SK VK : Type} (E : Ed25519 SK VK) where
  authorityPubkeysHex : List (List Char)
  sampleAdmission : ThresholdSignedRelayRecord
  consortium : ThresholdConsortium E
  /-- For each authority the files of its shares. -/
  shamirSharePaths : List (List FilePath)

/-- How a ceremony ends early: with an error, or since the generator's bytes run out. -/
inductive Halt where
  | error (message : String)
  | starved
  deriving DecidableEq

/-- What the ceremony gets from elsewhere. -/
structure CeremonyEnv {SK VK : Type} (E : Ed25519 SK VK) where
  /-- `SigningKey::from_bytes`. -/
  fromSeed : Bytes 32 → SK
  /-- `RelayKemSecret::generate`: the commitment to the public half. -/
  generateKem : List UInt8 → Option (Bytes 32 × List UInt8)
  /-- SHA3-256. -/
  sha3 : List UInt8 → Bytes 32
  admissionJson : ThresholdSignedRelayRecord → Except String (List Char)
  manifestJson : ConsortiumManifest → Except String (List Char)
  outDir : FilePath
  /-- Whether a directory can be created, or a file written. -/
  access : FilePath → Except String Unit

namespace Ceremony

/-- `hex_encode`. -/
def hexEncode (bytes : List UInt8) : List Char := bytes.flatMap Shamir.hexByte

/-- `format!("{line}\n")`. -/
def line (text : List Char) : List Char := text ++ ['\n']

/-- What a file holds in the end. -/
def put (disk : Disk) (path : FilePath) (contents : List Char) : Disk :=
  Function.update disk path (.ok contents)

variable {SK VK : Type} {E : Ed25519 SK VK} (env : CeremonyEnv E)

/-- `write_restricted`. -/
def writeRestricted (disk : Disk) (path : FilePath) (contents : List Char) : Except Halt Disk :=
  match env.access path with
  | .error e => .error (.error e)
  | .ok () => .ok (put disk path contents)

/-- `fs::create_dir_all`, with the label of its error. -/
def createDirAll (label : String) (path : FilePath) : Except Halt Unit :=
  (env.access path).mapError fun e => .error (label ++ e)

/-! ## The parameters -/

/-- The checks on the parameters; what is returned says how seeds are shared, if they are. -/
def checkConfig (cfg : CeremonyConfig) : Except Halt (Option (ℕ × ℕ)) :=
  if cfg.n = 0 then .error (.error "n must be >= 1")
  else if cfg.threshold = 0 ∨ cfg.n < cfg.threshold then
    .error (.error ("threshold must be in 1..=" ++ toString cfg.n ++ " (got " ++
      toString cfg.threshold ++ ")"))
  else if cfg.shamirN.isSome || cfg.shamirThreshold.isSome then
    match cfg.shamirN, cfg.shamirThreshold with
    | none, _ => .error (.error "shamir_n required when enabling Shamir")
    | some _, none => .error (.error "shamir_threshold required when enabling Shamir")
    | some sn, some st =>
      if st = 0 ∨ sn < st then
        .error (.error ("shamir_threshold must be in 1..=" ++ toString sn ++ " (got " ++
          toString st ++ ")"))
      else if 255 < sn then .error (.error "shamir_n must be <= 255")
      else .ok (some (sn, st))
  else .ok none

/-! ## The authorities -/

/-- What the loop over the authorities has come to. -/
structure Progress (SK : Type) where
  disk : Disk
  rng : List UInt8
  keys : List SK
  pubkeysHex : List (List Char)
  shamirSharePaths : List (List FilePath)

/-- `ShamirError`'s `Display`. -/
def displayShamirError : ShamirError → String
  | .badParams message => "shamir params: " ++ message
  | .tooFewShares => "too few shares to reconstruct"
  | .duplicateX => "duplicate share x-coordinate"
  | .invalidX => "share x must be in 1..=255"

/-- The loop over the shares of authority `i`. -/
def writeShares (i : ℕ) (disk : Disk) (shares : List SeedShare) : Except Halt Disk :=
  shares.zipIdx.foldlM (fun disk share =>
    writeRestricted env disk ((CeremonyFile.share i share.2).path env.outDir)
      (line (Shamir.encodeShareHex share.1))) disk

/-- Splits the seed of authority `i` and writes the shares. -/
def shareSeed (shamir : Option (ℕ × ℕ)) (i : ℕ) (seed : Bytes 32) (disk : Disk)
    (rng : List UInt8) : Except Halt (Disk × List UInt8 × List FilePath) :=
  match shamir with
  | none => .ok (disk, rng, [])
  | some (sn, st) =>
    match Shamir.splitSeed seed st sn rng with
    | none => .error .starved
    | some (.error e, _) => .error (.error (displayShamirError e))
    | some (.ok shares, rng) => do
      createDirAll env ""
        (env.outDir ++ ["authorities".toList, "authority-".toList ++ decimal i])
      let disk ← writeShares env i disk shares
      return (disk, rng,
        (List.range shares.length).map fun j => (CeremonyFile.share i j).path env.outDir)

/-- Writes the seed of authority `i`, if seeds are to be written. -/
def writeSeed (cfg : CeremonyConfig) (i : ℕ) (seed : Bytes 32) (disk : Disk) : Except Halt Disk :=
  if cfg.writeSeeds then
    writeRestricted env disk ((CeremonyFile.seed i).path env.outDir) (line (hexEncode seed.toList))
  else .ok disk

/-- One round of the loop over the authorities. -/
def generateAuthority (cfg : CeremonyConfig) (shamir : Option (ℕ × ℕ)) (s : Progress SK) (i : ℕ) :
    Except Halt (Progress SK) :=
  match Shamir.drawBytes 32 s.rng with
  | none => .error .starved
  | some (drawn, rng) => do
    let seed := (Bytes.zero 32).put 0 drawn
    let key := env.fromSeed seed
    let pkHex := hexEncode (E.toBytes (E.verifyingKey key)).toList
    let disk ← writeRestricted env s.disk ((CeremonyFile.pubkey i).path env.outDir) (line pkHex)
    let disk ← writeSeed env cfg i seed disk
    let (disk, rng, paths) ← shareSeed env shamir i seed disk rng
    return ⟨disk, rng, s.keys ++ [key], s.pubkeysHex ++ [pkHex], s.shamirSharePaths ++ [paths]⟩

/-- The authorities: their keys, and the files of their seeds or of the shares of them. -/
def generateAuthorities (cfg : CeremonyConfig) (shamir : Option (ℕ × ℕ)) (disk : Disk)
    (rng : List UInt8) : Except Halt (Progress SK) :=
  (List.range cfg.n).foldlM (generateAuthority env cfg shamir) ⟨disk, rng, [], [], []⟩

/-! ## The ceremony -/

/-- `RelayRecord::from_kem_public`, from the commitment to the key. -/
def recordFromCommitment (jurisdiction : String) (commitment : Bytes 32) : RelayRecord :=
  ⟨relayIdFromKemCommitment env.sha3 commitment, jurisdiction, commitment⟩

/-- A record with the signatures of `keys`. -/
def admissionBy (E : Ed25519 SK VK) (keys : List SK) (record : RelayRecord) :
    ThresholdSignedRelayRecord :=
  ⟨record, keys.map fun key => signAuthority E key record⟩

/-- What the manifest says of how the seeds are kept. -/
def note (shamir : Option (ℕ × ℕ)) : String :=
  if shamir.isSome then
    "Distribute .pub.hex to operators; keep full .seed.hex offline if written. " ++
      "Distribute each Shamir share-*.hex to a distinct custodian; " ++
      "reconstruct with reconstruct_seed_from_files before signing."
  else
    "Distribute .pub.hex to operators; keep .seed.hex offline (HSM/airgap). " ++
      "Configure node [roster] authority_pubkeys + threshold from pubkeys."

/-- The text to paste into a configuration. -/
def tomlSnippet (threshold : ℕ) (pubkeysHex : List (List Char)) : List Char :=
  line "# Paste into node/client [roster] section".toList ++
    line ("threshold = ".toList ++ decimal threshold) ++ line "authority_pubkeys = [".toList ++
    pubkeysHex.flatMap (fun pk => line ("  \"".toList ++ pk ++ "\",".toList)) ++
    line "]".toList

/-- The part of `run_ceremony` behind the loop over the authorities. -/
def finish (cfg : CeremonyConfig) (shamir : Option (ℕ × ℕ)) (s : Progress SK) :
    Except Halt (CeremonyOutput E × Disk) := do
  let consortium ← (ThresholdConsortium.new E cfg.threshold (s.keys.map E.verifyingKey)).mapError
    fun e => Halt.error ("consortium: " ++ e.display)
  match env.generateKem s.rng with
  | none => .error .starved
  | some (commitment, _) =>
    let record := recordFromCommitment env cfg.jurisdiction commitment
    let signed := admissionBy E (s.keys.take cfg.threshold) record
    (signed.verifyThreshold consortium).mapError fun e =>
      Halt.error ("sample admission verify failed: " ++ e.display)
    let json ← (env.admissionJson signed).mapError fun e =>
      Halt.error ("serialize admission: " ++ e)
    let disk ← writeRestricted env s.disk (CeremonyFile.sampleAdmission.path env.outDir) json
    let json ← (env.manifestJson
        ⟨cfg.threshold, cfg.n, s.pubkeysHex, "sample_admission.json", shamir.map Prod.fst,
          shamir.map Prod.snd, note shamir⟩).mapError fun e =>
      Halt.error ("serialize manifest: " ++ e)
    let disk ← writeRestricted env disk (CeremonyFile.manifest.path env.outDir) json
    let disk ← writeRestricted env disk (CeremonyFile.tomlSnippet.path env.outDir)
      (tomlSnippet cfg.threshold s.pubkeysHex)
    return (⟨s.pubkeysHex, signed, consortium, s.shamirSharePaths⟩, disk)

/-- A ceremony: the authorities, the manifest and the records they sign. -/
def runCeremony (cfg : CeremonyConfig) (disk : Disk) (rng : List UInt8) :
    Except Halt (CeremonyOutput E × Disk) := do
  let shamir ← checkConfig cfg
  createDirAll env "create out dir: " env.outDir
  createDirAll env "create authorities dir: " (env.outDir ++ ["authorities".toList])
  let s ← generateAuthorities env cfg shamir disk rng
  finish env cfg shamir s

/-! ## Reconstruction -/

/-- One round of the loop of `reconstruct_seed_from_files`; `none` where it panics. -/
def readShare (disk : Disk) (path : FilePath) : Option (Except String SeedShare) :=
  match disk path with
  | .error e => some (.error (String.ofList (['/'].intercalate path) ++ ": " ++ e))
  | .ok text => Shamir.decodeShareHex text

/-- The loop of `reconstruct_seed_from_files`. -/
def readShares (disk : Disk) : List FilePath → Option (Except String (List SeedShare))
  | [] => some (.ok [])
  | path :: paths =>
    match readShare disk path with
    | none => none
    | some (.error e) => some (.error e)
    | some (.ok share) => (readShares disk paths).map fun r => r.map fun shares => share :: shares

/-- `reconstruct_seed_from_files`; `none` where it panics. -/
def reconstructSeedFromFiles (disk : Disk) (paths : List FilePath) :
    Option (Except String (Bytes 32)) :=
  if paths.isEmpty then some (.error "need at least one share file")
  else
    (readShares disk paths).map fun r =>
      match r with
      | .error e => .error e
      | .ok shares => (Shamir.reconstructSeed shares).mapError displayShamirError

/-! ## The layout -/

end Ceremony

theorem decimal_injective : Function.Injective decimal := by
  intro m n h
  have hvalue := congrArg (fun l => Nat.ofDigitChars 10 l 0) h
  simpa only [decimal, Nat.ofDigitChars_ten_toDigits] using hvalue

namespace CeremonyFile

/-- The authority that a file belongs to. -/
def authority : CeremonyFile → Option ℕ
  | .pubkey i | .seed i | .share i _ => some i
  | _ => none

/-- **No two files of a ceremony have the same path.** -/
theorem path_injective (outDir : FilePath) : Function.Injective (path outDir) := by
  intro f g h
  -- the endings of two names differ near their ends
  have hend : ∀ i i' : ℕ, decimal i ++ ".pub.hex".toList ≠ decimal i' ++ ".seed.hex".toList := by
    intro i i' heq
    have hrev := congrArg List.reverse heq
    simp at hrev
  cases f <;> cases g <;>
    simp [path, List.append_cancel_left_eq, decimal_injective.eq_iff] at h ⊢
  case pubkey.pubkey | seed.seed | share.share => exact h
  case pubkey.seed i i' => exact hend i i' h
  case seed.pubkey i i' => exact hend i' i h.symm

end CeremonyFile

namespace Ceremony

variable {SK VK : Type} {E : Ed25519 SK VK} {env : CeremonyEnv E}

/-- Writing a file leaves the others alone. -/
theorem put_path (outDir : FilePath) (disk : Disk) (f g : CeremonyFile) (contents : List Char) :
    put disk (f.path outDir) contents (g.path outDir) =
      if g = f then .ok contents else disk (g.path outDir) := by
  unfold put
  simp only [Function.update_apply, (CeremonyFile.path_injective outDir).eq_iff]

/-! ## What a step has done -/

theorem writeRestricted_eq_ok {disk disk' : Disk} {path : FilePath} {contents : List Char} :
    writeRestricted env disk path contents = .ok disk' ↔
      env.access path = .ok () ∧ disk' = put disk path contents := by
  unfold writeRestricted
  cases env.access path <;> simp [eq_comm]

/-- **What the loop over the shares has written.** -/
theorem writeShares_spec {i k : ℕ} {disk disk' : Disk} {shares : List SeedShare}
    (h : (shares.zipIdx k).foldlM (fun disk share =>
      writeRestricted env disk ((CeremonyFile.share i share.2).path env.outDir)
        (line (Shamir.encodeShareHex share.1))) disk = .ok disk') :
    (∀ j share, shares[j]? = some share →
      disk' ((CeremonyFile.share i (k + j)).path env.outDir) =
        .ok (line (Shamir.encodeShareHex share))) ∧
    ∀ f : CeremonyFile, (∀ j, k ≤ j → f ≠ .share i j) →
      disk' (f.path env.outDir) = disk (f.path env.outDir) := by
  induction shares generalizing k disk with
  | nil =>
    obtain rfl := Except.ok.inj h
    exact ⟨fun j share hj => by simp at hj, fun _ _ => rfl⟩
  | cons share shares ih =>
    rw [List.zipIdx_cons, List.foldlM_cons, bind_eq_ok] at h
    obtain ⟨disk₁, hwrite, hrest⟩ := h
    obtain ⟨-, rfl⟩ := writeRestricted_eq_ok.mp hwrite
    obtain ⟨hshares, hframe⟩ := ih hrest
    refine ⟨fun j share' hj => ?_, fun f hf => ?_⟩
    · cases j with
      | zero =>
        obtain rfl := Option.some.inj hj
        rw [Nat.add_zero, hframe _ fun j hkj heq => ?_, put_path, if_pos rfl]
        obtain ⟨-, rfl⟩ := CeremonyFile.share.inj heq
        omega
      | succ j =>
        rw [show k + (j + 1) = k + 1 + j by omega]
        exact hshares j share' hj
    · rw [hframe f fun j hkj => hf j (by omega), put_path, if_neg (hf k le_rfl)]

/-- The shares of a split, one for each index. -/
theorem of_splitSeed {seed : Bytes 32} {st sn : ℕ} {rng rest : List UInt8}
    {shares : List SeedShare} (h : Shamir.splitSeed seed st sn rng = some (.ok shares, rest)) :
    (1 ≤ st ∧ st ≤ sn ∧ sn ≤ 255) ∧ shares.length = sn := by
  have hbounds : 1 ≤ st ∧ st ≤ sn ∧ sn ≤ 255 := by
    unfold Shamir.splitSeed at h
    split at h
    · cases h
    · split at h
      · cases h
      · omega
  refine ⟨hbounds, ?_⟩
  rw [Shamir.splitSeed_eq hbounds.1 hbounds.2.1 hbounds.2.2] at h
  obtain ⟨drawn, -, heq⟩ := Option.map_eq_some_iff.mp h
  obtain ⟨hshares, -⟩ := Prod.mk.inj heq
  rw [← Except.ok.inj hshares]
  simp [Shamir.sharesOf]

/-- The paths of the shares of authority `i`. -/
def sharePaths (outDir : FilePath) (shamir : Option (ℕ × ℕ)) (i : ℕ) : List FilePath :=
  match shamir with
  | none => []
  | some (sn, _) => (List.range sn).map fun j => (CeremonyFile.share i j).path outDir

/-- The shares of a seed are on the disk. -/
def SharesOnDisk (outDir : FilePath) (shamir : Option (ℕ × ℕ)) (disk : Disk) (i : ℕ)
    (seed : Bytes 32) : Prop :=
  ∀ sn st, shamir = some (sn, st) → ∃ shares rng rest,
    Shamir.splitSeed seed st sn rng = some (.ok shares, rest) ∧
      ∀ j share, shares[j]? = some share →
        disk ((CeremonyFile.share i j).path outDir) = .ok (line (Shamir.encodeShareHex share))

/-- **What sharing a seed has written.** -/
theorem shareSeed_spec {shamir : Option (ℕ × ℕ)} {i : ℕ} {seed : Bytes 32} {disk disk' : Disk}
    {rng rng' : List UInt8} {paths : List FilePath}
    (h : shareSeed env shamir i seed disk rng = .ok (disk', rng', paths)) :
    paths = sharePaths env.outDir shamir i ∧ SharesOnDisk env.outDir shamir disk' i seed ∧
      ∀ f : CeremonyFile, (∀ j, f ≠ .share i j) →
        disk' (f.path env.outDir) = disk (f.path env.outDir) := by
  unfold shareSeed at h
  split at h
  · cases h
    exact ⟨rfl, nofun, fun _ _ => rfl⟩
  · split at h
    · cases h
    · cases h
    · rename_i sn st _ shares rest hsplit
      obtain ⟨-, -, h⟩ := bind_eq_ok.mp h
      obtain ⟨disk₁, hwrite, h⟩ := bind_eq_ok.mp h
      cases h
      obtain ⟨hshares, hframe⟩ := writeShares_spec hwrite
      refine ⟨by simp [sharePaths, (of_splitSeed hsplit).2], ?_,
        fun f hf => hframe f fun j _ => hf j⟩
      rintro sn' st' ⟨⟩
      exact ⟨shares, rng, rng', hsplit, fun j share hj => by simpa using hshares j share hj⟩

/-- The seed is written or not; no other file changes. -/
theorem writeSeed_spec {cfg : CeremonyConfig} {i : ℕ} {seed : Bytes 32} {disk disk' : Disk}
    (h : writeSeed env cfg i seed disk = .ok disk') :
    (cfg.writeSeeds = true → disk' ((CeremonyFile.seed i).path env.outDir) =
      .ok (line (hexEncode seed.toList))) ∧
    ∀ f : CeremonyFile, f ≠ .seed i → disk' (f.path env.outDir) = disk (f.path env.outDir) := by
  unfold writeSeed at h
  split at h
  · obtain ⟨-, rfl⟩ := writeRestricted_eq_ok.mp h
    exact ⟨fun _ => by simp [put_path], fun f hf => by rw [put_path, if_neg hf]⟩
  · rename_i hwrite
    cases h
    exact ⟨fun htrue => absurd htrue hwrite, fun f _ => rfl⟩

/-- What the disk holds of authority `i`, whose seed is `seed`. -/
structure Holds (env : CeremonyEnv E) (cfg : CeremonyConfig) (shamir : Option (ℕ × ℕ))
    (disk : Disk) (i : ℕ) (seed : Bytes 32) : Prop where
  pubkeyFile : disk ((CeremonyFile.pubkey i).path env.outDir) =
    .ok (line (hexEncode (E.toBytes (E.verifyingKey (env.fromSeed seed))).toList))
  seedFile : cfg.writeSeeds = true →
    disk ((CeremonyFile.seed i).path env.outDir) = .ok (line (hexEncode seed.toList))
  shareFiles : SharesOnDisk env.outDir shamir disk i seed

/-- Only the files of authority `i` matter. -/
theorem Holds.frame {cfg : CeremonyConfig} {shamir : Option (ℕ × ℕ)} {disk disk' : Disk} {i : ℕ}
    {seed : Bytes 32} (h : Holds env cfg shamir disk i seed)
    (hframe : ∀ f : CeremonyFile, f.authority = some i →
      disk' (f.path env.outDir) = disk (f.path env.outDir)) :
    Holds env cfg shamir disk' i seed where
  pubkeyFile := (hframe (.pubkey i) rfl).trans h.pubkeyFile
  seedFile hwrite := (hframe (.seed i) rfl).trans (h.seedFile hwrite)
  shareFiles sn st hshamir := by
    obtain ⟨shares, rng, rest, hsplit, hfiles⟩ := h.shareFiles sn st hshamir
    exact ⟨shares, rng, rest, hsplit, fun j share hj =>
      (hframe (.share i j) rfl).trans (hfiles j share hj)⟩

/-- The text of a public key. -/
def pubkeyHex (env : CeremonyEnv E) (seed : Bytes 32) : List Char :=
  hexEncode (E.toBytes (E.verifyingKey (env.fromSeed seed))).toList

/-- **What one round has done**: it makes an authority, and leaves the files of others alone. -/
theorem generateAuthority_spec {cfg : CeremonyConfig} {shamir : Option (ℕ × ℕ)}
    {s s' : Progress SK} {i : ℕ} (h : generateAuthority env cfg shamir s i = .ok s') :
    ∃ seed, Holds env cfg shamir s'.disk i seed ∧ s'.keys = s.keys ++ [env.fromSeed seed] ∧
      s'.pubkeysHex = s.pubkeysHex ++ [pubkeyHex env seed] ∧
      s'.shamirSharePaths = s.shamirSharePaths ++ [sharePaths env.outDir shamir i] ∧
      ∀ f : CeremonyFile, f.authority ≠ some i →
        s'.disk (f.path env.outDir) = s.disk (f.path env.outDir) := by
  unfold generateAuthority at h
  split at h
  · cases h
  · rename_i drawn rng _
    obtain ⟨disk₁, hpubkey, h⟩ := bind_eq_ok.mp h
    obtain ⟨disk₂, hseed, h⟩ := bind_eq_ok.mp h
    obtain ⟨⟨disk₃, rng', paths⟩, hshare, h⟩ := bind_eq_ok.mp h
    cases h
    obtain ⟨-, rfl⟩ := writeRestricted_eq_ok.mp hpubkey
    obtain ⟨rfl, hshares, hframe⟩ := shareSeed_spec hshare
    obtain ⟨hwritten, hother⟩ := writeSeed_spec hseed
    refine ⟨(Bytes.zero 32).put 0 drawn, ⟨?_, fun hwrite => ?_, hshares⟩, rfl, rfl, rfl,
      fun f hf => ?_⟩
    all_goals dsimp only
    · rw [hframe _ fun j => by simp, hother _ (by simp), put_path, if_pos rfl]
    · rw [hframe _ fun j => by simp, hwritten hwrite]
    · rw [hframe f fun j heq => hf (by rw [heq]; rfl), hother f fun heq => hf (by rw [heq]; rfl),
        put_path, if_neg fun heq => hf (by rw [heq]; rfl)]

/-- **What the loop over the authorities has done**, whatever was on the disk. -/
theorem generateAuthorities_spec {cfg : CeremonyConfig} {shamir : Option (ℕ × ℕ)} {disk : Disk}
    {rng : List UInt8} {s : Progress SK}
    (h : generateAuthorities env cfg shamir disk rng = .ok s) :
    ∃ seeds : List (Bytes 32), seeds.length = cfg.n ∧ s.keys = seeds.map env.fromSeed ∧
      s.pubkeysHex = seeds.map (pubkeyHex env) ∧
      s.shamirSharePaths = (List.range cfg.n).map (sharePaths env.outDir shamir) ∧
      ∀ i seed, seeds[i]? = some seed → Holds env cfg shamir s.disk i seed := by
  unfold generateAuthorities at h
  generalize cfg.n = n at h ⊢
  induction n generalizing s with
  | zero =>
    cases h
    exact ⟨[], rfl, rfl, rfl, rfl, fun i seed hi => by simp at hi⟩
  | succ n ih =>
    rw [List.range_succ, List.foldlM_append] at h
    obtain ⟨s₁, hbefore, h⟩ := bind_eq_ok.mp h
    obtain ⟨s₂, hround, h⟩ := bind_eq_ok.mp h
    cases h
    obtain ⟨seeds, hlen, hkeys, hhex, hpaths, hholds⟩ := ih hbefore
    obtain ⟨seed, hlast, hkeys', hhex', hpaths', hframe⟩ := generateAuthority_spec hround
    refine ⟨seeds ++ [seed], by simp [hlen], by simp [hkeys', hkeys], by simp [hhex', hhex],
      by simp [hpaths', hpaths, List.range_succ], fun i seed' hi => ?_⟩
    by_cases hin : i < seeds.length
    · rw [List.getElem?_append_left hin] at hi
      refine (hholds i seed' hi).frame fun f hf => hframe f ?_
      rw [hf]
      intro heq
      have := Option.some.inj heq
      omega
    · obtain ⟨hlt, -⟩ := List.getElem?_eq_some_iff.mp hi
      rw [List.length_append, List.length_singleton] at hlt
      obtain rfl : i = n := by omega
      rw [List.getElem?_append_right (by omega), hlen, Nat.sub_self] at hi
      obtain rfl := Option.some.inj hi
      exact hlast

/-- **What the end of a ceremony has done**: the consortium is the one of the authorities, and their
files stay. -/
theorem finish_spec {cfg : CeremonyConfig} {shamir : Option (ℕ × ℕ)} {s : Progress SK}
    {out : CeremonyOutput E} {disk : Disk} (h : finish env cfg shamir s = .ok (out, disk)) :
    ThresholdConsortium.new E cfg.threshold (s.keys.map E.verifyingKey) = .ok out.consortium ∧
      out.sampleAdmission.verifyThreshold out.consortium = .ok () ∧
      out.authorityPubkeysHex = s.pubkeysHex ∧ out.shamirSharePaths = s.shamirSharePaths ∧
      ∀ f : CeremonyFile, f.authority ≠ none →
        disk (f.path env.outDir) = s.disk (f.path env.outDir) := by
  unfold finish at h
  obtain ⟨consortium, hconsortium, h⟩ := bind_eq_ok.mp h
  split at h
  · cases h
  · obtain ⟨⟨⟩, hverify, h⟩ := bind_eq_ok.mp h
    obtain ⟨admission, -, h⟩ := bind_eq_ok.mp h
    obtain ⟨disk₁, hadmission, h⟩ := bind_eq_ok.mp h
    obtain ⟨manifest, -, h⟩ := bind_eq_ok.mp h
    obtain ⟨disk₂, hmanifest, h⟩ := bind_eq_ok.mp h
    obtain ⟨disk₃, hsnippet, h⟩ := bind_eq_ok.mp h
    obtain ⟨-, rfl⟩ := writeRestricted_eq_ok.mp hadmission
    obtain ⟨-, rfl⟩ := writeRestricted_eq_ok.mp hmanifest
    obtain ⟨-, rfl⟩ := writeRestricted_eq_ok.mp hsnippet
    obtain ⟨rfl, rfl⟩ := Prod.mk.inj (Except.ok.inj h)
    refine ⟨mapError_eq_ok.mp hconsortium, mapError_eq_ok.mp hverify, rfl, rfl, fun f hf => ?_⟩
    rw [put_path, if_neg fun heq => hf (by rw [heq]; rfl), put_path,
      if_neg fun heq => hf (by rw [heq]; rfl), put_path, if_neg fun heq => hf (by rw [heq]; rfl)]

/-- What the checks on the parameters let pass. -/
theorem of_checkConfig {cfg : CeremonyConfig} {shamir : Option (ℕ × ℕ)}
    (h : checkConfig cfg = .ok shamir) :
    1 ≤ cfg.threshold ∧ cfg.threshold ≤ cfg.n ∧ cfg.shamirN = shamir.map Prod.fst ∧
      cfg.shamirThreshold = shamir.map Prod.snd ∧
      ∀ sn st, shamir = some (sn, st) → 1 ≤ st ∧ st ≤ sn ∧ sn ≤ 255 := by
  unfold checkConfig at h
  split at h
  · cases h
  · split at h
    · cases h
    · have hthreshold : 1 ≤ cfg.threshold ∧ cfg.threshold ≤ cfg.n := by omega
      refine ⟨hthreshold.1, hthreshold.2, ?_⟩
      split at h
      · split at h
        · cases h
        · cases h
        · rename_i sn st hsn hst
          split at h
          · cases h
          · split at h
            · cases h
            · cases h
              refine ⟨hsn, hst, ?_⟩
              rintro sn' st' ⟨⟩
              omega
      · rename_i hnone
        cases h
        simp only [Bool.or_eq_true, not_or, Bool.not_eq_true, Option.isSome_eq_false_iff,
          Option.isNone_iff_eq_none] at hnone
        exact ⟨hnone.1, hnone.2, nofun⟩

/-- **What a ceremony that succeeds has done**: there are seeds, one for each authority, whose keys
make the consortium, and the disk holds what belongs to them. -/
theorem of_runCeremony {cfg : CeremonyConfig} {disk disk' : Disk} {rng : List UInt8}
    {out : CeremonyOutput E} (h : runCeremony env cfg disk rng = .ok (out, disk')) :
    ∃ (shamir : Option (ℕ × ℕ)) (seeds : List (Bytes 32)), checkConfig cfg = .ok shamir ∧
      seeds.length = cfg.n ∧
      ThresholdConsortium.new E cfg.threshold
        ((seeds.map env.fromSeed).map E.verifyingKey) = .ok out.consortium ∧
      out.authorityPubkeysHex = seeds.map (pubkeyHex env) ∧
      out.shamirSharePaths = (List.range cfg.n).map (sharePaths env.outDir shamir) ∧
      ∀ i seed, seeds[i]? = some seed → Holds env cfg shamir disk' i seed := by
  unfold runCeremony at h
  obtain ⟨shamir, hcheck, h⟩ := bind_eq_ok.mp h
  obtain ⟨-, -, h⟩ := bind_eq_ok.mp h
  obtain ⟨-, -, h⟩ := bind_eq_ok.mp h
  obtain ⟨s, hloop, h⟩ := bind_eq_ok.mp h
  obtain ⟨seeds, hlen, hkeys, hhex, hpaths, hholds⟩ := generateAuthorities_spec hloop
  obtain ⟨hconsortium, -, hpubkeys, hshares, hframe⟩ := finish_spec h
  refine ⟨shamir, seeds, hcheck, hlen, hkeys ▸ hconsortium, hpubkeys.trans hhex,
    hshares.trans hpaths, fun i seed hi => (hholds i seed hi).frame fun f hf => hframe f ?_⟩
  rw [hf]
  simp

end Ceremony

end Aegis
