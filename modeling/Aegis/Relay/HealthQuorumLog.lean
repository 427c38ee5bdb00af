import Aegis.Relay.HealthGossip
import Aegis.Relay.PeerHealth

/-!
# The health quorum log (`health_quorum_log.rs`)

Signed adverts are logged per epoch, in memory and in a file of fixed-width records.  When
`majority_k` reporters of the authority set have reported on a subject, their median is merged
into the tracker.  A log is loaded by replaying its file.

* `HealthQuorumLogEntry.fromRecordBytes_recordBytes` — a record gives back its entry, but for
  the timestamp, which it has no room for.
-/

namespace Aegis

open Buffer

/-! ## Records -/

/-- How long a record is: an epoch, two ids, two counts and a signature. -/
def quorumLogRecordLen : ℕ := 8 + 32 + 32 + 8 + 8 + 64

/-- What the log fails with. -/
inductive QuorumLogError where
  | malformed
  | badSignature
  | notAuthority
  | equivocation
  | io (message : String)
  deriving DecidableEq, Repr

/-- One persisted observation. -/
structure HealthQuorumLogEntry where
  epoch : UInt64
  advert : PeerHealthAdvert
  deriving DecidableEq

namespace HealthQuorumLogEntry

/-- The record of an entry. -/
def recordBytes (e : HealthQuorumLogEntry) : Bytes quorumLogRecordLen :=
  ((((((Bytes.zero quorumLogRecordLen).put 0 (u64Bytes e.epoch)).put 8
    e.advert.reporter.toList).put 40 e.advert.subject.toList).put 72
    (u64Bytes e.advert.successes)).put 80 (u64Bytes e.advert.failures)).put 88
    e.advert.signature.toList

/-- The entry in a record; the timestamp is not in it. -/
def ofRecord (b : Bytes quorumLogRecordLen) : HealthQuorumLogEntry where
  epoch := u64Value (b.window 0 8 (by decide))
  advert :=
    { reporter := b.window 8 32 (by decide)
      subject := b.window 40 32 (by decide)
      successes := u64Value (b.window 72 8 (by decide))
      failures := u64Value (b.window 80 8 (by decide))
      timestampSecs := 0
      signature := b.window 88 advertSigLen (by decide) }

/-- The entry of a record, if the bytes are as many as a record has. -/
def fromRecordBytes (buf : List UInt8) : Except QuorumLogError HealthQuorumLogEntry :=
  if h : buf.length = quorumLogRecordLen then .ok (ofRecord ⟨buf, h⟩) else .error .malformed

theorem fromRecordBytes_toList (b : Bytes quorumLogRecordLen) :
    fromRecordBytes b.toList = .ok (ofRecord b) := by
  rw [fromRecordBytes, dif_pos b.toList_length]
  rfl

/-- What a record keeps of an entry. -/
def stored (e : HealthQuorumLogEntry) : HealthQuorumLogEntry :=
  { e with advert := { e.advert with timestampSecs := 0 } }

/-- The fields, where a record has them. -/
theorem slice_recordBytes (e : HealthQuorumLogEntry) :
    slice 0 8 e.recordBytes.toList = u64Bytes e.epoch ∧
      slice 8 32 e.recordBytes.toList = e.advert.reporter.toList ∧
      slice 40 32 e.recordBytes.toList = e.advert.subject.toList ∧
      slice 72 8 e.recordBytes.toList = u64Bytes e.advert.successes ∧
      slice 80 8 e.recordBytes.toList = u64Bytes e.advert.failures ∧
      slice 88 advertSigLen e.recordBytes.toList = e.advert.signature.toList := by
  have hlen : ∀ b : Bytes quorumLogRecordLen, b.toList.length = 152 := fun b => b.toList_length
  simp only [recordBytes]
  refine ⟨?_, ?_, ?_, ?_, ?_, ?_⟩
  · rw [Bytes.toList_put, slice_writeAt_of_disjoint (Or.inl (by decide)), Bytes.toList_put,
      slice_writeAt_of_disjoint (Or.inl (by decide)), Bytes.toList_put,
      slice_writeAt_of_disjoint (Or.inl (by decide)), Bytes.toList_put,
      slice_writeAt_of_disjoint (Or.inl (by decide)), Bytes.toList_put,
      slice_writeAt_of_disjoint (Or.inl (by decide)), Bytes.toList_put,
      slice_writeAt (length_u64Bytes _) (by rw [hlen]; decide)]
  · rw [Bytes.toList_put, slice_writeAt_of_disjoint (Or.inl (by decide)), Bytes.toList_put,
      slice_writeAt_of_disjoint (Or.inl (by decide)), Bytes.toList_put,
      slice_writeAt_of_disjoint (Or.inl (by decide)), Bytes.toList_put,
      slice_writeAt_of_disjoint (Or.inl (by decide)), Bytes.toList_put,
      slice_writeAt e.advert.reporter.toList_length (by rw [hlen]; decide)]
  · rw [Bytes.toList_put, slice_writeAt_of_disjoint (Or.inl (by decide)), Bytes.toList_put,
      slice_writeAt_of_disjoint (Or.inl (by decide)), Bytes.toList_put,
      slice_writeAt_of_disjoint (Or.inl (by decide)), Bytes.toList_put,
      slice_writeAt e.advert.subject.toList_length (by rw [hlen]; decide)]
  · rw [Bytes.toList_put, slice_writeAt_of_disjoint (Or.inl (by decide)), Bytes.toList_put,
      slice_writeAt_of_disjoint (Or.inl (by decide)), Bytes.toList_put,
      slice_writeAt (length_u64Bytes _) (by rw [hlen]; decide)]
  · rw [Bytes.toList_put, slice_writeAt_of_disjoint (Or.inl (by decide)), Bytes.toList_put,
      slice_writeAt (length_u64Bytes _) (by rw [hlen]; decide)]
  · rw [Bytes.toList_put,
      slice_writeAt e.advert.signature.toList_length (by rw [hlen]; decide)]

/-- **What is read back of an entry.** -/
theorem fromRecordBytes_recordBytes (e : HealthQuorumLogEntry) :
    fromRecordBytes e.recordBytes.toList = .ok e.stored := by
  obtain ⟨hepoch, hrep, hsub, hsucc, hfail, hsig⟩ := e.slice_recordBytes
  have h1 : u64Value (e.recordBytes.window 0 8 (by decide)) = e.epoch := by
    apply u64Value_of_toList
    rw [Bytes.toList_window, hepoch]
  have h2 : e.recordBytes.window 8 32 (by decide) = e.advert.reporter := by
    apply Bytes.ext_toList
    rw [Bytes.toList_window, hrep]
  have h3 : e.recordBytes.window 40 32 (by decide) = e.advert.subject := by
    apply Bytes.ext_toList
    rw [Bytes.toList_window, hsub]
  have h4 : u64Value (e.recordBytes.window 72 8 (by decide)) = e.advert.successes := by
    apply u64Value_of_toList
    rw [Bytes.toList_window, hsucc]
  have h5 : u64Value (e.recordBytes.window 80 8 (by decide)) = e.advert.failures := by
    apply u64Value_of_toList
    rw [Bytes.toList_window, hfail]
  have h6 : e.recordBytes.window 88 advertSigLen (by decide) = e.advert.signature := by
    apply Bytes.ext_toList
    rw [Bytes.toList_window, hsig]
  rw [fromRecordBytes_toList, ofRecord, h1, h2, h3, h4, h5, h6]
  rfl

/-- `(epoch, reporter, subject)`. -/
def dedupKey (e : HealthQuorumLogEntry) : UInt64 × RelayId × RelayId :=
  (e.epoch, e.advert.reporter, e.advert.subject)

/-- `(epoch, subject)`. -/
def quorumKey (e : HealthQuorumLogEntry) : UInt64 × RelayId := (e.epoch, e.advert.subject)

/-- `(successes, failures)`. -/
def payload (e : HealthQuorumLogEntry) : Observation := (e.advert.successes, e.advert.failures)

end HealthQuorumLogEntry

/-! ## Files -/

/-- A path, as it is given. -/
abbrev PathBuf := List Char

/-- The contents of the files there are. -/
abbrev FileSystem := PathBuf → Option (List UInt8)

/-- Append to a file, which is created if there is none. -/
def FileSystem.append (fs : FileSystem) (path : PathBuf) (bytes : List UInt8) : FileSystem :=
  Function.update fs path (some ((fs path).getD [] ++ bytes))

/-- How writing a record goes: the file cannot be opened, or the write stops after some bytes. -/
inductive Write where
  | done
  | openFailed (message : String)
  | writeFailed (written : ℕ) (message : String)

/-- The write does not leave a part of a record behind. -/
def Write.Whole : Write → Prop
  | .writeFailed written _ => written = 0
  | _ => True

/-! ## The log -/

/-- What has become of a report. -/
inductive QuorumAppendOutcome where
  | buffered (have_ need : ℕ)
  | waitingDiversity (have_ distinctOrgs needOrgs : ℕ)
  | applied (reporters distinctOrgs : ℕ)
  | quarantined (reporters distinctOrgs : ℕ)
  | duplicate
  deriving DecidableEq, Repr

/-- One accepted median of an epoch. -/
structure HealthEpochMedianSummary where
  subject : RelayId
  successes : UInt64
  failures : UInt64
  deriving DecidableEq

/-- A signed rollup of the accepted medians of an epoch. -/
structure HealthEpochCheckpoint where
  epoch : UInt64
  summaries : List HealthEpochMedianSummary
  signerPubkey : Bytes 32
  signature : List UInt8

/-- What sets the bytes of a checkpoint apart. -/
def epochCheckpointDomain : List UInt8 := ascii "aegis-health-epoch-checkpoint-v1"

/-- `canonical_checkpoint_bytes`. -/
def canonicalCheckpointBytes (epoch : UInt64) (summaries : List HealthEpochMedianSummary) :
    List UInt8 :=
  epochCheckpointDomain ++ u64Bytes epoch ++ summaries.flatMap fun s =>
    s.subject.toList ++ u64Bytes s.successes ++ u64Bytes s.failures

/-- The log in memory. -/
structure HealthQuorumLog where
  path : Option PathBuf
  majorityK : ℕ
  authoritySet : Finset RelayId
  seen : HashMap (UInt64 × RelayId × RelayId) Observation
  pending : HashMap (UInt64 × RelayId) (HashMap RelayId (Observation × List Char))
  applied : Finset (UInt64 × RelayId)
  appliedMedians : HashMap (UInt64 × RelayId) Observation
  entries : List HealthQuorumLogEntry

/-- The arguments of one append, the tracker as it is then, the order in which the reporters
are listed and how the write goes. -/
structure Append (VK : Type) where
  epoch : UInt64
  advert : PeerHealthAdvert
  verifyingKey : VK
  tracker : PeerHealthTracker
  diversityKey : List Char
  order : IterOrder RelayId (Observation × List Char)
  write : Write

/-- The entry that the call appends. -/
def Append.entry {VK : Type} (c : Append VK) : HealthQuorumLogEntry := ⟨c.epoch, c.advert⟩

/-- The label under which the reporter counts. -/
def Append.label {VK : Type} (c : Append VK) : List Char :=
  if trimLabel c.diversityKey = [] then gossipDiversityKey none none c.advert.reporter
  else trimLabel c.diversityKey

/-- What an append leaves and returns. -/
structure Appended where
  log : HealthQuorumLog
  fs : FileSystem
  tracker : PeerHealthTracker
  result : Except QuorumLogError QuorumAppendOutcome

/-- The orders in which the end of a replay lists the pending subjects and their reporters. -/
structure ReplayOrder where
  pending : IterOrder (UInt64 × RelayId) (HashMap RelayId (Observation × List Char))
  values : UInt64 × RelayId → IterOrder RelayId (Observation × List Char)

namespace HealthQuorumLog

/-- A log without entries, that asks for one reporter at least. -/
def new (majorityK : ℕ) (authoritySet : Finset RelayId) : HealthQuorumLog :=
  ⟨none, max majorityK 1, authoritySet, ∅, ∅, ∅, ∅, []⟩

/-- The log is kept at this path. -/
def withPersistPath (log : HealthQuorumLog) (path : PathBuf) : HealthQuorumLog :=
  { log with path := some path }

/-- The reporter is an authority; all are if none is named. -/
def IsAuthority (log : HealthQuorumLog) (reporter : RelayId) : Prop :=
  log.authoritySet = ∅ ∨ reporter ∈ log.authoritySet

instance (log : HealthQuorumLog) (reporter : RelayId) : Decidable (log.IsAuthority reporter) :=
  inferInstanceAs (Decidable (_ ∨ _))

/-- Who has reported on a subject, and what. -/
def ballot (log : HealthQuorumLog) (q : UInt64 × RelayId) :
    HashMap RelayId (Observation × List Char) :=
  (log.pending.lookup q).getD ∅

/-- What a reporter has reported on a subject that is pending. -/
def observed (log : HealthQuorumLog) (q : UInt64 × RelayId) (reporter : RelayId) :
    Option Observation :=
  ((log.ballot q).lookup reporter).map Prod.fst

/-- How many have reported on a subject. -/
def reporters (log : HealthQuorumLog) (q : UInt64 × RelayId) : ℕ := (log.ballot q).entries.length

/-- What they have reported, in some order. -/
def observations (log : HealthQuorumLog) (o : IterOrder RelayId (Observation × List Char))
    (q : UInt64 × RelayId) : List Observation :=
  (o.values (log.ballot q)).map Prod.fst

/-- The labels they count under, in some order. -/
def diversityKeys (log : HealthQuorumLog) (o : IterOrder RelayId (Observation × List Char))
    (q : UInt64 × RelayId) : List (List Char) :=
  (o.values (log.ballot q)).map Prod.snd

/-! ### Appending -/

section Append

variable {SK VK : Type} (E : Ed25519 SK VK) (fl : ℚ → ℚ)

/-- The checks: an error, or whether the advert is new. -/
def checkAdvert (log : HealthQuorumLog) (entry : HealthQuorumLogEntry) (verifyingKey : VK) :
    Except QuorumLogError Bool :=
  match entry.advert.verify E verifyingKey with
  | .error _ => .error .badSignature
  | .ok () =>
    if ¬log.IsAuthority entry.advert.reporter then .error .notAuthority
    else
      match log.seen.lookup entry.dedupKey with
      | some prev => if prev ≠ entry.payload then .error .equivocation else .ok false
      | none => .ok true

/-- Remember the entry. -/
def note (log : HealthQuorumLog) (entry : HealthQuorumLogEntry) : HealthQuorumLog :=
  { log with
    seen := log.seen.insert entry.dedupKey entry.payload
    entries := log.entries ++ [entry] }

/-- The entry is written behind the file, if there is one. -/
def persistEntry (log : HealthQuorumLog) (fs : FileSystem) (entry : HealthQuorumLogEntry)
    (w : Write) : FileSystem × Except QuorumLogError Unit :=
  match log.path with
  | none => (fs, .ok ())
  | some path =>
    match w with
    | .done => (fs.append path entry.recordBytes.toList, .ok ())
    | .openFailed message => (fs, .error (.io message))
    | .writeFailed written message =>
      (fs.append path (entry.recordBytes.toList.take written), .error (.io message))

/-- Put the observation among those pending for its subject. -/
def observe (log : HealthQuorumLog) (entry : HealthQuorumLogEntry) (label : List Char) :
    HealthQuorumLog :=
  { log with
    pending := log.pending.insert entry.quorumKey
      ((log.ballot entry.quorumKey).insert entry.advert.reporter (entry.payload, label)) }

/-- The subject is done with, and its median if there is one. -/
def settle (log : HealthQuorumLog) (q : UInt64 × RelayId) (median : Option Observation) :
    HealthQuorumLog :=
  { log with
    appliedMedians :=
      match median with
      | some m => log.appliedMedians.insert q m
      | none => log.appliedMedians
    applied := insert q log.applied
    pending := log.pending.erase q }

/-- What happens to an entry that is new and persisted. -/
def vote (log : HealthQuorumLog) (c : Append VK) :
    HealthQuorumLog × PeerHealthTracker × QuorumAppendOutcome :=
  let q := c.entry.quorumKey
  if q ∈ log.applied then (log, c.tracker, .duplicate)
  else
    let log := log.observe c.entry c.label
    let have_ := log.reporters q
    if have_ < log.majorityK then (log, c.tracker, .buffered have_ log.majorityK)
    else
      let obs := log.observations c.order q
      match c.tracker.applyQuorumMedian fl c.advert.subject obs (log.diversityKeys c.order q) with
      | (tracker, .waitingDiversity have_ distinctOrgs needOrgs) =>
        (log, tracker, .waitingDiversity have_ distinctOrgs needOrgs)
      | (tracker, .quarantined reporters distinctOrgs) =>
        (log.settle q none, tracker, .quarantined reporters distinctOrgs)
      | (tracker, .applied reporters distinctOrgs) =>
        (log.settle q (medianOutcomeCounts fl obs), tracker, .applied reporters distinctOrgs)
      | (tracker, .buffered have_ need) => (log, tracker, .buffered have_ need)

/-- A report is checked, remembered, written and counted. -/
def appendVerified (log : HealthQuorumLog) (fs : FileSystem) (c : Append VK) : Appended :=
  match log.checkAdvert E c.entry c.verifyingKey with
  | .error e => ⟨log, fs, c.tracker, .error e⟩
  | .ok false => ⟨log, fs, c.tracker, .ok .duplicate⟩
  | .ok true =>
    let log := log.note c.entry
    match log.persistEntry fs c.entry c.write with
    | (fs, .error e) => ⟨log, fs, c.tracker, .error e⟩
    | (fs, .ok ()) =>
      let (log, tracker, outcome) := log.vote fl c
      ⟨log, fs, tracker, .ok outcome⟩

end Append

/-! ### Loading -/

section Load

variable (fl : ℚ → ℚ) (ord : ReplayOrder)

/-- An entry that was read is remembered, and counted if it is an authority's. -/
def replayEntry (log : HealthQuorumLog) (entry : HealthQuorumLogEntry) :
    Except QuorumLogError HealthQuorumLog :=
  let noted : Except QuorumLogError HealthQuorumLog :=
    match log.seen.lookup entry.dedupKey with
    | some prev => if prev ≠ entry.payload then .error .equivocation else .ok log
    | none => .ok { log with seen := log.seen.insert entry.dedupKey entry.payload }
  match noted with
  | .error e => .error e
  | .ok log =>
    let log := { log with entries := log.entries ++ [entry] }
    if entry.quorumKey ∈ log.applied then .ok log
    else if ¬log.IsAuthority entry.advert.reporter then .ok log
    else .ok (log.observe entry (gossipDiversityKey none none entry.advert.reporter))

/-- One record of the file. -/
def replayRecord (log : HealthQuorumLog) (buf : List UInt8) :
    Except QuorumLogError HealthQuorumLog :=
  HealthQuorumLogEntry.fromRecordBytes buf >>= log.replayEntry

/-- The median of those who have reported on a subject. -/
def replayedMedian (log : HealthQuorumLog) (q : UInt64 × RelayId) : Option Observation :=
  match log.pending.lookup q with
  | some _ => medianOutcomeCounts fl (log.observations (ord.values q) q)
  | none => none

/-- The subjects enough reporters have reported on. -/
def ready (log : HealthQuorumLog) : List (UInt64 × RelayId) :=
  ((ord.pending.iter log.pending).filter fun e => log.majorityK ≤ e.2.entries.length).map Sigma.fst

/-- What is pending on a subject is replaced by its median. -/
def settleReplayed (log : HealthQuorumLog) (q : UInt64 × RelayId) : HealthQuorumLog :=
  log.settle q (log.replayedMedian fl ord q)

/-- The same for every subject that enough reporters have reported on. -/
def finalizeReplayedQuorums (log : HealthQuorumLog) : HealthQuorumLog :=
  (log.ready ord).foldl (settleReplayed fl ord) log

/-- The whole records of the file; a part of one at its end is not read. -/
def replayRecords (log : HealthQuorumLog) (bytes : List UInt8) :
    Except QuorumLogError HealthQuorumLog :=
  (chunks quorumLogRecordLen bytes).foldlM replayRecord log

/-- The log that its file gives. -/
def replayFromDisk (log : HealthQuorumLog) (bytes : List UInt8) :
    Except QuorumLogError HealthQuorumLog :=
  (log.replayRecords bytes).map (finalizeReplayedQuorums fl ord)

/-- The log that is kept at a path, or one without entries if there is no file. -/
def loadOrCreate (fs : FileSystem) (path : PathBuf) (majorityK : ℕ)
    (authoritySet : Finset RelayId) : Except QuorumLogError HealthQuorumLog :=
  let log := (new majorityK authoritySet).withPersistPath path
  match fs path with
  | some bytes => log.replayFromDisk fl ord bytes
  | none => .ok log

end Load

/-! ### Checkpoints -/

section Checkpoint

/-- Subjects are sorted by their bytes. -/
def subjectKey (s : HealthEpochMedianSummary) : List ℕ := s.subject.toList.map UInt8.toNat

/-- The medians of an epoch, sorted by subject. -/
def appliedSummariesForEpoch (log : HealthQuorumLog)
    (o : IterOrder (UInt64 × RelayId) Observation) (epoch : UInt64) :
    List HealthEpochMedianSummary :=
  (((o.iter log.appliedMedians).filter fun e => e.1.1 = epoch).map fun e =>
    ⟨e.1.2, e.2.1, e.2.2⟩).insertionSort fun a b => subjectKey a ≤ subjectKey b

/-- The medians of an epoch, signed. -/
def signEpochCheckpoint {SK VK : Type} (E : Ed25519 SK VK) (log : HealthQuorumLog)
    (o : IterOrder (UInt64 × RelayId) Observation) (epoch : UInt64) (signingKey : SK) :
    HealthEpochCheckpoint :=
  let summaries := log.appliedSummariesForEpoch o epoch
  let msg := canonicalCheckpointBytes epoch summaries
  ⟨epoch, summaries, E.toBytes (E.verifyingKey signingKey), (E.sign signingKey msg).toList⟩

end Checkpoint

/-! ### Runs -/

/-- A log and the files. -/
structure Node where
  log : HealthQuorumLog
  fs : FileSystem

section System

variable {SK VK : Type} (E : Ed25519 SK VK) (fl : ℚ → ℚ)

/-- One call. -/
def stepNode (s : Node) (c : Append VK) : Node :=
  let a := s.log.appendVerified E fl s.fs c
  ⟨a.log, a.fs⟩

/-- One call after another. -/
def runNode (s : Node) (calls : List (Append VK)) : Node := calls.foldl (stepNode E fl) s

theorem runNode_append (s : Node) (calls calls' : List (Append VK)) :
    runNode E fl s (calls ++ calls') = runNode E fl (runNode E fl s calls) calls' :=
  List.foldl_append

theorem runNode_concat (s : Node) (calls : List (Append VK)) (c : Append VK) :
    runNode E fl s (calls ++ [c]) = stepNode E fl (runNode E fl s calls) c :=
  runNode_append E fl s calls [c]

end System

/-- A toy scheme: a signature names its key. -/
def checksumEd25519 : Ed25519 UInt8 UInt8 where
  verifyingKey := id
  toBytes := List.Vector.replicate 32
  sign := fun key _ => List.Vector.replicate advertSigLen key
  verify := fun key _ signature => decide (signature = List.Vector.replicate advertSigLen key)

/-- Reporter `n…n` has reached the subject `9…9` nine times out of ten. -/
def checksumAppend (policy : GossipMergePolicy) (n : UInt8) : Append UInt8 where
  epoch := 1
  advert := PeerHealthAdvert.sign checksumEd25519 n (List.Vector.replicate 32 n)
    (List.Vector.replicate 32 9) 9 1 100
  verifyingKey := n
  tracker := PeerHealthTracker.withPolicy policy
  diversityKey := "org:a".toList
  order := IterOrder.latestFirst
  write := .done

end HealthQuorumLog

end Aegis
