import Aegis.Relay.QuorumTorn

/-!
# Failed appends and records read back (`health_quorum_log.rs`)

An advert is noted in memory before its record is written, so a write that fails leaves the note
behind, and the advert counts as a duplicate from then on.  The record has no room for the
timestamp, which the signature covers.

* `appendVerified_atomic_iff` — **when a failed append leaves the log alone.**
* `appendVerified_of_noted` — the vote of a failed append is lost.
* `HealthQuorumLogEntry.survives_iff` — **when an entry is read back as it was.**
-/

namespace Aegis

open Buffer

/-! ## Failed appends -/

namespace HealthQuorumLog

section Atomic

variable {SK VK : Type} (E : Ed25519 SK VK) (fl : ℚ → ℚ)

/-- If the append fails the log is as before, so that another attempt does what the first one would
have done. -/
def AppendAtomic (log : HealthQuorumLog) (fs : FileSystem) (c : Append VK) : Prop :=
  ∀ e, (log.appendVerified E fl fs c).result = .error e →
    (log.appendVerified E fl fs c).log = log ∧
      ∀ (fs' : FileSystem) (retry : Append VK), retry.entry = c.entry →
        (log.appendVerified E fl fs c).log.appendVerified E fl fs' retry =
          log.appendVerified E fl fs' retry

variable {E fl} {log : HealthQuorumLog} {c : Append VK}

/-- A record is written if the write succeeds, and there is nothing to write without a file. -/
theorem persistEntry_ok_iff {log : HealthQuorumLog} {fs : FileSystem}
    {entry : HealthQuorumLogEntry} {w : Write} :
    (log.persistEntry fs entry w).2 = .ok () ↔ log.path = none ∨ w = .done := by
  unfold persistEntry
  cases log.path with
  | none => simp
  | some path => cases w <;> simp

variable (fl) in
/-- An advert that is new and cannot be written is noted all the same. -/
theorem appendVerified_of_failed (fs : FileSystem)
    (hnew : log.checkAdvert E c.entry c.verifyingKey = .ok true)
    (hfailed : ¬(log.path = none ∨ c.write = .done)) :
    ∃ e fs', log.appendVerified E fl fs c = ⟨log.note c.entry, fs', c.tracker, .error e⟩ := by
  obtain ⟨⟨fs', result⟩, hpersist⟩ :
      ∃ r, (log.note c.entry).persistEntry fs c.entry c.write = r := ⟨_, rfl⟩
  unfold appendVerified
  rw [hnew]
  dsimp only
  rw [hpersist]
  cases result with
  | error e => exact ⟨e, fs', rfl⟩
  | ok _ =>
    have hok : ((log.note c.entry).persistEntry fs c.entry c.write).2 = .ok () := by
      rw [hpersist]
    exact absurd (persistEntry_ok_iff.mp hok) hfailed

/-- **The vote is lost**: the next attempt is a duplicate, and changes nothing. -/
theorem appendVerified_of_noted (hnew : log.checkAdvert E c.entry c.verifyingKey = .ok true)
    (fs : FileSystem) {retry : Append VK} (hentry : retry.entry = c.entry)
    (hkey : retry.verifyingKey = c.verifyingKey) :
    (log.note c.entry).appendVerified E fl fs retry =
      ⟨log.note c.entry, fs, retry.tracker, .ok .duplicate⟩ := by
  obtain ⟨hverify, hauth, -⟩ := of_checkAdvert hnew
  have hcheck : (log.note c.entry).checkAdvert E retry.entry retry.verifyingKey = .ok false := by
    unfold checkAdvert
    rw [hentry, hkey, hverify]
    dsimp only
    rw [if_neg (not_not.mpr (show (log.note c.entry).IsAuthority _ from hauth)),
      show (log.note c.entry).seen.lookup c.entry.dedupKey = some c.entry.payload from
        AList.lookup_insert _]
    dsimp only
    rw [if_neg (not_not.mpr rfl)]
  unfold appendVerified
  rw [hcheck]

/-- **When a failed append leaves the log alone**: for every log, advert and outcome of the write,
if and only if it is not a new advert that cannot be written. -/
theorem appendVerified_atomic_iff (E : Ed25519 SK VK) (fl : ℚ → ℚ) (log : HealthQuorumLog)
    (fs : FileSystem) (c : Append VK) :
    AppendAtomic E fl log fs c ↔
      (log.checkAdvert E c.entry c.verifyingKey = .ok true → log.path = none ∨ c.write = .done) := by
  constructor
  · intro hatomic hnew
    by_contra hfailed
    obtain ⟨e, fs', heq⟩ := appendVerified_of_failed fl fs hnew hfailed
    rw [AppendAtomic, heq] at hatomic
    have hsame := congrArg (fun l => l.entries.length) (hatomic e rfl).1
    simp [note] at hsame
  · intro hwritten e he
    by_cases hnew : log.checkAdvert E c.entry c.verifyingKey = .ok true
    · rcases appendVerified_cases E fl log fs c with
        ⟨hlog, -, -, -⟩ | ⟨-, -, -, ⟨e', herror, -⟩ | ⟨-, heq⟩⟩
      · rw [hlog]
        exact ⟨rfl, fun _ _ _ => rfl⟩
      · have hok : ((log.note c.entry).persistEntry fs c.entry c.write).2 = .ok () :=
          persistEntry_ok_iff.mpr (hwritten hnew)
        rw [hok] at herror
        cases herror
      · rw [heq] at he
        cases he
    · rw [(appendVerified_of_not_new fl fs hnew).1]
      exact ⟨rfl, fun _ _ _ => rfl⟩

end Atomic

/-- The first advert of a log whose file cannot be opened. -/
def checksumFailed : Append UInt8 :=
  { checksumAppend (.legacyMajority 1) 1 with write := .openFailed "permission denied" }

/-- The file of a new log cannot be opened: the advert is noted, and its reporter's vote is lost. -/
theorem not_append_atomic_checksum :
    ¬∀ (log : HealthQuorumLog) (fs : FileSystem) (c : Append UInt8),
      AppendAtomic checksumEd25519 id log fs c := by
  intro hall
  have hnew : ((new 2 ∅).withPersistPath ['q']).checkAdvert checksumEd25519 checksumFailed.entry
      checksumFailed.verifyingKey = .ok true := rfl
  obtain ⟨e, fs', heq⟩ := appendVerified_of_failed id (fun _ => none) hnew
    (by simp [withPersistPath, checksumFailed])
  have hsame := (hall ((new 2 ∅).withPersistPath ['q']) (fun _ => none) checksumFailed e
    (by rw [heq])).1
  rw [heq] at hsame
  have hlength := congrArg (fun l => l.entries.length) hsame
  simp [note] at hlength

end HealthQuorumLog

/-! ## Records read back -/

namespace PeerHealthAdvert

/-- Without its timestamp an advert is signed as it was only if there was none. -/
theorem signableBytes_zero_iff (a : PeerHealthAdvert) :
    { a with timestampSecs := 0 }.signableBytes = a.signableBytes ↔ a.timestampSecs = 0 := by
  constructor
  · intro h
    have hzero := ({ a with timestampSecs := 0 } : PeerHealthAdvert).slice_signableBytes.2.2.2.2
    have htime := a.slice_signableBytes.2.2.2.2
    rw [h, htime] at hzero
    have hvalue := congrArg leValue hzero
    rw [u64Bytes, u64Bytes, leValue_leBytes, leValue_leBytes,
      Nat.mod_eq_of_lt (by simpa using a.timestampSecs.toNat_lt)] at hvalue
    exact UInt64.toNat_inj.mp hvalue
  · intro h
    rw [← h]

/-- The signature does not cover itself. -/
theorem signature_sign {SK VK : Type} (E : Ed25519 SK VK) (signingKey : SK)
    (reporter subject : RelayId) (successes failures timestampSecs : UInt64) :
    (sign E signingKey reporter subject successes failures timestampSecs).signature =
      E.sign signingKey (sign E signingKey reporter subject successes failures
        timestampSecs).signableBytes.toList :=
  rfl

end PeerHealthAdvert

namespace HealthQuorumLogEntry

theorem stored_eq_iff (e : HealthQuorumLogEntry) : e.stored = e ↔ e.advert.timestampSecs = 0 := by
  constructor
  · intro h
    rw [← h]
    rfl
  · intro h
    unfold stored
    rw [← h]

/-- **When an entry is read back as it was.**  For every epoch and every signed advert, the entry is
what is read back of its record, and is signed as it was, if and only if its timestamp is zero. -/
theorem survives_iff {SK VK : Type} (E : Ed25519 SK VK) (e : HealthQuorumLogEntry)
    (verifyingKey : VK) (hsigned : e.advert.verify E verifyingKey = .ok ()) :
    (fromRecordBytes e.recordBytes.toList = .ok e ∧
        ∀ e', fromRecordBytes e.recordBytes.toList = .ok e' →
          e'.advert.signableBytes = e.advert.signableBytes ∧
            e'.advert.verify E verifyingKey = .ok ()) ↔
      e.advert.timestampSecs = 0 := by
  rw [fromRecordBytes_recordBytes]
  constructor
  · intro h
    exact e.stored_eq_iff.mp (Except.ok.inj h.1)
  · intro h
    rw [e.stored_eq_iff.mpr h]
    refine ⟨rfl, fun e' he' => ?_⟩
    obtain rfl := Except.ok.inj he'
    exact ⟨rfl, hsigned⟩

/-! ### A scheme that signs the timestamp -/

/-- A toy scheme: a signature is the key and byte 80 of what is signed, the first one of the
timestamp. -/
def clockEd25519 : Ed25519 UInt8 UInt8 where
  verifyingKey := id
  toBytes := List.Vector.replicate 32
  sign := fun key m => List.Vector.replicate advertSigLen (key + m.getD 80 0)
  verify := fun key m signature =>
    decide (signature = List.Vector.replicate advertSigLen (key + m.getD 80 0))

theorem clockEd25519_verify (key : UInt8) (m : List UInt8) (signature : Bytes advertSigLen) :
    clockEd25519.verify key m signature = true ↔
      signature = List.Vector.replicate advertSigLen (key + m.getD 80 0) :=
  decide_eq_true_iff

/-- An entry of epoch 7, signed with key 1 at this time. -/
def clockEntry (timestampSecs : UInt64) : HealthQuorumLogEntry :=
  ⟨7, .sign clockEd25519 1 (.replicate 32 1) (.replicate 32 2) 3 1 timestampSecs⟩

theorem signature_clockEntry (timestampSecs : UInt64) :
    (clockEntry timestampSecs).advert.signature = List.Vector.replicate advertSigLen
      (1 + (clockEntry timestampSecs).advert.signableBytes.toList.getD 80 0) :=
  PeerHealthAdvert.signature_sign clockEd25519 1 _ _ 3 1 timestampSecs

theorem verify_clockEntry (timestampSecs : UInt64) :
    (clockEntry timestampSecs).advert.verify clockEd25519 1 = .ok () := by
  unfold PeerHealthAdvert.verify
  rw [if_pos ((clockEd25519_verify _ _ _).mpr (signature_clockEntry timestampSecs))]

theorem survives_iff_clock :
    (fromRecordBytes (clockEntry 999).recordBytes.toList = .ok (clockEntry 999) ∧
        ∀ e', fromRecordBytes (clockEntry 999).recordBytes.toList = .ok e' →
          e'.advert.signableBytes = (clockEntry 999).advert.signableBytes ∧
            e'.advert.verify clockEd25519 1 = .ok ()) ↔
      (clockEntry 999).advert.timestampSecs = 0 :=
  survives_iff clockEd25519 (clockEntry 999) 1 (verify_clockEntry 999)

/-- What is read back of a validly signed advert is another one, which is not signed. -/
theorem not_survives_clock :
    (clockEntry 999).advert.verify clockEd25519 1 = .ok () ∧
      fromRecordBytes (clockEntry 999).recordBytes.toList ≠ .ok (clockEntry 999) ∧
      ∀ e', fromRecordBytes (clockEntry 999).recordBytes.toList = .ok e' →
        e'.advert.verify clockEd25519 1 ≠ .ok () := by
  rw [fromRecordBytes_recordBytes]
  refine ⟨verify_clockEntry 999, fun h => ?_, fun e' he' => ?_⟩
  · have htime := (clockEntry 999).stored_eq_iff.mp (Except.ok.inj h)
    exact absurd (show (999 : UInt64) = 0 from htime) (by decide)
  · obtain rfl := Except.ok.inj he'
    have hbyte : ∀ l : List UInt8, l.getD 80 0 = (slice 80 8 l).getD 0 0 := by
      intro l
      simp [slice]
    have htime := (clockEntry 999).stored.advert.slice_signableBytes.2.2.2.2
    have htime' := (clockEntry 999).advert.slice_signableBytes.2.2.2.2
    unfold PeerHealthAdvert.verify
    rw [if_neg]
    · simp
    · rw [clockEd25519_verify, hbyte, htime,
        show (clockEntry 999).stored.advert.signature = (clockEntry 999).advert.signature from rfl,
        signature_clockEntry, hbyte, htime']
      decide

end HealthQuorumLogEntry

end Aegis
