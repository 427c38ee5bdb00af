import Aegis.Lib.Run
import Aegis.Relay.HealthQuorumLog

/-!
# Appending to the quorum log and replaying it

What the operations of the log do, once for each of them.  A ballot is what is pending for a
subject; two logs agree on one if they hold the same observations, under whatever labels.

* `vote_cases`, `appendVerified_cases` — what an append can do.
* `replayRecord_of_new` — a record that was appended is replayed.
* `finalizeReplayedQuorums_spec` — the end of a replay.
-/

namespace Aegis

open Buffer

namespace HealthQuorumLog

/-! ## What the operations do to the ballots -/

section Ballots

variable {log : HealthQuorumLog} {q : UInt64 × RelayId}

theorem ballot_observe_self (log : HealthQuorumLog) (entry : HealthQuorumLogEntry)
    (label : List Char) : (log.observe entry label).ballot entry.quorumKey =
      (log.ballot entry.quorumKey).insert entry.advert.reporter (entry.payload, label) := by
  rw [ballot, observe, AList.lookup_insert, Option.getD_some]

theorem ballot_observe_ne {entry : HealthQuorumLogEntry} (label : List Char)
    (h : q ≠ entry.quorumKey) : (log.observe entry label).ballot q = log.ballot q := by
  rw [ballot, observe, AList.lookup_insert_ne h, ballot]

theorem observed_observe (entry : HealthQuorumLogEntry) (label : List Char) (reporter : RelayId) :
    (log.observe entry label).observed q reporter =
      if q = entry.quorumKey ∧ reporter = entry.advert.reporter then some entry.payload
      else log.observed q reporter := by
  rw [observed]
  by_cases hq : q = entry.quorumKey
  · subst hq
    rw [ballot_observe_self]
    by_cases hr : reporter = entry.advert.reporter
    · subst hr
      rw [AList.lookup_insert, if_pos ⟨rfl, rfl⟩]
      rfl
    · rw [AList.lookup_insert_ne hr, if_neg fun h => hr h.2]
      rfl
  · rw [ballot_observe_ne label hq, if_neg fun h => hq h.1]
    rfl

theorem pending_settle (log : HealthQuorumLog) (q : UInt64 × RelayId)
    (median : Option Observation) : (log.settle q median).pending = log.pending.erase q := rfl

theorem ballot_settle_self (log : HealthQuorumLog) (q : UInt64 × RelayId)
    (median : Option Observation) : (log.settle q median).ballot q = ∅ := by
  rw [ballot, pending_settle, AList.lookup_erase, Option.getD_none]

theorem ballot_settle_ne {q' : UInt64 × RelayId} (median : Option Observation) (h : q' ≠ q) :
    (log.settle q median).ballot q' = log.ballot q' := by
  rw [ballot, pending_settle, AList.lookup_erase_ne h, ballot]

theorem lookup_settle_self (median : Option Observation)
    (h : log.appliedMedians.lookup q = none) :
    (log.settle q median).appliedMedians.lookup q = median := by
  cases median with
  | none => exact h
  | some m => exact AList.lookup_insert _

theorem lookup_settle_ne {q' : UInt64 × RelayId} (median : Option Observation) (h : q' ≠ q) :
    (log.settle q median).appliedMedians.lookup q' = log.appliedMedians.lookup q' := by
  cases median with
  | none => rfl
  | some m => exact AList.lookup_insert_ne h

/-- Ballots that agree have equally many reporters. -/
theorem reporters_eq_of_observed {log' : HealthQuorumLog}
    (h : ∀ reporter, log.observed q reporter = log'.observed q reporter) :
    log.reporters q = log'.reporters q :=
  IterOrder.length_entries_eq h

/-- **Ballots that agree have the same median**, whatever the orders they are listed in. -/
theorem median_eq_of_observed {log' : HealthQuorumLog} (fl : ℚ → ℚ)
    (o o' : IterOrder RelayId (Observation × List Char))
    (h : ∀ reporter, log.observed q reporter = log'.observed q reporter) :
    medianOutcomeCounts fl (log.observations o q) =
      medianOutcomeCounts fl (log'.observations o' q) :=
  medianOutcomeCounts_perm (IterOrder.values_perm h o o')

end Ballots

/-! ## What an append can do -/

section AppendCases

variable {SK VK : Type} {E : Ed25519 SK VK} {fl : ℚ → ℚ} {log : HealthQuorumLog}

/-- **Voting**: nothing if the subject is done with; else the observation is pending, or its
subject is done with because enough reporters have reported, with or without a median. -/
theorem vote_cases (fl : ℚ → ℚ) (log : HealthQuorumLog) (c : Append VK) :
    (c.entry.quorumKey ∈ log.applied ∧ log.vote fl c = (log, c.tracker, .duplicate)) ∨
      c.entry.quorumKey ∉ log.applied ∧
        ((∃ tracker outcome, log.vote fl c = (log.observe c.entry c.label, tracker, outcome) ∧
            ∀ reporters distinctOrgs, outcome ≠ .applied reporters distinctOrgs) ∨
          log.majorityK ≤ (log.observe c.entry c.label).reporters c.entry.quorumKey ∧
            ((∃ tracker reporters distinctOrgs, log.vote fl c =
                ((log.observe c.entry c.label).settle c.entry.quorumKey none, tracker,
                  .quarantined reporters distinctOrgs)) ∨
              ∃ tracker reporters distinctOrgs, log.vote fl c =
                ((log.observe c.entry c.label).settle c.entry.quorumKey
                  (medianOutcomeCounts fl ((log.observe c.entry c.label).observations c.order
                    c.entry.quorumKey)), tracker, .applied reporters distinctOrgs))) := by
  rw [vote]
  by_cases hdone : c.entry.quorumKey ∈ log.applied
  · exact Or.inl ⟨hdone, if_pos hdone⟩
  · refine Or.inr ⟨hdone, ?_⟩
    rw [if_neg hdone]
    dsimp only
    have hk : (log.observe c.entry c.label).majorityK = log.majorityK := rfl
    split_ifs with hfew
    · exact Or.inl ⟨_, _, rfl, fun _ _ h => nomatch h⟩
    · rw [hk, not_lt] at hfew
      split
      · exact Or.inl ⟨_, _, rfl, fun _ _ h => nomatch h⟩
      · exact Or.inr ⟨hfew, Or.inl ⟨_, _, _, rfl⟩⟩
      · exact Or.inr ⟨hfew, Or.inr ⟨_, _, _, rfl⟩⟩
      · exact Or.inl ⟨_, _, rfl, fun _ _ h => nomatch h⟩

/-- What passes the checks is signed and new, and its reporter an authority. -/
theorem of_checkAdvert {entry : HealthQuorumLogEntry} {verifyingKey : VK}
    (h : log.checkAdvert E entry verifyingKey = .ok true) :
    entry.advert.verify E verifyingKey = .ok () ∧ log.IsAuthority entry.advert.reporter ∧
      log.seen.lookup entry.dedupKey = none := by
  unfold checkAdvert at h
  split at h
  · cases h
  · rename_i hverify
    split_ifs at h with hauth
    refine ⟨hverify, hauth, ?_⟩
    split at h
    · split_ifs at h
      cases h
    · assumption

/-- What is a duplicate has been seen. -/
theorem seen_of_checkAdvert {entry : HealthQuorumLogEntry} {verifyingKey : VK}
    (h : log.checkAdvert E entry verifyingKey = .ok false) :
    log.seen.lookup entry.dedupKey = some entry.payload := by
  unfold checkAdvert at h
  split at h
  · cases h
  · split_ifs at h
    split at h
    · rename_i prev hprev
      split_ifs at h with hne
      rw [hprev, not_not.mp hne]
    · cases h

/-- **Appending**: nothing, or the entry is noted and not persisted, or it is noted, persisted
and voted on. -/
theorem appendVerified_cases (E : Ed25519 SK VK) (fl : ℚ → ℚ) (log : HealthQuorumLog)
    (fs : FileSystem) (c : Append VK) :
    ((log.appendVerified E fl fs c).log = log ∧ (log.appendVerified E fl fs c).fs = fs ∧
        (log.appendVerified E fl fs c).tracker = c.tracker ∧
        ∀ reporters distinctOrgs, (log.appendVerified E fl fs c).result ≠
          .ok (.applied reporters distinctOrgs)) ∨
      c.advert.verify E c.verifyingKey = .ok () ∧ log.IsAuthority c.advert.reporter ∧
        log.seen.lookup c.entry.dedupKey = none ∧
        ((∃ e, ((log.note c.entry).persistEntry fs c.entry c.write).2 = .error e ∧
            log.appendVerified E fl fs c =
              ⟨log.note c.entry, ((log.note c.entry).persistEntry fs c.entry c.write).1,
                c.tracker, .error e⟩) ∨
          ((log.note c.entry).persistEntry fs c.entry c.write).2 = .ok () ∧
            log.appendVerified E fl fs c =
              ⟨((log.note c.entry).vote fl c).1,
                ((log.note c.entry).persistEntry fs c.entry c.write).1,
                ((log.note c.entry).vote fl c).2.1,
                .ok ((log.note c.entry).vote fl c).2.2⟩) := by
  unfold appendVerified
  cases hcheck : log.checkAdvert E c.entry c.verifyingKey with
  | error e => exact Or.inl ⟨rfl, rfl, rfl, fun _ _ h => nomatch h⟩
  | ok new =>
    cases new with
    | false => exact Or.inl ⟨rfl, rfl, rfl, fun _ _ h => nomatch h⟩
    | true =>
      obtain ⟨hverify, hauth, hseen⟩ := of_checkAdvert hcheck
      refine Or.inr ⟨hverify, hauth, hseen, ?_⟩
      dsimp only
      rcases hpersist : (log.note c.entry).persistEntry fs c.entry c.write with ⟨fs', result⟩
      cases result with
      | error e => exact Or.inl ⟨e, rfl, rfl⟩
      | ok _ => exact Or.inr ⟨rfl, rfl⟩

end AppendCases

/-! ## What loading does -/

section LoadSpec

variable {fl : ℚ → ℚ} {ord : ReplayOrder} {log : HealthQuorumLog}

/-- An entry that is persisted is replayed: it is noted, and pending if its reporter is an
authority. -/
theorem replayRecord_of_new {entry : HealthQuorumLogEntry}
    (hseen : log.seen.lookup entry.dedupKey = none) (hdone : entry.quorumKey ∉ log.applied)
    (hauth : log.IsAuthority entry.advert.reporter) :
    log.replayRecord entry.recordBytes.toList =
      .ok ((log.note entry.stored).observe entry.stored
        (gossipDiversityKey none none entry.advert.reporter)) := by
  have hseen' : log.seen.lookup entry.stored.dedupKey = none := hseen
  have hdone' : entry.stored.quorumKey ∉ log.applied := hdone
  have hauth' : (log.note entry.stored).IsAuthority entry.stored.advert.reporter := hauth
  have hbind : log.replayRecord entry.recordBytes.toList = log.replayEntry entry.stored := by
    rw [replayRecord, HealthQuorumLogEntry.fromRecordBytes_recordBytes]
    rfl
  rw [hbind, replayEntry]
  simp only [hseen']
  rw [if_neg hdone']
  exact if_neg (not_not.mpr hauth')

theorem mem_ready (hk : 0 < log.majorityK) (q : UInt64 × RelayId) :
    q ∈ log.ready ord ↔ log.majorityK ≤ log.reporters q := by
  rw [ready, List.mem_map]
  constructor
  · rintro ⟨⟨q', m⟩, hmem, rfl⟩
    obtain ⟨hmem, hle⟩ := List.mem_filter.mp hmem
    rw [reporters, ballot, IterOrder.mem_iter.mp hmem]
    exact of_decide_eq_true hle
  · intro hle
    cases hm : log.pending.lookup q with
    | none =>
      rw [reporters, ballot, hm, Option.getD_none, AList.empty_entries, List.length_nil] at hle
      omega
    | some m =>
      refine ⟨⟨q, m⟩, List.mem_filter.mpr ⟨IterOrder.mem_iter.mpr hm, ?_⟩, rfl⟩
      rw [reporters, ballot, hm] at hle
      exact decide_eq_true hle

theorem nodup_ready : (log.ready ord).Nodup :=
  ((List.filter_sublist).map Sigma.fst).nodup (ord.pending.nodup_keys_iter log.pending)

variable (fl ord log) in
theorem settleReplayed_ne {q q' : UInt64 × RelayId} (h : q' ≠ q) :
    (log.settleReplayed fl ord q).pending.lookup q' = log.pending.lookup q' ∧
      (log.settleReplayed fl ord q).appliedMedians.lookup q' = log.appliedMedians.lookup q' :=
  ⟨AList.lookup_erase_ne h, lookup_settle_ne _ h⟩

/-- A subject that is not in the loop's list is left alone. -/
theorem foldl_settleReplayed_frame {keys : List (UInt64 × RelayId)} {q : UInt64 × RelayId}
    (hq : q ∉ keys) :
    (keys.foldl (settleReplayed fl ord) log).pending.lookup q = log.pending.lookup q ∧
      (keys.foldl (settleReplayed fl ord) log).appliedMedians.lookup q =
        log.appliedMedians.lookup q := by
  refine Run.foldl_preserves (fun l : HealthQuorumLog => l.pending.lookup q = log.pending.lookup q ∧
    l.appliedMedians.lookup q = log.appliedMedians.lookup q) (fun l key hkey hl => ?_) ⟨rfl, rfl⟩
  obtain ⟨hpending, hmedians⟩ :=
    settleReplayed_ne fl ord l (ne_of_mem_of_not_mem hkey hq).symm
  exact ⟨hpending.trans hl.1, hmedians.trans hl.2⟩

/-- A subject in the list is no longer pending. -/
theorem lookup_pending_foldl_settleReplayed {keys : List (UInt64 × RelayId)}
    {q : UInt64 × RelayId} (hq : q ∈ keys) :
    (keys.foldl (settleReplayed fl ord) log).pending.lookup q = none := by
  induction keys generalizing log with
  | nil => cases hq
  | cons key keys ih =>
    rw [List.foldl_cons]
    by_cases hkeys : q ∈ keys
    · exact ih hkeys
    · obtain rfl : q = key := (List.mem_cons.mp hq).resolve_right hkeys
      rw [(foldl_settleReplayed_frame hkeys).1]
      exact AList.lookup_erase _ _

/-- The median of a subject in the list is taken once. -/
theorem lookup_median_foldl_settleReplayed {keys : List (UInt64 × RelayId)}
    (hnodup : keys.Nodup) {q : UInt64 × RelayId} (hq : q ∈ keys)
    (hmedian : log.appliedMedians.lookup q = none) :
    (keys.foldl (settleReplayed fl ord) log).appliedMedians.lookup q =
      log.replayedMedian fl ord q := by
  induction keys generalizing log with
  | nil => cases hq
  | cons key keys ih =>
    rw [List.foldl_cons]
    obtain ⟨hkey, hkeys⟩ := List.nodup_cons.mp hnodup
    by_cases hqk : q = key
    · subst hqk
      exact (foldl_settleReplayed_frame hkey).2.trans (lookup_settle_self _ hmedian)
    · obtain ⟨hpending, hmedians⟩ := settleReplayed_ne fl ord _ hqk
      have hballot : (log.settleReplayed fl ord key).ballot q = log.ballot q := by
        rw [ballot, hpending, ballot]
      rw [ih hkeys ((List.mem_cons.mp hq).resolve_left hqk) (hmedians.trans hmedian),
        replayedMedian, replayedMedian, hpending, observations, hballot, observations]

theorem mem_applied_foldl_settleReplayed (keys : List (UInt64 × RelayId))
    (q : UInt64 × RelayId) :
    q ∈ (keys.foldl (settleReplayed fl ord) log).applied ↔ q ∈ log.applied ∨ q ∈ keys := by
  induction keys generalizing log with
  | nil => simp
  | cons key keys ih =>
    have hone : q ∈ (log.settleReplayed fl ord key).applied ↔ q = key ∨ q ∈ log.applied :=
      Finset.mem_insert
    rw [List.foldl_cons, ih, hone, List.mem_cons]
    tauto

variable (fl ord log) in
theorem foldl_settleReplayed_frame_seen (keys : List (UInt64 × RelayId)) :
    (keys.foldl (settleReplayed fl ord) log).seen = log.seen ∧
      (keys.foldl (settleReplayed fl ord) log).path = log.path ∧
      (keys.foldl (settleReplayed fl ord) log).majorityK = log.majorityK ∧
      (keys.foldl (settleReplayed fl ord) log).authoritySet = log.authoritySet ∧
      (keys.foldl (settleReplayed fl ord) log).entries = log.entries := by
  induction keys generalizing log with
  | nil => exact ⟨rfl, rfl, rfl, rfl, rfl⟩
  | cons key keys ih => exact ih _

/-- What the end of a replay makes of the log. -/
structure Finalized (fl : ℚ → ℚ) (ord : ReplayOrder) (log log' : HealthQuorumLog) : Prop where
  seen : log'.seen = log.seen
  path : log'.path = log.path
  majorityK : log'.majorityK = log.majorityK
  authoritySet : log'.authoritySet = log.authoritySet
  entries : log'.entries = log.entries
  applied : ∀ q, q ∈ log'.applied ↔ q ∈ log.applied ∨ log.majorityK ≤ log.reporters q
  ballot : ∀ q, log'.ballot q = if log.majorityK ≤ log.reporters q then ∅ else log.ballot q
  median : ∀ q, log.appliedMedians.lookup q = none →
    log'.appliedMedians.lookup q =
      if log.majorityK ≤ log.reporters q then
        medianOutcomeCounts fl (log.observations (ord.values q) q)
      else none

theorem replayedMedian_of_ready (hk : 0 < log.majorityK) {q : UInt64 × RelayId}
    (h : log.majorityK ≤ log.reporters q) : log.replayedMedian fl ord q =
      medianOutcomeCounts fl (log.observations (ord.values q) q) := by
  rw [replayedMedian]
  split
  · rfl
  · rename_i hnone
    rw [reporters, ballot, hnone, Option.getD_none, AList.empty_entries, List.length_nil] at h
    omega

variable (fl ord) in
/-- **The end of a replay**: the subjects enough reporters have reported on are done with. -/
theorem finalizeReplayedQuorums_spec (hk : 0 < log.majorityK) :
    Finalized fl ord log (log.finalizeReplayedQuorums fl ord) := by
  obtain ⟨hseen, hpath, hmajority, hauth, hentries⟩ :=
    foldl_settleReplayed_frame_seen fl ord log (log.ready ord)
  refine ⟨hseen, hpath, hmajority, hauth, hentries, fun q => ?_, fun q => ?_, fun q hnone => ?_⟩
  · rw [finalizeReplayedQuorums, mem_applied_foldl_settleReplayed, mem_ready hk]
  · by_cases hready : log.majorityK ≤ log.reporters q
    · rw [if_pos hready, ballot, finalizeReplayedQuorums,
        lookup_pending_foldl_settleReplayed ((mem_ready hk q).mpr hready), Option.getD_none]
    · have hq : q ∉ log.ready ord := fun h => hready ((mem_ready hk q).mp h)
      rw [if_neg hready, ballot, finalizeReplayedQuorums, (foldl_settleReplayed_frame hq).1, ballot]
  · by_cases hready : log.majorityK ≤ log.reporters q
    · rw [if_pos hready, ← replayedMedian_of_ready hk hready]
      exact lookup_median_foldl_settleReplayed nodup_ready ((mem_ready hk q).mpr hready) hnone
    · have hq : q ∉ log.ready ord := fun h => hready ((mem_ready hk q).mp h)
      rw [if_neg hready, ← hnone]
      exact (foldl_settleReplayed_frame hq).2

end LoadSpec

/-- The log before its file is replayed. -/
def fresh (path : PathBuf) (majorityK : ℕ) (authoritySet : Finset RelayId) : HealthQuorumLog :=
  (new majorityK authoritySet).withPersistPath path

/-! ## Replaying a file -/

section Records

variable {fl : ℚ → ℚ} {ord : ReplayOrder} {log log' : HealthQuorumLog}

/-- What replaying an entry leaves alone. -/
structure SameFrame (log log' : HealthQuorumLog) : Prop where
  path : log'.path = log.path
  majorityK : log'.majorityK = log.majorityK
  authoritySet : log'.authoritySet = log.authoritySet
  applied : log'.applied = log.applied
  appliedMedians : log'.appliedMedians = log.appliedMedians

theorem SameFrame.refl (log : HealthQuorumLog) : SameFrame log log := ⟨rfl, rfl, rfl, rfl, rfl⟩

theorem SameFrame.trans {log'' : HealthQuorumLog} (h : SameFrame log log')
    (h' : SameFrame log' log'') : SameFrame log log'' :=
  ⟨h'.path.trans h.path, h'.majorityK.trans h.majorityK, h'.authoritySet.trans h.authoritySet,
    h'.applied.trans h.applied, h'.appliedMedians.trans h.appliedMedians⟩

theorem sameFrame_of_replayEntry {entry : HealthQuorumLogEntry}
    (h : log.replayEntry entry = .ok log') : SameFrame log log' := by
  rw [replayEntry] at h
  dsimp only at h
  split at h
  · cases h
  · rename_i noted hnoted
    have hframe : SameFrame log noted := by
      split at hnoted
      · split_ifs at hnoted
        cases hnoted
        exact SameFrame.refl log
      · cases hnoted
        exact ⟨rfl, rfl, rfl, rfl, rfl⟩
    split_ifs at h <;> cases h <;> exact hframe.trans ⟨rfl, rfl, rfl, rfl, rfl⟩

theorem sameFrame_of_replayRecords {bytes : List UInt8}
    (h : log.replayRecords bytes = .ok log') : SameFrame log log' := by
  rw [replayRecords] at h
  generalize chunks quorumLogRecordLen bytes = bufs at h
  induction bufs generalizing log with
  | nil =>
    cases h
    exact SameFrame.refl _
  | cons buf bufs ih =>
    rw [List.foldlM_cons] at h
    cases hone : log.replayRecord buf with
    | error e =>
      rw [hone] at h
      cases h
    | ok log₁ =>
      rw [hone] at h
      refine SameFrame.trans ?_ (ih h)
      rw [replayRecord] at hone
      cases hentry : HealthQuorumLogEntry.fromRecordBytes buf with
      | error e =>
        rw [hentry] at hone
        cases hone
      | ok entry =>
        rw [hentry] at hone
        exact sameFrame_of_replayEntry hone

/-- One more record behind whole ones. -/
theorem replayRecords_append {bytes record : List UInt8} (hwhole : quorumLogRecordLen ∣ bytes.length)
    (hrecord : record.length = quorumLogRecordLen) (h : log.replayRecords bytes = .ok log') :
    log.replayRecords (bytes ++ record) = log'.replayRecord record := by
  rw [replayRecords, chunks_append (by decide) hwhole hrecord, List.foldlM_append]
  rw [replayRecords] at h
  rw [h]
  exact bind_pure (m := Except QuorumLogError) _

/-- Loading is replaying the whole records, of a missing file none. -/
theorem loadOrCreate_eq (fs : FileSystem) (path : PathBuf) (majorityK : ℕ)
    (authoritySet : Finset RelayId) : loadOrCreate fl ord fs path majorityK authoritySet =
      ((fresh path majorityK authoritySet).replayRecords ((fs path).getD [])).map
        (finalizeReplayedQuorums fl ord) := by
  rw [loadOrCreate]
  cases hfile : fs path with
  | some bytes => rfl
  | none =>
    have hready : (fresh path majorityK authoritySet).ready ord = [] := by
      refine List.eq_nil_iff_forall_not_mem.mpr fun q hq => ?_
      have hpos : 0 < (fresh path majorityK authoritySet).majorityK := by
        exact lt_of_lt_of_le Nat.zero_lt_one (le_max_right _ _)
      have hle := (mem_ready hpos q).mp hq
      have hnone : (fresh path majorityK authoritySet).reporters q = 0 := rfl
      omega
    have hfinal : (fresh path majorityK authoritySet).finalizeReplayedQuorums fl ord =
        fresh path majorityK authoritySet := by
      rw [finalizeReplayedQuorums, hready, List.foldl_nil]
    have hreplay : (fresh path majorityK authoritySet).replayRecords (Option.getD none []) =
        .ok (fresh path majorityK authoritySet) := rfl
    rw [hreplay, Except.map, hfinal]
    rfl

end Records

/-! ## Summaries -/

section Summaries

variable {log log' : HealthQuorumLog} {epoch : UInt64}

theorem subjectKey_injective {a b : HealthEpochMedianSummary} (h : subjectKey a = subjectKey b) :
    a.subject = b.subject :=
  Bytes.ext_toList (List.map_injective_iff.mpr (fun _ _ => UInt8.toNat_inj.mp) h)

/-- The summaries of an epoch, in the order the map lists them. -/
def epochSummaries (log : HealthQuorumLog) (o : IterOrder (UInt64 × RelayId) Observation)
    (epoch : UInt64) : List HealthEpochMedianSummary :=
  ((o.iter log.appliedMedians).filter fun e => e.1.1 = epoch).map fun e => ⟨e.1.2, e.2.1, e.2.2⟩

theorem mem_epochSummaries {o : IterOrder (UInt64 × RelayId) Observation}
    {s : HealthEpochMedianSummary} : s ∈ log.epochSummaries o epoch ↔
      log.appliedMedians.lookup (epoch, s.subject) = some (s.successes, s.failures) := by
  rw [epochSummaries, List.mem_map]
  constructor
  · rintro ⟨⟨⟨ep, subject⟩, ok, fail⟩, hmem, rfl⟩
    obtain ⟨hiter, hep⟩ := List.mem_filter.mp hmem
    obtain rfl : ep = epoch := of_decide_eq_true hep
    exact IterOrder.mem_iter.mp hiter
  · intro h
    exact ⟨⟨(epoch, s.subject), s.successes, s.failures⟩,
      List.mem_filter.mpr ⟨IterOrder.mem_iter.mpr h, decide_eq_true rfl⟩, rfl⟩

/-- A subject has one summary. -/
theorem eq_of_mem_epochSummaries {o : IterOrder (UInt64 × RelayId) Observation}
    {a b : HealthEpochMedianSummary} (ha : a ∈ log.epochSummaries o epoch)
    (hb : b ∈ log.epochSummaries o epoch) (h : a.subject = b.subject) : a = b := by
  rw [mem_epochSummaries] at ha hb
  rw [h, hb] at ha
  obtain ⟨subject, ok, fail⟩ := a
  obtain ⟨subject', ok', fail'⟩ := b
  cases ha
  cases h
  rfl

theorem nodup_epochSummaries (o : IterOrder (UInt64 × RelayId) Observation) :
    (log.epochSummaries o epoch).Nodup := by
  refine List.Nodup.map_on (fun a ha b hb hab => ?_)
    ((List.Nodup.of_map Sigma.fst (o.nodup_keys_iter log.appliedMedians)).filter _)
  obtain ⟨⟨ep, subject⟩, ok, fail⟩ := a
  obtain ⟨⟨ep', subject'⟩, ok', fail'⟩ := b
  obtain rfl : ep = epoch := of_decide_eq_true (List.mem_filter.mp ha).2
  obtain rfl : ep' = ep := of_decide_eq_true (List.mem_filter.mp hb).2
  cases hab
  rfl

/-- **The summaries of an epoch are determined by its medians**, whatever order the map lists
them in. -/
theorem appliedSummariesForEpoch_congr (h : ∀ subject,
      log.appliedMedians.lookup (epoch, subject) = log'.appliedMedians.lookup (epoch, subject))
    (o o' : IterOrder (UInt64 × RelayId) Observation) :
    log.appliedSummariesForEpoch o epoch = log'.appliedSummariesForEpoch o' epoch := by
  have hperm : (log.epochSummaries o epoch).Perm (log'.epochSummaries o' epoch) := by
    refine (List.perm_ext_iff_of_nodup (nodup_epochSummaries o) (nodup_epochSummaries o')).mpr ?_
    intro s
    rw [mem_epochSummaries, mem_epochSummaries, h]
  have hsort : ∀ l : List HealthEpochMedianSummary,
      (l.insertionSort fun a b => subjectKey a ≤ subjectKey b).Pairwise
        fun a b => subjectKey a ≤ subjectKey b := fun l => List.pairwise_insertionSort _ l
  refine List.Perm.eq_of_pairwise ?_ (hsort _) (hsort _)
    (((List.perm_insertionSort _ _).trans hperm).trans (List.perm_insertionSort _ _).symm)
  intro a b ha hb hab hba
  have ha' := hperm.mem_iff.mp ((List.mem_insertionSort _).mp ha)
  exact eq_of_mem_epochSummaries ha' ((List.mem_insertionSort _).mp hb)
    (subjectKey_injective (le_antisymm hab hba))

end Summaries

end HealthQuorumLog

end Aegis
