import Aegis.Relay.QuorumReplay

/-!
# Restarting the quorum log

A log that has appended to a file is compared with the one loaded from that file.  `Mirrors`
relates the log to what replaying its file holds just before the end of the replay: the two
agree on every ballot of a subject the log is not done with.

* `Mirrors.append`, `mirrors_run` — one append keeps the relation, and so does every run.
* `reload_of_run` — **what a restart gives back**: the pending observations, the subjects that
  are done with, and the medians of those no vote came late for.
* `reload_disagrees_checksum` — a subject that waits for diversity is done with after a restart.
-/

namespace Aegis

open Buffer

namespace HealthQuorumLog

/-! ## The log mirrors its file -/

/-- The entries logged for a subject. -/
def entriesFor (log : HealthQuorumLog) (q : UInt64 × RelayId) : List HealthQuorumLogEntry :=
  log.entries.filter fun e => e.quorumKey = q

theorem reporters_le_observe (log : HealthQuorumLog) (entry : HealthQuorumLogEntry)
    (label : List Char) (q : UInt64 × RelayId) :
    log.reporters q ≤ (log.observe entry label).reporters q := by
  by_cases hq : q = entry.quorumKey
  · subst hq
    rw [reporters, reporters, ballot_observe_self]
    exact IterOrder.length_entries_le_insert _ _ _
  · rw [reporters, reporters, ballot_observe_ne label hq]

theorem length_entriesFor_note (log : HealthQuorumLog) (entry : HealthQuorumLogEntry)
    (q : UInt64 × RelayId) : ((log.note entry).entriesFor q).length =
      (log.entriesFor q).length + if entry.quorumKey = q then 1 else 0 := by
  rw [entriesFor, entriesFor, note, List.filter_append, List.length_append]
  by_cases hq : entry.quorumKey = q <;> simp [hq]

/-- The log agrees with what replaying its file holds before the end of the replay. -/
structure Mirrors (path : PathBuf) (majorityK : ℕ) (authoritySet : Finset RelayId)
    (log : HealthQuorumLog) (fs : FileSystem) (rep : HealthQuorumLog) : Prop where
  path_eq : log.path = some path
  majorityK_eq : log.majorityK = max majorityK 1
  authoritySet_eq : log.authoritySet = authoritySet
  whole : quorumLogRecordLen ∣ ((fs path).getD []).length
  replay : (fresh path majorityK authoritySet).replayRecords ((fs path).getD []) = .ok rep
  seen : ∀ key, log.seen.lookup key = none → rep.seen.lookup key = none
  observed : ∀ q ∉ log.applied, ∀ reporter, log.observed q reporter = rep.observed q reporter
  /-- Enough reporters are on file for what the log is done with. -/
  quorum : ∀ q ∈ log.applied, log.majorityK ≤ rep.reporters q
  done : ∀ q ∈ log.applied, log.ballot q = ∅
  median : ∀ q ∉ log.applied, log.appliedMedians.lookup q = none

/-- What one append does beside keeping the relation. -/
structure Advances (log rep log' rep' : HealthQuorumLog) : Prop where
  applied : ∀ q ∈ log.applied, q ∈ log'.applied
  median : ∀ q ∈ log.applied, log'.appliedMedians.lookup q = log.appliedMedians.lookup q
  entries : ∀ q, (log.entriesFor q).length ≤ (log'.entriesFor q).length
  ballot : ∀ q, (log'.entriesFor q).length = (log.entriesFor q).length →
    rep'.ballot q = rep.ballot q

section Mirror

variable {path : PathBuf} {majorityK : ℕ} {authoritySet : Finset RelayId}
variable {log rep : HealthQuorumLog} {fs : FileSystem}

theorem Advances.note (log rep : HealthQuorumLog) (entry : HealthQuorumLogEntry) :
    Advances log rep (log.note entry) rep :=
  ⟨fun _ hq => hq, fun _ _ => rfl,
    fun q => by rw [length_entriesFor_note]; exact Nat.le_add_right _ _, fun _ _ => rfl⟩

/-- The file behind a new record. -/
theorem Mirrors.file (h : Mirrors path majorityK authoritySet log fs rep)
    {entry : HealthQuorumLogEntry} (hauth : log.IsAuthority entry.advert.reporter)
    (hseen : log.seen.lookup entry.dedupKey = none) :
    quorumLogRecordLen ∣ ((fs.append path entry.recordBytes.toList path).getD []).length ∧
      (fresh path majorityK authoritySet).replayRecords
          ((fs.append path entry.recordBytes.toList path).getD []) =
        .ok ((rep.note entry.stored).observe entry.stored
          (gossipDiversityKey none none entry.advert.reporter)) := by
  have hframe := sameFrame_of_replayRecords h.replay
  have hfile : (fs.append path entry.recordBytes.toList path).getD [] =
      (fs path).getD [] ++ entry.recordBytes.toList := by
    rw [FileSystem.append, Function.update_self, Option.getD_some]
  have hlen : entry.recordBytes.toList.length = quorumLogRecordLen :=
    entry.recordBytes.toList_length
  rw [hfile]
  refine ⟨?_, ?_⟩
  · rw [List.length_append, hlen]
    exact Nat.dvd_add h.whole (dvd_refl _)
  · rw [replayRecords_append h.whole hlen h.replay]
    refine replayRecord_of_new (h.seen _ hseen) ?_ ?_
    · rw [hframe.applied]
      exact Finset.notMem_empty _
    · rw [IsAuthority, hframe.authoritySet]
      rw [IsAuthority, h.authoritySet_eq] at hauth
      exact hauth

/-- An entry that is noted and does not reach the file. -/
theorem Mirrors.note_only (h : Mirrors path majorityK authoritySet log fs rep)
    (entry : HealthQuorumLogEntry) {fs' : FileSystem}
    (hfs : (fs' path).getD [] = (fs path).getD []) :
    Mirrors path majorityK authoritySet (log.note entry) fs' rep where
  path_eq := h.path_eq
  majorityK_eq := h.majorityK_eq
  authoritySet_eq := h.authoritySet_eq
  whole := by rw [hfs]; exact h.whole
  replay := by rw [hfs]; exact h.replay
  seen := fun key hkey => by
    refine h.seen key ?_
    exact (AList.lookup_insert_eq_none.mp hkey).2
  observed := h.observed
  quorum := h.quorum
  done := h.done
  median := h.median

/-- The log after a vote, whatever its outcome, mirrors the file with the new record. -/
theorem Mirrors.persisted (h : Mirrors path majorityK authoritySet log fs rep)
    {entry : HealthQuorumLogEntry} (hauth : log.IsAuthority entry.advert.reporter)
    (hseen : log.seen.lookup entry.dedupKey = none) {log' : HealthQuorumLog}
    (hpath : log'.path = log.path) (hk : log'.majorityK = log.majorityK)
    (hset : log'.authoritySet = log.authoritySet) (hseen' : log'.seen = (log.note entry).seen)
    (hobserved : ∀ q ∉ log'.applied, ∀ reporter, log'.observed q reporter =
      ((rep.note entry.stored).observe entry.stored
        (gossipDiversityKey none none entry.advert.reporter)).observed q reporter)
    (hquorum : ∀ q ∈ log'.applied, log.majorityK ≤
      ((rep.note entry.stored).observe entry.stored
        (gossipDiversityKey none none entry.advert.reporter)).reporters q)
    (hdone : ∀ q ∈ log'.applied, log'.ballot q = ∅)
    (hmedian : ∀ q ∉ log'.applied, log'.appliedMedians.lookup q = none) :
    Mirrors path majorityK authoritySet log' (fs.append path entry.recordBytes.toList)
      ((rep.note entry.stored).observe entry.stored
        (gossipDiversityKey none none entry.advert.reporter)) where
  path_eq := hpath.trans h.path_eq
  majorityK_eq := hk.trans h.majorityK_eq
  authoritySet_eq := hset.trans h.authoritySet_eq
  whole := (h.file hauth hseen).1
  replay := (h.file hauth hseen).2
  seen := fun key hkey => by
    rw [hseen', note, AList.lookup_insert_eq_none] at hkey
    exact AList.lookup_insert_eq_none.mpr ⟨hkey.1, h.seen key hkey.2⟩
  observed := hobserved
  quorum := fun q hq => hk ▸ hquorum q hq
  done := hdone
  median := hmedian

section Vote

variable {SK VK : Type} {E : Ed25519 SK VK} {fl : ℚ → ℚ}

/-- What replaying the record of a call makes of the replay. -/
def replayedCall (rep : HealthQuorumLog) (c : Append VK) : HealthQuorumLog :=
  (rep.note c.entry.stored).observe c.entry.stored
    (gossipDiversityKey none none c.advert.reporter)

theorem reporters_le_replayedCall (rep : HealthQuorumLog) (c : Append VK)
    (q : UInt64 × RelayId) : rep.reporters q ≤ (replayedCall rep c).reporters q :=
  reporters_le_observe (rep.note c.entry.stored) c.entry.stored _ q

theorem observed_replayedCall (rep : HealthQuorumLog) (c : Append VK) (q : UInt64 × RelayId)
    (reporter : RelayId) : (replayedCall rep c).observed q reporter =
      if q = c.entry.quorumKey ∧ reporter = c.advert.reporter then some c.entry.payload
      else rep.observed q reporter :=
  observed_observe c.entry.stored _ reporter

/-- The ballots of the subject, after the vote and in the replay. -/
theorem Mirrors.observed_vote (h : Mirrors path majorityK authoritySet log fs rep)
    (c : Append VK) {q : UInt64 × RelayId} (hq : q ∉ log.applied) (reporter : RelayId) :
    ((log.note c.entry).observe c.entry c.label).observed q reporter =
      (replayedCall rep c).observed q reporter := by
  rw [observed_observe, observed_replayedCall]
  refine if_congr Iff.rfl rfl ?_
  exact h.observed q hq reporter

theorem Advances.vote {log' : HealthQuorumLog} (c : Append VK)
    (happlied : ∀ q ∈ log.applied, q ∈ log'.applied)
    (hmedian : ∀ q ∈ log.applied, log'.appliedMedians.lookup q = log.appliedMedians.lookup q)
    (hentries : log'.entries = (log.note c.entry).entries) :
    Advances log rep log' (replayedCall rep c) := by
  have hlen : ∀ q, (log'.entriesFor q).length =
      (log.entriesFor q).length + if c.entry.quorumKey = q then 1 else 0 := by
    intro q
    rw [← length_entriesFor_note, entriesFor, hentries, entriesFor]
  refine ⟨happlied, hmedian, fun q => ?_, fun q hq => ?_⟩
  · rw [hlen]
    exact Nat.le_add_right _ _
  · rw [hlen] at hq
    have hne : q ≠ c.entry.quorumKey := by
      rintro rfl
      rw [if_pos rfl] at hq
      omega
    exact ballot_observe_ne _ hne

/-- A subject that is done with now. -/
theorem Mirrors.settle (h : Mirrors path majorityK authoritySet log fs rep) (c : Append VK)
    (hauth : log.IsAuthority c.advert.reporter) (hseen : log.seen.lookup c.entry.dedupKey = none)
    (hmem : c.entry.quorumKey ∉ log.applied)
    (hle : log.majorityK ≤
      ((log.note c.entry).observe c.entry c.label).reporters c.entry.quorumKey)
    (median : Option Observation) :
    Mirrors path majorityK authoritySet
        (((log.note c.entry).observe c.entry c.label).settle c.entry.quorumKey median)
        (fs.append path c.entry.recordBytes.toList) (replayedCall rep c) ∧
      Advances log rep
        (((log.note c.entry).observe c.entry c.label).settle c.entry.quorumKey median)
        (replayedCall rep c) := by
  have hnone : ∀ q, q ∉ insert c.entry.quorumKey log.applied →
      q ≠ c.entry.quorumKey ∧ q ∉ log.applied := fun q hq =>
    ⟨fun heq => hq (heq ▸ Finset.mem_insert_self _ _), fun hin => hq (Finset.mem_insert_of_mem hin)⟩
  refine ⟨h.persisted hauth hseen rfl rfl rfl rfl (fun q hq reporter => ?_) (fun q hq => ?_)
    (fun q hq => ?_) (fun q hq => ?_), Advances.vote c (fun q hq => Finset.mem_insert_of_mem hq)
    (fun q hq => ?_) rfl⟩
  · obtain ⟨hne, hq⟩ := hnone q hq
    refine Eq.trans ?_ (h.observed_vote c hq reporter)
    rw [HealthQuorumLog.observed, ballot_settle_ne median hne, HealthQuorumLog.observed]
  · rcases Finset.mem_insert.mp hq with rfl | hq
    · exact hle.trans_eq (reporters_eq_of_observed (h.observed_vote c hmem))
    · exact (h.quorum q hq).trans (reporters_le_replayedCall rep c q)
  · by_cases hne : q = c.entry.quorumKey
    · subst hne
      exact ballot_settle_self _ _ _
    · rw [ballot_settle_ne median hne, ballot_observe_ne _ hne]
      exact h.done q ((Finset.mem_insert.mp hq).resolve_left hne)
  · obtain ⟨hne, hq⟩ := hnone q hq
    rw [lookup_settle_ne median hne]
    exact h.median q hq
  · exact lookup_settle_ne median (ne_of_mem_of_not_mem hq hmem)

variable (fl) in
/-- **A vote keeps the relation**, and takes the median of what the replay holds if it merges. -/
theorem Mirrors.vote (h : Mirrors path majorityK authoritySet log fs rep) (c : Append VK)
    (hauth : log.IsAuthority c.advert.reporter) (hseen : log.seen.lookup c.entry.dedupKey = none) :
    Mirrors path majorityK authoritySet ((log.note c.entry).vote fl c).1
        (fs.append path c.entry.recordBytes.toList) (replayedCall rep c) ∧
      Advances log rep ((log.note c.entry).vote fl c).1 (replayedCall rep c) ∧
      ∀ reporters distinctOrgs,
        ((log.note c.entry).vote fl c).2.2 = .applied reporters distinctOrgs →
        c.entry.quorumKey ∈ ((log.note c.entry).vote fl c).1.applied ∧
        ((log.note c.entry).vote fl c).1.appliedMedians.lookup c.entry.quorumKey =
          medianOutcomeCounts fl
            ((replayedCall rep c).observations IterOrder.latestFirst c.entry.quorumKey) := by
  rcases vote_cases fl (log.note c.entry) c with
    ⟨hmem, heq⟩ | ⟨hmem, ⟨tracker, outcome, heq, hout⟩ | ⟨hle, hsettled⟩⟩
  · -- the subject is done with: the record is on file and changes nothing else
    rw [heq]
    refine ⟨h.persisted hauth hseen rfl rfl rfl rfl (fun q hq reporter => ?_)
      (fun q hq => (h.quorum q hq).trans (reporters_le_replayedCall rep c q)) h.done h.median,
      Advances.vote c (fun _ hq => hq) (fun _ _ => rfl) rfl, fun _ _ hout => nomatch hout⟩
    have hne : ¬(q = c.entry.quorumKey ∧ reporter = c.advert.reporter) := by
      rintro ⟨rfl, -⟩
      exact hq hmem
    exact (h.observed q hq reporter).trans
      ((observed_replayedCall rep c q reporter).trans (if_neg hne)).symm
  · rw [heq]
    refine ⟨h.persisted hauth hseen rfl rfl rfl rfl (fun q hq reporter => h.observed_vote c hq reporter)
      (fun q hq => (h.quorum q hq).trans (reporters_le_replayedCall rep c q)) (fun q hq => ?_)
      h.median, Advances.vote c (fun _ hq => hq) (fun _ _ => rfl) rfl,
      fun _ _ happ => absurd happ (hout _ _)⟩
    have hne : q ≠ c.entry.quorumKey := ne_of_mem_of_not_mem hq hmem
    exact (ballot_observe_ne _ hne).trans (h.done q hq)
  · rcases hsettled with ⟨tracker, r, d, heq⟩ | ⟨tracker, r, d, heq⟩
    · rw [heq]
      obtain ⟨hmirrors, hadvances⟩ := h.settle c hauth hseen hmem hle none
      exact ⟨hmirrors, hadvances, fun _ _ hout => nomatch hout⟩
    · rw [heq]
      obtain ⟨hmirrors, hadvances⟩ := h.settle c hauth hseen hmem hle
        (medianOutcomeCounts fl (((log.note c.entry).observe c.entry c.label).observations c.order
          c.entry.quorumKey))
      refine ⟨hmirrors, hadvances, fun _ _ _ => ⟨Finset.mem_insert_self _ _, ?_⟩⟩
      refine (lookup_settle_self _ ?_).trans
        (median_eq_of_observed fl c.order IterOrder.latestFirst (h.observed_vote c hmem))
      exact h.median _ hmem

variable (E fl) in
/-- **One append keeps the relation**, if it leaves no part of a record behind. -/
theorem Mirrors.append (h : Mirrors path majorityK authoritySet log fs rep) (c : Append VK)
    (hw : c.write.Whole) :
    ∃ rep', Mirrors path majorityK authoritySet (log.appendVerified E fl fs c).log
        (log.appendVerified E fl fs c).fs rep' ∧
      Advances log rep (log.appendVerified E fl fs c).log rep' ∧
      ∀ reporters distinctOrgs,
        (log.appendVerified E fl fs c).result = .ok (.applied reporters distinctOrgs) →
        c.entry.quorumKey ∈ (log.appendVerified E fl fs c).log.applied ∧
        (log.appendVerified E fl fs c).log.appliedMedians.lookup c.entry.quorumKey =
          medianOutcomeCounts fl
            (rep'.observations IterOrder.latestFirst c.entry.quorumKey) := by
  have hpath : (log.note c.entry).path = some path := h.path_eq
  rcases appendVerified_cases E fl log fs c with
    ⟨hlog, hfs, -, hout⟩ | ⟨-, hauth, hseen, ⟨e, hpersist, heq⟩ | ⟨hpersist, heq⟩⟩
  · rw [hlog, hfs]
    exact ⟨rep, h, ⟨fun _ hq => hq, fun _ _ => rfl, fun _ => le_rfl, fun _ _ => rfl⟩,
      fun _ _ happ => absurd happ (hout _ _)⟩
  · rw [heq]
    refine ⟨rep, h.note_only c.entry ?_, Advances.note log rep c.entry,
      fun _ _ happ => nomatch happ⟩
    -- a write that fails and leaves nothing behind
    rw [persistEntry, hpath] at hpersist ⊢
    cases hwrite : c.write with
    | done =>
      rw [hwrite] at hpersist
      cases hpersist
    | openFailed message => rfl
    | writeFailed written message =>
      rw [hwrite] at hw
      obtain rfl : written = 0 := hw
      simp only [List.take_zero, FileSystem.append, Function.update_self, Option.getD_some,
        List.append_nil]
  · have hfs : ((log.note c.entry).persistEntry fs c.entry c.write).1 =
        fs.append path c.entry.recordBytes.toList := by
      rw [persistEntry, hpath] at hpersist ⊢
      cases hwrite : c.write with
      | done => rfl
      | openFailed message =>
        rw [hwrite] at hpersist
        cases hpersist
      | writeFailed written message =>
        rw [hwrite] at hpersist
        cases hpersist
    obtain ⟨hmirrors, hadvances, happlied⟩ := h.vote fl c hauth hseen
    rw [heq, hfs]
    refine ⟨replayedCall rep c, hmirrors, hadvances, fun r d hout => happlied r d ?_⟩
    injection hout

end Vote

/-- The file determines what is replayed. -/
theorem Mirrors.unique (h : Mirrors path majorityK authoritySet log fs rep)
    {log' rep' : HealthQuorumLog} (h' : Mirrors path majorityK authoritySet log' fs rep') :
    rep' = rep :=
  Except.ok.inj (h'.replay.symm.trans h.replay)

/-- A log that has just been loaded. -/
theorem mirrors_of_load {fl : ℚ → ℚ} {ord : ReplayOrder}
    (hload : loadOrCreate fl ord fs path majorityK authoritySet = .ok log)
    (hwhole : quorumLogRecordLen ∣ ((fs path).getD []).length) :
    ∃ rep, Mirrors path majorityK authoritySet log fs rep ∧ Finalized fl ord rep log := by
  rw [loadOrCreate_eq] at hload
  cases hreplay : (fresh path majorityK authoritySet).replayRecords ((fs path).getD []) with
  | error e =>
    rw [hreplay] at hload
    cases hload
  | ok rep =>
    rw [hreplay] at hload
    obtain rfl : rep.finalizeReplayedQuorums fl ord = log := Except.ok.inj hload
    have hframe := sameFrame_of_replayRecords hreplay
    have hk : rep.majorityK = max majorityK 1 := hframe.majorityK
    have happlied : rep.applied = ∅ := hframe.applied
    have hmedians : rep.appliedMedians = ∅ := hframe.appliedMedians
    have hfinal : Finalized fl ord rep (rep.finalizeReplayedQuorums fl ord) :=
      finalizeReplayedQuorums_spec fl ord (hk ▸ lt_of_lt_of_le Nat.zero_lt_one (le_max_right _ _))
    have hready : ∀ q, q ∈ (rep.finalizeReplayedQuorums fl ord).applied ↔
        rep.majorityK ≤ rep.reporters q := by
      intro q
      rw [hfinal.applied, happlied]
      exact or_iff_right (Finset.notMem_empty q)
    have hnone : ∀ q, rep.appliedMedians.lookup q = none := by
      intro q
      rw [hmedians, AList.lookup_empty]
    refine ⟨rep, ⟨hfinal.path.trans hframe.path, hfinal.majorityK.trans hk,
      hfinal.authoritySet.trans hframe.authoritySet, hwhole, hreplay, fun key hkey => ?_,
      fun q hq reporter => ?_, fun q hq => ?_, fun q hq => ?_, fun q hq => ?_⟩, hfinal⟩
    · rw [← hfinal.seen]
      exact hkey
    · rw [HealthQuorumLog.observed, hfinal.ballot, if_neg fun hle => hq ((hready q).mpr hle),
        HealthQuorumLog.observed]
    · rw [hfinal.majorityK]
      exact (hready q).mp hq
    · rw [hfinal.ballot, if_pos ((hready q).mp hq)]
    · rw [hfinal.median q (hnone q), if_neg fun hle => hq ((hready q).mpr hle)]

end Mirror

/-! ## Runs -/

section Runs

variable {SK VK : Type} {E : Ed25519 SK VK} {fl : ℚ → ℚ}
variable {path : PathBuf} {majorityK : ℕ} {authoritySet : Finset RelayId}

/-- A subject that is done with, whose median is that of the replay as long as nothing more is
logged for it. -/
structure Merged (fl : ℚ → ℚ) (q : UInt64 × RelayId) (n : ℕ) (log rep : HealthQuorumLog) :
    Prop where
  mem : q ∈ log.applied
  le : n ≤ (log.entriesFor q).length
  median : (log.entriesFor q).length = n → log.appliedMedians.lookup q =
    medianOutcomeCounts fl (rep.observations IterOrder.latestFirst q)

theorem Merged.advance {q : UInt64 × RelayId} {n : ℕ} {log rep log' rep' : HealthQuorumLog}
    (h : Merged fl q n log rep) (hadv : Advances log rep log' rep') : Merged fl q n log' rep' := by
  refine ⟨hadv.applied q h.mem, h.le.trans (hadv.entries q), fun hn => ?_⟩
  have hlen : (log.entriesFor q).length = n := le_antisymm (hn ▸ hadv.entries q) h.le
  rw [hadv.median q h.mem, h.median hlen, observations, observations,
    hadv.ballot q (hn.trans hlen.symm)]

variable (E fl) in
/-- **Every run keeps the relation.** -/
theorem mirrors_run {s : Node} {rep : HealthQuorumLog}
    (h : Mirrors path majorityK authoritySet s.log s.fs rep) {calls : List (Append VK)}
    (hw : ∀ c ∈ calls, c.write.Whole) :
    ∃ rep', Mirrors path majorityK authoritySet (runNode E fl s calls).log
      (runNode E fl s calls).fs rep' :=
  Run.foldl_preserves (fun s : Node => ∃ rep, Mirrors path majorityK authoritySet s.log s.fs rep)
    (fun _ c hc ⟨_, h⟩ => (h.append E fl c (hw c hc)).imp fun _ hrep => hrep.1) ⟨rep, h⟩

variable (E) in
theorem merged_run {s : Node} {rep : HealthQuorumLog} {q : UInt64 × RelayId} {n : ℕ}
    (h : Mirrors path majorityK authoritySet s.log s.fs rep) (hmerged : Merged fl q n s.log rep)
    {calls : List (Append VK)} (hw : ∀ c ∈ calls, c.write.Whole) :
    ∃ rep', Mirrors path majorityK authoritySet (runNode E fl s calls).log
      (runNode E fl s calls).fs rep' ∧ Merged fl q n (runNode E fl s calls).log rep' :=
  Run.foldl_preserves (fun s : Node => ∃ rep,
      Mirrors path majorityK authoritySet s.log s.fs rep ∧ Merged fl q n s.log rep)
    (fun _ c hc ⟨_, h, hmerged⟩ => (h.append E fl c (hw c hc)).imp fun _ hrep =>
      ⟨hrep.1, hmerged.advance hrep.2.1⟩) ⟨rep, h, hmerged⟩

variable (E fl)

/-- The last of these calls merged the subject, or it was done with when the log was loaded. -/
def MergedBy (start : Node) (calls : List (Append VK)) (q : UInt64 × RelayId) : Prop :=
  (calls = [] ∧ q ∈ start.log.applied) ∨
    ∃ before c reporters distinctOrgs, calls = before ++ [c] ∧ c.entry.quorumKey = q ∧
      ((runNode E fl start before).log.appendVerified E fl (runNode E fl start before).fs c).result
        = .ok (.applied reporters distinctOrgs)

/-- **No vote came late**: the subject was merged, and nothing was logged for it afterwards. -/
def SettledBy (start : Node) (calls : List (Append VK)) (q : UInt64 × RelayId) : Prop :=
  ∃ before after, calls = before ++ after ∧ MergedBy E fl start before q ∧
    (runNode E fl start calls).log.entriesFor q = (runNode E fl start before).log.entriesFor q

variable {E fl}

/-- After the merge. -/
theorem merged_of_mergedBy {start : Node} {rep : HealthQuorumLog} {ord : ReplayOrder}
    (h : Mirrors path majorityK authoritySet start.log start.fs rep)
    (hfinal : Finalized fl ord rep start.log) {calls : List (Append VK)}
    (hw : ∀ c ∈ calls, c.write.Whole) {q : UInt64 × RelayId}
    (hmerged : MergedBy E fl start calls q) :
    ∃ rep', Mirrors path majorityK authoritySet (runNode E fl start calls).log
        (runNode E fl start calls).fs rep' ∧
      Merged fl q ((runNode E fl start calls).log.entriesFor q).length
        (runNode E fl start calls).log rep' := by
  rcases hmerged with ⟨rfl, hq⟩ | ⟨before, c, r, d, rfl, rfl, hout⟩
  · refine ⟨rep, h, hq, le_rfl, fun _ => ?_⟩
    have hnone : rep.appliedMedians.lookup q = none := by
      rw [(sameFrame_of_replayRecords h.replay).appliedMedians]
      exact AList.lookup_empty q
    have hle : rep.majorityK ≤ rep.reporters q := hfinal.majorityK ▸ h.quorum q hq
    refine (hfinal.median q hnone).trans ((if_pos hle).trans ?_)
    exact median_eq_of_observed fl _ _ fun _ => rfl
  · obtain ⟨rep₁, h₁⟩ := mirrors_run E fl h
      (fun c hc => hw c (List.mem_append_left _ hc))
    obtain ⟨rep₂, h₂, -, hmedian⟩ := h₁.append E fl c
      (hw c (List.mem_append_right _ (List.mem_singleton_self c)))
    rw [runNode_concat]
    exact ⟨rep₂, h₂, (hmedian r d hout).1, le_rfl, fun _ => (hmedian r d hout).2⟩

variable (fl) in
/-- What the file holds of a log and what loading it makes of that. -/
theorem load_of_mirrors {log rep : HealthQuorumLog} {fs : FileSystem}
    (h : Mirrors path majorityK authoritySet log fs rep) (ord : ReplayOrder) :
    ∃ r, loadOrCreate fl ord fs path majorityK authoritySet = .ok r ∧
      (∀ q, q ∈ r.applied ↔ log.majorityK ≤ rep.reporters q) ∧
      (∀ q, r.ballot q = if log.majorityK ≤ rep.reporters q then ∅ else rep.ballot q) ∧
      ∀ q, r.appliedMedians.lookup q =
        if log.majorityK ≤ rep.reporters q then
          medianOutcomeCounts fl (rep.observations (ord.values q) q)
        else none := by
  have hframe := sameFrame_of_replayRecords h.replay
  have hk : rep.majorityK = log.majorityK := hframe.majorityK.trans h.majorityK_eq.symm
  have hpos : 0 < rep.majorityK := by
    rw [hk, h.majorityK_eq]
    exact lt_of_lt_of_le Nat.zero_lt_one (le_max_right _ _)
  have hfinal := finalizeReplayedQuorums_spec fl ord hpos
  refine ⟨rep.finalizeReplayedQuorums fl ord, ?_, fun q => ?_, fun q => ?_, fun q => ?_⟩
  · rw [loadOrCreate_eq, h.replay]
    rfl
  · rw [hfinal.applied, hframe.applied, ← hk]
    exact or_iff_right (Finset.notMem_empty q)
  · rw [← hk]
    exact hfinal.ballot q
  · rw [← hk]
    refine hfinal.median q ?_
    rw [hframe.appliedMedians]
    exact AList.lookup_empty q

/-- **A subject that is settled** has the median of the votes on file. -/
theorem median_of_settledBy {start : Node} {rep₀ rep : HealthQuorumLog} {ord : ReplayOrder}
    (h₀ : Mirrors path majorityK authoritySet start.log start.fs rep₀)
    (hfinal : Finalized fl ord rep₀ start.log) {calls : List (Append VK)}
    (hw : ∀ c ∈ calls, c.write.Whole)
    (h : Mirrors path majorityK authoritySet (runNode E fl start calls).log
      (runNode E fl start calls).fs rep)
    {q : UInt64 × RelayId} (hsettled : SettledBy E fl start calls q) :
    q ∈ (runNode E fl start calls).log.applied ∧
      (runNode E fl start calls).log.appliedMedians.lookup q =
        medianOutcomeCounts fl (rep.observations IterOrder.latestFirst q) := by
  obtain ⟨before, after, rfl, hmerged, hlast⟩ := hsettled
  obtain ⟨rep₁, h₁, hmerged₁⟩ := merged_of_mergedBy h₀ hfinal
    (fun c hc => hw c (List.mem_append_left _ hc)) hmerged
  obtain ⟨rep₂, h₂, hmerged₂⟩ := merged_run E h₁ hmerged₁
    (fun c hc => hw c (List.mem_append_right _ hc))
  rw [← runNode_append] at h₂ hmerged₂
  obtain rfl : rep₂ = rep := h.unique h₂
  exact ⟨hmerged₂.mem, hmerged₂.median (congrArg List.length hlast)⟩

/-- What is pending of a subject, as the records have it. -/
theorem Mirrors.pending_eq {log rep : HealthQuorumLog} {fs : FileSystem}
    (h : Mirrors path majorityK authoritySet log fs rep) (q : UInt64 × RelayId)
    (reporter : RelayId) :
    (if log.majorityK ≤ rep.reporters q then none else rep.observed q reporter) =
      if log.majorityK ≤ log.reporters q then none else log.observed q reporter := by
  by_cases hq : q ∈ log.applied
  · have hnone : log.observed q reporter = none := by
      rw [HealthQuorumLog.observed, h.done q hq]
      rfl
    rw [if_pos (h.quorum q hq), hnone, ite_self]
  · rw [h.observed q hq reporter, reporters_eq_of_observed (h.observed q hq)]

/-- On file are enough reporters: the log is done with the subject, or holds that many. -/
theorem Mirrors.le_reporters_iff {log rep : HealthQuorumLog} {fs : FileSystem}
    (h : Mirrors path majorityK authoritySet log fs rep) (q : UInt64 × RelayId) :
    log.majorityK ≤ rep.reporters q ↔ q ∈ log.applied ∨ log.majorityK ≤ log.reporters q := by
  by_cases hq : q ∈ log.applied
  · exact ⟨fun _ => Or.inl hq, fun _ => h.quorum q hq⟩
  · rw [← reporters_eq_of_observed (h.observed q hq)]
    exact (or_iff_right hq).symm

end Runs

/-! ## The theorem -/

section Theorem

variable {SK VK : Type}

/-- **What a restart gives back**, after every run of appends that leaves no part of a record
in the file.  A subject is done with if the log was done with it or held enough reporters; what
else was pending is pending; the median of a subject no vote came late for is the same, and so
are the summaries and checkpoint of an epoch in which every subject is of that kind. -/
theorem reload_of_run (E : Ed25519 SK VK) (fl : ℚ → ℚ) (path : PathBuf) (majorityK : ℕ)
    (authoritySet : Finset RelayId) (start : Node) (ord₀ : ReplayOrder)
    (hload : loadOrCreate fl ord₀ start.fs path majorityK authoritySet = .ok start.log)
    (hwhole : quorumLogRecordLen ∣ ((start.fs path).getD []).length) (calls : List (Append VK))
    (hw : ∀ c ∈ calls, c.write.Whole) (ord : ReplayOrder) :
    let s := runNode E fl start calls
    ∃ r, loadOrCreate fl ord s.fs path majorityK authoritySet = .ok r ∧
      (∀ q, q ∈ r.applied ↔ q ∈ s.log.applied ∨ s.log.majorityK ≤ s.log.reporters q) ∧
      (∀ q reporter, r.observed q reporter =
        if s.log.majorityK ≤ s.log.reporters q then none else s.log.observed q reporter) ∧
      (∀ q, SettledBy E fl start calls q →
        r.appliedMedians.lookup q = s.log.appliedMedians.lookup q) ∧
      ∀ epoch, (∀ subject, (epoch, subject) ∈ r.applied →
          SettledBy E fl start calls (epoch, subject)) →
        ∀ o o', r.appliedSummariesForEpoch o epoch = s.log.appliedSummariesForEpoch o' epoch ∧
          ∀ signingKey, r.signEpochCheckpoint E o epoch signingKey =
            s.log.signEpochCheckpoint E o' epoch signingKey := by
  intro s
  obtain ⟨rep₀, h₀, hfinal₀⟩ := mirrors_of_load hload hwhole
  obtain ⟨rep, h⟩ := mirrors_run E fl h₀ hw
  obtain ⟨r, hr, happlied, hballot, hmedian⟩ := load_of_mirrors fl h ord
  have hsettled : ∀ q, SettledBy E fl start calls q →
      r.appliedMedians.lookup q = s.log.appliedMedians.lookup q := by
    intro q hq
    obtain ⟨hdone, hlookup⟩ := median_of_settledBy h₀ hfinal₀ hw h hq
    rw [hmedian q, if_pos (h.quorum q hdone), hlookup]
    exact median_eq_of_observed fl _ _ fun _ => rfl
  have hepoch : ∀ epoch, (∀ subject, (epoch, subject) ∈ r.applied →
      SettledBy E fl start calls (epoch, subject)) → ∀ o o',
        r.appliedSummariesForEpoch o epoch = s.log.appliedSummariesForEpoch o' epoch := by
    intro epoch hall o o'
    refine appliedSummariesForEpoch_congr (fun subject => ?_) o o'
    by_cases hq : (epoch, subject) ∈ r.applied
    · exact hsettled _ (hall subject hq)
    · have hle := mt (happlied _).mpr hq
      have hlive : (epoch, subject) ∉ s.log.applied := fun hin => hle (h.quorum _ hin)
      rw [hmedian, if_neg hle]
      exact (h.median _ hlive).symm
  refine ⟨r, hr, fun q => (happlied q).trans (h.le_reporters_iff q), fun q reporter => ?_,
    hsettled, fun epoch hall o o' => ⟨hepoch epoch hall o o', fun signingKey => ?_⟩⟩
  · rw [← h.pending_eq, HealthQuorumLog.observed, hballot]
    split_ifs
    · rfl
    · rfl
  · rw [signEpochCheckpoint, signEpochCheckpoint, hepoch epoch hall o o']

/-- A log of quorums of two, with no file yet. -/
def checksumStart : Node := ⟨fresh ['q'] 2 ∅, fun _ => none⟩

theorem reload_of_run_checksum :
    ∃ r, loadOrCreate id ⟨IterOrder.latestFirst, fun _ => IterOrder.latestFirst⟩
        (runNode checksumEd25519 id checksumStart
          [checksumAppend (.legacyMajority 1) 1, checksumAppend (.legacyMajority 1) 2]).fs
        ['q'] 2 ∅ = .ok r ∧
      (1, List.Vector.replicate 32 9) ∈ r.applied ∧
      r.appliedMedians.lookup (1, List.Vector.replicate 32 9) = some (9, 1) := by
  obtain ⟨r, hr, happlied, -, hmedian, -⟩ := reload_of_run checksumEd25519 id ['q'] 2 ∅ checksumStart
    ⟨IterOrder.latestFirst, fun _ => IterOrder.latestFirst⟩ rfl (dvd_zero _)
    [checksumAppend (.legacyMajority 1) 1, checksumAppend (.legacyMajority 1) 2]
    (by intro c hc; rcases List.mem_pair.mp hc with rfl | rfl <;> trivial)
    ⟨IterOrder.latestFirst, fun _ => IterOrder.latestFirst⟩
  refine ⟨r, hr, (happlied _).mpr (Or.inl (by decide +kernel)), ?_⟩
  refine (hmedian (1, List.Vector.replicate 32 9) ⟨_, [], (List.append_nil _).symm,
    Or.inr ⟨[checksumAppend (.legacyMajority 1) 1], checksumAppend (.legacyMajority 1) 2, 2, 1, rfl,
      rfl, by decide +kernel⟩, rfl⟩).trans ?_
  decide +kernel

/-- **A restart does not keep the diversity gate**: two reporters of one organisation are not
enough for the log, and they are after a restart. -/
theorem reload_disagrees_checksum :
    ∃ calls : List (Append UInt8), (∀ c ∈ calls, c.write.Whole) ∧
      ∃ r, loadOrCreate id ⟨IterOrder.latestFirst, fun _ => IterOrder.latestFirst⟩
          (runNode checksumEd25519 id checksumStart calls).fs ['q'] 2 ∅ = .ok r ∧
        (1, List.Vector.replicate 32 9) ∈ r.applied ∧
        (1, List.Vector.replicate 32 9) ∉
          (runNode checksumEd25519 id checksumStart calls).log.applied := by
  have hw : ∀ c ∈ [checksumAppend .stacked 1, checksumAppend .stacked 2], c.write.Whole := by
    intro c hc
    rcases List.mem_pair.mp hc with rfl | rfl <;> trivial
  have hstart : loadOrCreate id ⟨IterOrder.latestFirst, fun _ => IterOrder.latestFirst⟩
      checksumStart.fs ['q'] 2 ∅ = .ok checksumStart.log := rfl
  obtain ⟨rep₀, h₀, -⟩ := mirrors_of_load hstart (dvd_zero _)
  obtain ⟨rep, h⟩ := mirrors_run checksumEd25519 id h₀ hw
  obtain ⟨r, hr, happlied, -⟩ := load_of_mirrors id h
    ⟨IterOrder.latestFirst, fun _ => IterOrder.latestFirst⟩
  refine ⟨_, hw, r, hr, ?_, by decide +kernel⟩
  rw [happlied, h.le_reporters_iff]
  exact Or.inr (by decide +kernel)

end Theorem

end HealthQuorumLog

end Aegis
