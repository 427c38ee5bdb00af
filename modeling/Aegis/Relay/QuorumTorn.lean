import Aegis.Lib.Run
import Aegis.Relay.QuorumSafety

/-!
# Torn records in the quorum log

A relay appends to its log and is restarted, any number of times.  A crash may leave a part of
a record at the end of the file.  The reader takes whole records from the start of the file and
stops at the first short read; the writer always appends at the end.

* `load_of_intact` — a file of whole records, with a part of one behind them, loads.
* `loads_of_run` — **what was written is loaded**, in every run that never appends to a file
  that ends in a part of a record.
* `not_loaded_checksum` — after such an append a whole record is lost.
-/

namespace Aegis

open Buffer

namespace HealthQuorumLog

/-! ## The system -/

/-- What reaches the file of a record. -/
def written (w : Write) (record : List UInt8) : List UInt8 :=
  match w with
  | .done => record
  | .openFailed _ => []
  | .writeFailed n _ => record.take n

theorem written_done (record : List UInt8) : written .done record = record := rfl

theorem written_writeFailed (n : ℕ) (message : String) (record : List UInt8) :
    written (.writeFailed n message) record = record.take n := rfl

/-- The log, while the relay runs, the files, and the entries that were written whole. -/
structure Disk where
  log : Option HealthQuorumLog
  fs : FileSystem
  whole : List HealthQuorumLogEntry

/-- An append, or a restart after a crash or otherwise. -/
inductive DiskEvent (VK : Type) where
  | append (c : Append VK)
  | restart (majorityK : ℕ) (authoritySet : Finset RelayId) (ord : ReplayOrder)

section System

variable {SK VK : Type} (E : Ed25519 SK VK) (fl : ℚ → ℚ) (path : PathBuf)

/-- The append reaches the file. -/
def Writes (log : HealthQuorumLog) (c : Append VK) : Prop :=
  log.checkAdvert E c.entry c.verifyingKey = .ok true ∧
    written c.write c.entry.recordBytes.toList ≠ []

/-- The append writes its record whole. -/
def WritesWhole (log : HealthQuorumLog) (c : Append VK) : Prop :=
  log.checkAdvert E c.entry c.verifyingKey = .ok true ∧
    written c.write c.entry.recordBytes.toList = c.entry.recordBytes.toList

instance (log : HealthQuorumLog) (c : Append VK) : Decidable (WritesWhole E log c) :=
  inferInstanceAs (Decidable (_ ∧ _))

/-- A call, or a restart from the file. -/
def stepDisk (s : Disk) : DiskEvent VK → Disk
  | .append c =>
    match s.log with
    | none => s
    | some log =>
      let a := log.appendVerified E fl s.fs c
      ⟨some a.log, a.fs, if WritesWhole E log c then s.whole ++ [c.entry] else s.whole⟩
  | .restart majorityK authoritySet ord =>
    { s with log := (loadOrCreate fl ord s.fs path majorityK authoritySet).toOption }

/-- One event after another. -/
def runDisk (s : Disk) (events : List (DiskEvent VK)) : Disk :=
  events.foldl (stepDisk E fl path) s

/-- A record is appended only to a file of whole records. -/
def AppendsToWhole (s : Disk) : DiskEvent VK → Prop
  | .append c => ∀ log, s.log = some log → Writes E log c →
      quorumLogRecordLen ∣ ((s.fs path).getD []).length
  | .restart _ _ _ => True

end System

/-! ## Loading whole records -/

/-- An entry that is not on file yet is replayed. -/
theorem replayEntry_of_new (log : HealthQuorumLog) (entry : HealthQuorumLogEntry)
    (hseen : log.seen.lookup entry.dedupKey = none) :
    ∃ log', log.replayEntry entry = .ok log' ∧
      log'.seen = log.seen.insert entry.dedupKey entry.payload ∧
      log'.entries = log.entries ++ [entry] := by
  unfold replayEntry
  simp only [hseen]
  split_ifs
  · exact ⟨_, rfl, rfl, rfl⟩
  · exact ⟨_, rfl, rfl, rfl⟩
  · exact ⟨_, rfl, rfl, rfl⟩

/-- The records of entries. -/
def records (entries : List HealthQuorumLogEntry) : List (List UInt8) :=
  entries.map fun e => e.recordBytes.toList

theorem length_of_mem_records {entries : List HealthQuorumLogEntry} {b : List UInt8}
    (h : b ∈ records entries) : b.length = quorumLogRecordLen := by
  obtain ⟨e, -, rfl⟩ := List.mem_map.mp h
  exact e.recordBytes.toList_length

theorem records_concat (entries : List HealthQuorumLogEntry) (e : HealthQuorumLogEntry) :
    records (entries ++ [e]) = records entries ++ [e.recordBytes.toList] :=
  List.map_append

theorem dvd_length_records (entries : List HealthQuorumLogEntry) :
    quorumLogRecordLen ∣ (records entries).flatten.length := by
  induction entries using List.reverseRecOn with
  | nil => exact Nat.dvd_zero _
  | append_singleton entries e ih =>
    rw [records_concat, List.flatten_append, List.flatten_singleton, List.length_append]
    exact Nat.dvd_add ih (dvd_of_eq e.recordBytes.toList_length.symm)

/-- **Records of different keys are replayed** one after another. -/
theorem foldlM_replayRecord {entries : List HealthQuorumLogEntry}
    (hnodup : (entries.map HealthQuorumLogEntry.dedupKey).Nodup) (log : HealthQuorumLog)
    (hlog : log.seen = ∅ ∧ log.entries = []) :
    ∃ rep, (records entries).foldlM replayRecord log = .ok rep ∧
      rep.entries = entries.map HealthQuorumLogEntry.stored ∧
      (∀ e ∈ entries, rep.seen.lookup e.dedupKey = some e.payload) ∧
      ∀ key, key ∉ entries.map HealthQuorumLogEntry.dedupKey → rep.seen.lookup key = none := by
  induction entries using List.reverseRecOn with
  | nil =>
    refine ⟨log, rfl, hlog.2, fun e he => absurd he (List.not_mem_nil), fun key _ => ?_⟩
    rw [hlog.1, AList.lookup_empty]
  | append_singleton entries e ih =>
    rw [List.map_append, List.nodup_append] at hnodup
    obtain ⟨hentries, -, hdisjoint⟩ := hnodup
    obtain ⟨rep, hrep, hlist, hseen, hnone⟩ := ih hentries
    have hnew : e.dedupKey ∉ entries.map HealthQuorumLogEntry.dedupKey := fun hmem =>
      hdisjoint _ hmem _ (List.mem_singleton_self _) rfl
    obtain ⟨rep', hrep', hseen', hlist'⟩ := replayEntry_of_new rep e.stored (hnone _ hnew)
    have hone : rep.replayRecord e.recordBytes.toList = .ok rep' := by
      unfold replayRecord
      rw [HealthQuorumLogEntry.fromRecordBytes_recordBytes]
      exact hrep'
    refine ⟨rep', ?_, ?_, ?_, ?_⟩
    · rw [records_concat]
      exact Run.foldlM_concat.mpr ⟨rep, hrep, hone⟩
    · rw [hlist', hlist, List.map_append]
      rfl
    · intro e' he'
      rw [hseen']
      rcases List.mem_append.mp he' with he' | he'
      · have hne : e'.dedupKey ≠ e.stored.dedupKey :=
          ne_of_mem_of_not_mem (List.mem_map_of_mem he') hnew
        rw [AList.lookup_insert_ne hne, hseen e' he']
      · obtain rfl := List.mem_singleton.mp he'
        exact AList.lookup_insert _
    · intro key hkey
      rw [List.map_append, List.mem_append, not_or] at hkey
      have hne : key ≠ e.stored.dedupKey := fun heq => hkey.2 (heq ▸ List.mem_singleton_self _)
      rw [hseen', AList.lookup_insert_ne hne, hnone key hkey.1]

/-! ## The invariant -/

/-- The file is the records written whole, with less than a record behind them. -/
structure Intact (path : PathBuf) (s : Disk) : Prop where
  file : ∃ tail, (s.fs path).getD [] = (records s.whole).flatten ++ tail ∧
    tail.length < quorumLogRecordLen
  nodup : (s.whole.map HealthQuorumLogEntry.dedupKey).Nodup
  /-- The log knows what is on file. -/
  log : ∀ log, s.log = some log → log.path = some path ∧
    ∀ e ∈ s.whole, log.seen.lookup e.dedupKey = some e.payload

section Invariant

variable {SK VK : Type} {E : Ed25519 SK VK} {fl : ℚ → ℚ} {path : PathBuf} {s : Disk}

variable (fl) in
/-- **A file of whole records loads**, whatever is left of a record behind them. -/
theorem load_of_intact (h : Intact path s) (majorityK : ℕ) (authoritySet : Finset RelayId)
    (ord : ReplayOrder) :
    ∃ r, loadOrCreate fl ord s.fs path majorityK authoritySet = .ok r ∧
      r.entries = s.whole.map HealthQuorumLogEntry.stored ∧ r.path = some path ∧
      ∀ e ∈ s.whole, r.seen.lookup e.dedupKey = some e.payload := by
  obtain ⟨tail, hfile, htail⟩ := h.file
  obtain ⟨rep, hrep, hentries, hseen, -⟩ := foldlM_replayRecord h.nodup
    (fresh path majorityK authoritySet) ⟨rfl, rfl⟩
  have hreplay : (fresh path majorityK authoritySet).replayRecords ((s.fs path).getD []) =
      .ok rep := by
    unfold replayRecords
    rw [hfile, chunks_flatten_append (fun _ hb => length_of_mem_records hb) htail, hrep]
  have hframe := sameFrame_of_replayRecords hreplay
  have hpos : 0 < rep.majorityK := by
    rw [hframe.majorityK]
    exact lt_of_lt_of_le Nat.zero_lt_one (le_max_right _ _)
  have hfinal := finalizeReplayedQuorums_spec fl ord hpos
  refine ⟨rep.finalizeReplayedQuorums fl ord, ?_, hfinal.entries.trans hentries,
    hfinal.path.trans hframe.path, fun e he => ?_⟩
  · rw [loadOrCreate_eq, hreplay]
    rfl
  · rw [hfinal.seen, hseen e he]

theorem Intact.restart (h : Intact path s) (majorityK : ℕ) (authoritySet : Finset RelayId)
    (ord : ReplayOrder) :
    Intact path (stepDisk E fl path s (.restart majorityK authoritySet ord)) := by
  obtain ⟨r, hr, -, hpath, hseen⟩ := load_of_intact fl h majorityK authoritySet ord
  refine ⟨h.file, h.nodup, fun log hlog => ?_⟩
  have hlog' : (loadOrCreate fl ord s.fs path majorityK authoritySet).toOption = some log := hlog
  rw [hr] at hlog'
  obtain rfl : r = log := Option.some.inj hlog'
  exact ⟨hpath, hseen⟩

/-- A call that is refused or a duplicate leaves the log and the files alone. -/
theorem appendVerified_of_not_new (fl : ℚ → ℚ) {log : HealthQuorumLog} (fs : FileSystem)
    {c : Append VK}
    (h : log.checkAdvert E c.entry c.verifyingKey ≠ .ok true) :
    (log.appendVerified E fl fs c).log = log ∧ (log.appendVerified E fl fs c).fs = fs := by
  unfold appendVerified
  cases hcheck : log.checkAdvert E c.entry c.verifyingKey with
  | error e => exact ⟨rfl, rfl⟩
  | ok new =>
    cases new with
    | false => exact ⟨rfl, rfl⟩
    | true => exact absurd hcheck h

/-- A call whose advert is new puts its key among those seen, and writes. -/
theorem appendVerified_of_new (fl : ℚ → ℚ) {log : HealthQuorumLog} (fs : FileSystem)
    {c : Append VK}
    (h : log.checkAdvert E c.entry c.verifyingKey = .ok true) :
    (log.appendVerified E fl fs c).log.seen.lookup c.entry.dedupKey = some c.entry.payload ∧
      (log.appendVerified E fl fs c).fs =
        ((log.note c.entry).persistEntry fs c.entry c.write).1 := by
  unfold appendVerified
  simp only [h]
  rcases (log.note c.entry).persistEntry fs c.entry c.write with ⟨fs', result⟩
  cases result with
  | error e => exact ⟨AList.lookup_insert _, rfl⟩
  | ok _ =>
    refine ⟨?_, rfl⟩
    show ((log.note c.entry).vote fl c).1.seen.lookup c.entry.dedupKey = _
    rw [seen_vote]
    exact AList.lookup_insert _

theorem file_persistEntry {log : HealthQuorumLog} (hpath : log.path = some path) (fs : FileSystem)
    (entry : HealthQuorumLogEntry) (w : Write) :
    ((log.persistEntry fs entry w).1 path).getD [] =
      (fs path).getD [] ++ written w entry.recordBytes.toList := by
  unfold persistEntry written
  rw [hpath]
  cases w with
  | done => simp [FileSystem.append]
  | openFailed message => simp
  | writeFailed n message => simp [FileSystem.append]

/-- What a write leaves behind a file of whole records. -/
theorem written_cases (w : Write) (e : HealthQuorumLogEntry) :
    written w e.recordBytes.toList = e.recordBytes.toList ∨
      (written w e.recordBytes.toList).length < quorumLogRecordLen := by
  have hlen : e.recordBytes.toList.length = quorumLogRecordLen := e.recordBytes.toList_length
  cases w with
  | done => exact Or.inl (written_done _)
  | openFailed message => exact Or.inr (show 0 < quorumLogRecordLen by decide)
  | writeFailed n message =>
    rw [written_writeFailed]
    rcases Nat.lt_or_ge n quorumLogRecordLen with hn | hn
    · right
      rw [List.length_take, hlen]
      omega
    · left
      exact List.take_of_length_le (hlen.trans_le hn)

/-- Nothing stands behind the records of a file of whole records. -/
theorem tail_eq_nil {entries : List HealthQuorumLogEntry} {tail : List UInt8}
    (htail : tail.length < quorumLogRecordLen)
    (hdvd : quorumLogRecordLen ∣ ((records entries).flatten ++ tail).length) : tail = [] := by
  rw [List.length_append] at hdvd
  have htail' : quorumLogRecordLen ∣ tail.length :=
    (Nat.dvd_add_right (dvd_length_records entries)).mp hdvd
  exact List.length_eq_zero_iff.mp (Nat.eq_zero_of_dvd_of_lt htail' htail)

/-- One more record is written whole. -/
theorem Intact.push (h : Intact path s) {log : HealthQuorumLog} {fs : FileSystem}
    {e : HealthQuorumLogEntry}
    (hfile : (fs path).getD [] = (records s.whole).flatten ++ e.recordBytes.toList)
    (hout : ∀ e' ∈ s.whole, e'.dedupKey ≠ e.dedupKey) (hpath : log.path = some path)
    (hseen : ∀ e' ∈ s.whole, log.seen.lookup e'.dedupKey = some e'.payload)
    (hself : log.seen.lookup e.dedupKey = some e.payload) :
    Intact path ⟨some log, fs, s.whole ++ [e]⟩ := by
  refine ⟨⟨[], ?_, by decide⟩, ?_, fun log' hlog' => ?_⟩
  · rw [hfile, List.append_nil, records_concat, List.flatten_append, List.flatten_singleton]
  · rw [List.map_append, List.nodup_append]
    refine ⟨h.nodup, List.nodup_singleton _, fun key hkey key' hkey' => ?_⟩
    obtain ⟨e', he', rfl⟩ := List.mem_map.mp hkey
    rw [List.mem_singleton.mp hkey']
    exact hout e' he'
  · cases hlog'
    refine ⟨hpath, fun e' he' => ?_⟩
    rcases List.mem_append.mp he' with he' | he'
    · exact hseen e' he'
    · obtain rfl := List.mem_singleton.mp he'
      exact hself

/-- No record is written whole. -/
theorem Intact.keep (h : Intact path s) {log : HealthQuorumLog} {fs : FileSystem}
    {tail : List UInt8} (hfile : (fs path).getD [] = (records s.whole).flatten ++ tail)
    (htail : tail.length < quorumLogRecordLen) (hpath : log.path = some path)
    (hseen : ∀ e ∈ s.whole, log.seen.lookup e.dedupKey = some e.payload) :
    Intact path ⟨some log, fs, s.whole⟩ := by
  refine ⟨⟨tail, hfile, htail⟩, h.nodup, fun log' hlog' => ?_⟩
  cases hlog'
  exact ⟨hpath, hseen⟩

/-- **An append to a file of whole records keeps the invariant.** -/
theorem Intact.append (h : Intact path s) (c : Append VK)
    (hc : AppendsToWhole E path s (.append c)) :
    Intact path (stepDisk E fl path s (.append c)) := by
  unfold stepDisk
  cases hlog : s.log with
  | none => simpa only [hlog] using h
  | some log =>
    obtain ⟨hpath, hseen⟩ := h.log log hlog
    have hpath' : (log.appendVerified E fl s.fs c).log.path = some path :=
      (config_appendVerified E fl log s.fs c).2.2.trans hpath
    have hseen' : ∀ e ∈ s.whole,
        (log.appendVerified E fl s.fs c).log.seen.lookup e.dedupKey = some e.payload :=
      fun e he => lookup_seen_appendVerified E fl s.fs c (hseen e he)
    obtain ⟨tail, hfile, htail⟩ := h.file
    by_cases hnew : log.checkAdvert E c.entry c.verifyingKey = .ok true
    · obtain ⟨hself, hfs⟩ := appendVerified_of_new fl s.fs hnew
      have hpersist : (((log.note c.entry).persistEntry s.fs c.entry c.write).1 path).getD [] =
          (s.fs path).getD [] ++ written c.write c.entry.recordBytes.toList :=
        file_persistEntry hpath s.fs c.entry c.write
      rw [← hfs, hfile] at hpersist
      -- a write that reaches the file finds no part of a record there
      have hempty : written c.write c.entry.recordBytes.toList ≠ [] → tail = [] := fun hne =>
        tail_eq_nil htail (hfile ▸ hc log hlog ⟨hnew, hne⟩)
      have hlen : c.entry.recordBytes.toList.length = quorumLogRecordLen :=
        c.entry.recordBytes.toList_length
      rcases written_cases c.write c.entry with hwhole | hshort
      · have hne : written c.write c.entry.recordBytes.toList ≠ [] := by
          intro hnil
          rw [← hwhole, hnil] at hlen
          cases hlen
        have hout : ∀ e ∈ s.whole, e.dedupKey ≠ c.entry.dedupKey := by
          intro e he heq
          have hsome := hseen e he
          rw [heq, (of_checkAdvert hnew).2.2] at hsome
          cases hsome
        rw [hempty hne, hwhole, List.append_nil] at hpersist
        simp only [if_pos (show WritesWhole E log c from ⟨hnew, hwhole⟩)]
        exact h.push hpersist hout hpath' hseen' hself
      · have hnot : ¬WritesWhole E log c := by
          intro hw
          rw [hw.2, hlen] at hshort
          exact lt_irrefl _ hshort
        rw [List.append_assoc] at hpersist
        simp only [if_neg hnot]
        refine h.keep hpersist ?_ hpath' hseen'
        by_cases hne : written c.write c.entry.recordBytes.toList = []
        · rw [hne, List.append_nil]
          exact htail
        · rw [hempty hne, List.nil_append]
          exact hshort
    · obtain ⟨hsame, hfs⟩ := appendVerified_of_not_new fl s.fs hnew
      have hnot : ¬WritesWhole E log c := fun hw => hnew hw.1
      simp only [if_neg hnot]
      refine h.keep ?_ htail hpath' hseen'
      rw [← hfile, hfs]

/-- **Every such run keeps it.** -/
theorem intact_run (h : Intact path s) {events : List (DiskEvent VK)}
    (hevents : Run.Guarded (stepDisk E fl path) (AppendsToWhole E path) s events) :
    Intact path (runDisk E fl path s events) := by
  refine hevents.preserves (Intact path) (fun s e he hs => ?_) h
  cases e with
  | append c => exact hs.append c he
  | restart majorityK authoritySet ord => exact hs.restart majorityK authoritySet ord

/-- What an append of a new advert leaves in the file. -/
theorem file_stepDisk (fl : ℚ → ℚ) {log : HealthQuorumLog} {c : Append VK}
    (hlog : s.log = some log) (hpath : log.path = some path)
    (hnew : log.checkAdvert E c.entry c.verifyingKey = .ok true) :
    ((stepDisk E fl path s (.append c)).fs path).getD [] =
      (s.fs path).getD [] ++ written c.write c.entry.recordBytes.toList := by
  unfold stepDisk
  simp only [hlog]
  rw [(appendVerified_of_new fl s.fs hnew).2]
  exact file_persistEntry hpath s.fs c.entry c.write

/-- A new advert whose write succeeds is written whole. -/
theorem whole_stepDisk (fl : ℚ → ℚ) {log : HealthQuorumLog} {c : Append VK}
    (hlog : s.log = some log) (hnew : log.checkAdvert E c.entry c.verifyingKey = .ok true)
    (hdone : c.write = .done) :
    (stepDisk E fl path s (.append c)).whole = s.whole ++ [c.entry] := by
  have hw : WritesWhole E log c := by
    refine ⟨hnew, ?_⟩
    rw [hdone, written_done]
  unfold stepDisk
  simp only [hlog]
  rw [if_pos hw]

end Invariant

/-! ## The theorem -/

section Theorem

variable {SK VK : Type}

/-- **What was written is loaded.**  In every run of appends and restarts from no file, in
which a record is appended only to a file of whole records, the file loads after every step;
the entries loaded are those written whole, in order, and no others. -/
theorem loads_of_run (E : Ed25519 SK VK) (fl : ℚ → ℚ) (path : PathBuf) (fs : FileSystem)
    (hfs : fs path = none) (events : List (DiskEvent VK))
    (hevents : Run.Guarded (stepDisk E fl path) (AppendsToWhole E path) ⟨none, fs, []⟩ events)
    (majorityK : ℕ) (authoritySet : Finset RelayId) (ord : ReplayOrder) :
    let s := runDisk E fl path ⟨none, fs, []⟩ events
    ∃ r, loadOrCreate fl ord s.fs path majorityK authoritySet = .ok r ∧
      r.entries = s.whole.map HealthQuorumLogEntry.stored := by
  intro s
  have hstart : Intact path ⟨none, fs, []⟩ := by
    refine ⟨⟨[], ?_, by decide⟩, List.nodup_nil, fun log hlog => by cases hlog⟩
    show (fs path).getD [] = _
    rw [hfs]
    rfl
  obtain ⟨r, hr, hentries, -⟩ :=
    load_of_intact fl (intact_run hstart hevents) majorityK authoritySet ord
  exact ⟨r, hr, hentries⟩

/-- The latest insertion first, everywhere. -/
def checksumOrder : ReplayOrder := ⟨IterOrder.latestFirst, fun _ => IterOrder.latestFirst⟩

theorem loads_of_run_checksum :
    ∃ r, loadOrCreate id checksumOrder (runDisk checksumEd25519 id ['q'] ⟨none, fun _ => none, []⟩
        [.restart 2 ∅ checksumOrder, .append (checksumAppend .stacked 1)]).fs ['q'] 2 ∅ = .ok r ∧
      r.entries = [(checksumAppend .stacked 1).entry.stored] := by
  obtain ⟨r, hr, hentries⟩ := loads_of_run checksumEd25519 id ['q'] (fun _ => none) rfl
    [.restart 2 ∅ checksumOrder, .append (checksumAppend .stacked 1)]
    ⟨trivial, fun _ _ _ => Nat.dvd_zero _, trivial⟩ 2 ∅ checksumOrder
  refine ⟨r, hr, hentries.trans ?_⟩
  have hnew : (fresh ['q'] 2 ∅).checkAdvert checksumEd25519 (checksumAppend .stacked 1).entry 1 =
      .ok true := by decide +kernel
  let s₀ := stepDisk checksumEd25519 id ['q'] ⟨none, fun _ => none, []⟩
    (.restart 2 ∅ checksumOrder)
  have hlog₀ : s₀.log = some (fresh ['q'] 2 ∅) := rfl
  have hwhole : (stepDisk checksumEd25519 id ['q'] s₀ (.append (checksumAppend .stacked 1))).whole =
      [(checksumAppend .stacked 1).entry] := whole_stepDisk id hlog₀ hnew rfl
  rw [runDisk, List.foldl_cons, List.foldl_cons, List.foldl_nil, hwhole]
  exact List.map_singleton

/-! ## After a torn record -/

/-- A file that is less than a record loads as an empty log. -/
theorem loadOrCreate_of_short {fl : ℚ → ℚ} {fs : FileSystem} {path : PathBuf}
    (hshort : ((fs path).getD []).length < quorumLogRecordLen) (majorityK : ℕ)
    (authoritySet : Finset RelayId) (ord : ReplayOrder) :
    loadOrCreate fl ord fs path majorityK authoritySet = .ok (fresh path majorityK authoritySet) := by
  have hnil : loadOrCreate fl ord (fun _ => none) path majorityK authoritySet =
      .ok (fresh path majorityK authoritySet) := rfl
  rw [loadOrCreate_eq] at hnil ⊢
  have hchunks : chunks quorumLogRecordLen ((fs path).getD []) =
      chunks quorumLogRecordLen ([] : List UInt8) :=
    chunks_append_of_lt (l := []) (Nat.dvd_zero _) hshort
  have hsame : (fresh path majorityK authoritySet).replayRecords ((fs path).getD []) =
      (fresh path majorityK authoritySet).replayRecords [] := by
    unfold replayRecords
    rw [hchunks]
  rw [hsame]
  exact hnil

section Torn

variable {SK VK : Type} {E : Ed25519 SK VK} {path : PathBuf} {s : Disk}

/-- A restart with less than a record in the file starts from nothing. -/
theorem log_stepDisk_of_short (fl : ℚ → ℚ)
    (hshort : ((s.fs path).getD []).length < quorumLogRecordLen) (majorityK : ℕ)
    (authoritySet : Finset RelayId) (ord : ReplayOrder) :
    (stepDisk E fl path s (.restart majorityK authoritySet ord)).log =
      some (fresh path majorityK authoritySet) := by
  show (loadOrCreate fl ord s.fs path majorityK authoritySet).toOption = _
  rw [loadOrCreate_of_short hshort]
  rfl

/-- One record and less than another one. -/
theorem chunks_single {first rest : List UInt8} (hfirst : first.length = quorumLogRecordLen)
    (hrest : rest.length < quorumLogRecordLen) :
    chunks quorumLogRecordLen (first ++ rest) = [first] := by
  have h : chunks quorumLogRecordLen ([first].flatten ++ rest) = [first] := by
    refine chunks_flatten_append (fun q hq => ?_) hrest
    rw [List.mem_singleton.mp hq]
    exact hfirst
  rwa [List.flatten_singleton] at h

variable (path) in
/-- What a log replays of them. -/
theorem replayRecords_single (first : Bytes quorumLogRecordLen) {rest : List UInt8}
    (hrest : rest.length < quorumLogRecordLen) (majorityK : ℕ) (authoritySet : Finset RelayId) :
    ∃ rep, (fresh path majorityK authoritySet).replayRecords (first.toList ++ rest) = .ok rep ∧
      rep.entries = [.ofRecord first] := by
  obtain ⟨rep, hrep, -, hentries⟩ := replayEntry_of_new
    (fresh path majorityK authoritySet) (.ofRecord first) rfl
  have hone : (fresh path majorityK authoritySet).replayRecord first.toList = .ok rep := by
    unfold replayRecord
    rw [HealthQuorumLogEntry.fromRecordBytes_toList]
    exact hrep
  refine ⟨rep, ?_, hentries⟩
  unfold replayRecords
  rw [chunks_single first.toList_length hrest]
  exact (Run.foldlM_concat (l := [])).mpr ⟨_, rfl, hone⟩

/-- **A record behind a torn one is misread**: what is loaded has the epoch of the torn one. -/
theorem load_of_torn (fl : ℚ → ℚ) (torn e : HealthQuorumLogEntry)
    (hfile : (s.fs path).getD [] = torn.recordBytes.toList.take 8 ++ e.recordBytes.toList)
    (majorityK : ℕ) (authoritySet : Finset RelayId) (ord : ReplayOrder) :
    ∃ r, loadOrCreate fl ord s.fs path majorityK authoritySet = .ok r ∧
      ∀ entry ∈ r.entries, entry.epoch = torn.epoch := by
  have hepoch : torn.recordBytes.toList.take 8 = u64Bytes torn.epoch := by
    rw [← torn.slice_recordBytes.1, slice, List.drop_zero]
  have hlen : e.recordBytes.toList.length = quorumLogRecordLen := e.recordBytes.toList_length
  rw [hepoch] at hfile
  generalize e.recordBytes.toList = b at hfile hlen
  have hfirst : (u64Bytes torn.epoch ++ b.take 144).length = quorumLogRecordLen := by
    rw [List.length_append, length_u64Bytes, List.length_take, hlen]
    rfl
  let first : Bytes quorumLogRecordLen := ⟨_, hfirst⟩
  have hrest : (b.drop 144).length < quorumLogRecordLen := by
    rw [List.length_drop, hlen]
    decide
  obtain ⟨rep, hreplay, hentries⟩ := replayRecords_single path first hrest
    majorityK authoritySet
  have hbytes : first.toList ++ b.drop 144 = (s.fs path).getD [] := by
    rw [hfile]
    show u64Bytes torn.epoch ++ b.take 144 ++ b.drop 144 = _
    rw [List.append_assoc, List.take_append_drop]
  rw [hbytes] at hreplay
  have hpos : 0 < rep.majorityK := by
    rw [(sameFrame_of_replayRecords hreplay).majorityK]
    exact lt_of_lt_of_le Nat.zero_lt_one (le_max_right _ _)
  refine ⟨rep.finalizeReplayedQuorums fl ord, ?_, fun entry hentry => ?_⟩
  · rw [loadOrCreate_eq, hreplay]
    rfl
  · rw [(finalizeReplayedQuorums_spec fl ord hpos).entries, hentries] at hentry
    obtain rfl := List.mem_singleton.mp hentry
    show u64Value (first.window 0 8 (by decide)) = _
    apply u64Value_of_toList
    rw [Bytes.toList_window]
    exact List.take_left' (length_u64Bytes _)

/-- **A torn record hides what is written behind it.**  Eight bytes of a record are left in the
file, the relay is restarted and a record of another epoch is written whole; it is not among
the entries loaded. -/
theorem not_loaded_of_torn (E : Ed25519 SK VK) (fl : ℚ → ℚ) (path : PathBuf) (fs : FileSystem)
    (hfs : fs path = none) (majorityK : ℕ) (authoritySet : Finset RelayId) (ord : ReplayOrder)
    (torn later : Append VK) {message : String}
    (htorn : torn.write = .writeFailed 8 message) (hlater : later.write = .done)
    (hnew : (fresh path majorityK authoritySet).checkAdvert E torn.entry torn.verifyingKey =
      .ok true)
    (hnew' : (fresh path majorityK authoritySet).checkAdvert E later.entry later.verifyingKey =
      .ok true)
    (hepoch : later.epoch ≠ torn.epoch) :
    let s := runDisk E fl path ⟨none, fs, []⟩ [.restart majorityK authoritySet ord, .append torn,
      .restart majorityK authoritySet ord, .append later]
    later.entry ∈ s.whole ∧ ∃ r, loadOrCreate fl ord s.fs path majorityK authoritySet = .ok r ∧
      later.entry.stored ∉ r.entries := by
  intro s
  let s₁ := stepDisk E fl path ⟨none, fs, []⟩ (.restart majorityK authoritySet ord)
  have hlog₁ : s₁.log = some (fresh path majorityK authoritySet) := by
    refine log_stepDisk_of_short fl ?_ majorityK authoritySet ord
    show ((fs path).getD []).length < _
    rw [hfs]
    decide
  let s₂ := stepDisk E fl path s₁ (.append torn)
  have hfile₂ : (s₂.fs path).getD [] = torn.entry.recordBytes.toList.take 8 := by
    have h := file_stepDisk fl hlog₁ rfl hnew
    rw [htorn, show s₁.fs path = none from hfs, Option.getD_none, List.nil_append,
      written_writeFailed] at h
    exact h
  let s₃ := stepDisk E fl path s₂ (.restart majorityK authoritySet ord)
  have hlog₃ : s₃.log = some (fresh path majorityK authoritySet) := by
    refine log_stepDisk_of_short fl ?_ majorityK authoritySet ord
    rw [hfile₂, List.length_take]
    exact lt_of_le_of_lt (min_le_left _ _) (by decide)
  have hrun : s = stepDisk E fl path s₃ (.append later) := by
    show List.foldl _ _ _ = _
    rw [List.foldl_cons, List.foldl_cons, List.foldl_cons, List.foldl_cons, List.foldl_nil]
  have hfile : (s.fs path).getD [] =
      torn.entry.recordBytes.toList.take 8 ++ later.entry.recordBytes.toList := by
    rw [hrun]
    have h := file_stepDisk fl hlog₃ rfl hnew'
    rw [hlater, written_done, show s₃.fs = s₂.fs from rfl, hfile₂] at h
    exact h
  have hwhole : s.whole = s₃.whole ++ [later.entry] := by
    rw [hrun]
    exact whole_stepDisk fl hlog₃ hnew' hlater
  obtain ⟨r, hr, hread⟩ :=
    load_of_torn fl torn.entry later.entry hfile majorityK authoritySet ord
  refine ⟨?_, r, hr, fun hmem => hepoch (hread _ hmem)⟩
  rw [hwhole]
  exact List.mem_append_right _ (List.mem_singleton_self _)

end Torn

/-- A record of epoch 2 behind eight bytes of one of epoch 1. -/
theorem not_loaded_checksum :
    ∃ events : List (DiskEvent UInt8),
      let s := runDisk checksumEd25519 id ['q'] ⟨none, fun _ => none, []⟩ events
      ∃ e ∈ s.whole, ∃ r, loadOrCreate id checksumOrder s.fs ['q'] 2 ∅ = .ok r ∧
        e.stored ∉ r.entries := by
  obtain ⟨hwhole, hlost⟩ := not_loaded_of_torn checksumEd25519 id ['q'] (fun _ => none) rfl
    2 ∅ checksumOrder { checksumAppend .stacked 1 with write := .writeFailed 8 "" }
    { checksumAppend .stacked 2 with epoch := 2 } rfl rfl (by decide +kernel) (by decide +kernel)
    (by decide)
  exact ⟨_, _, hwhole, hlost⟩

end Theorem

end HealthQuorumLog

end Aegis
