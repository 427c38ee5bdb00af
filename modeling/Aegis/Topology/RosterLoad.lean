import Aegis.Relay.HealthQuorumLog
import Aegis.Topology.Roster

/-!
# Verified loads of the roster

A verified load checks the admission of every entry of the file.  What the roster hands out is
the record beside it.

* `lookup_of_load` — the roster keeps, for an id, the last entry of the file with that id.
* `records_of_load_iff` — **what a verified load vouches for**: every record it hands out is one
  of an admission exactly when the file says the same in both places.
* `unsigned_record_checksum` — an edited entry, and the roster hands out a record that nobody
  signed.
-/

namespace Aegis

open Buffer

namespace RelayRoster

/-- The entry that stays on the roster, of those with an id. -/
def lastEntry (entries : List RosterEntry) (id : RelayId) : Option RosterEntry :=
  (entries.filter fun e => e.record.id = id).getLast?

theorem lastEntry_concat (entries : List RosterEntry) (e : RosterEntry) (id : RelayId) :
    lastEntry (entries ++ [e]) id = if e.record.id = id then some e else lastEntry entries id := by
  unfold lastEntry
  rw [List.filter_append]
  split_ifs with hid
  · simp [hid]
  · simp [hid]

theorem of_lastEntry {entries : List RosterEntry} {id : RelayId} {e : RosterEntry}
    (h : lastEntry entries id = some e) : e ∈ entries ∧ e.record.id = id := by
  have hmem : e ∈ entries.filter fun e => e.record.id = id := List.mem_of_getLast? h
  exact ⟨(List.mem_filter.mp hmem).1, of_decide_eq_true (List.mem_filter.mp hmem).2⟩

/-- The record is one of an admission of the file. -/
def Carried (entries : List RosterEntry) (record : RelayRecord) : Prop :=
  ∃ e ∈ entries, ∃ a, e.admission = some a ∧ a.record = record

section Load

variable {SK VK : Type} {E : Ed25519 SK VK} {consortium : ThresholdConsortium E}

/-- The record is one of an admission of the file that enough authorities have signed. -/
def SignedRecord (consortium : ThresholdConsortium E) (entries : List RosterEntry)
    (record : RelayRecord) : Prop :=
  ∃ e ∈ entries, ∃ a, e.admission = some a ∧ a.record = record ∧ ThresholdSigned consortium a

/-- An entry that loads has an admission that verifies. -/
theorem of_loadEntry {roster roster' : RelayRoster} {e : RosterEntry}
    (h : loadEntry (some consortium) roster e = .ok roster') :
    ∃ a, e.admission = some a ∧ a.verifyThreshold consortium = .ok () ∧
      roster' = roster.insertEntry (e.setAdmission a) := by
  unfold loadEntry at h
  split at h
  · rename_i hnone
    cases hnone
  · rename_i c hc
    obtain rfl := Option.some.inj hc
    split at h
    · cases h
    · rename_i a ha
      split at h
      · cases h
      · rename_i hverify
        exact ⟨a, ha, hverify, (Except.ok.inj h).symm⟩

/-- **The roster of a file**: for every id the last entry with it, and every admission of the
file is signed. -/
theorem lookup_of_load {entries : List RosterEntry} {roster : RelayRoster}
    (h : entries.foldlM (loadEntry (some consortium)) new = .ok roster) :
    (∀ id, (roster.relays.lookup id).map RosterEntry.record =
        (lastEntry entries id).map RosterEntry.record) ∧
      ∀ e ∈ entries, ∃ a, e.admission = some a ∧ ThresholdSigned consortium a := by
  induction entries using List.reverseRecOn generalizing roster with
  | nil =>
    obtain rfl := Except.ok.inj h
    exact ⟨fun id => rfl, fun e he => absurd he List.not_mem_nil⟩
  | append_singleton entries e ih =>
    obtain ⟨before, hbefore, he⟩ := Run.foldlM_concat.mp h
    obtain ⟨hlookup, hsigned⟩ := ih hbefore
    obtain ⟨a, ha, hverify, rfl⟩ := of_loadEntry he
    refine ⟨fun id => ?_, fun e' he' => ?_⟩
    · rw [lastEntry_concat]
      split_ifs with hid
      · subst hid
        show ((before.relays.insert e.record.id (e.setAdmission a)).lookup e.record.id).map _ = _
        rw [AList.lookup_insert]
        rfl
      · rw [← hlookup id]
        show ((before.relays.insert e.record.id (e.setAdmission a)).lookup id).map _ = _
        rw [AList.lookup_insert_ne (Ne.symm hid)]
    · rcases List.mem_append.mp he' with he' | he'
      · exact hsigned e' he'
      · obtain rfl := List.mem_singleton.mp he'
        exact ⟨a, ha, ThresholdSignedRelayRecord.thresholdSigned_of_verifyThreshold hverify⟩

/-- A load that succeeds has read a file of entries and loaded them. -/
theorem of_loadFromFile {fromSlice : List UInt8 → Except String PersistedRoster}
    {file : Except IoError (List UInt8)} {roster : RelayRoster}
    (h : loadFromFileWithConsortium fromSlice file consortium = .ok roster) :
    ∃ bytes persisted, file = .ok bytes ∧ fromSlice bytes = .ok persisted ∧
      persisted.entries.foldlM (loadEntry (some consortium)) new = .ok roster := by
  unfold loadFromFileWithConsortium loadPersisted at h
  split at h
  · cases h
  · split at h
    · cases h
    · rename_i bytes _ persisted hparse
      exact ⟨bytes, persisted, rfl, hparse, h⟩

end Load

/-- The sorted records are those of the entries. -/
theorem mem_admittedSorted {roster : RelayRoster} {o : IterOrder RelayId RosterEntry}
    {record : RelayRecord} :
    record ∈ roster.admittedSorted o ↔ ∃ id, roster.get id = some record := by
  unfold admittedSorted IterOrder.values get
  rw [List.mem_insertionSort, List.map_map]
  constructor
  · intro h
    obtain ⟨⟨id, e⟩, hmem, rfl⟩ := List.mem_map.mp h
    exact ⟨id, by rw [IterOrder.mem_iter.mp hmem]; rfl⟩
  · rintro ⟨id, hid⟩
    obtain ⟨e, he, rfl⟩ := Option.map_eq_some_iff.mp hid
    exact List.mem_map.mpr ⟨⟨id, e⟩, IterOrder.mem_iter.mpr he, rfl⟩

/-! ## The theorem -/

section Theorem

variable {SK VK : Type}

/-- **What a verified load vouches for.**  When a file loads, every record handed out stands
under its own id; and they are all records of admissions that enough authorities have signed
if and only if the file's entries that stay on the roster have records of admissions. -/
theorem records_of_load_iff (E : Ed25519 SK VK) (consortium : ThresholdConsortium E)
    (fromSlice : List UInt8 → Except String PersistedRoster) (file : Except IoError (List UInt8))
    (roster : RelayRoster)
    (h : loadFromFileWithConsortium fromSlice file consortium = .ok roster) :
    ∃ bytes persisted, file = .ok bytes ∧ fromSlice bytes = .ok persisted ∧
      (∀ o record, record ∈ roster.admittedSorted o ↔ roster.get record.id = some record) ∧
      ((∀ id record, roster.get id = some record →
          record.id = id ∧ SignedRecord consortium persisted.entries record) ↔
        ∀ id e, lastEntry persisted.entries id = some e → Carried persisted.entries e.record) := by
  obtain ⟨bytes, persisted, hbytes, hparse, hload⟩ := of_loadFromFile h
  obtain ⟨hlookup, hsigned⟩ := lookup_of_load hload
  have hget : ∀ id, roster.get id = (lastEntry persisted.entries id).map RosterEntry.record :=
    hlookup
  have hid : ∀ id record, roster.get id = some record → record.id = id := by
    intro id record hrecord
    rw [hget, Option.map_eq_some_iff] at hrecord
    obtain ⟨e, he, rfl⟩ := hrecord
    exact (of_lastEntry he).2
  refine ⟨bytes, persisted, hbytes, hparse, fun o record => ?_, ?_, ?_⟩
  · rw [mem_admittedSorted]
    constructor
    · rintro ⟨id, hrecord⟩
      rw [hid id record hrecord]
      exact hrecord
    · exact fun hrecord => ⟨record.id, hrecord⟩
  · intro hall id e he
    have hrecord : roster.get id = some e.record := by
      rw [hget, he]
      rfl
    obtain ⟨-, e', he', a, ha, heq, -⟩ := hall id e.record hrecord
    exact ⟨e', he', a, ha, heq⟩
  · intro hall id record hrecord
    refine ⟨hid id record hrecord, ?_⟩
    rw [hget, Option.map_eq_some_iff] at hrecord
    obtain ⟨e, he, rfl⟩ := hrecord
    obtain ⟨e', he', a, ha, heq⟩ := hall id e he
    obtain ⟨a', ha', hthreshold⟩ := hsigned e' he'
    obtain rfl : a = a' := Option.some.inj (ha.symm.trans ha')
    exact ⟨e', he', a, ha, heq, hthreshold⟩

/-! ### An edited file -/

/-- A record of a relay. -/
def checksumRecord : RelayRecord := ⟨.replicate 32 7, "US", .replicate 32 5⟩

/-- An entry with the admission of `checksumRecord`, and with a jurisdiction. -/
def checksumEntry (jurisdiction : String) : RosterEntry where
  record := { checksumRecord with jurisdiction }
  signedAdmission := none
  thresholdAdmission :=
    some (signRecord HealthQuorumLog.checksumEd25519 1 checksumRecord).intoThreshold

/-- One authority, who signs alone. -/
def checksumConsortium : ThresholdConsortium HealthQuorumLog.checksumEd25519 :=
  ⟨1, [1], ThresholdConsortium.index _ [1], ThresholdConsortium.index_spec [1]⟩

/-- The file, as it is saved. -/
def checksumFile (jurisdiction : String) : String :=
  let bytes (b : List UInt8) := "[" ++ ",".intercalate (b.map fun x => toString x.toNat) ++ "]"
  let record (j : String) := "\x7b\"id\":" ++ bytes checksumRecord.id.toList ++
    ",\"jurisdiction\":\"" ++ j ++ "\",\"kem_public_commitment\":" ++
      bytes checksumRecord.kemPublicCommitment.toList ++ "\x7d"
  let signature := signAuthority HealthQuorumLog.checksumEd25519 1 checksumRecord
  "\x7b\"version\":2,\"entries\":[\x7b\"record\":" ++ record jurisdiction ++
    ",\"signed_admission\":null,\"threshold_admission\":\x7b\"record\":" ++
      record checksumRecord.jurisdiction ++ ",\"signatures\":[\x7b\"authority_pubkey\":" ++
        bytes signature.authorityPubkey.toList ++ ",\"signature\":" ++ bytes signature.signature ++
          "\x7d]\x7d\x7d]\x7d"

/-- A reader of that file only. -/
def checksumFromSlice (jurisdiction : String) (bytes : List UInt8) :
    Except String PersistedRoster :=
  if bytes = ascii (checksumFile jurisdiction) then .ok ⟨2, [checksumEntry jurisdiction]⟩
  else .error "expected value"

theorem load_checksum (jurisdiction : String) :
    loadFromFileWithConsortium (checksumFromSlice jurisdiction)
        (.ok (ascii (checksumFile jurisdiction))) checksumConsortium =
      .ok (new.insertEntry (checksumEntry jurisdiction)) := by
  have hread : checksumFromSlice jurisdiction (ascii (checksumFile jurisdiction)) =
      .ok ⟨2, [checksumEntry jurisdiction]⟩ := if_pos rfl
  have hverify : (signRecord HealthQuorumLog.checksumEd25519 1
      checksumRecord).intoThreshold.verifyThreshold checksumConsortium = .ok () := by
    decide +kernel
  unfold loadFromFileWithConsortium loadPersisted
  simp only [hread, List.foldlM_cons, List.foldlM_nil, loadEntry, checksumEntry,
    RosterEntry.admission, hverify]
  rfl

theorem records_of_load_iff_checksum :
    SignedRecord checksumConsortium [checksumEntry "US"] checksumRecord := by
  obtain ⟨bytes, persisted, hbytes, hparse, -, hiff⟩ := records_of_load_iff
    HealthQuorumLog.checksumEd25519 checksumConsortium (checksumFromSlice "US") _ _
    (load_checksum "US")
  obtain rfl := Except.ok.inj hbytes
  obtain rfl := Except.ok.inj ((if_pos rfl).symm.trans hparse)
  have hcarried : ∀ id e, lastEntry [checksumEntry "US"] id = some e →
      Carried [checksumEntry "US"] e.record := by
    intro id e he
    obtain rfl := List.mem_singleton.mp (of_lastEntry he).1
    exact ⟨_, List.mem_singleton_self _, _, rfl, rfl⟩
  exact (hiff.mpr hcarried checksumRecord.id checksumRecord (by decide +kernel)).2

/-- **A record that nobody signed**: the jurisdiction of an entry's record is edited, and the
file loads as before. -/
theorem unsigned_record_checksum :
    loadFromFileWithConsortium (checksumFromSlice "DE") (.ok (ascii (checksumFile "DE")))
        checksumConsortium = .ok (new.insertEntry (checksumEntry "DE")) ∧
      (new.insertEntry (checksumEntry "DE")).get checksumRecord.id =
        some { checksumRecord with jurisdiction := "DE" } ∧
      ¬SignedRecord checksumConsortium [checksumEntry "DE"]
        { checksumRecord with jurisdiction := "DE" } := by
  refine ⟨load_checksum "DE", by decide +kernel, ?_⟩
  rintro ⟨e, he, a, ha, hrecord, -⟩
  obtain rfl := List.mem_singleton.mp he
  obtain rfl := Option.some.inj ha
  have hjurisdiction : "US" = "DE" := congrArg RelayRecord.jurisdiction hrecord
  exact absurd hjurisdiction (by decide)

end Theorem

end RelayRoster

end Aegis
