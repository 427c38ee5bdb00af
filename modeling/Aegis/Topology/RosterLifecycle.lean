import Aegis.Lib.HashSet
import Aegis.Topology.AdmissionRate
import Aegis.Topology.Consortium
import Aegis.Topology.RosterLoad
import Aegis.Trust.LedgerFile

/-!
# From admission to load (`roster.rs`, `roster_load.rs`, `config.rs`)

A roster is built by admissions and removals, saved, and loaded by clients and nodes whose
configuration lists the authorities' keys in hexadecimal.

* `consortium_of_config` — the configuration stands for the consortium.
* `Signed.origin`, `Signed.run` — what is on the roster, however it came about and after any run,
  has an admission that was checked.
* `roster_loads_of_run` — **the load gives back the roster that was saved, exactly when all its
  admissions are the consortium's**.
-/

namespace Aegis

open Buffer

/-! ## Configuration -/

/-- The `[roster]` section. -/
structure RosterFileConfig where
  path : String
  authorityPubkeys : List (List Char)
  threshold : ℕ
  allowUnverifiedRoster : Bool
  deriving DecidableEq

/-- What a load by configuration fails with. -/
inductive RosterLoadError where
  | hex (message : String)
  | roster (e : RosterError)
  deriving DecidableEq

/-- `parse_hex32`. -/
def parseRosterKey (s : List Char) : Except RosterLoadError (Bytes 32) :=
  let s := StoredLedger.trimStart0x (trimLabel s)
  if (utf8 s).length ≠ 64 then .error (.hex "expected 64 hex chars for 32 bytes")
  else
    match hexPairs (utf8 s) with
    | none => .error (.hex "invalid hex digit")
    | some out => if h : out.length = 32 then .ok ⟨out, h⟩ else .error (.hex "odd hex length")

namespace RelayRoster

section Config

variable {SK VK : Type} (E : Ed25519 SK VK) (fromBytes : Bytes 32 → Option VK)

/-- The consortium of a configuration, if it lists keys. -/
def consortiumOfConfig (cfg : RosterFileConfig) :
    Except RosterLoadError (Option (ThresholdConsortium E)) :=
  if cfg.authorityPubkeys.isEmpty then .ok none
  else
    match cfg.authorityPubkeys.mapM parseRosterKey with
    | .error e => .error e
    | .ok keys =>
      match ThresholdConsortium.fromRawPubkeys E fromBytes cfg.threshold keys with
      | .error e => .error (.roster e)
      | .ok consortium => .ok (some consortium)

/-- `load_roster_from_config`; `read` is `fs::read`. -/
def loadRosterFromConfig (fromSlice : List UInt8 → Except String PersistedRoster)
    (read : String → Except IoError (List UInt8)) (cfg : RosterFileConfig) :
    Except RosterLoadError RelayRoster :=
  match consortiumOfConfig E fromBytes cfg with
  | .error e => .error e
  | .ok consortium =>
    (loadFromFileWithPolicy fromSlice (read cfg.path) consortium cfg.allowUnverifiedRoster).mapError
      .roster

end Config

/-- What `save_to_file` writes, by id. -/
def toPersisted (roster : RelayRoster) (o : IterOrder RelayId RosterEntry) : PersistedRoster :=
  ⟨2, (o.values roster.relays).insertionSort fun a b => idKey a.record.id ≤ idKey b.record.id⟩

/-- `save_to_file`: the bytes of the file. -/
def saveToFile (roster : RelayRoster) (o : IterOrder RelayId RosterEntry)
    (toJson : PersistedRoster → Except String (List UInt8)) : Except IoError (List UInt8) :=
  (toJson (roster.toPersisted o)).mapError fun message => ⟨true, message⟩

/-! ## The configuration stands for the consortium -/

section ConsortiumOfConfig

variable {SK VK : Type} {E : Ed25519 SK VK} {fromBytes : Bytes 32 → Option VK}

theorem parseRosterKey_hexEncodeBytes (b : Bytes 32) :
    parseRosterKey (StoredLedger.hexEncodeBytes b.toList) = .ok b := by
  have hparse := StoredLedger.parseHexBytes_hexEncodeBytes "" b
  unfold StoredLedger.parseHexBytes at hparse
  unfold parseRosterKey
  dsimp only at hparse ⊢
  generalize utf8 (StoredLedger.trimStart0x (trimLabel (StoredLedger.hexEncodeBytes b.toList))) =
    text at hparse ⊢
  by_cases hlen : text.length ≠ 2 * 32
  · rw [if_pos hlen] at hparse
    cases hparse
  · rw [if_neg hlen] at hparse ⊢
    cases hpairs : hexPairs text with
    | none =>
      rw [hpairs] at hparse
      cases hparse
    | some out =>
      rw [hpairs] at hparse
      dsimp only at hparse ⊢
      by_cases hlength : out.length = 32
      · rw [dif_pos hlength] at hparse ⊢
        exact congrArg Except.ok (Except.ok.inj hparse)
      · rw [dif_neg hlength] at hparse
        cases hparse

/-- **The configuration stands for the consortium**, if it lists the keys of its authorities. -/
theorem consortium_of_config {threshold : ℕ} {authorities : List VK} {c : ThresholdConsortium E}
    (hc : ThresholdConsortium.new E threshold authorities = .ok c)
    (hbytes : ∀ vk ∈ authorities, fromBytes (E.toBytes vk) = some vk) {cfg : RosterFileConfig}
    (hkeys : cfg.authorityPubkeys =
      authorities.map fun vk => StoredLedger.hexEncodeBytes (E.toBytes vk).toList)
    (hthreshold : cfg.threshold = threshold) :
    consortiumOfConfig E fromBytes cfg = .ok (some c) := by
  have hne : authorities ≠ [] := by
    rintro rfl
    cases hc
  have hparse : cfg.authorityPubkeys.mapM parseRosterKey = .ok (authorities.map E.toBytes) := by
    rw [hkeys]
    clear hkeys hc hbytes hne
    induction authorities with
    | nil => rfl
    | cons vk authorities ih =>
      rw [List.map_cons, List.mapM_cons, ih, parseRosterKey_hexEncodeBytes]
      rfl
  have hraw : (authorities.map E.toBytes).mapM fromBytes = some authorities := by
    clear hkeys hc hne hparse
    induction authorities with
    | nil => rfl
    | cons vk authorities ih =>
      rw [List.map_cons, List.mapM_cons, hbytes vk List.mem_cons_self,
        ih fun vk' h => hbytes vk' (List.mem_cons_of_mem vk h)]
      rfl
  unfold consortiumOfConfig
  rw [if_neg (by simpa [hkeys] using hne), hparse]
  simp only [ThresholdConsortium.fromRawPubkeys, hraw, hthreshold, hc]

end ConsortiumOfConfig

/-! ## Runs -/

section Runs

variable {SK VK D : Type} {E : Ed25519 SK VK} (sha3 : List UInt8 → Bytes 32)

/-- The admission that an entry point is called with. -/
def Admission.admitted : Admission E → ThresholdSignedRelayRecord
  | .thresholdSigned a _ => a
  | .thresholdSignedPruned a _ _ => a
  | .signed a _ => a.intoThreshold
  | .signedPruned a _ _ => a.intoThreshold

/-- The consortium that an entry point checks it against. -/
def Admission.consortium : Admission E → ThresholdConsortium E
  | .thresholdSigned _ c => c
  | .thresholdSignedPruned _ c _ => c
  | .signed _ vk => .single E vk
  | .signedPruned _ vk _ => .single E vk

theorem lookup_insertEntry (roster : RelayRoster) (entry : RosterEntry) (id : RelayId) :
    (roster.insertEntry entry).relays.lookup id =
      if id = entry.record.id then some entry else roster.relays.lookup id := by
  unfold insertEntry
  split
  · rename_i hid
    rw [hid, AList.lookup_insert]
  · rename_i hid
    exact AList.lookup_insert_ne hid

/-- An entry behind an admission is an old one, or the one of a call that was checked. -/
def Adds (roster roster' : RelayRoster) (a : ThresholdSignedRelayRecord)
    (c : ThresholdConsortium E) : Prop :=
  ∀ id e, roster'.relays.lookup id = some e → roster.relays.lookup id = some e ∨
    (e = admittedEntry a ∧ a.record.id = id ∧ a.verifyThreshold c = .ok ())

theorem Adds.refl (roster : RelayRoster) (a : ThresholdSignedRelayRecord)
    (c : ThresholdConsortium E) : Adds roster roster a c := fun _ _ h => Or.inl h

theorem adds_insertEntry {roster roster' : RelayRoster} {a : ThresholdSignedRelayRecord}
    {c : ThresholdConsortium E} (hsame : roster'.relays = roster.relays)
    (hverify : a.verifyThreshold c = .ok ()) :
    Adds roster (roster'.insertEntry (admittedEntry a)) a c := by
  intro id e he
  rw [lookup_insertEntry] at he
  split at he
  · rename_i hid
    exact Or.inr ⟨(Option.some.inj he).symm, hid.symm, hverify⟩
  · exact Or.inl (hsame ▸ he)

section Calls

variable (roster : RelayRoster) {signed : ThresholdSignedRelayRecord} {c : ThresholdConsortium E}
  (now : UInt64)

theorem adds_admitVerifiedInner (ledger : ReputationLedger)
    (hverify : signed.verifyThreshold c = .ok ()) :
    Adds roster (roster.admitVerifiedInner sha3 signed ledger now).2.1 signed c := by
  unfold admitVerifiedInner
  dsimp only
  split_ifs with hmismatch hin
  · exact .refl roster signed c
  · exact adds_insertEntry rfl hverify
  · split
    · exact .refl roster signed c
    · exact adds_insertEntry rfl hverify

theorem adds_admitThresholdSigned (ledger : ReputationLedger) :
    Adds roster (roster.admitThresholdSigned sha3 signed c ledger now).2.1 signed c := by
  unfold admitThresholdSigned
  split
  · exact .refl roster signed c
  · rename_i hverify
    exact adds_admitVerifiedInner sha3 roster now ledger hverify

theorem adds_admitThresholdSignedPruned (policy : RelayPruningPolicy D) (minReputation : ℚ) :
    Adds roster
      (roster.admitThresholdSignedPruned sha3 signed c policy minReputation now).2.1 signed c := by
  unfold admitThresholdSignedPruned
  split
  · exact .refl roster signed c
  · rename_i hverify
    unfold admitVerifiedPruned
    dsimp only
    split
    · exact .refl roster signed c
    · exact adds_admitVerifiedInner sha3 roster now policy.ledger hverify

end Calls

/-- **What a call can put on the roster**: the admission it is called with, if that verifies. -/
theorem adds_admission (roster : RelayRoster) (policy : RelayPruningPolicy D) (now : UInt64)
    (call : Admission E) :
    Adds roster (roster.admission sha3 policy now call).2.1 call.admitted call.consortium := by
  cases call with
  | thresholdSigned signed c => exact adds_admitThresholdSigned sha3 roster now policy.ledger
  | thresholdSignedPruned signed c minReputation =>
    exact adds_admitThresholdSignedPruned sha3 roster now policy minReputation
  | signed signed vk =>
    show Adds roster (roster.admitSigned sha3 E signed vk policy.ledger now).2.1 _ _
    unfold admitSigned
    split
    · exact .refl roster _ _
    · exact adds_admitThresholdSigned sha3 roster now policy.ledger
  | signedPruned signed vk minReputation =>
    show Adds roster (roster.admitSignedPruned sha3 E signed vk policy minReputation now).2.1 _ _
    unfold admitSignedPruned
    split
    · exact .refl roster _ _
    · exact adds_admitThresholdSignedPruned sha3 roster now policy minReputation

/-- Where a roster comes from, and the consortiums its entries were checked against before. -/
inductive Origin (E : Ed25519 SK VK) : RelayRoster → List (ThresholdConsortium E) → Prop
  /-- `new` and `with_admission_policy`. -/
  | withAdmissionPolicy (policy : RosterAdmissionPolicy) : Origin E (withAdmissionPolicy policy) []
  /-- A verified load of any file. -/
  | loaded {fromSlice : List UInt8 → Except String PersistedRoster}
      {file : Except IoError (List UInt8)} {c : ThresholdConsortium E} {roster : RelayRoster}
      (h : loadFromFileWithConsortium fromSlice file c = .ok roster) : Origin E roster [c]

/-- What is done to a roster while it is in use. -/
inductive LifeStep (E : Ed25519 SK VK) (D : Type) where
  /-- An admission or a removal. -/
  | timed (s : TimedOp E D)
  | setAdmissionPolicy (policy : RosterAdmissionPolicy)
  | resetAdmissionRateLimit

/-- What each step does to the roster. -/
def lifeStep (roster : RelayRoster) : LifeStep E D → RelayRoster
  | .timed s => step sha3 roster s
  | .setAdmissionPolicy policy => roster.setAdmissionPolicy policy
  | .resetAdmissionRateLimit => roster.resetAdmissionRateLimit

/-- The calls of a run. -/
def calls (steps : List (LifeStep E D)) : List (Admission E) :=
  steps.filterMap fun s =>
    match s with
    | .timed ⟨_, .admission call _⟩ => some call
    | _ => none

/-- Every entry stands under its id, and all it has beside its record is an admission that one of
the consortiums has accepted. -/
def Signed (consortiums : List (ThresholdConsortium E)) (roster : RelayRoster) : Prop :=
  ∀ id e, roster.relays.lookup id = some e → e.record.id = id ∧
    ∃ a, e = ⟨e.record, none, some a⟩ ∧ ∃ c ∈ consortiums, a.verifyThreshold c = .ok ()

theorem Signed.mono {l l' : List (ThresholdConsortium E)} {roster : RelayRoster}
    (h : Signed l roster) (hsub : l ⊆ l') : Signed l' roster := by
  intro id e he
  obtain ⟨hid, a, ha, c, hc, hverify⟩ := h id e he
  exact ⟨hid, a, ha, c, hsub hc, hverify⟩

/-- A roster whose entries are old ones. -/
theorem Signed.of_lookup {l : List (ThresholdConsortium E)} {roster roster' : RelayRoster}
    (h : Signed l roster) (hold : ∀ id e, roster'.relays.lookup id = some e →
      roster.relays.lookup id = some e) : Signed l roster' :=
  fun id e he => h id e (hold id e he)

theorem Signed.of_empty (l : List (ThresholdConsortium E)) {roster : RelayRoster}
    (h : roster.relays = ∅) : Signed l roster := by
  intro id e he
  rw [h, AList.lookup_empty] at he
  cases he

/-- An entry that loads has an admission of the consortium. -/
theorem signed_of_loadEntry {c : ThresholdConsortium E} {roster roster' : RelayRoster}
    {e : RosterEntry} (h : Signed [c] roster) (hload : loadEntry (some c) roster e = .ok roster') :
    Signed [c] roster' := by
  obtain ⟨a, -, hverify, rfl⟩ := of_loadEntry hload
  intro id e' he'
  rw [lookup_insertEntry] at he'
  split at he'
  · rename_i hid
    obtain rfl := Option.some.inj he'
    exact ⟨hid.symm, a, rfl, c, List.mem_singleton_self c, hverify⟩
  · exact h id e' he'

/-- **A roster begins with entries that were checked**, if it begins with any. -/
theorem Signed.origin {roster : RelayRoster} {l : List (ThresholdConsortium E)}
    (h : Origin E roster l) : Signed l roster := by
  cases h with
  | withAdmissionPolicy policy => exact .of_empty _ rfl
  | loaded h =>
    obtain ⟨bytes, persisted, -, -, hload⟩ := of_loadFromFile h
    exact Run.foldlM_preserves (Signed _) (fun _ _ _ _ hr hstep => signed_of_loadEntry hr hstep)
      (.of_empty _ rfl) hload

/-- **One step keeps the entries checked**: an admission by its own consortium. -/
theorem Signed.lifeStep {l : List (ThresholdConsortium E)} {roster : RelayRoster}
    (h : Signed l roster) (s : LifeStep E D) :
    Signed (l ++ (calls [s]).map Admission.consortium) (lifeStep sha3 roster s) := by
  cases s with
  | setAdmissionPolicy policy => exact h.mono (List.subset_append_left _ _)
  | resetAdmissionRateLimit => exact h.mono (List.subset_append_left _ _)
  | timed s =>
    obtain ⟨now, op⟩ := s
    cases op with
    | admission call policy =>
      intro id e he
      rcases adds_admission sha3 roster policy now call id e he with hkept | ⟨rfl, hid, hverify⟩
      · exact h.mono (List.subset_append_left _ _) id e hkept
      · exact ⟨hid, _, rfl, call.consortium,
          List.mem_append_right _ (List.mem_singleton_self _), hverify⟩
    | remove removed =>
      refine (h.of_lookup fun id e he => ?_).mono (List.subset_append_left _ _)
      change (roster.relays.erase removed).lookup id = some e at he
      by_cases hid : id = removed
      · subst hid
        rw [AList.lookup_erase] at he
        cases he
      · rwa [AList.lookup_erase_ne hid] at he

/-- **After any run every entry has an admission that was checked.** -/
theorem Signed.run {roster : RelayRoster} {l : List (ThresholdConsortium E)}
    (h : Signed l roster) (steps : List (LifeStep E D)) :
    Signed (l ++ (calls steps).map Admission.consortium)
      (steps.foldl (RelayRoster.lifeStep sha3) roster) := by
  induction steps using List.reverseRecOn with
  | nil => exact h.mono (List.subset_append_left _ _)
  | append_singleton steps s ih =>
    rw [List.foldl_append, List.foldl_cons, List.foldl_nil, calls, List.filterMap_append,
      List.map_append, ← List.append_assoc]
    exact ih.lifeStep sha3 s

end Runs

/-! ## Saving and loading -/

section Load

variable {SK VK D : Type} {E : Ed25519 SK VK} {c : ThresholdConsortium E}

/-- An entry is loaded as it is if its admission verifies, and otherwise not at all. -/
theorem loadEntry_admission (roster : RelayRoster) (record : RelayRecord)
    (a : ThresholdSignedRelayRecord) :
    (a.verifyThreshold c = .ok () ∧ loadEntry (some c) roster ⟨record, none, some a⟩ =
      .ok (roster.insertEntry ⟨record, none, some a⟩)) ∨
    (a.verifyThreshold c ≠ .ok () ∧
      ∃ e, loadEntry (some c) roster ⟨record, none, some a⟩ = .error e) := by
  have hadmission : (⟨record, none, some a⟩ : RosterEntry).admission = some a := rfl
  unfold loadEntry
  simp only [hadmission]
  cases hverify : a.verifyThreshold c with
  | error e => exact Or.inr ⟨nofun, _, rfl⟩
  | ok _ => exact Or.inl ⟨rfl, rfl⟩

/-- **A load goes through exactly if every admission verifies**, and then inserts the entries. -/
theorem load_admitted {entries : List RosterEntry}
    (h : ∀ e ∈ entries, ∃ a, e = ⟨e.record, none, some a⟩) (roster : RelayRoster) :
    ((∀ e ∈ entries, ∀ a, e.admission = some a → a.verifyThreshold c = .ok ()) ∧
      entries.foldlM (loadEntry (some c)) roster = .ok (entries.foldl insertEntry roster)) ∨
    ((∃ e ∈ entries, ∃ a, e.admission = some a ∧ a.verifyThreshold c ≠ .ok ()) ∧
      ∃ e, entries.foldlM (loadEntry (some c)) roster = .error e) := by
  induction entries generalizing roster with
  | nil => exact Or.inl ⟨nofun, rfl⟩
  | cons e entries ih =>
    obtain ⟨a, ha⟩ := h e List.mem_cons_self
    have hadmission : e.admission = some a := by
      rw [ha]
      rfl
    have hrest := fun e' he' => h e' (List.mem_cons_of_mem _ he')
    rw [List.foldlM_cons, List.foldl_cons]
    have hfirst := loadEntry_admission (c := c) roster e.record a
    rw [← ha] at hfirst
    rcases hfirst with ⟨hverify, hload⟩ | ⟨hverify, error, hload⟩
    · rw [hload]
      rcases ih hrest (roster.insertEntry e) with ⟨hall, hok⟩ | ⟨⟨e', he', hbad⟩, herror⟩
      · refine Or.inl ⟨fun e' he' b hb => ?_, hok⟩
        rcases List.mem_cons.mp he' with rfl | he'
        · obtain rfl : a = b := Option.some.inj (hadmission.symm.trans hb)
          exact hverify
        · exact hall e' he' b hb
      · exact Or.inr ⟨⟨e', List.mem_cons_of_mem _ he', hbad⟩, herror⟩
    · rw [hload]
      exact Or.inr ⟨⟨e, List.mem_cons_self, a, hadmission, hverify⟩, error, rfl⟩

theorem foldl_insertEntry (entries : List RosterEntry) :
    entries.foldl insertEntry new =
      { new with relays := HashMap.insertAll (entries.map fun e => (e.record.id, e)) } := by
  induction entries using List.reverseRecOn with
  | nil => rfl
  | append_singleton entries e ih =>
    rw [List.foldl_append, List.foldl_cons, List.foldl_nil, ih, List.map_append, List.map_cons,
      List.map_nil, HashMap.insertAll_concat]
    rfl

variable {l : List (ThresholdConsortium E)} {roster : RelayRoster} (h : Signed l roster)
  (o : IterOrder RelayId RosterEntry)

include h

theorem Signed.mem_toPersisted {e : RosterEntry} :
    e ∈ (roster.toPersisted o).entries ↔ roster.relays.lookup e.record.id = some e := by
  unfold toPersisted IterOrder.values
  rw [List.mem_insertionSort]
  constructor
  · intro he
    obtain ⟨⟨id, e⟩, hmem, rfl⟩ := List.mem_map.mp he
    have hlookup := IterOrder.mem_iter.mp hmem
    rw [(h id e hlookup).1]
    exact hlookup
  · intro hlookup
    exact List.mem_map.mpr ⟨⟨e.record.id, e⟩, IterOrder.mem_iter.mpr hlookup, rfl⟩

/-- The file has one entry for each id. -/
theorem Signed.nodup_toPersisted :
    ((roster.toPersisted o).entries.map fun e => e.record.id).Nodup := by
  have hids : (o.values roster.relays).map (fun e => e.record.id) =
      (o.iter roster.relays).map Sigma.fst := by
    unfold IterOrder.values
    rw [List.map_map]
    exact List.map_congr_left fun p hp => (h p.1 p.2 (IterOrder.mem_iter.mp hp)).1
  have hperm := (List.perm_insertionSort (fun a b : RosterEntry => idKey a.record.id ≤
    idKey b.record.id) (o.values roster.relays)).map fun e => e.record.id
  refine hperm.nodup_iff.mpr ?_
  rw [hids]
  exact o.nodup_keys_iter roster.relays

/-- **What was saved is what is loaded.** -/
theorem Signed.load_toPersisted :
    ((∀ id a, roster.getThresholdSigned id = some a → a.verifyThreshold c = .ok ()) ∧
      ∃ loaded, (roster.toPersisted o).entries.foldlM (loadEntry (some c)) new = .ok loaded ∧
        loaded.admissionTimestamps = [] ∧
        ∀ id, loaded.relays.lookup id = roster.relays.lookup id) ∨
    (¬(∀ id a, roster.getThresholdSigned id = some a → a.verifyThreshold c = .ok ()) ∧
      ∃ e, (roster.toPersisted o).entries.foldlM (loadEntry (some c)) new = .error e) := by
  have hentries : ∀ e ∈ (roster.toPersisted o).entries, ∃ a, e = ⟨e.record, none, some a⟩ := by
    intro e he
    obtain ⟨-, a, ha, -⟩ := h _ e ((h.mem_toPersisted o).mp he)
    exact ⟨a, ha⟩
  rcases load_admitted hentries new with ⟨hall, hload⟩ | ⟨⟨e, he, a, ha, hbad⟩, herror⟩
  · refine Or.inl ⟨fun id a ha => ?_, _, hload, ?_, fun id => ?_⟩
    · obtain ⟨e, he, hea⟩ := Option.bind_eq_some_iff.mp ha
      obtain ⟨rfl, -⟩ := h id e he
      exact hall e ((h.mem_toPersisted o).mpr he) a hea
    · rw [foldl_insertEntry]
      rfl
    · have hkeys : (((roster.toPersisted o).entries.map fun e => (e.record.id, e)).map
          Prod.fst).Nodup := by
        rw [List.map_map]
        exact h.nodup_toPersisted o
      refine Option.ext fun e => ?_
      rw [foldl_insertEntry, HashMap.lookup_insertAll hkeys, List.mem_map]
      constructor
      · rintro ⟨e', he', heq⟩
        obtain ⟨rfl, rfl⟩ := Prod.mk.inj heq
        exact (h.mem_toPersisted o).mp he'
      · intro he
        obtain ⟨rfl, -⟩ := h id e he
        exact ⟨e, (h.mem_toPersisted o).mpr he, rfl⟩
  · refine Or.inr ⟨fun hall => hbad (hall e.record.id a ?_), herror⟩
    exact Option.bind_eq_some_iff.mpr ⟨e, (h.mem_toPersisted o).mp he, ha⟩

end Load

/-- **The way of a roster.**  Made with any admission policy, or loaded from a file with some
consortium; then admissions and removals in any order, against any consortiums, with changes of
the policy and resets of the rate limit in between; then `save_to_file`; and clients or nodes
that list the keys of one consortium in their configuration.  They load the file exactly if
every admission that is on the roster verifies against theirs, and then have the entries that
were saved, all of them and no others, and no admission times; and if every consortium of the
run was this one, they do. -/
theorem roster_loads_of_run {SK VK D : Type} {E : Ed25519 SK VK} (sha3 : List UInt8 → Bytes 32)
    (fromBytes : Bytes 32 → Option VK) (fromSlice : List UInt8 → Except String PersistedRoster)
    (toJson : PersistedRoster → Except String (List UInt8))
    (hjson : ∀ p bytes, toJson p = .ok bytes → fromSlice bytes = .ok p) {start : RelayRoster}
    {before : List (ThresholdConsortium E)} (hstart : Origin E start before)
    (steps : List (LifeStep E D)) (o : IterOrder RelayId RosterEntry) (bytes : List UInt8)
    (hsave : (steps.foldl (lifeStep sha3) start).saveToFile o toJson = .ok bytes) {threshold : ℕ}
    {authorities : List VK} {c : ThresholdConsortium E}
    (hc : ThresholdConsortium.new E threshold authorities = .ok c)
    (hbytes : ∀ vk ∈ authorities, fromBytes (E.toBytes vk) = some vk) (cfg : RosterFileConfig)
    (hkeys : cfg.authorityPubkeys =
      authorities.map fun vk => StoredLedger.hexEncodeBytes (E.toBytes vk).toList)
    (hthreshold : cfg.threshold = threshold) (read : String → Except IoError (List UInt8))
    (hread : read cfg.path = .ok bytes) :
    let roster := steps.foldl (lifeStep sha3) start
    let loads := loadRosterFromConfig E fromBytes fromSlice read cfg
    ((∃ loaded, loads = .ok loaded) ↔
      ∀ id a, roster.getThresholdSigned id = some a → a.verifyThreshold c = .ok ()) ∧
    (∀ loaded, loads = .ok loaded → loaded.admissionTimestamps = [] ∧
      ∀ id, loaded.relays.lookup id = roster.relays.lookup id) ∧
    ((∀ c' ∈ before, c' = c) → (∀ call ∈ calls steps, call.consortium = c) →
      ∃ loaded, loads = .ok loaded) := by
  dsimp only
  have hsigned := (Signed.origin hstart).run sha3 steps
  have hslice : fromSlice bytes = .ok ((steps.foldl (lifeStep sha3) start).toPersisted o) := by
    refine hjson _ bytes ?_
    unfold saveToFile at hsave
    cases htext : toJson ((steps.foldl (lifeStep sha3) start).toPersisted o) with
    | error message =>
      rw [htext] at hsave
      cases hsave
    | ok text =>
      rw [htext] at hsave
      exact congrArg Except.ok (Except.ok.inj hsave)
  have hloads : loadRosterFromConfig E fromBytes fromSlice read cfg =
      ((((steps.foldl (lifeStep sha3) start).toPersisted o).entries.foldlM (loadEntry (some c))
        new).mapError RosterError.io).mapError RosterLoadError.roster := by
    unfold loadRosterFromConfig
    rw [consortium_of_config hc hbytes hkeys hthreshold]
    simp only [loadFromFileWithPolicy, loadFromFileWithConsortium, loadPersisted, hread, hslice]
  have hunder : (∀ c' ∈ before, c' = c) → (∀ call ∈ calls steps, call.consortium = c) →
      ∀ id a, (steps.foldl (lifeStep sha3) start).getThresholdSigned id = some a →
        a.verifyThreshold c = .ok () := by
    intro hbefore hcalls id a ha
    obtain ⟨e, he, hea⟩ := Option.bind_eq_some_iff.mp ha
    obtain ⟨-, b, hb, c', hc', hverify⟩ := hsigned id e he
    obtain rfl : b = a := by
      rw [hb] at hea
      exact Option.some.inj hea
    rcases List.mem_append.mp hc' with hc' | hc'
    · rwa [hbefore c' hc'] at hverify
    · obtain ⟨call, hcall, rfl⟩ := List.mem_map.mp hc'
      rwa [hcalls call hcall] at hverify
  rw [hloads]
  rcases hsigned.load_toPersisted (c := c) o with ⟨hall, loaded, hload, hspec⟩ | ⟨hbad, e, herror⟩
  · rw [hload]
    refine ⟨iff_of_true ⟨loaded, rfl⟩ hall, fun loaded' h => ?_, fun _ _ => ⟨loaded, rfl⟩⟩
    obtain rfl : loaded = loaded' := Except.ok.inj h
    exact hspec
  · rw [herror]
    have hno : ∀ loaded : RelayRoster, ((.error e : Except IoError RelayRoster).mapError
        RosterError.io).mapError RosterLoadError.roster ≠ .ok loaded := fun _ h => by cases h
    exact ⟨iff_of_false (fun ⟨loaded, h⟩ => hno loaded h) hbad,
      fun loaded h => absurd h (hno loaded),
      fun hbefore hcalls => absurd (hunder hbefore hcalls) hbad⟩

/-! ### One relay and two authorities -/

open HealthQuorumLog ThresholdConsortium

/-- `checksumRecord`, signed by the authorities 1 and 2. -/
def pairAdmission : ThresholdSignedRelayRecord :=
  ⟨checksumRecord, [1, 2].map fun key => signAuthority checksumEd25519 key checksumRecord⟩

/-- Two authorities, who must both sign. -/
def pairConsortium : ThresholdConsortium checksumEd25519 :=
  ⟨2, [1, 2], index _ [1, 2], index_spec [1, 2]⟩

/-- Adds the relay. -/
def pairStep : TimedOp checksumEd25519 Unit :=
  ⟨100, .admission (.thresholdSigned pairAdmission pairConsortium) checksumPolicy⟩

/-- A roster that admits nobody, until its policy is changed. -/
def closedRoster : RelayRoster := withAdmissionPolicy ⟨0, 60, true⟩

/-- The same admission twice, with another policy in between. -/
def pairSteps : List (LifeStep checksumEd25519 Unit) :=
  [.timed pairStep, .setAdmissionPolicy .default, .timed pairStep]

/-- A configuration that lists both. -/
def pairConfig : RosterFileConfig :=
  ⟨"roster.json",
    [1, 2].map fun vk => StoredLedger.hexEncodeBytes (checksumEd25519.toBytes vk).toList, 2, false⟩

theorem roster_loads_of_run_pair :
    let sha3 : List UInt8 → Bytes 32 := fun _ => .replicate 32 7
    (lifeStep sha3 closedRoster (.timed pairStep)).relays.lookup checksumRecord.id = none ∧
    ∃ (fromSlice : List UInt8 → Except String PersistedRoster) (loaded : RelayRoster),
      fromSlice [] = .ok ((pairSteps.foldl (lifeStep sha3) closedRoster).toPersisted
        .latestFirst) ∧
      loadRosterFromConfig checksumEd25519 (fun b => some b.head) fromSlice (fun _ => .ok [])
        pairConfig = .ok loaded ∧
      loaded.relays.lookup checksumRecord.id = some (admittedEntry pairAdmission) := by
  intro sha3
  have hnew : ThresholdConsortium.new checksumEd25519 2 [1, 2] = .ok pairConsortium := by
    have hlength : (index checksumEd25519 [1, 2]).entries.length = 2 := by decide +kernel
    simp [ThresholdConsortium.new, hlength, pairConsortium]
  let saved := (pairSteps.foldl (lifeStep sha3) closedRoster).toPersisted .latestFirst
  -- the writer takes this roster only
  let toJson : PersistedRoster → Except String (List UInt8) := fun p =>
    if p.version = saved.version ∧ p.entries = saved.entries then .ok [] else .error "other"
  have hjson : ∀ p bytes, toJson p = .ok bytes →
      (.ok saved : Except String PersistedRoster) = .ok p := by
    intro p bytes h
    by_cases hp : p.version = saved.version ∧ p.entries = saved.entries
    · cases p
      obtain ⟨rfl, rfl⟩ := hp
      rfl
    · rw [show toJson p = .error "other" from if_neg hp] at h
      cases h
  have hsave : (pairSteps.foldl (lifeStep sha3) closedRoster).saveToFile .latestFirst toJson =
      .ok [] := by
    have htext : toJson saved = .ok [] := if_pos ⟨rfl, rfl⟩
    unfold saveToFile
    rw [htext]
    rfl
  have horigin : Origin checksumEd25519 closedRoster [] := .withAdmissionPolicy _
  obtain ⟨-, hsame, hok⟩ := roster_loads_of_run sha3 (fun b => some b.head)
    (fun _ => .ok saved) toJson hjson horigin pairSteps .latestFirst [] hsave hnew
    (fun _ _ => rfl) pairConfig rfl rfl (fun _ => .ok []) rfl
  obtain ⟨loaded, hload⟩ := hok (fun _ h => absurd h List.not_mem_nil) fun call hcall => by
    change call ∈ [_, _] at hcall
    rcases List.mem_pair.mp hcall with rfl | rfl <;> rfl
  have hverify : pairAdmission.verifyThreshold pairConsortium = .ok () := by decide +kernel
  have hclosed : lifeStep sha3 closedRoster (.timed pairStep) = closedRoster := by
    show (closedRoster.admitThresholdSigned sha3 pairAdmission pairConsortium
      checksumPolicy.ledger 100).2.1 = _
    unfold admitThresholdSigned
    rw [hverify]
    rfl
  have hopen : pairSteps.foldl (lifeStep sha3) closedRoster =
      ((closedRoster.setAdmissionPolicy .default).recordAdmission 100).insertEntry
        (admittedEntry pairAdmission) := by
    unfold pairSteps
    rw [List.foldl_cons, hclosed]
    show ((closedRoster.setAdmissionPolicy .default).admitThresholdSigned sha3 pairAdmission
      pairConsortium checksumPolicy.ledger 100).2.1 = _
    unfold admitThresholdSigned
    rw [hverify]
    rfl
  refine ⟨by rw [hclosed]; rfl, _, loaded, rfl, hload, ?_⟩
  rw [(hsame loaded hload).2, hopen, lookup_insertEntry]
  exact if_pos rfl

end RelayRoster

end Aegis
