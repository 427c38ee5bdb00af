import Aegis.Lib.Sampling
import Aegis.Topology.Admission

/-!
# Layers (`layers.rs`)

For an epoch the admitted relays are shuffled from a seed and dealt out to the layers of the
topology.

* `Built.keyed` — a roster keeps every record under its own id.
* `nodup_ids`, `mem_ids` — the relays that are dealt out are the admitted ones, once each.
* `stratified_of_buildTopology` — **the layers partition the admitted relays**.
-/

namespace Aegis

open Sampling

/-! ## Rosters -/

namespace RelayRoster

/-- Every record is kept under its own id. -/
def Keyed (roster : RelayRoster) : Prop :=
  ∀ id entry, roster.relays.lookup id = some entry → entry.record.id = id

/-- The rosters there are: their relays come and go one at a time. -/
inductive Built : RelayRoster → Prop
  | new (policy : RosterAdmissionPolicy) : Built ⟨∅, policy, []⟩
  | insertEntry {roster : RelayRoster} (entry : RosterEntry) (h : Built roster) :
    Built (roster.insertEntry entry)
  | remove {roster : RelayRoster} (id : RelayId) (h : Built roster) : Built (roster.remove id).1
  /-- What an admission notes of the time, and `set_admission_policy`. -/
  | settings {roster : RelayRoster} (policy : RosterAdmissionPolicy) (timestamps : List UInt64)
    (h : Built roster) : Built ⟨roster.relays, policy, timestamps⟩

theorem Keyed.insertEntry {roster : RelayRoster} (h : roster.Keyed) (entry : RosterEntry) :
    (roster.insertEntry entry).Keyed := by
  intro id found hfound
  change (roster.relays.insert entry.record.id entry).lookup id = some found at hfound
  by_cases hid : id = entry.record.id
  · rw [hid, AList.lookup_insert] at hfound
    obtain rfl := Option.some.inj hfound
    exact hid.symm
  · rw [AList.lookup_insert_ne hid] at hfound
    exact h id found hfound

theorem Keyed.remove {roster : RelayRoster} (h : roster.Keyed) (id : RelayId) :
    (roster.remove id).1.Keyed := by
  intro id' found hfound
  change (roster.relays.erase id).lookup id' = some found at hfound
  by_cases hid : id' = id
  · rw [hid, AList.lookup_erase] at hfound
    cases hfound
  · rw [AList.lookup_erase_ne hid] at hfound
    exact h id' found hfound

theorem Built.keyed {roster : RelayRoster} (h : roster.Built) : roster.Keyed := by
  induction h with
  | new policy =>
    intro id entry hentry
    change (∅ : HashMap RelayId RosterEntry).lookup id = some entry at hentry
    rw [AList.lookup_empty] at hentry
    cases hentry
  | insertEntry entry _ ih => exact ih.insertEntry entry
  | remove id _ ih => exact ih.remove id
  | settings policy timestamps _ ih => exact ih

section Sources

variable {SK VK : Type} {E : Ed25519 SK VK}

/-- **A roster that was loaded is built.** -/
theorem built_of_loadPersisted {fromSlice : List UInt8 → Except String PersistedRoster}
    {file : Except IoError (List UInt8)} {consortium : Option (ThresholdConsortium E)}
    {roster : RelayRoster} (h : loadPersisted fromSlice file consortium = .ok roster) :
    roster.Built := by
  unfold loadPersisted at h
  split at h
  · cases h
  · split at h
    · cases h
    · refine Run.foldlM_preserves Built ?_ (.new .default) h
      intro s entry s' _ hbuilt hstep
      unfold loadEntry at hstep
      split at hstep
      · obtain rfl := Except.ok.inj hstep
        exact hbuilt.insertEntry entry
      · split at hstep
        · cases hstep
        · split at hstep
          · cases hstep
          · obtain rfl := Except.ok.inj hstep
            exact hbuilt.insertEntry _

/-- **So is one that relays were admitted to**, by any entry point. -/
theorem Built.admission {D : Type} {roster : RelayRoster} (h : roster.Built)
    (sha3 : List UInt8 → Buffer.Bytes 32) (policy : RelayPruningPolicy D) (now : UInt64)
    (call : Admission E) : (roster.admission sha3 policy now call).2.1.Built := by
  have hcases := admit_cases sha3 roster policy now call
  generalize roster.admission sha3 policy now call = outcome at hcases ⊢
  cases hcases with
  | refused e => exact h
  | again signed _ _ => exact h.insertEntry _
  | new signed _ _ _ => exact (h.settings _ _).insertEntry _

end Sources

variable {roster : RelayRoster} (o : IterOrder RelayId RosterEntry)

/-- The ids in the order in which they are dealt out, before the shuffle. -/
theorem ids_perm (h : roster.Keyed) :
    ((roster.admittedSorted o).map RelayRecord.id).Perm ((o.iter roster.relays).map Sigma.fst) := by
  have hsorted : (roster.admittedSorted o).Perm
      ((o.values roster.relays).map RosterEntry.record) := List.perm_insertionSort _ _
  refine (hsorted.map RelayRecord.id).trans (List.Perm.of_eq ?_)
  unfold IterOrder.values
  rw [List.map_map, List.map_map]
  refine List.map_congr_left ?_
  rintro ⟨id, entry⟩ hmem
  exact h id entry (IterOrder.mem_iter.mp hmem)

/-- **No relay is dealt out twice.** -/
theorem nodup_ids (h : roster.Keyed) : ((roster.admittedSorted o).map RelayRecord.id).Nodup :=
  (ids_perm o h).nodup_iff.mpr (o.nodup_keys_iter roster.relays)

/-- **The relays that are dealt out are the admitted ones.** -/
theorem mem_ids (h : roster.Keyed) {id : RelayId} :
    id ∈ (roster.admittedSorted o).map RelayRecord.id ↔ roster.isAdmitted id = true := by
  rw [(ids_perm o h).mem_iff, List.mem_map]
  unfold isAdmitted
  rw [Option.isSome_iff_exists]
  constructor
  · rintro ⟨⟨id', entry⟩, hmem, rfl⟩
    exact ⟨entry, IterOrder.mem_iter.mp hmem⟩
  · rintro ⟨entry, hentry⟩
    exact ⟨⟨id, entry⟩, IterOrder.mem_iter.mpr hentry, rfl⟩

theorem get_eq_some_iff (h : roster.Keyed) {id : RelayId} {record : RelayRecord}
    (hget : roster.get id = some record) : record.id = id := by
  unfold get at hget
  obtain ⟨entry, hentry, rfl⟩ := Option.map_eq_some_iff.mp hget
  exact h id entry hentry

end RelayRoster

/-! ## Topologies -/

/-- What a build fails with. -/
inductive TopologyError where
  | emptyRoster
  | invalidLayerCount (layerCount : ℕ)
  | emptyLayer (layer : ℕ) (epoch : UInt64)
  | relayNotFound (relay : RelayId)
  | insufficientReputation (available needed : ℕ) (minReputation : ℚ)
  | reputationPathExhausted (attempts : ℕ)
  deriving DecidableEq

/-- How many layers, and hops, there are. -/
structure TopologyConfig where
  layerCount : ℕ
  deriving DecidableEq

/-- The layers of an epoch, the entry layer first. -/
structure Topology where
  epoch : UInt64
  layerCount : ℕ
  layers : List (List RelayId)
  deriving DecidableEq

variable {σ : Type}

/-- Shuffle the admitted relays and deal them out. -/
def buildTopology (std : SeededRng σ) (o : IterOrder RelayId RosterEntry) (roster : RelayRoster)
    (epoch : UInt64) (config : TopologyConfig) (epochSeed : UInt64) :
    Except TopologyError Topology :=
  let layerCount := config.layerCount
  if layerCount = 0 then .error (.invalidLayerCount 0)
  else
    let relays := roster.admittedSorted o
    if relays = [] then .error .emptyRoster
    else
      let ids := relays.map RelayRecord.id
      let rng := std.seedFromU64 (epochSeed * 0x9E3779B97F4A7C15 + epoch)
      let ids := (swapAlong std.toRng (fun i => (0, i + 1)) (List.range' 1 (ids.length - 1)).reverse
        ids rng).1
      .ok ⟨epoch, layerCount, deal layerCount ids⟩

/-- Every admitted relay is in one layer, once, and there are as many layers as hops. -/
structure Stratified (roster : RelayRoster) (t : Topology) : Prop where
  length : t.layers.length = t.layerCount
  positive : 0 < t.layerCount
  nodup : t.layers.flatten.Nodup
  admitted : ∀ id, id ∈ t.layers.flatten ↔ roster.isAdmitted id = true

/-- **The layers partition the admitted relays**, whatever the generator draws. -/
theorem stratified_of_buildTopology {std : SeededRng σ} {o : IterOrder RelayId RosterEntry}
    {roster : RelayRoster} (hkeyed : roster.Keyed) {epoch epochSeed : UInt64}
    {config : TopologyConfig} {t : Topology}
    (h : buildTopology std o roster epoch config epochSeed = .ok t) : Stratified roster t := by
  unfold buildTopology at h
  simp only at h
  split_ifs at h with hcount hempty
  obtain rfl := Except.ok.inj h
  have hpositive : 0 < config.layerCount := Nat.pos_of_ne_zero hcount
  have hperm := (flatten_deal_perm hpositive _).trans (swapAlong_perm std.toRng
    (fun i => (0, i + 1)) (List.range' 1
      (((roster.admittedSorted o).map RelayRecord.id).length - 1)).reverse
    ((roster.admittedSorted o).map RelayRecord.id)
    (std.seedFromU64 (epochSeed * 0x9E3779B97F4A7C15 + epoch)))
  refine ⟨length_deal hpositive _, hpositive, hperm.nodup_iff.mpr (RelayRoster.nodup_ids o hkeyed),
    ?_⟩
  intro id
  exact hperm.mem_iff.trans (RelayRoster.mem_ids o hkeyed)

end Aegis
