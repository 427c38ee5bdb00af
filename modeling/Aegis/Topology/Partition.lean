import Aegis.Topology.Layers
import Aegis.Trust.LedgerFile

/-!
# Layers are a partition (`layers.rs`, `roster.rs`)

The admitted relays are dealt out to the layers in turn, so that each is in one layer and the layers
are of one size, up to one relay.  The builder with a floor deals out the relays whose score is at
or above it, and leaves the roster as it is.

* `admittedSorted_eq` — the order in which the roster hands out its entries does not matter.
* `admittedSortedAboveReputation_eq` — the floor sees the relays that a restricted roster has.
* `partition_of_buildTopology` — **a partition of the admitted relays**, with or without a floor.
-/

namespace Aegis

open Sampling

/-- `ReputationScore::NEUTRAL`, the double 0.5. -/
def Score.neutral : Score := ⟨⟨0x3FE0000000000000⟩, by decide⟩

namespace StoredLedger

/-- The score of a relay, the neutral one if the ledger has none. -/
def score (l : StoredLedger) (relay : RelayId) : Score :=
  (l.scores.lookup relay).getD Score.neutral

/-- `ledger.score(relay).0 >= min_reputation`; never where the floor is not a number. -/
def atLeast (l : StoredLedger) (minReputation : F64) (relay : RelayId) : Bool :=
  minReputation.le (l.score relay).val

end StoredLedger

/-! ## Rosters with a floor -/

theorem idKey_injective : Function.Injective idKey := by
  intro a b h
  have hbytes : Function.Injective UInt8.toNat := fun _ _ => UInt8.toNat_inj.mp
  exact List.Vector.toList_injective (List.map_injective_iff.mpr hbytes h)

/-- A sort of records with distinct ids does not see their order. -/
theorem insertionSort_idKey_eq {l l' : List RelayRecord} (h : l.Perm l')
    (hnodup : (l.map RelayRecord.id).Nodup) :
    (l.insertionSort fun a b => idKey a.id ≤ idKey b.id) =
      l'.insertionSort fun a b => idKey a.id ≤ idKey b.id := by
  have : Std.Total fun a b : RelayRecord => idKey a.id ≤ idKey b.id := ⟨fun _ _ => le_total _ _⟩
  have : IsTrans RelayRecord fun a b => idKey a.id ≤ idKey b.id := ⟨fun _ _ _ => le_trans⟩
  have hperm := (List.perm_insertionSort (fun a b => idKey a.id ≤ idKey b.id) l).trans
    (h.trans (List.perm_insertionSort (fun a b => idKey a.id ≤ idKey b.id) l').symm)
  refine hperm.eq_of_pairwise ?_ (List.pairwise_insertionSort _ l)
    (List.pairwise_insertionSort _ l')
  intro a b ha hb hab hba
  have ha' := (List.mem_insertionSort _).mp ha
  have hb' := h.mem_iff.mpr ((List.mem_insertionSort _).mp hb)
  exact List.inj_on_of_nodup_map hnodup ha' hb' (idKey_injective (le_antisymm hab hba))

namespace RelayRoster

/-- The admitted relays whose score is at or above the floor, by their ids. -/
def admittedSortedAboveReputation (roster : RelayRoster) (o : IterOrder RelayId RosterEntry)
    (ledger : StoredLedger) (minReputation : F64) : List RelayRecord :=
  (((o.values roster.relays).map RosterEntry.record).filter fun r =>
    ledger.atLeast minReputation r.id).insertionSort fun a b => idKey a.id ≤ idKey b.id

/-- The roster that has only the relays that are kept. -/
def restrict (roster : RelayRoster) (keep : RelayId → Bool) : RelayRoster :=
  { roster with
    relays := ⟨roster.relays.entries.filter fun e => keep e.1,
      roster.relays.nodupKeys.sublist List.filter_sublist⟩ }

variable {roster : RelayRoster}

theorem nodup_recordIds (h : roster.Keyed) (o : IterOrder RelayId RosterEntry) :
    (((o.values roster.relays).map RosterEntry.record).map RelayRecord.id).Nodup := by
  have hsorted : (roster.admittedSorted o).Perm
      ((o.values roster.relays).map RosterEntry.record) := List.perm_insertionSort _ _
  exact (hsorted.map RelayRecord.id).nodup_iff.mp (nodup_ids o h)

/-- **The order of the entries does not matter.** -/
theorem admittedSorted_eq (h : roster.Keyed) (o o' : IterOrder RelayId RosterEntry) :
    roster.admittedSorted o = roster.admittedSorted o' := by
  exact insertionSort_idKey_eq (IterOrder.values_perm (fun _ => rfl) o o') (nodup_recordIds h o)

/-- Filtering the records is filtering the entries. -/
theorem filter_records (h : roster.Keyed) (o : IterOrder RelayId RosterEntry)
    (keep : RelayId → Bool) :
    ((o.values roster.relays).map RosterEntry.record).filter (fun r => keep r.id) =
      (((o.iter roster.relays).filter fun e => keep e.1).map Sigma.snd).map
        RosterEntry.record := by
  unfold IterOrder.values
  rw [List.map_map, List.map_map, List.filter_map]
  congr 1
  refine List.filter_congr ?_
  rintro ⟨id, entry⟩ hmem
  exact congrArg keep (h id entry (IterOrder.mem_iter.mp hmem))

/-- **The floor sees the relays that the restricted roster has**, in whatever order each hands them
out. -/
theorem admittedSortedAboveReputation_eq (h : roster.Keyed) (o o' : IterOrder RelayId RosterEntry)
    (ledger : StoredLedger) (minReputation : F64) :
    roster.admittedSortedAboveReputation o ledger minReputation =
      (roster.restrict (ledger.atLeast minReputation)).admittedSorted o' := by
  have hperm : (((o.values roster.relays).map RosterEntry.record).filter fun r =>
      ledger.atLeast minReputation r.id).Perm
        ((o'.values (roster.restrict (ledger.atLeast minReputation)).relays).map
          RosterEntry.record) := by
    rw [filter_records h]
    refine List.Perm.map _ (List.Perm.map _ ?_)
    exact ((o.iter_perm roster.relays).filter _).trans
      (o'.iter_perm (roster.restrict (ledger.atLeast minReputation)).relays).symm
  refine insertionSort_idKey_eq hperm ((nodup_recordIds h o).sublist ?_)
  exact List.filter_sublist.map _

theorem lookup_restrict (keep : RelayId → Bool) (id : RelayId) :
    (roster.restrict keep).relays.lookup id =
      if keep id then roster.relays.lookup id else none := by
  refine Option.ext fun entry => ?_
  have hmem : (⟨id, entry⟩ : Σ _ : RelayId, RosterEntry) ∈ roster.relays.entries ↔
      roster.relays.lookup id = some entry := AList.mem_lookup_iff.symm
  have hmem' : (roster.restrict keep).relays.lookup id = some entry ↔
      (⟨id, entry⟩ : Σ _ : RelayId, RosterEntry) ∈
        roster.relays.entries.filter fun e => keep e.1 := AList.mem_lookup_iff
  rw [hmem', List.mem_filter, hmem]
  by_cases hkeep : keep id = true
  · rw [if_pos hkeep, and_iff_left hkeep]
  · rw [if_neg hkeep]
    exact iff_of_false (fun h => hkeep h.2) nofun

theorem Keyed.restrict (h : roster.Keyed) (keep : RelayId → Bool) :
    (roster.restrict keep).Keyed := by
  intro id entry hentry
  rw [lookup_restrict] at hentry
  split_ifs at hentry
  exact h id entry hentry

theorem isAdmitted_restrict {keep : RelayId → Bool} {id : RelayId} :
    (roster.restrict keep).isAdmitted id = true ↔ roster.isAdmitted id = true ∧ keep id = true := by
  unfold isAdmitted
  rw [lookup_restrict]
  split_ifs with hkeep
  · exact (and_iff_left hkeep).symm
  · exact iff_of_false Bool.false_ne_true fun h => hkeep h.2

end RelayRoster

/-! ## Topologies with a floor -/

variable {σ : Type}

/-- Like `build_topology`, of the relays whose score is at or above the floor. -/
def buildTopologyReputationFiltered (std : SeededRng σ) (o : IterOrder RelayId RosterEntry)
    (roster : RelayRoster) (epoch : UInt64) (config : TopologyConfig) (epochSeed : UInt64)
    (ledger : StoredLedger) (minReputation : F64) : Except TopologyError Topology :=
  let layerCount := config.layerCount
  if layerCount = 0 then .error (.invalidLayerCount 0)
  else
    let relays := roster.admittedSortedAboveReputation o ledger minReputation
    if relays = [] then .error .emptyRoster
    else
      let ids := relays.map RelayRecord.id
      let rng := std.seedFromU64 (epochSeed * 0x9E3779B97F4A7C15 + epoch)
      let ids := (swapAlong std.toRng (fun i => (0, i + 1)) (List.range' 1 (ids.length - 1)).reverse
        ids rng).1
      .ok ⟨epoch, layerCount, deal layerCount ids⟩

/-- There are as many layers as asked for, of one size up to one relay, and each admitted relay is
in one of them. -/
structure Partition (roster : RelayRoster) (layerCount : ℕ) (t : Topology) : Prop where
  count : t.layers.length = layerCount
  distinct : ∀ layer ∈ t.layers, layer.Nodup
  disjoint : t.layers.Pairwise List.Disjoint
  union : ∀ id, (∃ layer ∈ t.layers, id ∈ layer) ↔ roster.isAdmitted id = true
  even : ∀ layer ∈ t.layers, ∀ layer' ∈ t.layers, layer.length ≤ layer'.length + 1

variable {std : SeededRng σ} {o : IterOrder RelayId RosterEntry} {roster : RelayRoster}
  {epoch epochSeed : UInt64} {config : TopologyConfig} {t : Topology}

/-- The layers are what has been dealt out of some list. -/
theorem deal_of_buildTopology (h : buildTopology std o roster epoch config epochSeed = .ok t) :
    0 < config.layerCount ∧ t.layerCount = config.layerCount ∧
      ∃ ids, t.layers = deal config.layerCount ids := by
  unfold buildTopology at h
  simp only at h
  split_ifs at h with hcount hempty
  obtain rfl := Except.ok.inj h
  exact ⟨Nat.pos_of_ne_zero hcount, rfl, _, rfl⟩

theorem partition_of_keyed (hkeyed : roster.Keyed)
    (h : buildTopology std o roster epoch config epochSeed = .ok t) :
    Partition roster config.layerCount t := by
  obtain ⟨hpositive, hcount, ids, hdeal⟩ := deal_of_buildTopology h
  obtain ⟨hlength, -, hnodup, hadmitted⟩ := stratified_of_buildTopology hkeyed h
  obtain ⟨hdistinct, hdisjoint⟩ := List.nodup_flatten.mp hnodup
  refine ⟨hlength.trans hcount, hdistinct, hdisjoint, ?_, ?_⟩
  · intro id
    rw [← hadmitted id, List.mem_flatten]
  · intro layer hlayer layer' hlayer'
    rw [hdeal] at hlayer hlayer'
    obtain ⟨-, hmost⟩ := length_deal_hand hpositive ids hlayer
    obtain ⟨hleast, -⟩ := length_deal_hand hpositive ids hlayer'
    exact hmost.trans (Nat.add_le_add_right hleast 1)

/-- The builder with a floor is the other one on the restricted roster. -/
theorem buildTopologyReputationFiltered_eq (hkeyed : roster.Keyed)
    (o o' : IterOrder RelayId RosterEntry) (ledger : StoredLedger) (minReputation : F64) :
    buildTopologyReputationFiltered std o roster epoch config epochSeed ledger minReputation =
      buildTopology std o' (roster.restrict (ledger.atLeast minReputation)) epoch config
        epochSeed := by
  unfold buildTopologyReputationFiltered buildTopology
  rw [RelayRoster.admittedSortedAboveReputation_eq hkeyed o o']

/-- **The layers are a partition of the admitted relays**, into sets of one size up to one relay;
and the builder with a floor returns what `build_topology` returns for the relays at or above it. -/
theorem partition_of_buildTopology (hroster : roster.Built) (o o' : IterOrder RelayId RosterEntry) :
    (∀ t, buildTopology std o roster epoch config epochSeed = .ok t →
        Partition roster config.layerCount t) ∧
      ∀ ledger minReputation,
        buildTopologyReputationFiltered std o roster epoch config epochSeed ledger minReputation =
          buildTopology std o' (roster.restrict (ledger.atLeast minReputation)) epoch config
            epochSeed :=
  ⟨fun _ h => partition_of_keyed hroster.keyed h,
    buildTopologyReputationFiltered_eq hroster.keyed o o'⟩

/-- Three relays. -/
def threeRelays : RelayRoster :=
  ((RelayRoster.new.insertEntry ⟨⟨.replicate 32 1, "US", .replicate 32 1⟩, none, none⟩).insertEntry
    ⟨⟨.replicate 32 2, "DE", .replicate 32 2⟩, none, none⟩).insertEntry
      ⟨⟨.replicate 32 3, "FR", .replicate 32 3⟩, none, none⟩

/-- What `StdRng` draws from the seed 0, of three and then of two. -/
def zeroSeedRng : SeededRng (List ℕ) := scripted fun _ => [2, 0]

/-- Three relays in two layers, the last two of them above a floor. -/
theorem partition_of_buildTopology_threeRelays :
    Partition threeRelays 2 ⟨0, 2, [[.replicate 32 2, .replicate 32 3], [.replicate 32 1]]⟩ ∧
      buildTopologyReputationFiltered zeroSeedRng .latestFirst threeRelays 0 ⟨2⟩ 0
          ⟨F64.one, (∅ : HashMap RelayId Score).insert (.replicate 32 1) (.clamp F64.zero)⟩
          ⟨0x3FD3333333333333⟩ =
        buildTopology zeroSeedRng .latestFirst (threeRelays.restrict fun id =>
          StoredLedger.atLeast
            ⟨F64.one, (∅ : HashMap RelayId Score).insert (.replicate 32 1) (.clamp F64.zero)⟩
            ⟨0x3FD3333333333333⟩ id) 0 ⟨2⟩ 0 := by
  have hbuilt : threeRelays.Built :=
    (((RelayRoster.Built.new .default).insertEntry _).insertEntry _).insertEntry _
  have htopology : buildTopology zeroSeedRng .latestFirst threeRelays 0 ⟨2⟩ 0 =
      .ok ⟨0, 2, [[.replicate 32 2, .replicate 32 3], [.replicate 32 1]]⟩ := by decide +kernel
  exact ⟨(partition_of_buildTopology hbuilt .latestFirst .latestFirst).1 _ htopology,
    (partition_of_buildTopology hbuilt .latestFirst .latestFirst).2 _ _⟩

/-- With a floor the layers are a partition of the relays at or above it. -/
theorem partition_of_filtered (hroster : roster.Built) {ledger : StoredLedger} {minReputation : F64}
    (h : buildTopologyReputationFiltered std o roster epoch config epochSeed ledger minReputation =
      .ok t) :
    Partition (roster.restrict (ledger.atLeast minReputation)) config.layerCount t := by
  rw [buildTopologyReputationFiltered_eq hroster.keyed o .latestFirst] at h
  exact partition_of_keyed (hroster.keyed.restrict _) h

end Aegis
