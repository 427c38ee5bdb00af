import Aegis.Topology.PathBuilders

/-!
# Guard rotation (`guards.rs`, `path.rs`)

Guards that rotate are for as many packets as there are guards, the one after the other.  No builder
tells them which packet its path is for.

* `covers_of_indexed` — paths for consecutive packets enter by each guard once.
* `covers_iff_of_produced` — **the paths of the builders do so only if there is one guard**.
-/

namespace Aegis

open Sampling Sampling.Draws

/-- Each guard is the entry of one of the paths. -/
def Covers (g : GuardSelector) (paths : List (List RelayId)) : Prop :=
  ∀ guard ∈ g.guards, (paths.map List.head?).count (some guard) = 1

section Rotation

variable {ω σ : Type} {os : Rng ω} {std : SeededRng σ} {topology : Topology} {g : GuardSelector}
  {s t : ω} {path : List RelayId} {paths : List (List RelayId)}

/-- A path enters by the guard of its packet. -/
theorem head_of_select {packetIndex : UInt64} (hlayers : topology.layers ≠ [])
    (h : Returns (selectPathIndexedImpl os topology (some g) packetIndex) s path t) :
    path.head? = g.entryGuardForPacket packetIndex := by
  obtain ⟨layer, layers, hcons⟩ := List.exists_cons_of_ne_nil hlayers
  unfold selectPathIndexedImpl at h
  rw [hcons, List.zipIdx_cons, List.mapM_cons] at h
  obtain ⟨hop, u, hhop, h⟩ := bind_returns h
  obtain ⟨rest, v, -, h⟩ := bind_returns h
  obtain ⟨rfl, -⟩ := pure_returns h
  unfold selectHop at hhop
  by_cases hempty : layer = []
  · rw [if_pos hempty] at hhop
    exact absurd hhop not_throw_returns
  · rw [if_neg hempty, if_pos rfl] at hhop
    exact (orPanic_returns hhop).symm

theorem not_covers_of_not_entry {guard : RelayId} (hguard : guard ∈ g.guards)
    (h : ∀ path ∈ paths, path.head? ≠ some guard) : ¬Covers g paths := by
  intro hcovers
  have hnot : some guard ∉ paths.map List.head? := by
    intro hmem
    obtain ⟨path, hpath, hentry⟩ := List.mem_map.mp hmem
    exact h path hpath hentry
  have hcount := hcovers guard hguard
  rw [List.count_eq_zero_of_not_mem hnot] at hcount
  cases hcount

/-- The guards of consecutive packets. -/
theorem map_entryGuard_range {k n : ℕ} (hrotate : g.pinMode = .rotate)
    (hn : g.guards.length = n) (hk : k + n ≤ 2 ^ 64) :
    (List.range n).map (fun i => g.entryGuardForPacket (UInt64.ofNat (k + i))) =
      (g.guards.rotate k).map some := by
  refine List.ext_getElem? fun i => ?_
  rw [List.getElem?_map, List.getElem?_map]
  by_cases hi : i < n
  · have hindex : (UInt64.ofNat (k + i)).toNat = k + i :=
      UInt64.toNat_ofNat_of_lt' (show k + i < 2 ^ 64 by omega)
    have hmod : (i + k) % n < g.guards.length := by
      rw [hn]
      exact Nat.mod_lt _ (by omega)
    rw [List.getElem?_range hi, List.getElem?_rotate (hn ▸ hi), Option.map_some]
    unfold GuardSelector.entryGuardForPacket
    rw [hrotate]
    simp only
    rw [hindex, hn, Nat.max_eq_left (by omega), Nat.add_comm k i, List.getElem?_eq_getElem hmod,
      Option.map_some]
  · have hnot : n ≤ i := Nat.le_of_not_lt hi
    rw [List.getElem?_eq_none (by rw [List.length_range]; exact hnot),
      List.getElem?_eq_none (by rw [List.length_rotate, hn]; exact hnot)]
    rfl

/-- **Paths for consecutive packets enter by each guard once.** -/
theorem covers_of_indexed (hrotate : g.pinMode = .rotate) (hnodup : g.guards.Nodup)
    (hlayers : topology.layers ≠ []) {k : ℕ} (hk : k + g.guards.length ≤ 2 ^ 64)
    (h : List.Forall₂ (fun i path => ∃ s t, Returns (selectPathIndexedImpl os topology (some g)
      (UInt64.ofNat (k + i))) s path t) (List.range g.guards.length) paths) : Covers g paths := by
  have hheads : (List.range g.guards.length).map
      (fun i => g.entryGuardForPacket (UInt64.ofNat (k + i))) = paths.map List.head? := by
    rw [← List.forall₂_eq_eq_eq, List.forall₂_map_left_iff, List.forall₂_map_right_iff]
    refine h.imp fun i path hselect => ?_
    obtain ⟨s, t, hselect⟩ := hselect
    exact (head_of_select hlayers hselect).symm
  rw [map_entryGuard_range hrotate rfl hk] at hheads
  unfold Covers
  rw [← hheads]
  intro guard hguard
  rw [List.count_map_of_injective _ _ (Option.some_injective _)]
  exact List.count_eq_one_of_mem (List.nodup_rotate.mpr hnodup) (List.mem_rotate.mpr hguard)

/-- **Paths of the builders enter by each guard once if and only if there is no second guard**: all
of them enter by the first. -/
theorem covers_iff_of_produced (hrotate : g.pinMode = .rotate) (hlayers : topology.layers ≠ [])
    (hlength : paths.length = g.guards.length)
    (h : ∀ path ∈ paths, Produced os std topology g path) :
    Covers g paths ↔ g.guards.length ≤ 1 := by
  have hfirst : ∀ path ∈ paths, path.head? = g.guards[0]? := by
    intro path hpath
    obtain ⟨s, t, hselect⟩ := select_of_produced (h path hpath)
    rw [head_of_select hlayers hselect]
    unfold GuardSelector.entryGuardForPacket
    rw [hrotate]
    simp only [UInt64.toNat_zero, Nat.zero_mod]
  have hheads : paths.map List.head? = List.replicate g.guards.length g.guards[0]? := by
    rw [List.eq_replicate_iff, List.length_map]
    refine ⟨hlength, ?_⟩
    intro head hhead
    obtain ⟨path, hpath, rfl⟩ := List.mem_map.mp hhead
    exact hfirst path hpath
  unfold Covers
  rw [hheads]
  cases hguards : g.guards with
  | nil => exact iff_of_true nofun (Nat.zero_le 1)
  | cons guard guards =>
    constructor
    · intro hcovers
      have hcount := hcovers guard List.mem_cons_self
      rw [List.getElem?_cons_zero, List.count_replicate_self] at hcount
      exact hcount.le
    · intro hone guard' hguard'
      obtain rfl : guards = [] := by
        rw [List.length_cons] at hone
        exact List.eq_nil_of_length_eq_zero (by omega)
      obtain rfl := List.mem_singleton.mp hguard'
      exact List.count_replicate_self

/-- The two relays in one layer, and both of them guards. -/
def oneLayer : Topology := ⟨1, 1, [[.replicate 32 2, .replicate 32 1]]⟩

/-- Two guards that rotate. -/
def twoGuards : GuardSelector := ⟨1, [.replicate 32 2, .replicate 32 1], .rotate⟩

/-- Every path of a client that asks for them enters by the first. -/
theorem produced_firstGuard {path : List RelayId}
    (hpath : path ∈ [[List.Vector.replicate 32 2], [.replicate 32 2]]) :
    Produced lowestRng.toRng lowestRng oneLayer twoGuards path := by
  have hbuilt : twoRelays.Built := ((RelayRoster.Built.new .default).insertEntry _).insertEntry _
  have hreturns : Returns (buildClientBoundPath lowestRng.toRng lowestRng oneLayer twoRelays
      (RelayPruningPolicy.withLedger ⟨1 / 2, ∅⟩ 0 0 : RelayPruningPolicy Unit)
      ⟨7, ⟨2, .rotate⟩, ⟨12, 12, true, true, 2⟩, ⟨0, false, 0⟩, defaultPathReputationFloor, 3,
        none⟩) () (twoGuards, [⟨.replicate 32 2, "DE", .replicate 32 2⟩]) () := by decide +kernel
  obtain rfl : path = [.replicate 32 2] := by simpa using hpath
  exact Produced.client hbuilt hreturns

/-- Two guards and two paths. -/
theorem covers_iff_of_produced_twoGuards :
    Covers twoGuards [[.replicate 32 2], [.replicate 32 2]] ↔ twoGuards.guards.length ≤ 1 := by
  have hlayers : oneLayer.layers ≠ [] := List.cons_ne_nil _ _
  exact covers_iff_of_produced rfl hlayers rfl fun _ => produced_firstGuard

/-- **The second guard is never the entry**, of two paths of the client's builder. -/
theorem not_covers_twoGuards :
    buildTopology lowestRng .latestFirst twoRelays 1 ⟨1⟩ 0 = .ok oneLayer ∧
      (∀ path ∈ [[.replicate 32 2], [.replicate 32 2]],
        Produced lowestRng.toRng lowestRng oneLayer twoGuards path) ∧
      ¬Covers twoGuards [[.replicate 32 2], [.replicate 32 2]] := by
  refine ⟨by decide +kernel, fun _ => produced_firstGuard, ?_⟩
  refine not_covers_of_not_entry (List.mem_cons_of_mem _ List.mem_cons_self) ?_
  intro path hpath hentry
  obtain rfl : path = [.replicate 32 2] := by simpa only [List.mem_cons, List.not_mem_nil,
    or_false, or_self] using hpath
  have hne : (.replicate 32 2 : RelayId) ≠ .replicate 32 1 := by decide
  exact hne (Option.some.inj hentry)

end Rotation

end Aegis
