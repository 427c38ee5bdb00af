import Aegis.Lib.Run
import Aegis.Relay.CoverFlow

/-!
# Control cells and cover among fragments

Control cells, cover and fragments of packets share a link.  Only fragments of packets reach the
reassembler, so what the loop does with the packets is what it would do had the other cells not
been there.

* `SameQueue.readFragment`, `SameQueue.onFrame_of_control` — the simulation, cell by cell.
* `foldl_fragment` — a whole packet, read from start to end.
* `enqueued_of_interleave` — **the packets sent are the packets enqueued**, whatever lies between
  their fragments.
-/

namespace Aegis

open Buffer

/-! ## Cells that are not of packets -/

/-- A cell of a local-discard or scaffold cover flow. -/
def IsCover {ρ : Type} (C : Suite ρ) (cell : Cell) : Prop :=
  ∃ reserved cellsPerFlow k rng, (reserved = coverFragmentReserved ∨
    reserved = coverOnionScaffoldReserved) ∧
      ∃ flow ∈ (generateFlows C cellsPerFlow reserved k rng).1, cell ∈ flow.cells

/-- Any command but that of fragments, known or not, or cover. -/
def IsControl {ρ : Type} (C : Suite ρ) (cell : Cell) : Prop :=
  Command.fromU8 (cell.byte 0 zero_lt_cellLen) ≠ some .sphinxFragment ∨ IsCover C cell

theorem IsCover.discarded {ρ : Type} {C : Suite ρ} {cell : Cell} (h : IsCover C cell) :
    isDiscardCoverFragment cell = true := by
  obtain ⟨reserved, cellsPerFlow, k, rng, hreserved, flow, hflow, hcell⟩ := h
  have htagged := tagged_of_mem_generateFlows C hflow cell hcell
  unfold isDiscardCoverFragment isRelayCoverFragment isCoverOnionScaffoldFragment
  rcases hreserved with rfl | rfl
  · rw [htagged, Bool.true_or]
  · rw [htagged, Bool.or_true]

namespace Connection

/-! ## The simulation -/

/-- The connections agree on the reassembler and the queue. -/
structure SameQueue (x y : Connection) : Prop where
  reassembler : x.reassembler = y.reassembler
  ended : x.ended = y.ended
  enqueued : x.enqueued = y.enqueued
  queueDropped : x.queueDropped = y.queueDropped

section Simulation

variable {x y : Connection}

theorem SameQueue.offered (h : SameQueue x y) : x.offered = y.offered := by
  unfold Connection.offered
  rw [h.enqueued, h.queueDropped]

theorem SameQueue.tryEnqueue (h : SameQueue x y) (packet : SphinxPacket) (send : TrySend) :
    SameQueue (x.tryEnqueue packet send) (y.tryEnqueue packet send) := by
  obtain ⟨hr, hended, henqueued, hdropped⟩ := h
  cases send with
  | sent =>
    exact ⟨hr, hended, by rw [Connection.tryEnqueue, Connection.tryEnqueue, henqueued], hdropped⟩
  | full =>
    exact ⟨hr, hended, henqueued, by rw [Connection.tryEnqueue, Connection.tryEnqueue, hdropped]⟩
  | closed => exact ⟨hr, rfl, henqueued, hdropped⟩

/-- A fragment does the same to both. -/
theorem SameQueue.readFragment (h : SameQueue x y) (cell : Cell) (send : TrySend) :
    SameQueue (x.readFragment cell send) (y.readFragment cell send) := by
  by_cases hended : x.ended = none
  · have hended' : y.ended = none := h.ended ▸ hended
    rcases hpush : x.reassembler.push cell with ⟨result, r⟩
    have hpush' : y.reassembler.push cell = (result, r) := h.reassembler ▸ hpush
    rcases result with e | (_ | packet)
    · rw [readFragment_of_error hended hpush, readFragment_of_error hended' hpush']
      exact ⟨rfl, rfl, h.enqueued, h.queueDropped⟩
    · rw [readFragment_of_none hended hpush, readFragment_of_none hended' hpush']
      exact ⟨rfl, h.ended, h.enqueued, h.queueDropped⟩
    · rw [readFragment_of_some hended hpush, readFragment_of_some hended' hpush']
      refine SameQueue.tryEnqueue ?_ packet send
      exact ⟨rfl, h.ended, h.enqueued, h.queueDropped⟩
  · rw [readFragment_of_ended hended, readFragment_of_ended (h.ended ▸ hended)]
    exact h

/-- A control or cover cell does nothing to the reassembler and the queue. -/
theorem SameQueue.onFrame_of_control {ρ : Type} {C : Suite ρ} {A : Aead} {cfg : InboundConfig}
    {frame : List UInt8} {cell : Cell} (h : SameQueue x y)
    (hopen : cfg.sessionKey.openFrame A frame = .ok cell) (hcell : IsControl C cell)
    (send : TrySend) : SameQueue (x.onFrame A cfg frame true send) y := by
  by_cases hended : x.ended = none
  · rw [onFrame_of_opened hended hopen]
    unfold onCell
    split
    · exact ⟨h.reassembler, h.ended, h.enqueued, h.queueDropped⟩
    · exact ⟨h.reassembler, h.ended, h.enqueued, h.queueDropped⟩
    · split
      · split <;> exact ⟨h.reassembler, h.ended, h.enqueued, h.queueDropped⟩
      · exact ⟨h.reassembler, h.ended, h.enqueued, h.queueDropped⟩
    · rename_i hcommand
      rcases hcell with hother | hcover
      · exact absurd hcommand hother
      · rw [if_pos hcover.discarded]
        exact ⟨h.reassembler, h.ended, h.enqueued, h.queueDropped⟩
    · exact ⟨h.reassembler, h.ended, h.enqueued, h.queueDropped⟩
  · rw [onFrame_of_ended hended]
    exact h

end Simulation

/-! ## Whole packets -/

/-- The packets that get into a queue, of which `sends n` says what try number `n` finds. -/
def accepted (sends : ℕ → TrySend) : ℕ → List SphinxPacket → List SphinxPacket
  | _, [] => []
  | n, packet :: packets =>
    match sends n with
    | .sent => packet :: accepted sends (n + 1) packets
    | .full => accepted sends (n + 1) packets
    | .closed => []

/-- With room for every packet, all get in. -/
theorem accepted_of_sent {sends : ℕ → TrySend} (h : ∀ n, sends n = .sent) (n : ℕ)
    (packets : List SphinxPacket) : accepted sends n packets = packets := by
  induction packets generalizing n with
  | nil => rfl
  | cons packet packets ih =>
    unfold accepted
    rw [h n, ih]

/-- Read the fragments of one packet after another. -/
def readFragments (sends : ℕ → TrySend) (x : Connection) (cells : List Cell) : Connection :=
  cells.foldl (fun x cell => x.readFragment cell (sends x.offered)) x

/-- **A whole packet**: it is tried on the queue, and the reassembler starts afresh. -/
theorem foldl_fragment (sends : ℕ → TrySend) {x : Connection} (hended : x.ended = none)
    (hnew : x.reassembler = .new) (packet : SphinxPacket) (packetId : PacketId) :
    ∃ opened, x.readFragments sends (fragment packet packetId) =
      { x with opened := opened, reassembler := .new }.tryEnqueue packet (sends x.offered) := by
  unfold readFragments fragment
  rw [List.foldl_map, List.range_eq_range']
  exact foldl_collecting_offered sends (n := 17) hended
    (hnew ▸ SphinxReassembler.collecting_new packetId packet) rfl

theorem readFragments_of_ended (sends : ℕ → TrySend) {x : Connection} (h : x.ended ≠ none)
    (cells : List Cell) : x.readFragments sends cells = x := by
  induction cells with
  | nil => rfl
  | cons cell cells ih =>
    show (x.readFragment cell (sends x.offered)).readFragments sends cells = x
    rw [readFragment_of_ended h, ih]

/-- **Packets, one after another.** -/
theorem readFragments_packets (sends : ℕ → TrySend) {x : Connection} (hended : x.ended = none)
    (hnew : x.reassembler = .new) (packets : List (SphinxPacket × PacketId)) :
    let y := x.readFragments sends (packets.flatMap fun p => fragment p.1 p.2)
    y.enqueued = x.enqueued ++ accepted sends x.offered (packets.map Prod.fst) ∧
      ∀ e, y.ended ≠ some (.error e) := by
  induction packets generalizing x with
  | nil =>
    refine ⟨(List.append_nil _).symm, fun e he => ?_⟩
    have hnone : x.ended = some (.error e) := he
    rw [hended] at hnone
    cases hnone
  | cons p packets ih =>
    obtain ⟨opened, hfirst⟩ := foldl_fragment sends hended hnew p.1 p.2
    have hsplit : x.readFragments sends ((p :: packets).flatMap fun p => fragment p.1 p.2) =
        (x.readFragments sends (fragment p.1 p.2)).readFragments sends
          (packets.flatMap fun p => fragment p.1 p.2) := by
      unfold readFragments
      rw [List.flatMap_cons, List.foldl_append]
    rw [hsplit, hfirst, List.map_cons]
    unfold accepted
    cases hsend : sends x.offered with
    | sent =>
      obtain ⟨henqueued, herror⟩ := ih (x := { x with
        opened := opened, reassembler := .new, enqueued := x.enqueued ++ [p.1] }) hended rfl
      refine ⟨henqueued.trans ?_, herror⟩
      have hnext : (x.enqueued ++ [p.1]).length + x.queueDropped = x.offered + 1 := by
        rw [List.length_append, List.length_singleton, Nat.add_right_comm]
        rfl
      show x.enqueued ++ [p.1] ++ accepted sends ((x.enqueued ++ [p.1]).length + x.queueDropped) _ =
        x.enqueued ++ p.1 :: accepted sends (x.offered + 1) _
      rw [hnext, List.append_assoc, List.singleton_append]
    | full =>
      obtain ⟨henqueued, herror⟩ := ih (x := { x with
        opened := opened, reassembler := .new, queueDropped := x.queueDropped + 1 }) hended rfl
      exact ⟨henqueued, herror⟩
    | closed =>
      have hclosed : ({ x with opened := opened, reassembler := .new }.tryEnqueue p.1
          .closed).ended ≠ none := by
        intro hnone
        cases hnone
      rw [readFragments_of_ended sends hclosed]
      refine ⟨(List.append_nil _).symm, fun e he => ?_⟩
      cases he

end Connection

/-! ## The theorem -/

namespace Connection

/-- What arrives on the link: frames, all let through, and the cells in them. -/
def runFrames (A : Aead) (cfg : InboundConfig) (sends : ℕ → TrySend) (x : Connection)
    (received : List (List UInt8 × Cell)) : Connection :=
  received.foldl (fun x r => x.onFrame A cfg r.1 true (sends x.offered)) x

/-- **Control cells and cover never disturb reassembly.**  Cells arrive that are the fragments
of packets, each packet complete and in order, with any control and cover cells in between.
The loop does not end with an error, and what it enqueues are the packets, in order, that find
room in the queue: all of them if it has room for all.  No fragment of a packet is taken for
cover. -/
theorem enqueued_of_interleave {ρ : Type} (C : Suite ρ) (A : Aead) (cfg : InboundConfig)
    (sends : ℕ → TrySend) (packets : List (SphinxPacket × PacketId))
    (fragments control received : List (List UInt8 × Cell))
    (hfragments : fragments.map Prod.snd = packets.flatMap fun p => fragment p.1 p.2)
    (hcontrol : ∀ r ∈ control, IsControl C r.2)
    (hreceived : Run.Interleave fragments control received)
    (hopen : ∀ r ∈ received, cfg.sessionKey.openFrame A r.1 = .ok r.2) :
    (∀ e, (start.runFrames A cfg sends received).ended ≠ some (.error e)) ∧
      (start.runFrames A cfg sends received).enqueued =
        accepted sends 0 (packets.map Prod.fst) ∧
      ((∀ n, sends n = .sent) →
        (start.runFrames A cfg sends received).enqueued = packets.map Prod.fst) ∧
      ∀ packet packetId, ∀ cell ∈ fragment packet packetId, isDiscardCoverFragment cell = false := by
  have hcell : ∀ r ∈ fragments, ∃ packetId index packet,
      r.2 = encodeFragmentCell packetId index packet := by
    intro r hr
    have hmem : r.2 ∈ packets.flatMap fun p => fragment p.1 p.2 :=
      hfragments ▸ List.mem_map_of_mem hr
    obtain ⟨p, -, hcell⟩ := List.mem_flatMap.mp hmem
    obtain ⟨i, -, hi⟩ := List.mem_map.mp hcell
    exact ⟨p.2, UInt8.ofNat i, p.1, hi.symm⟩
  have hsame : SameQueue (start.runFrames A cfg sends received)
      (start.readFragments sends (packets.flatMap fun p => fragment p.1 p.2)) := by
    rw [← hfragments]
    unfold runFrames readFragments
    rw [List.foldl_map]
    refine hreceived.foldl_rel SameQueue (fun r hr x y hxy => ?_) (fun r hr x y hxy => ?_)
      ⟨rfl, rfl, rfl, rfl⟩
    · obtain ⟨packetId, index, packet, heq⟩ := hcell r hr
      have hfragment := hopen r (hreceived.mem.mpr (Or.inl hr))
      rw [heq] at hfragment ⊢
      rw [onFrame_of_fragment hfragment, hxy.offered]
      exact hxy.readFragment _ _
    · exact hxy.onFrame_of_control (hopen r (hreceived.mem.mpr (Or.inr hr))) (hcontrol r hr) _
  obtain ⟨henqueued, herror⟩ := readFragments_packets sends (x := start) rfl rfl packets
  have hall : (start.runFrames A cfg sends received).enqueued =
      accepted sends 0 (packets.map Prod.fst) := hsame.enqueued.trans henqueued
  refine ⟨fun e he => herror e (hsame.ended ▸ he), hall, fun hsent => ?_, ?_⟩
  · rw [hall, accepted_of_sent hsent]
  · intro packet packetId cell hmem
    obtain ⟨i, -, rfl⟩ := List.mem_map.mp hmem
    exact isDiscardCoverFragment_encodeFragmentCell packetId (UInt8.ofNat i) packet

/-- Every cell travels in some frame. -/
theorem exists_frame_checksum (cell : Cell) :
    ∃ frame, checksumConfig.sessionKey.openFrame checksumAead frame = .ok cell := by
  obtain ⟨frame, rng', hseal⟩ := LinkKey.sealCell_ok (C := checksumSuite)
    checksumAead_correct checksumConfig.sessionKey cell 17
  exact ⟨frame, (LinkKey.openFrame_of_sealCell checksumAead_correct _ _ _ hseal).2⟩

/-- A packet whose fragments come with a cell of an unknown command among them. -/
theorem enqueued_of_interleave_checksum :
    ∃ received : List (List UInt8 × Cell), received.length = 19 ∧
      (start.runFrames checksumAead checksumConfig (fun _ => .sent) received).enqueued =
        [Bytes.zero sphinxPacketLen] := by
  choose frame hframe using exists_frame_checksum
  let fragments := (fragment (Bytes.zero sphinxPacketLen) (Bytes.zero 8)).map fun c => (frame c, c)
  let unknown : List UInt8 × Cell := (frame (Bytes.zero cellLen), Bytes.zero cellLen)
  have hopen : ∀ r ∈ fragments.take 9 ++ unknown :: fragments.drop 9,
      checksumConfig.sessionKey.openFrame checksumAead r.1 = .ok r.2 := by
    intro r hr
    rcases List.mem_append.mp hr with hr | hr
    · obtain ⟨c, -, rfl⟩ := List.mem_map.mp (List.mem_of_mem_take hr)
      exact hframe c
    · rcases List.mem_cons.mp hr with rfl | hr
      · exact hframe _
      · obtain ⟨c, -, rfl⟩ := List.mem_map.mp (List.mem_of_mem_drop hr)
        exact hframe c
  have hreceived := (Run.Interleave.of_left (fragments.take 9)).append
    (.right (i := unknown) (.of_left (fragments.drop 9)))
  rw [List.take_append_drop, List.nil_append] at hreceived
  refine ⟨_, ?_, (enqueued_of_interleave checksumSuite checksumAead checksumConfig (fun _ => .sent)
    [(Bytes.zero sphinxPacketLen, Bytes.zero 8)] fragments [unknown] _ ?_ ?_ hreceived
    hopen).2.2.1 fun _ => rfl⟩
  · simp [fragments, fragment, sphinxFragmentCount_eq]
  · simp [fragments, Function.comp_def]
  · intro r hr
    obtain rfl := List.mem_singleton.mp hr
    exact Or.inl (show Command.fromU8 ((Bytes.zero cellLen).byte 0 (by decide)) ≠ _ by decide)

end Connection

end Aegis
