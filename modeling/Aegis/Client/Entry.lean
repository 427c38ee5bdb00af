import Aegis.Client.Delivery
import Aegis.Relay.ControlCells

/-!
# From a paced session to the entry relay (`session.rs`, `tcp_transport.rs`, `net.rs`)

What the driver of a session emits, real cells and dummies, is sealed cell by cell on one link, and
the entry relay reads it frame by frame.  A call of `enqueue_packet` that finds the channel full has
put the first cells of its packet in it already.

* `readFragments_calls` — what the cells of a series of calls come to at the relay.
* `sameQueue_readAll` — the dummies between them do nothing.
* `entry_of_run` — **the relay queues exactly the packets whose fragments have been sent**, up to
  the first call that was refused halfway; the cell after that one's breaks the link.
-/

namespace Aegis

open Buffer

/-! ## The link -/

section Link

variable {ρ : Type} (C : Suite ρ) (A : Aead)

/-- `send_outbound` of one cell after another: the frames on the link. -/
def sendOutbound (key : LinkKey) : List Cell → ρ → Except CryptoError (List (List UInt8))
  | [], _ => .ok []
  | cell :: cells, rng =>
    match key.sealCell C A cell rng with
    | (.error e, _) => .error e
    | (.ok frame, rng) => (sendOutbound key cells rng).map (frame :: ·)

variable {C A}

/-- **What was sealed is opened**, frame by frame. -/
theorem opened_of_sendOutbound (hA : A.Correct) {key : LinkKey} {cells : List Cell} {rng : ρ}
    {frames : List (List UInt8)} (h : sendOutbound C A key cells rng = .ok frames) :
    List.Forall₂ (fun frame cell => key.openFrame A frame = .ok cell) frames cells := by
  induction cells generalizing rng frames with
  | nil =>
    obtain rfl := Except.ok.inj h
    exact .nil
  | cons cell cells ih =>
    rw [sendOutbound] at h
    split at h
    · cases h
    · rename_i frame rng' hseal
      cases hrest : sendOutbound C A key cells rng' with
      | error e =>
        rw [hrest] at h
        cases h
      | ok rest =>
        rw [hrest] at h
        obtain rfl := Except.ok.inj h
        exact .cons (LinkKey.openFrame_of_sealCell hA _ _ _ hseal).2 (ih hrest)

end Link

namespace Connection

/-- The relay reads frames that the limiter lets through; try number `n` on the queue finds
`sends n`. -/
def readAll (A : Aead) (cfg : InboundConfig) (sends : ℕ → TrySend) (x : Connection)
    (frames : List (List UInt8)) : Connection :=
  frames.foldl (fun x frame => x.onFrame A cfg frame true (sends x.offered)) x

/-- **Dummies do nothing**: the relay does what it would do had it been sent the real cells only. -/
theorem sameQueue_readAll {A : Aead} {cfg : InboundConfig} (sends : ℕ → TrySend)
    {frames : List (List UInt8)} {cells : List Cell}
    (hopen : List.Forall₂ (fun frame cell => cfg.sessionKey.openFrame A frame = .ok cell) frames
      cells)
    (hreal : ∀ cell ∈ realCells cells, ∃ packetId index packet,
      cell = encodeFragmentCell packetId index packet)
    {x y : Connection} (h : SameQueue x y) :
    SameQueue (x.readAll A cfg sends frames) (y.readFragments sends (realCells cells)) := by
  induction hopen generalizing x y with
  | nil => exact h
  | @cons frame cell frames cells hcell _ ih =>
    cases hdummy : isDummy cell with
    | true =>
      have hskip : realCells (cell :: cells) = realCells cells := by
        simp [realCells, hdummy]
      rw [hskip] at hreal ⊢
      refine ih hreal (h.onFrame_of_control (C := checksumSuite) hcell (Or.inl ?_) _)
      have hbyte : cell.byte 0 zero_lt_cellLen = Command.drop.toU8 := of_decide_eq_true hdummy
      rw [hbyte]
      decide
    | false =>
      have hkeep : realCells (cell :: cells) = cell :: realCells cells := by
        simp [realCells, hdummy]
      rw [hkeep] at hreal ⊢
      obtain ⟨packetId, index, packet, rfl⟩ := hreal cell List.mem_cons_self
      refine ih (fun cell' hmem => hreal cell' (List.mem_cons_of_mem _ hmem)) ?_
      show SameQueue (x.onFrame A cfg frame true (sends x.offered)) (y.readFragment _ _)
      rw [onFrame_of_fragment hcell, h.offered]
      exact h.readFragment _ _

/-! ## The beginning of a packet -/

/-- The first fragments of a packet are collected. -/
theorem readFragments_collecting (sends : ℕ → TrySend) {packetId : PacketId} {packet : SphinxPacket}
    {x : Connection} {k m : ℕ} (hended : x.ended = none)
    (h : x.reassembler.Collecting packetId packet k) (hm : k + m < sphinxFragmentCount) :
    ∃ opened r, x.readFragments sends ((List.range' k m).map fun i =>
        encodeFragmentCell packetId (UInt8.ofNat i) packet) =
      { x with opened := opened, reassembler := r } ∧ r.Collecting packetId packet (k + m) := by
  induction m generalizing x k with
  | zero => exact ⟨x.opened, x.reassembler, rfl, h⟩
  | succ m ih =>
    obtain ⟨r', hpush, hnext⟩ := h.push (by omega)
    have hread : x.readFragment (encodeFragmentCell packetId (UInt8.ofNat k) packet)
        (sends x.offered) = { x with opened := x.opened ++ [_], reassembler := r' } :=
      readFragment_of_none hended hpush
    obtain ⟨opened, r, hrest, hcollecting⟩ :=
      ih (x := { x with opened := x.opened ++ [_], reassembler := r' }) hended hnext (by omega)
    refine ⟨opened, r, ?_, by rwa [Nat.add_right_comm] at hcollecting⟩
    rw [List.range'_succ, List.map_cons]
    unfold readFragments at hrest ⊢
    rw [List.foldl_cons, hread, hrest]

end Connection

/-- **A first fragment in the middle of a packet** is refused. -/
theorem SphinxReassembler.Collecting.push_first {packetId : PacketId} {packet : SphinxPacket}
    {k : ℕ} {r : SphinxReassembler} (h : r.Collecting packetId packet k) (hk : 0 < k)
    (packetId' : PacketId) (packet' : SphinxPacket) :
    ∃ e r', r.push (encodeFragmentCell packetId' 0 packet') = (.error e, r') := by
  have hne : (0 : UInt8) ≠ r.expectedIndex := by
    intro heq
    have hindex := h.index
    rw [← heq] at hindex
    exact hk.ne' hindex.symm
  rw [push_encode r packetId' packet' (by decide)]
  split_ifs
  · exact ⟨_, _, rfl⟩
  · exact ⟨_, _, rfl⟩

/-! ## A series of calls -/

namespace EnqueueCall

/-- The cells that calls have put in the channel. -/
def stream (calls : List EnqueueCall) : List Cell := (calls.map placed).flatten

/-- The packets that have been put in the channel as a whole, up to the first of which only some
cells have. -/
def wholePackets : List EnqueueCall → List SphinxPacket
  | [] => []
  | call :: calls =>
    if call.rest = [] then call.packet :: wholePackets calls
    else if call.placed = [] then wholePackets calls
    else []

/-- How many cells there are up to the end of the first packet of which only some are there. -/
def intact : List EnqueueCall → ℕ
  | [] => 0
  | call :: calls =>
    if call.rest = [] ∨ call.placed = [] then call.placed.length + intact calls
    else call.placed.length

theorem stream_cons (call : EnqueueCall) (calls : List EnqueueCall) :
    stream (call :: calls) = call.placed ++ stream calls := by
  unfold stream
  rw [List.map_cons, List.flatten_cons]

/-- What has been placed are the first fragments. -/
theorem placed_eq (call : EnqueueCall) :
    call.placed = (List.range' 0 call.placed.length).map fun i =>
      encodeFragmentCell call.packetId (UInt8.ofNat i) call.packet := by
  have hprefix := congrArg (List.take call.placed.length) call.whole
  rw [List.take_left, fragment, ← List.map_take, List.take_range] at hprefix
  have hle : call.placed.length ≤ sphinxFragmentCount := by
    have hlength := congrArg List.length call.whole
    rw [PacedSession.length_fragment, List.length_append] at hlength
    omega
  rw [Nat.min_eq_left hle, List.range_eq_range'] at hprefix
  exact hprefix

/-- A packet of which a cell is left is not whole. -/
theorem length_placed_lt {call : EnqueueCall} (h : call.rest ≠ []) :
    call.placed.length < sphinxFragmentCount := by
  have hlength := congrArg List.length call.whole
  rw [PacedSession.length_fragment, List.length_append] at hlength
  have hpos := List.length_pos_iff.mpr h
  omega

theorem placed_of_rest_eq_nil {call : EnqueueCall} (h : call.rest = []) :
    call.placed = fragment call.packet call.packetId := by
  have hwhole := call.whole
  rwa [h, List.append_nil] at hwhole

/-- The cells of a series of calls are fragments. -/
theorem mem_stream {calls : List EnqueueCall} {cell : Cell} (h : cell ∈ stream calls) :
    ∃ packetId index packet, cell = encodeFragmentCell packetId index packet := by
  unfold stream at h
  obtain ⟨placed, hplaced, hcell⟩ := List.mem_flatten.mp h
  obtain ⟨call, -, rfl⟩ := List.mem_map.mp hplaced
  rw [placed_eq] at hcell
  obtain ⟨i, -, rfl⟩ := List.mem_map.mp hcell
  exact ⟨_, _, _, rfl⟩

/-- The first of them is the first of its packet. -/
theorem stream_eq_cons {calls : List EnqueueCall} (h : stream calls ≠ []) :
    ∃ packetId packet cells, stream calls = encodeFragmentCell packetId 0 packet :: cells := by
  induction calls with
  | nil => exact absurd rfl h
  | cons call calls ih =>
    rw [stream_cons] at h ⊢
    by_cases hplaced : call.placed = []
    · rw [hplaced, List.nil_append] at h ⊢
      exact ih h
    · obtain ⟨m, hm⟩ := Nat.exists_eq_succ_of_ne_zero (List.length_pos_iff.mpr hplaced).ne'
      rw [placed_eq, hm, List.range'_succ, List.map_cons, List.cons_append]
      exact ⟨_, _, _, rfl⟩

end EnqueueCall

namespace Connection

open EnqueueCall

/-- What has been read of a series of calls, `n` cells of them: the packets that are complete have
been tried on the queue, and the connection is up unless a cell behind a half packet was read. -/
structure Read (sends : ℕ → TrySend) (calls : List EnqueueCall) (n : ℕ) (x y : Connection) :
    Prop where
  enqueued : y.enqueued = x.enqueued ++
    accepted sends x.offered ((wholePackets calls).take (n / sphinxFragmentCount))
  up : y.ended = none ↔ n ≤ intact calls
  broken : ∀ r, y.ended = some r → ∃ e, r = .error (.fragment e)

theorem readFragments_append (sends : ℕ → TrySend) (x : Connection) (cells cells' : List Cell) :
    x.readFragments sends (cells ++ cells') =
      (x.readFragments sends cells).readFragments sends cells' := List.foldl_append

/-- The beginning of a packet is collected, and nothing is tried on the queue. -/
theorem Read.begun (sends : ℕ → TrySend) {x : Connection} (hended : x.ended = none)
    (hnew : x.reassembler = .new) {call : EnqueueCall} (calls : List EnqueueCall) {n : ℕ}
    (hplaced : n ≤ call.placed.length) (hn : n < sphinxFragmentCount) :
    Read sends (call :: calls) n x (x.readFragments sends (call.placed.take n)) ∧
      (x.readFragments sends (call.placed.take n)).reassembler.Collecting call.packetId
        call.packet n := by
  obtain ⟨opened, r, hread, hcollecting⟩ := readFragments_collecting sends (m := n) hended
    (hnew ▸ SphinxReassembler.collecting_new call.packetId call.packet) (by omega)
  have htake : call.placed.take n = (List.range' 0 n).map fun i =>
      encodeFragmentCell call.packetId (UInt8.ofNat i) call.packet := by
    rw [placed_eq, ← List.map_take, List.take_range'_of_length_ge hplaced]
  rw [htake, hread]
  rw [Nat.zero_add] at hcollecting
  refine ⟨⟨?_, iff_of_true hended ?_, fun r hr => absurd (hended.symm.trans hr) nofun⟩,
    hcollecting⟩
  · rw [Nat.div_eq_of_lt hn, List.take_zero]
    exact (List.append_nil _).symm
  · unfold intact
    split_ifs
    · omega
    · exact hplaced

theorem ended_tryEnqueue {x : Connection} {send : TrySend} (h : send ≠ .closed)
    (packet : SphinxPacket) : (x.tryEnqueue packet send).ended = x.ended := by
  cases send with
  | sent | full => rfl
  | closed => exact absurd rfl h

/-- A packet is tried before the others. -/
theorem enqueued_tryEnqueue {sends : ℕ → TrySend} (hsends : ∀ n, sends n ≠ .closed)
    {x : Connection} (packet : SphinxPacket) (packets : List SphinxPacket) :
    (x.tryEnqueue packet (sends x.offered)).enqueued ++
        accepted sends (x.tryEnqueue packet (sends x.offered)).offered packets =
      x.enqueued ++ accepted sends x.offered (packet :: packets) := by
  rw [accepted]
  cases hsend : sends x.offered with
  | sent =>
    have hoffered : (x.tryEnqueue packet .sent).offered = x.offered + 1 := by
      simp [offered, tryEnqueue, Nat.add_right_comm]
    rw [hoffered]
    simp [tryEnqueue]
  | full => rfl
  | closed => exact absurd hsend (hsends _)

/-- A whole packet is tried on the queue, and the others are read behind it. -/
theorem Read.whole {sends : ℕ → TrySend} (hsends : ∀ n, sends n ≠ .closed) {x : Connection}
    (hended : x.ended = none) (hnew : x.reassembler = .new) {call : EnqueueCall}
    (hrest : call.rest = []) {calls : List EnqueueCall} {n : ℕ}
    (ih : ∀ x' : Connection, x'.ended = none → x'.reassembler = .new →
      Read sends calls n x' (x'.readFragments sends ((stream calls).take n))) :
    Read sends (call :: calls) (sphinxFragmentCount + n) x
      (x.readFragments sends (call.placed ++ (stream calls).take n)) := by
  have hplaced := placed_of_rest_eq_nil hrest
  obtain ⟨opened, hfirst⟩ := foldl_fragment sends hended hnew call.packet call.packetId
  have hintact : intact (call :: calls) = sphinxFragmentCount + intact calls := by
    rw [intact, if_pos (Or.inl hrest), hplaced, PacedSession.length_fragment]
  have hpackets : (wholePackets (call :: calls)).take
      ((sphinxFragmentCount + n) / sphinxFragmentCount) =
        call.packet :: (wholePackets calls).take (n / sphinxFragmentCount) := by
    rw [wholePackets, if_pos hrest, Nat.add_div_left n (by decide), List.take_succ_cons]
  obtain ⟨henqueued, hup, hbroken⟩ := ih
    ({ x with opened := opened, reassembler := .new }.tryEnqueue call.packet (sends x.offered))
    (by rw [ended_tryEnqueue (hsends _)]; exact hended) (tryEnqueue_reassembler _)
  rw [readFragments_append, hplaced, hfirst]
  refine ⟨?_, ?_, hbroken⟩
  · rw [hpackets, henqueued]
    exact enqueued_tryEnqueue (x := { x with opened := opened, reassembler := .new }) hsends _ _
  · rw [hup, hintact]
    omega

/-- A fragment that is refused ends the loop. -/
theorem readFragments_of_error (sends : ℕ → TrySend) {x : Connection} (hended : x.ended = none)
    {cell : Cell} {e : FragmentError} {r : SphinxReassembler}
    (h : x.reassembler.push cell = (.error e, r)) (cells : List Cell) :
    x.readFragments sends (cell :: cells) =
      { x with
        opened := x.opened ++ [cell]
        reassembler := r
        ended := some (.error (.fragment e)) } := by
  have hsplit : x.readFragments sends (cell :: cells) =
      (x.readFragment cell (sends x.offered)).readFragments sends cells := rfl
  rw [hsplit, readFragment_of_error hended h]
  exact readFragments_of_ended sends (by simp) cells

/-- Behind half a packet the link breaks. -/
theorem Read.half {sends : ℕ → TrySend} {x : Connection} (hended : x.ended = none)
    (hnew : x.reassembler = .new) {call : EnqueueCall} (hrest : call.rest ≠ [])
    (hplaced : call.placed ≠ []) {calls : List EnqueueCall} {n : ℕ}
    (hgt : call.placed.length < n) (hn : n ≤ call.placed.length + (stream calls).length) :
    Read sends (call :: calls) n x
      (x.readFragments sends ((call.placed ++ stream calls).take n)) := by
  have hlt := length_placed_lt hrest
  obtain ⟨hbegun, hcollecting⟩ := Read.begun sends hended hnew calls le_rfl hlt
  rw [List.take_length] at hbegun hcollecting
  obtain ⟨m, rfl⟩ := Nat.exists_eq_add_of_lt hgt
  have hne : stream calls ≠ [] := List.length_pos_iff.mp (by omega)
  obtain ⟨packetId, packet, cells, hcells⟩ := stream_eq_cons hne
  have hintact : intact (call :: calls) = call.placed.length := by
    rw [intact, if_neg (by simp [hrest, hplaced])]
  have hpackets : wholePackets (call :: calls) = [] := by
    rw [wholePackets, if_neg hrest, if_neg hplaced]
  obtain ⟨e, r', hpush⟩ :=
    hcollecting.push_first (List.length_pos_iff.mpr hplaced) packetId packet
  have hcut : (call.placed ++ stream calls).take (call.placed.length + m + 1) =
      call.placed ++ encodeFragmentCell packetId 0 packet :: cells.take m := by
    rw [List.take_append, List.take_of_length_le (by omega), hcells]
    have hm : call.placed.length + m + 1 - call.placed.length = m + 1 := by omega
    rw [hm, List.take_succ_cons]
  have henqueued := hbegun.enqueued
  rw [hpackets, List.take_nil] at henqueued
  rw [hcut, readFragments_append,
    readFragments_of_error sends (hbegun.up.mpr hintact.ge) hpush]
  refine ⟨?_, iff_of_false nofun (by omega), ?_⟩
  · rw [hpackets, List.take_nil]
    exact henqueued
  · intro r hr
    exact ⟨e, (Option.some.inj hr).symm⟩

/-- **A series of calls at the relay.** -/
theorem readFragments_calls {sends : ℕ → TrySend} (hsends : ∀ n, sends n ≠ .closed)
    (calls : List EnqueueCall) {n : ℕ} (hn : n ≤ (stream calls).length) {x : Connection}
    (hended : x.ended = none) (hnew : x.reassembler = .new) :
    Read sends calls n x (x.readFragments sends ((stream calls).take n)) := by
  induction calls generalizing n x with
  | nil =>
    obtain rfl : n = 0 := Nat.le_zero.mp hn
    exact ⟨by simp [readFragments, accepted, wholePackets], iff_of_true hended (Nat.zero_le _),
      fun r hr => absurd (hended.symm.trans hr) nofun⟩
  | cons call calls ih =>
    rw [stream_cons, List.length_append] at hn
    rw [stream_cons]
    by_cases hrest : call.rest = []
    · have hlength : call.placed.length = sphinxFragmentCount := by
        rw [placed_of_rest_eq_nil hrest, PacedSession.length_fragment]
      rcases Nat.lt_or_ge n sphinxFragmentCount with hlt | hge
      · rw [List.take_append_of_le_length (by omega)]
        exact (Read.begun sends hended hnew calls (by omega) hlt).1
      · obtain ⟨n, rfl⟩ := Nat.exists_eq_add_of_le hge
        rw [List.take_append, hlength, List.take_of_length_le (by omega), Nat.add_sub_cancel_left]
        exact Read.whole hsends hended hnew hrest fun x' hended' hnew' =>
          ih (by omega) hended' hnew'
    by_cases hplaced : call.placed = []
    · rw [hplaced, List.nil_append]
      rw [hplaced, List.length_nil, Nat.zero_add] at hn
      obtain ⟨henqueued, hup, hbroken⟩ := ih hn hended hnew
      refine ⟨?_, ?_, hbroken⟩
      · rw [wholePackets, if_neg hrest, if_pos hplaced, henqueued]
      · rw [intact, if_pos (Or.inr hplaced), hplaced, List.length_nil, Nat.zero_add, hup]
    -- half a packet: what comes behind it is the first fragment of another one
    have hlt := length_placed_lt hrest
    rcases Nat.lt_or_ge call.placed.length n with hgt | hle
    · exact Read.half hended hnew hrest hplaced hgt hn
    · rw [List.take_append_of_le_length hle]
      exact (Read.begun sends hended hnew calls hle (by omega)).1

end Connection

/-! ## The session and the relay -/

namespace PacedSession

open EnqueueCall Connection

variable {ρ : Type}

/-- The calls there have been, in order. -/
def attempts (s : PacedSession ρ) : List EnqueueCall := s.returned.map EnqueueReturn.call ++ s.calls

/-- The packet, if the call has returned `Ok`. -/
def acceptedPacket (r : EnqueueReturn) : Option SphinxPacket :=
  match r.result with
  | .ok _ => some r.call.packet
  | .error _ => none

/-- The call was refused at once, or not at all. -/
def NotHalfway (r : EnqueueReturn) : Prop := r.result = .ok () ∨ r.call.placed = []

theorem rest_eq_nil_of_placed_eq {call : EnqueueCall}
    (h : call.placed = fragment call.packet call.packetId) : call.rest = [] := by
  have hwhole := call.whole
  rw [h] at hwhole
  exact List.append_right_eq_self.mp hwhole

theorem rest_ne_nil_of_placed_eq_nil {call : EnqueueCall} (h : call.placed = []) :
    call.rest ≠ [] := by
  intro hrest
  have hlength := congrArg List.length call.whole
  rw [h, hrest, length_fragment] at hlength
  exact absurd hlength (by decide)

/-- A call that has returned has put a whole packet in the channel, and was accepted, or nothing. -/
theorem acceptedPacket_cases {r : EnqueueReturn}
    (hwhole : r.result = .ok () → r.call.placed = fragment r.call.packet r.call.packetId)
    (hnone : NotHalfway r) :
    (acceptedPacket r = some r.call.packet ∧
        r.call.placed = fragment r.call.packet r.call.packetId) ∨
      (acceptedPacket r = none ∧ r.call.placed = []) := by
  unfold acceptedPacket
  cases hresult : r.result with
  | ok _ => exact Or.inl ⟨rfl, hwhole hresult⟩
  | error e =>
    rcases hnone with hok | hplaced
    · rw [hresult] at hok
      cases hok
    · exact Or.inr ⟨rfl, hplaced⟩

/-- **Without a call that was refused halfway** the packets that are there as a whole are those
accepted, and everything is intact. -/
theorem attempts_of_notHalfway {returned : List EnqueueReturn} (calls : List EnqueueCall)
    (hwhole : ∀ r ∈ returned, r.result = .ok () →
      r.call.placed = fragment r.call.packet r.call.packetId)
    (hnone : ∀ r ∈ returned, NotHalfway r) :
    wholePackets (returned.map EnqueueReturn.call ++ calls) =
        returned.filterMap acceptedPacket ++ wholePackets calls ∧
      intact (returned.map EnqueueReturn.call ++ calls) =
        (stream (returned.map EnqueueReturn.call)).length + intact calls := by
  induction returned with
  | nil => exact ⟨rfl, (Nat.zero_add _).symm⟩
  | cons r returned ih =>
    obtain ⟨hpackets, hintact⟩ := ih (fun r' h => hwhole r' (List.mem_cons_of_mem _ h))
      (fun r' h => hnone r' (List.mem_cons_of_mem _ h))
    rw [List.map_cons, List.cons_append, stream_cons, List.length_append, wholePackets, intact,
      hpackets, hintact, Nat.add_assoc]
    rcases acceptedPacket_cases (hwhole r List.mem_cons_self) (hnone r List.mem_cons_self) with
      ⟨haccepted, hplaced⟩ | ⟨haccepted, hplaced⟩
    · have hrest := rest_eq_nil_of_placed_eq hplaced
      rw [if_pos hrest, if_pos (Or.inl hrest), List.filterMap_cons_some haccepted]
      exact ⟨rfl, rfl⟩
    · rw [if_neg (rest_ne_nil_of_placed_eq_nil hplaced), if_pos hplaced, if_pos (Or.inr hplaced),
        List.filterMap_cons_none haccepted]
      exact ⟨rfl, rfl⟩

/-- A call in progress is intact as far as it goes. -/
theorem intact_of_length_le_one {calls : List EnqueueCall} (h : calls.length ≤ 1) :
    intact calls = (stream calls).length := by
  match calls, h with
  | [], _ => rfl
  | [call], _ =>
    rw [stream_cons, List.length_append, intact]
    split_ifs <;> rfl

/-- Accepted packets fill the stream, 18 cells each. -/
theorem length_stream_of_notHalfway {returned : List EnqueueReturn}
    (hwhole : ∀ r ∈ returned, r.result = .ok () →
      r.call.placed = fragment r.call.packet r.call.packetId)
    (hnone : ∀ r ∈ returned, NotHalfway r) :
    (stream (returned.map EnqueueReturn.call)).length =
      sphinxFragmentCount * (returned.filterMap acceptedPacket).length := by
  induction returned with
  | nil => rfl
  | cons r returned ih =>
    have hrest := ih (fun r' h => hwhole r' (List.mem_cons_of_mem _ h))
      (fun r' h => hnone r' (List.mem_cons_of_mem _ h))
    rw [List.map_cons, stream_cons, List.length_append, hrest]
    rcases acceptedPacket_cases (hwhole r List.mem_cons_self) (hnone r List.mem_cons_self) with
      ⟨haccepted, hplaced⟩ | ⟨haccepted, hplaced⟩
    · rw [hplaced, length_fragment, List.filterMap_cons_some haccepted, List.length_cons,
        Nat.mul_add_one, Nat.add_comm]
    · rw [hplaced, List.filterMap_cons_none haccepted, List.length_nil, Nat.zero_add]

/-- **What the entry relay gets of a paced session**, in every orderly run and at every moment of
it: the driver's cells are sealed on a link of their own, and the relay reads them with nothing refused.
The relay has queued the packets whose 18 fragments have been sent, in order, as far as its queue
had room, and the dummies have done nothing.  The link is up unless a cell was sent behind a packet
that was refused halfway.  If none was, the link is up, and once the queues are drained the relay
has been offered exactly the packets that were accepted. -/
theorem entry_of_run (C : Suite ρ) {A : Aead} (hA : A.Correct) {config : PacedSessionConfig}
    {rng : ρ} {s : PacedSession ρ} (hstart : startWithTransport config rng = some s)
    {events : List (SessionEvent ρ)} (horderly : Run.Guarded (step C) Orderly s events)
    (hheld : (run C s events).handle = .held) (cfg : InboundConfig) {sends : ℕ → TrySend}
    (hsends : ∀ n, sends n ≠ .closed) {linkRng : ρ} {frames : List (List UInt8)}
    (hsealed : sendOutbound C A cfg.sessionKey (run C s events).wire linkRng = .ok frames) :
    let t := run C s events
    let sent := (realCells t.wire).length
    let x := Connection.start.readAll A cfg sends frames
    x.enqueued = accepted sends 0 ((wholePackets t.attempts).take (sent / sphinxFragmentCount)) ∧
      (x.ended = none ↔ sent ≤ intact t.attempts) ∧
      (∀ r, x.ended = some r → ∃ e, r = .error (.fragment e)) ∧
      ((∀ r ∈ t.returned, NotHalfway r) → x.ended = none ∧
        (t.calls = [] → t.emitter.cellQueue = [] → t.channel = [] →
          x.enqueued = accepted sends 0 (t.returned.filterMap acceptedPacket))) := by
  dsimp only
  have hdelivering := delivering_of_run hstart horderly
  obtain ⟨hwhole, horder⟩ := hdelivering.delivered hheld
  have halone := hdelivering.alone
  generalize run C s events = t at *
  have hstream : realCells t.wire ++ (t.emitter.cellQueue ++ t.channel) = stream t.attempts := by
    rw [← List.append_assoc, horder]
    unfold stream attempts
    rw [List.map_append, List.map_map, List.flatten_append]
    rfl
  have hcells : realCells t.wire = (stream t.attempts).take (realCells t.wire).length := by
    rw [← hstream, List.take_left]
  have hlength : (realCells t.wire).length ≤ (stream t.attempts).length := by
    rw [← hstream, List.length_append]
    exact Nat.le_add_right _ _
  have hsame := sameQueue_readAll sends (opened_of_sendOutbound hA hsealed)
    (fun cell hcell => mem_stream (List.mem_of_mem_take (hcells ▸ hcell)))
    (x := Connection.start) (y := Connection.start) ⟨rfl, rfl, rfl, rfl⟩
  rw [hcells] at hsame
  have hread := readFragments_calls hsends t.attempts hlength (x := Connection.start) rfl rfl
  have henqueued := hsame.enqueued.trans hread.enqueued
  have hup := hread.up
  rw [← hsame.ended] at hup
  refine ⟨henqueued, hup, ?_, ?_⟩
  · intro r hr
    exact hread.broken r (hsame.ended ▸ hr)
  · intro hnone
    obtain ⟨hpackets, hintact⟩ := attempts_of_notHalfway t.calls hwhole hnone
    have hall : intact t.attempts = (stream t.attempts).length := by
      show intact (t.returned.map EnqueueReturn.call ++ t.calls) = _
      rw [hintact, intact_of_length_le_one halone]
      unfold attempts stream
      rw [List.map_append, List.flatten_append, List.length_append]
    refine ⟨hup.mpr (hall ▸ hlength), fun hcalls hqueue hchannel => ?_⟩
    have hsent : (realCells t.wire).length =
        sphinxFragmentCount * (t.returned.filterMap acceptedPacket).length := by
      rw [hqueue, hchannel, List.append_nil, List.append_nil] at hstream
      rw [hstream, ← length_stream_of_notHalfway hwhole hnone]
      unfold attempts
      rw [hcalls, List.append_nil]
    have hpackets' : wholePackets t.attempts = t.returned.filterMap acceptedPacket := by
      show wholePackets (t.returned.map EnqueueReturn.call ++ t.calls) = _
      rw [hpackets, hcalls, wholePackets, List.append_nil]
    rw [henqueued, hpackets', hsent, Nat.mul_div_cancel_left _ (by decide), List.take_length]
    rfl

/-- Every cell is sealed. -/
theorem sendOutbound_checksum (key : LinkKey) (cells : List Cell) (rng : UInt8) :
    ∃ frames, sendOutbound checksumSuite checksumAead key cells rng = .ok frames := by
  induction cells generalizing rng with
  | nil => exact ⟨[], rfl⟩
  | cons cell cells ih =>
    obtain ⟨frame, rng', hseal⟩ :=
      LinkKey.sealCell_ok (C := checksumSuite) checksumAead_correct key cell rng
    obtain ⟨frames, hrest⟩ := ih rng'
    refine ⟨frame :: frames, ?_⟩
    rw [sendOutbound, hseal]
    simp only [hrest]
    rfl

/-- A call that finds the channel full behind its first cell, which is then sent. -/
def halfwayCall (packet : SphinxPacket) (rng : UInt8) : List (SessionEvent UInt8) :=
  [.enqueuePacket packet rng, .trySend 0, .trySend 0, .recv, .tick true 0 0]

/-- **With a channel of one cell** two such calls are an orderly run, which sends a cell of each. -/
theorem halfway_of_run {s : PacedSession UInt8}
    (hstart : startWithTransport ⟨⟨1⟩, 0⟩ (0 : UInt8) = some s) :
    let events := halfwayCall (Bytes.zero sphinxPacketLen) 0 ++
      halfwayCall (Bytes.zero sphinxPacketLen) 0
    Run.Guarded (step checksumSuite) Orderly s events ∧
      (run checksumSuite s events).handle = .held ∧
      (realCells (run checksumSuite s events).wire).length = 2 ∧
      intact (run checksumSuite s events).attempts = 1 ∧
      wholePackets (run checksumSuite s events).attempts = [] := by
  intro events
  have hwire : ∃ packetId packetId', (run checksumSuite s events).wire =
      [encodeFragmentCell packetId (UInt8.ofNat 0) (Bytes.zero sphinxPacketLen),
        encodeFragmentCell packetId' (UInt8.ofNat 0) (Bytes.zero sphinxPacketLen)] := by
    obtain rfl := Option.some.inj hstart
    exact ⟨_, _, rfl⟩
  have hsent : (realCells (run checksumSuite s events).wire).length = 2 := by
    obtain ⟨packetId, packetId', hcells⟩ := hwire
    rw [hcells]
    simp [realCells, isDummy_encodeFragmentCell]
  obtain rfl := Option.some.inj hstart
  refine ⟨?_, by decide +kernel, hsent, by decide +kernel, by decide +kernel⟩
  refine ⟨rfl, trivial, trivial, fun _ => ?_, rfl, rfl, trivial, trivial, fun _ => ?_, rfl, trivial⟩
  · decide +kernel
  · decide +kernel

/-- A packet sent alone is queued at the relay; the cell of a second call behind one that was
refused halfway ends the loop. -/
theorem entry_of_run_checksum :
    (∃ s frames, startWithTransport ⟨⟨defaultMaxBacklog⟩, 0⟩ (0 : UInt8) = some s ∧
      sendOutbound checksumSuite checksumAead checksumConfig.sessionKey
        (run checksumSuite s (sendOne (Bytes.zero sphinxPacketLen) 0 ++
          ((drainAll UInt8 18).1 ++ (drainAll UInt8 18).2))).wire 0 = .ok frames ∧
      (Connection.start.readAll checksumAead checksumConfig (fun _ => .sent) frames).ended = none ∧
      (Connection.start.readAll checksumAead checksumConfig (fun _ => .sent) frames).enqueued =
        [Bytes.zero sphinxPacketLen]) ∧
    ∃ s frames e, startWithTransport ⟨⟨1⟩, 0⟩ (0 : UInt8) = some s ∧
      sendOutbound checksumSuite checksumAead checksumConfig.sessionKey
        (run checksumSuite s (halfwayCall (Bytes.zero sphinxPacketLen) 0 ++
          halfwayCall (Bytes.zero sphinxPacketLen) 0)).wire 0 = .ok frames ∧
      (Connection.start.readAll checksumAead checksumConfig (fun _ => .sent) frames).enqueued = [] ∧
      (Connection.start.readAll checksumAead checksumConfig (fun _ => .sent) frames).ended =
        some (.error (.fragment e)) := by
  have hsends : ∀ n, (fun _ : ℕ => TrySend.sent) n ≠ .closed := fun _ h => nomatch h
  constructor
  · let packet : SphinxPacket := Bytes.zero sphinxPacketLen
    obtain ⟨s, hstart⟩ : ∃ s, startWithTransport ⟨⟨defaultMaxBacklog⟩, 0⟩ (0 : UInt8) = some s :=
      ⟨_, rfl⟩
    obtain ⟨hactive, hbacklog, hcalls, hreturned, hchannel, hqueue, -⟩ := active_of_start hstart
    have hsend := orderly_sendOne (C := checksumSuite) hactive hcalls
      (by rw [hqueue]; exact Nat.zero_le _) packet 0
    have haccepted := accepted_sendOne checksumSuite hactive hcalls packet 0
      (by rw [hchannel, hbacklog]; decide)
    have hdrain := orderly_drainAll (C := checksumSuite) (n := 18) haccepted.active (by
      rw [haccepted.emitter, hqueue, haccepted.maxBacklog, hbacklog]
      decide)
    have hdrains := drains_drainAll (s := run checksumSuite s (sendOne packet 0)) (n := 18) (by
      rw [haccepted.emitter, hqueue, haccepted.channel, hchannel, List.nil_append, length_fragment]
      exact le_rfl)
    obtain ⟨hactive', hcalls', hreturned', -, hchannel', hqueue'⟩ :=
      hdrains.drained (C := checksumSuite) haccepted.active
    have horderly := Run.guarded_append.mpr ⟨hsend, hdrain⟩
    rw [← run_append] at hactive' hcalls' hreturned' hchannel' hqueue'
    obtain ⟨frames, hframes⟩ := sendOutbound_checksum checksumConfig.sessionKey
      (run checksumSuite s (sendOne packet 0 ++
        ((drainAll UInt8 18).1 ++ (drainAll UInt8 18).2))).wire 0
    obtain ⟨-, -, -, hall⟩ := entry_of_run checksumSuite checksumAead_correct hstart horderly
      hactive'.held checksumConfig hsends hframes
    obtain ⟨done, hpacket, -, hsent⟩ := haccepted.returned
    rw [hreturned, List.nil_append] at hsent
    rw [hreturned', hsent] at hall
    have hnone : ∀ r ∈ [(⟨done, .ok ()⟩ : EnqueueReturn)], NotHalfway r := by
      intro r hr
      obtain rfl := List.mem_singleton.mp hr
      exact Or.inl rfl
    obtain ⟨hup, hdrained⟩ := hall hnone
    have hall' := hdrained (hcalls'.trans haccepted.calls) hqueue' hchannel'
    rw [accepted_of_sent (fun _ => rfl)] at hall'
    refine ⟨s, frames, hstart, hframes, hup, hall'.trans ?_⟩
    show [done.packet] = _
    rw [hpacket]
  · obtain ⟨s, hstart⟩ : ∃ s, startWithTransport ⟨⟨1⟩, 0⟩ (0 : UInt8) = some s := ⟨_, rfl⟩
    obtain ⟨horderly, hheld, hsent, hintact, hwhole⟩ := halfway_of_run hstart
    obtain ⟨frames, hframes⟩ := sendOutbound_checksum checksumConfig.sessionKey
      (run checksumSuite s (halfwayCall (Bytes.zero sphinxPacketLen) 0 ++
        halfwayCall (Bytes.zero sphinxPacketLen) 0)).wire 0
    obtain ⟨henqueued, hup, hbroken, -⟩ := entry_of_run checksumSuite checksumAead_correct hstart
      horderly hheld checksumConfig hsends hframes
    rw [hwhole, List.take_nil] at henqueued
    rw [hsent, hintact] at hup
    obtain ⟨r, hr⟩ := Option.ne_none_iff_exists'.mp (mt hup.mp (by decide))
    obtain ⟨e, rfl⟩ := hbroken r hr
    exact ⟨s, frames, e, hstart, hframes, henqueued, hr⟩

end PacedSession

end Aegis
