import Aegis.Crypto.Fragment
import Aegis.Crypto.Link
import Aegis.Relay.HealthGossip

/-!
# The inbound connection loop (`net.rs`)

After the handshake a connection reads one frame after another.  A frame the rate
limiter refuses is skipped; any other is opened and its cell dispatched on the
command byte.  Control and cover cells are handled on the spot, fragments go to the
reassembler and whole packets to the peer's bounded queue.

* `onFrame_of_ended` — a loop that ended does nothing more.
* `onFrame_of_refused` — a refused frame changes nothing.
* `onFrame_of_opened` — a frame that opens is dispatched.
-/

namespace Aegis

open Buffer

/-! ## Cover fragments (`cover_flow.rs`) -/

/-- `COVER_FRAGMENT_RESERVED`. -/
def coverFragmentReserved : Bytes 2 := ⟨[0xC0, 0x01], rfl⟩

/-- `COVER_ONION_SCAFFOLD_RESERVED`. -/
def coverOnionScaffoldReserved : Bytes 2 := ⟨[0xC0, 0x02], rfl⟩

/-- A fragment cell with this tag in its reserved bytes. -/
def isTaggedFragment (reserved : Bytes 2) (cell : Cell) : Bool :=
  if Command.fromU8 (cell.byte offCommand offCommand_lt_cellLen) ≠ some .sphinxFragment then false
  else decide (cell.window offReserved 2 offReserved_add_two_le = reserved)

/-- The cell is a fragment of cover that the next relay drops. -/
def isRelayCoverFragment (cell : Cell) : Bool := isTaggedFragment coverFragmentReserved cell

/-- The cell is a fragment of an onion that is a scaffold only. -/
def isCoverOnionScaffoldFragment (cell : Cell) : Bool :=
  isTaggedFragment coverOnionScaffoldReserved cell

/-- The cell is discarded before reassembly. -/
def isDiscardCoverFragment (cell : Cell) : Bool :=
  isRelayCoverFragment cell || isCoverOnionScaffoldFragment cell

theorem isTaggedFragment_of_reserved {cell : Cell} {reserved : Bytes 2}
    (h : cell.window offReserved 2 (by decide) ≠ reserved) :
    isTaggedFragment reserved cell = false := by
  rw [isTaggedFragment]
  split_ifs
  · rfl
  · exact decide_eq_false h

/-- The reserved bytes of a packet's fragment are zero. -/
theorem isDiscardCoverFragment_encodeFragmentCell (packetId : PacketId) (index : UInt8)
    (packet : SphinxPacket) :
    isDiscardCoverFragment (encodeFragmentCell packetId index packet) = false := by
  have hreserved := window_reserved_encodeFragmentCell packetId index packet
  rw [isDiscardCoverFragment, isRelayCoverFragment, isCoverOnionScaffoldFragment,
    isTaggedFragment_of_reserved (by rw [hreserved]; decide),
    isTaggedFragment_of_reserved (by rw [hreserved]; decide), Bool.or_false]

/-! ## The loop -/

/-- The errors a link can end with. -/
inductive NetError where
  | io
  | crypto (e : CryptoError)
  | fragment (e : FragmentError)
  | unidentifiedInbound
  | noiseConfig (what : String)
  | readTimeout
  deriving DecidableEq, Repr

/-- What `try_send` finds: a free slot, a full queue, or nobody at the other end. -/
inductive TrySend where
  | sent
  | full
  | closed
  deriving DecidableEq, Repr

/-- What the handshake settled. -/
structure InboundConfig where
  sessionKey : LinkKey
  matchedPeer : Option RelayId
  /-- Whether there is a health tracker to give adverts to. -/
  peerHealth : Bool

/-- A connection to compute with. -/
def checksumConfig : InboundConfig := ⟨List.Vector.replicate 32 7, none, false⟩

/-- The loop's state, and what it has done: the cells it opened, the adverts it gave to
the tracker, the packets it put into the peer queue and how many that queue shed. -/
structure Connection where
  reassembler : SphinxReassembler
  ended : Option (Except NetError Unit)
  opened : List Cell
  adverts : List (PeerHealthAdvert × RelayId)
  enqueued : List SphinxPacket
  queueDropped : ℕ

namespace Connection

/-- A connection that has read nothing. -/
def start : Connection := ⟨.new, none, [], [], [], 0⟩

/-- `try_enqueue`: a full queue drops the newest packet, a closed one ends the loop. -/
def tryEnqueue (x : Connection) (packet : SphinxPacket) : TrySend → Connection
  | .sent => { x with enqueued := x.enqueued ++ [packet] }
  | .full => { x with queueDropped := x.queueDropped + 1 }
  | .closed => { x with ended := some (.ok ()) }

/-- Give a fragment to the reassembler. -/
def reassemble (x : Connection) (cell : Cell) (send : TrySend) : Connection :=
  match x.reassembler.push cell with
  | (.error e, r) => { x with reassembler := r, ended := some (.error (.fragment e)) }
  | (.ok none, r) => { x with reassembler := r }
  | (.ok (some packet), r) => { x with reassembler := r }.tryEnqueue packet send

/-- Dispatch a cell on its command byte. -/
def onCell (cfg : InboundConfig) (x : Connection) (cell : Cell) (send : TrySend) : Connection :=
  match Command.fromU8 (cell.byte 0 zero_lt_cellLen) with
  | some .drop | some .loopToSelf => x
  | some .peerHealthAdvert =>
    match cfg.peerHealth, cfg.matchedPeer with
    | true, some linkPeer =>
      match PeerHealthAdvert.fromCell cell with
      | .ok advert => { x with adverts := x.adverts ++ [(advert, linkPeer)] }
      | .error _ => x
    | _, _ => x
  | some .sphinxFragment =>
    if isDiscardCoverFragment cell then x else x.reassemble cell send
  | _ => x

/-- One round of the loop: `allowed` is the limiter's answer. -/
def onFrame (A : Aead) (cfg : InboundConfig) (x : Connection) (frame : List UInt8)
    (allowed : Bool) (send : TrySend) : Connection :=
  match x.ended with
  | some _ => x
  | none =>
    if allowed = false then x
    else
      match cfg.sessionKey.openFrame A frame with
      | .error e => { x with ended := some (.error (.crypto e)) }
      | .ok cell => { x with opened := x.opened ++ [cell] }.onCell cfg cell send

/-- Read a fragment that opened. -/
def readFragment (x : Connection) (cell : Cell) (send : TrySend) : Connection :=
  if x.ended = none then { x with opened := x.opened ++ [cell] }.reassemble cell send else x

/-- A read that fails or times out. -/
def onReadError (x : Connection) (e : NetError) : Connection :=
  match x.ended with
  | some _ => x
  | none => { x with ended := some (.error e) }

/-! ## One round -/

section Round

variable {A : Aead} {cfg : InboundConfig} {x : Connection} {frame : List UInt8} {send : TrySend}

theorem onFrame_of_ended (h : x.ended ≠ none) (allowed : Bool) :
    x.onFrame A cfg frame allowed send = x := by
  rw [onFrame]
  cases hended : x.ended with
  | none => exact absurd hended h
  | some r => rfl

theorem onFrame_of_refused : x.onFrame A cfg frame false send = x := by
  rw [onFrame]
  cases x.ended with
  | none => rfl
  | some r => rfl

theorem onFrame_of_opened {cell : Cell} (hended : x.ended = none)
    (hopen : cfg.sessionKey.openFrame A frame = .ok cell) :
    x.onFrame A cfg frame true send =
      { x with opened := x.opened ++ [cell] }.onCell cfg cell send := by
  simp only [onFrame, hended, hopen, Bool.true_eq_false, if_false]

/-- Cover is dropped on the spot. -/
theorem onCell_of_drop {cell : Cell}
    (h : Command.fromU8 (cell.byte 0 (by decide)) = some .drop) : x.onCell cfg cell send = x := by
  simp only [onCell, h]

theorem onCell_of_fragment {cell : Cell}
    (h : Command.fromU8 (cell.byte 0 (by decide)) = some .sphinxFragment)
    (hcover : isDiscardCoverFragment cell = false) :
    x.onCell cfg cell send = x.reassemble cell send := by
  simp only [onCell, h, hcover, Bool.false_eq_true, if_false]

/-- **Fragments of packets go to the reassembler.** -/
theorem onCell_encodeFragmentCell (packetId : PacketId) (index : UInt8) (packet : SphinxPacket) :
    x.onCell cfg (encodeFragmentCell packetId index packet) send =
      x.reassemble (encodeFragmentCell packetId index packet) send := by
  refine onCell_of_fragment ?_ (isDiscardCoverFragment_encodeFragmentCell packetId index packet)
  exact (congrArg Command.fromU8 (byte_command_encodeFragmentCell packetId index packet)).trans
    (Command.fromU8_toU8 _)

theorem readFragment_of_ended (h : x.ended ≠ none) (cell : Cell) :
    x.readFragment cell send = x := by
  rw [readFragment, if_neg h]

/-- **A frame that carries a fragment is given to the reassembler.** -/
theorem onFrame_of_fragment {packetId : PacketId} {index : UInt8} {packet : SphinxPacket}
    (hopen : cfg.sessionKey.openFrame A frame = .ok (encodeFragmentCell packetId index packet)) :
    x.onFrame A cfg frame true send =
      x.readFragment (encodeFragmentCell packetId index packet) send := by
  by_cases hended : x.ended = none
  · rw [onFrame_of_opened hended hopen, readFragment, if_pos hended, onCell_encodeFragmentCell]
  · rw [onFrame_of_ended hended, readFragment_of_ended hended]

theorem tryEnqueue_reassembler (packet : SphinxPacket) :
    (x.tryEnqueue packet send).reassembler = x.reassembler := by
  cases send <;> rfl

theorem tryEnqueue_opened (packet : SphinxPacket) : (x.tryEnqueue packet send).opened = x.opened := by
  cases send <;> rfl

theorem reassemble_opened (cell : Cell) : (x.reassemble cell send).opened = x.opened := by
  rw [reassemble]
  split
  · rfl
  · rfl
  · rw [tryEnqueue_opened]

/-- Dispatching a cell opens nothing. -/
theorem onCell_opened (cell : Cell) : (x.onCell cfg cell send).opened = x.opened := by
  rw [onCell]
  split
  · rfl
  · rfl
  · split
    · split <;> rfl
    · rfl
  · split_ifs
    · rfl
    · rw [reassemble_opened]
  · rfl

variable (A cfg frame send) in
/-- **One round opens at most the frame it read.** -/
theorem onFrame_opened (allowed : Bool) :
    (x.onFrame A cfg frame allowed send).opened = x.opened ∨
      ∃ cell, cfg.sessionKey.openFrame A frame = .ok cell ∧
        (x.onFrame A cfg frame allowed send).opened = x.opened ++ [cell] := by
  rw [onFrame]
  split
  · exact Or.inl rfl
  · split_ifs
    · exact Or.inl rfl
    · cases hopen : cfg.sessionKey.openFrame A frame with
      | error e => exact Or.inl rfl
      | ok cell => exact Or.inr ⟨cell, rfl, onCell_opened cell⟩

end Round

/-! ## Fragments -/

section Fragments

variable {x : Connection} {cell : Cell} {send : TrySend} {r : SphinxReassembler}

theorem readFragment_of_error {e : FragmentError} (hended : x.ended = none)
    (h : x.reassembler.push cell = (.error e, r)) :
    x.readFragment cell send =
      { x with
        opened := x.opened ++ [cell]
        reassembler := r
        ended := some (.error (.fragment e)) } := by
  simp only [readFragment, hended, if_true, reassemble, h]

theorem readFragment_of_none (hended : x.ended = none)
    (h : x.reassembler.push cell = (.ok none, r)) :
    x.readFragment cell send = { x with opened := x.opened ++ [cell], reassembler := r } := by
  simp only [readFragment, hended, if_true, reassemble, h]

theorem readFragment_of_some {packet : SphinxPacket} (hended : x.ended = none)
    (h : x.reassembler.push cell = (.ok (some packet), r)) :
    x.readFragment cell send =
      { x with opened := x.opened ++ [cell], reassembler := r }.tryEnqueue packet send := by
  simp only [readFragment, hended, if_true, reassemble, h]

/-- How many packets the loop has tried to put into the queue. -/
def offered (x : Connection) : ℕ := x.enqueued.length + x.queueDropped

/-- **The rest of a packet**, when its beginning has been collected, completes it: the queue
gets the packet and the reassembler starts afresh.  What a fragment finds is `sends` of the
packets tried before it. -/
theorem foldl_collecting_offered (sends : ℕ → TrySend) {packetId : PacketId}
    {packet : SphinxPacket} {k n : ℕ} (hended : x.ended = none)
    (h : x.reassembler.Collecting packetId packet k) (hn : k + (n + 1) = sphinxFragmentCount) :
    ∃ opened, (List.range' k (n + 1)).foldl (fun x i => x.readFragment
        (encodeFragmentCell packetId (UInt8.ofNat i) packet) (sends x.offered)) x =
      { x with opened := opened, reassembler := .new }.tryEnqueue packet (sends x.offered) := by
  induction n generalizing x k with
  | zero =>
    rw [List.range'_succ, List.foldl_cons, readFragment_of_some hended (h.push_last hn)]
    exact ⟨_, rfl⟩
  | succ n ih =>
    obtain ⟨r', hpush, hnext⟩ := h.push (by omega)
    rw [List.range'_succ, List.foldl_cons, readFragment_of_none hended hpush]
    exact ih hended hnext (by omega)

variable (send) in
/-- The same, when every fragment finds the same. -/
theorem foldl_collecting {packetId : PacketId} {packet : SphinxPacket} {k n : ℕ}
    (hended : x.ended = none) (h : x.reassembler.Collecting packetId packet k)
    (hn : k + (n + 1) = sphinxFragmentCount) :
    ∃ opened, (List.range' k (n + 1)).foldl (fun x i => x.readFragment
        (encodeFragmentCell packetId (UInt8.ofNat i) packet) send) x =
      { x with opened := opened, reassembler := .new }.tryEnqueue packet send :=
  foldl_collecting_offered (fun _ => send) hended h hn

end Fragments

end Connection

end Aegis
