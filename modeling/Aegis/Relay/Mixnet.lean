import Aegis.Crypto.ReplayStructure
import Aegis.Relay.CoverOnion
import Aegis.Relay.PoolFraming

/-!
# A network of relays (`node.rs`, `net.rs`)

Every relay runs the mix loop behind a bridge: connections come in, each with a reassembler and a
queue of its own; what is peeled goes to the dispatcher, which writes it on the link to the next hop
or hands it to the exit sink.  Clients build onions and write them on links of their own.  The
network takes one step at a time: which connection is read, which queue is served, what the next
queue has room for and where cover goes in between is its choice.

The connections stay up, no ingress limit is set and no task is shut down.

* `step` — what each event does; nothing if the event cannot happen.
* `read_of_onWire` — **what reading a frame does** to a connection that stands somewhere inside a
  stream of packets and cover.
-/

namespace Aegis

open Buffer

variable {ρ : Type}

/-! ## The network -/

/-- The relays, their peer tables and links, and what every client wants to send. -/
structure Mixnet (C : Suite ρ) (ι κ : Type) where
  id : ι → RelayId
  publicKey : ι → RelayKemPublic C
  node : ι → RelayNode C
  /-- The relay that listens at the address a peer table has for an id. -/
  peerTable : ι → RelayId → Option ι
  /-- The bridge has an exit sink. -/
  exitTx : ι → Bool
  /-- What the handshake of a connection settled. -/
  inbound : ι ⊕ κ → ι → InboundConfig
  path : κ → List ι
  payload : κ → List UInt8
  clientRng : κ → ρ
  relayRng : ι → ρ
  bridgeRng : ι → ρ

/-- One connection: the bytes that have been written and not yet read, the inbound loop, and how
many packets of its queue the fair drain has taken. -/
structure LinkState where
  unread : List UInt8
  conn : Connection
  taken : ℕ

/-- The links and the relays.  A dispatcher has served so many of the packets its relay has put on
the outbound queue. -/
structure MixnetState (ι κ ρ : Type) where
  link : ι ⊕ κ → ι → LinkState
  relay : ι → RelayLoop ρ
  bridgeRng : ι → ρ
  dispatched : ι → ℕ
  /-- Packets that found the queue of their next hop full. -/
  peerDropped : ι → ℕ
  /-- What the exit sink has been handed. -/
  exited : ι → List SphinxPacket
  sent : List κ

/-- What happens in the network. -/
inductive MixnetEvent (ι κ : Type) where
  /-- A client builds its onion and writes it. -/
  | send (client : κ)
  /-- A frame of cover goes on a link. -/
  | cover (sender : ι ⊕ κ) (relay : ι) (frame : List UInt8)
  /-- A round begins or ends. -/
  | command (relay : ι) (e : RelayEvent)
  /-- A relay reads a frame; its peer queue may be full. -/
  | read (sender : ι ⊕ κ) (relay : ι) (room : Bool)
  /-- The mix loop gets a packet of a connection; the outbound queue may be full. -/
  | mix (sender : ι ⊕ κ) (relay : ι) (room : Bool)
  /-- The dispatcher takes a packet; the queue of the next hop may be full. -/
  | dispatch (relay : ι) (room : Bool)

/-- The cell is dropped where it arrives. -/
def isCoverCell (cell : Cell) : Bool :=
  match Command.fromU8 (cell.byte 0 zero_lt_cellLen) with
  | some .drop | some .loopToSelf => true
  | some .sphinxFragment => isDiscardCoverFragment cell
  | _ => false

/-- What `try_send` finds. -/
def roomFor (room : Bool) : TrySend := if room then .sent else .full

/-- Every write gets through. -/
def noFault : WritePattern := ⟨fun _ => .done, true⟩

namespace Mixnet

variable {ι κ : Type} [DecidableEq ι] [DecidableEq κ] {C : Suite ρ}

/-- The hops of a client's path. -/
def hops (net : Mixnet C ι κ) (k : κ) : List (PathHop C) :=
  (net.path k).map fun i => ⟨net.id i, net.publicKey i⟩

/-- Every relay has been spawned, and nothing sent. -/
def start (net : Mixnet C ι κ) : MixnetState ι κ ρ where
  link _ _ := ⟨[], .start, 0⟩
  relay i := .spawn (net.relayRng i)
  bridgeRng := net.bridgeRng
  dispatched _ := 0
  peerDropped _ := 0
  exited _ := []
  sent := []

end Mixnet

namespace MixnetState

variable {ι κ : Type} [DecidableEq ι] [DecidableEq κ]

/-- The state with one link replaced. -/
def setLink (s : MixnetState ι κ ρ) (src : ι ⊕ κ) (dst : ι) (l : LinkState) : MixnetState ι κ ρ :=
  { s with link := Function.update s.link src (Function.update (s.link src) dst l) }

theorem link_setLink (s : MixnetState ι κ ρ) (src : ι ⊕ κ) (dst : ι) (l : LinkState)
    (src' : ι ⊕ κ) (dst' : ι) :
    (s.setLink src dst l).link src' dst' =
      if src' = src ∧ dst' = dst then l else s.link src' dst' := by
  unfold setLink
  by_cases hsrc : src' = src
  · subst hsrc
    by_cases hdst : dst' = dst
    · subst hdst
      simp
    · simp [hdst]
  · simp [hsrc]

section Frame

variable (s : MixnetState ι κ ρ) (src : ι ⊕ κ) (dst : ι) (l : LinkState)

@[simp] theorem relay_setLink : (s.setLink src dst l).relay = s.relay := rfl

@[simp] theorem dispatched_setLink : (s.setLink src dst l).dispatched = s.dispatched := rfl

@[simp] theorem peerDropped_setLink : (s.setLink src dst l).peerDropped = s.peerDropped := rfl

@[simp] theorem exited_setLink : (s.setLink src dst l).exited = s.exited := rfl

@[simp] theorem sent_setLink : (s.setLink src dst l).sent = s.sent := rfl

end Frame

/-- The bytes on the links. -/
def unread [Fintype ι] [Fintype κ] (s : MixnetState ι κ ρ) : ℕ :=
  ∑ x : (ι ⊕ κ) × ι, (s.link x.1 x.2).unread.length

/-- Replacing one link changes the bytes on this link. -/
theorem unread_setLink [Fintype ι] [Fintype κ] (s : MixnetState ι κ ρ) (src : ι ⊕ κ) (dst : ι)
    (l : LinkState) :
    (s.setLink src dst l).unread + (s.link src dst).unread.length =
      s.unread + l.unread.length := by
  unfold unread
  rw [← Finset.add_sum_erase _ _ (Finset.mem_univ (src, dst)),
    ← Finset.add_sum_erase Finset.univ (fun x => (s.link x.1 x.2).unread.length)
      (Finset.mem_univ (src, dst))]
  have hother : ∑ x ∈ Finset.univ.erase (src, dst),
      ((s.setLink src dst l).link x.1 x.2).unread.length =
        ∑ x ∈ Finset.univ.erase (src, dst), (s.link x.1 x.2).unread.length := by
    refine Finset.sum_congr rfl fun x hx => ?_
    rw [link_setLink, if_neg fun heq => Finset.ne_of_mem_erase hx (Prod.ext heq.1 heq.2)]
  rw [hother, link_setLink, if_pos ⟨rfl, rfl⟩]
  dsimp only
  omega

/-- Bytes are written on a link. -/
def write (s : MixnetState ι κ ρ) (src : ι ⊕ κ) (dst : ι) (bytes : List UInt8) :
    MixnetState ι κ ρ :=
  s.setLink src dst { s.link src dst with unread := (s.link src dst).unread ++ bytes }

theorem unread_write [Fintype ι] [Fintype κ] (s : MixnetState ι κ ρ) (src : ι ⊕ κ) (dst : ι)
    (bytes : List UInt8) : (s.write src dst bytes).unread = s.unread + bytes.length := by
  have h := s.unread_setLink src dst
    { s.link src dst with unread := (s.link src dst).unread ++ bytes }
  rw [List.length_append] at h
  unfold write
  omega

end MixnetState

namespace Mixnet

variable {ι κ : Type} [DecidableEq ι] [DecidableEq κ] {C : Suite ρ}

/-- `write_packet_with_key` on a link: the bytes, and the generator. -/
def packetBytes (net : Mixnet C ι κ) (A : Aead) (src : ι ⊕ κ) (dst : ι) (packet : SphinxPacket)
    (rng : ρ) : Except NetError (List UInt8) × ρ :=
  let (result, conn, rng) :=
    writePacketWithKey C A noFault ⟨(net.inbound src dst).sessionKey, []⟩ packet rng
  (result.map fun _ => conn.written, rng)

/-- The dispatcher of relay `i` routes a packet. -/
def route (net : Mixnet C ι κ) (A : Aead) (s : MixnetState ι κ ρ) (i : ι) (fwd : ForwardedPacket)
    (room : Bool) : MixnetState ι κ ρ :=
  match net.peerTable i fwd.nextHop with
  | none =>
    if net.exitTx i then
      { s with exited := Function.update s.exited i (s.exited i ++ [fwd.packet]) }
    else s
  | some j =>
    if room = false then
      { s with peerDropped := Function.update s.peerDropped i (s.peerDropped i + 1) }
    else
      let (result, rng) := net.packetBytes A (.inl i) j fwd.packet (s.bridgeRng i)
      let s := { s with bridgeRng := Function.update s.bridgeRng i rng }
      match result with
      | .error _ => { s with peerDropped := Function.update s.peerDropped i (s.peerDropped i + 1) }
      | .ok bytes => s.write (.inl i) j bytes

/-- One step; nothing if the event cannot happen. -/
def step (net : Mixnet C ι κ) (A : Aead) (s : MixnetState ι κ ρ) :
    MixnetEvent ι κ → Option (MixnetState ι κ ρ)
  | .send k =>
    if k ∈ s.sent then none
    else
      match net.path k, build C (net.hops k) (net.payload k) (net.clientRng k) with
      | entry :: _, .ok (packet, rng) =>
        match (net.packetBytes A (.inr k) entry packet rng).1 with
        | .error _ => none
        | .ok bytes => some { s.write (.inr k) entry bytes with sent := s.sent ++ [k] }
      | _, _ => none
  | .cover src dst frame =>
    if frame.length = linkFrameLen then
      match (net.inbound src dst).sessionKey.openFrame A frame with
      | .error _ => none
      | .ok cell => if isCoverCell cell then some (s.write src dst frame) else none
    else none
  | .command i e =>
    if RelayLoop.isCommand e then
      some { s with relay := Function.update s.relay i ((s.relay i).step (net.node i) e) }
    else none
  | .read src dst room =>
    let l := s.link src dst
    if l.unread.length < linkFrameLen then none
    else
      some (s.setLink src dst
        { l with
          unread := l.unread.drop linkFrameLen
          conn := l.conn.onFrame A (net.inbound src dst) (l.unread.take linkFrameLen) true
            (roomFor room) })
  | .mix src dst room =>
    let l := s.link src dst
    match l.conn.enqueued[l.taken]? with
    | none => none
    | some packet =>
      some
        { s.setLink src dst { l with taken := l.taken + 1 } with
          relay := Function.update s.relay dst
            ((s.relay dst).step (net.node dst) (.packet packet (roomFor room))) }
  | .dispatch i room =>
    match (s.relay i).outbound[s.dispatched i]? with
    | none => none
    | some fwd =>
      some (net.route A { s with dispatched := Function.update s.dispatched i (s.dispatched i + 1) }
        i fwd room)

/-- A run; nothing if one of the events cannot happen. -/
def run (net : Mixnet C ι κ) (A : Aead) (s : MixnetState ι κ ρ) (events : List (MixnetEvent ι κ)) :
    Option (MixnetState ι κ ρ) :=
  events.foldlM (net.step A) s

end Mixnet

/-! ## Streams of packets and cover -/

/-- The bytes are whole frames: the rest of a packet of which `k` fragments have been read, if one
has been begun, then packets, and cover anywhere.  `packets` are those still to be completed. -/
inductive OnWire (A : Aead) (key : LinkKey) :
    Option (PacketId × SphinxPacket × ℕ) → List UInt8 → List SphinxPacket → Prop where
  | nil : OnWire A key none [] []
  | cover {current : Option (PacketId × SphinxPacket × ℕ)} {frame bytes : List UInt8}
      {packets : List SphinxPacket} {cell : Cell} (length : frame.length = linkFrameLen)
      (opened : key.openFrame A frame = .ok cell) (inert : isCoverCell cell = true) :
      OnWire A key current bytes packets → OnWire A key current (frame ++ bytes) packets
  | first {packetId : PacketId} {packet : SphinxPacket} {bytes : List UInt8}
      {packets : List SphinxPacket} :
      OnWire A key (some (packetId, packet, 0)) bytes packets → OnWire A key none bytes packets
  | fragment {packetId : PacketId} {packet : SphinxPacket} {k : ℕ} {frame bytes : List UInt8}
      {packets : List SphinxPacket} (carries : Carries A key packetId packet k frame)
      (more : k + 1 < sphinxFragmentCount) :
      OnWire A key (some (packetId, packet, k + 1)) bytes packets →
        OnWire A key (some (packetId, packet, k)) (frame ++ bytes) packets
  | last {packetId : PacketId} {packet : SphinxPacket} {k : ℕ} {frame bytes : List UInt8}
      {packets : List SphinxPacket} (carries : Carries A key packetId packet k frame)
      (done : k + 1 = sphinxFragmentCount) :
      OnWire A key none bytes packets →
        OnWire A key (some (packetId, packet, k)) (frame ++ bytes) (packet :: packets)

/-- The reassembler has what the stream says has been read. -/
def Reassembling (r : SphinxReassembler) : Option (PacketId × SphinxPacket × ℕ) → Prop
  | none => r = .new
  | some (packetId, packet, k) => r.Collecting packetId packet k

namespace OnWire

variable {A : Aead} {key : LinkKey} {current : Option (PacketId × SphinxPacket × ℕ)}
  {bytes bytes' : List UInt8} {packets packets' : List SphinxPacket}

/-- Streams are written one behind the other. -/
theorem append (h : OnWire A key current bytes packets) (h' : OnWire A key none bytes' packets') :
    OnWire A key current (bytes ++ bytes') (packets ++ packets') := by
  induction h with
  | nil => exact h'
  | cover length opened inert _ ih =>
    rw [List.append_assoc]
    exact .cover length opened inert ih
  | first _ ih => exact .first ih
  | fragment carries more _ ih =>
    rw [List.append_assoc]
    exact .fragment carries more ih
  | last carries done _ ih =>
    rw [List.append_assoc]
    exact .last carries done ih

/-- The frames of the rest of a packet. -/
theorem of_carries {packetId : PacketId} {packet : SphinxPacket} {k n : ℕ}
    {frames : List (List UInt8)} (hn : k + (n + 1) = sphinxFragmentCount)
    (h : List.Forall₂ (Carries A key packetId packet) (List.range' k (n + 1)) frames) :
    OnWire A key (some (packetId, packet, k)) frames.flatten [packet] := by
  induction n generalizing k frames with
  | zero =>
    rw [List.range'_succ] at h
    obtain _ | ⟨hcarries, hrest⟩ := h
    obtain _ | _ := hrest
    rw [List.flatten_cons]
    exact .last hcarries hn .nil
  | succ n ih =>
    rw [List.range'_succ] at h
    obtain _ | ⟨hcarries, hrest⟩ := h
    rw [List.flatten_cons]
    exact .fragment hcarries (by omega) (ih (by omega) hrest)

end OnWire

/-- **A packet on a link** is a stream of its own. -/
theorem Mixnet.onWire_packetBytes {ι κ : Type} {C : Suite ρ} (net : Mixnet C ι κ) {A : Aead}
    (hA : A.Correct) (src : ι ⊕ κ) (dst : ι) (packet : SphinxPacket) (rng : ρ) :
    ∃ bytes, (net.packetBytes A src dst packet rng).1 = .ok bytes ∧
      bytes.length = packetWireLen ∧
      OnWire A (net.inbound src dst).sessionKey none bytes [packet] := by
  obtain ⟨frames, rng', hframes, hwrite⟩ := writeCells_of_stopsFrom_none C
    (C.fillBytes 8 rng).1 packet hA (w := noFault) (n := sphinxFragmentCount) (i := 0)
    ⟨(net.inbound src dst).sessionKey, []⟩ (C.fillBytes 8 rng).2 (by decide)
  refine ⟨frames.flatten, ?_, ?_, .first (.of_carries (n := 17) rfl hframes)⟩
  · unfold packetBytes
    rw [writePacketWithKey_eq, List.range_eq_range', hwrite]
    rfl
  · rw [Carries.length_flatten hframes, List.length_range']
    rfl

/-! ## Reading -/

section Read

variable {A : Aead} {cfg : InboundConfig} {x : Connection}
  {current : Option (PacketId × SphinxPacket × ℕ)} {bytes : List UInt8}
  {packets : List SphinxPacket}

/-- Cover leaves the reassembler alone. -/
theorem Connection.onCell_of_isCoverCell {cell : Cell} (h : isCoverCell cell = true)
    (send : TrySend) : x.onCell cfg cell send = x := by
  unfold isCoverCell at h
  unfold onCell
  split at h
  · rename_i hcommand
    rw [hcommand]
  · rename_i hcommand
    rw [hcommand]
  · rename_i hcommand
    rw [hcommand]
    exact if_pos h
  · cases h

/-- What reading a frame of a stream comes to: nothing but that a cell was opened and collected, or
the packet at the head of the stream is offered to the queue. -/
inductive ReadFrame (A : Aead) (key : LinkKey) (x : Connection) (rest : List UInt8)
    (packets : List SphinxPacket) (send : TrySend) (x' : Connection) : Prop where
  | collected (opened : List Cell) (r : SphinxReassembler)
      (current : Option (PacketId × SphinxPacket × ℕ))
      (after : x' = { x with opened := opened, reassembler := r })
      (reassembling : Reassembling r current) (stream : OnWire A key current rest packets)
  | completed (opened : List Cell) (packet : SphinxPacket) (packets' : List SphinxPacket)
      (head : packets = packet :: packets')
      (after : x' = { x with opened := opened, reassembler := .new }.tryEnqueue packet send)
      (stream : OnWire A key none rest packets')

/-- **What reading a frame does.** -/
theorem Connection.read_of_onWire (hended : x.ended = none)
    (hstream : OnWire A cfg.sessionKey current bytes packets)
    (hcurrent : Reassembling x.reassembler current) (hbytes : linkFrameLen ≤ bytes.length)
    (send : TrySend) :
    ReadFrame A cfg.sessionKey x (bytes.drop linkFrameLen) packets send
      (x.onFrame A cfg (bytes.take linkFrameLen) true send) := by
  induction hstream with
  | nil => exact absurd hbytes (by decide)
  | @cover current frame bytes packets cell length opened inert hrest _ =>
    rw [List.take_left' length, List.drop_left' length, onFrame_of_opened hended opened,
      onCell_of_isCoverCell inert]
    exact .collected _ _ _ rfl hcurrent hrest
  | first _ ih =>
    refine ih ?_ hbytes
    have hnew : x.reassembler = .new := hcurrent
    rw [hnew]
    exact SphinxReassembler.collecting_new _ _
  | @fragment packetId packet k frame bytes packets carries more hrest _ =>
    rw [List.take_left' carries.1, List.drop_left' carries.1, onFrame_of_fragment carries.2]
    obtain ⟨r', hpush, hnext⟩ := SphinxReassembler.Collecting.push hcurrent more
    rw [readFragment_of_none hended hpush]
    exact .collected _ _ (some (packetId, packet, k + 1)) rfl hnext hrest
  | @last packetId packet k frame bytes packets carries done hrest _ =>
    rw [List.take_left' carries.1, List.drop_left' carries.1, onFrame_of_fragment carries.2,
      readFragment_of_some hended (SphinxReassembler.Collecting.push_last hcurrent done)]
    exact .completed _ _ _ rfl rfl hrest

end Read

end Aegis
