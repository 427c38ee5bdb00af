import Aegis.Crypto.Fragment

/-!
# A stream of packets (`fragment.rs`)

One reassembler takes the cells of one packet after another.  It is back in its first state after
every last cell, so the ids do not matter.

* `pushAll_of_collecting` — the rest of a packet, cell by cell.
* `pushAll_packets` — the whole stream.
-/

namespace Aegis

open Buffer

namespace SphinxReassembler

/-- The cells of a stream are pushed one after another; the results, and the state at the end. -/
def pushAll (r : SphinxReassembler) :
    List Cell → List (Except FragmentError (Option SphinxPacket)) × SphinxReassembler
  | [] => ([], r)
  | cell :: cells =>
    let (result, next) := r.push cell
    let (results, last) := next.pushAll cells
    (result :: results, last)

theorem pushAll_cons (r : SphinxReassembler) (cell : Cell) (cells : List Cell) :
    r.pushAll (cell :: cells) =
      ((r.push cell).1 :: ((r.push cell).2.pushAll cells).1,
        ((r.push cell).2.pushAll cells).2) := rfl

theorem pushAll_append (r : SphinxReassembler) (cells cells' : List Cell) :
    r.pushAll (cells ++ cells') =
      ((r.pushAll cells).1 ++ ((r.pushAll cells).2.pushAll cells').1,
        ((r.pushAll cells).2.pushAll cells').2) := by
  induction cells generalizing r with
  | nil => rfl
  | cons cell cells ih =>
    rw [List.cons_append, pushAll_cons, ih, pushAll_cons]
    rfl

/-- What the cells of one packet give: nothing until the last one. -/
def packetResults (packet : SphinxPacket) : List (Except FragmentError (Option SphinxPacket)) :=
  List.replicate (sphinxFragmentCount - 1) (.ok none) ++ [.ok (some packet)]

/-- **The rest of a packet**, cell by cell. -/
theorem pushAll_of_collecting {packetId : PacketId} {packet : SphinxPacket} {k n : ℕ}
    {r : SphinxReassembler} (h : Collecting packetId packet k r)
    (hn : k + (n + 1) = sphinxFragmentCount) :
    r.pushAll ((List.range' k (n + 1)).map fun i =>
        encodeFragmentCell packetId (UInt8.ofNat i) packet) =
      (List.replicate n (.ok none) ++ [.ok (some packet)], new) := by
  induction n generalizing k r with
  | zero =>
    rw [List.range'_succ, List.map_cons, pushAll_cons, h.push_last hn]
    rfl
  | succ n ih =>
    obtain ⟨r', hpush, hnext⟩ := h.push (by omega)
    rw [List.range'_succ, List.map_cons, pushAll_cons, hpush, ih hnext (by omega)]
    rfl

/-- One packet, from start to end. -/
theorem pushAll_fragment (packet : SphinxPacket) (packetId : PacketId) :
    new.pushAll (fragment packet packetId) = (packetResults packet, new) := by
  rw [fragment, List.range_eq_range']
  exact pushAll_of_collecting (n := 17) (collecting_new packetId packet) rfl

/-- **The stream.**  Every packet comes out at the last of its own cells, nothing comes out at the
others, no cell is refused, and at the end the reassembler is in its first state; and every packet's
cells reassemble to it as a batch. -/
theorem pushAll_packets (packets : List (SphinxPacket × PacketId)) :
    new.pushAll (packets.flatMap fun p => fragment p.1 p.2) =
        (packets.flatMap fun p => packetResults p.1, new) ∧
      ∀ p ∈ packets, reassemble (fragment p.1 p.2) = .ok p.1 := by
  refine ⟨?_, fun p _ => reassemble_fragment p.1 p.2⟩
  induction packets with
  | nil => rfl
  | cons p packets ih =>
    rw [List.flatMap_cons, pushAll_append, pushAll_fragment, ih, List.flatMap_cons]

end SphinxReassembler

end Aegis
