import Aegis.Crypto.Cell
import Aegis.Crypto.Sphinx

/-!
# Fragments of Sphinx packets (`fragment.rs`)

A packet travels as 18 cells.  Each carries the command byte, its index, the id of
the packet, two reserved zero bytes and 500 bytes of the packet (12 in the last
one).  The reassembler takes the cells of one packet in order.

* `decodeFragmentCell_encodeFragmentCell` — a fragment is read back.
* `push_encode` — **what the reassembler does with a fragment**, in any state.
* `Collecting.push`, `Collecting.push_last` — it collects a packet fragment by fragment.
* `reassemble_fragment` — the round trip.
-/

namespace Aegis

open Buffer

/-! ## Layout -/

/-- Command, index, packet id and two reserved bytes. -/
def fragmentHeaderLen : ℕ := 12

/-- What is left of a cell for a part of the packet. -/
def fragmentPayloadLen : ℕ := cellLen - fragmentHeaderLen

/-- How many cells a packet takes, rounded up. -/
def sphinxFragmentCount : ℕ := (sphinxPacketLen - 1) / fragmentPayloadLen + 1

/-- How much of the last cell is used. -/
def lastFragmentDataLen : ℕ := sphinxPacketLen - (sphinxFragmentCount - 1) * fragmentPayloadLen

/-- Where the command stands in a cell. -/
def offCommand : ℕ := 0

/-- Where the index of the fragment stands. -/
def offFragIdx : ℕ := 1

/-- Where the packet id stands. -/
def offPacketId : ℕ := 2

/-- Where the reserved bytes stand. -/
def offReserved : ℕ := 10

/-- Where the part of the packet begins. -/
def offPayload : ℕ := fragmentHeaderLen

theorem offCommand_lt_cellLen : offCommand < cellLen := by decide

theorem offReserved_add_two_le : offReserved + 2 ≤ cellLen := by decide

/-- The id that the fragments of a packet share. -/
abbrev PacketId := Bytes 8

/-- What a cell is refused for. -/
inductive FragmentError where
  | malformed (what : String)
  | incomplete (expected got : ℕ)
  | outOfOrder (expected got : UInt8)
  | packetIdMismatch
  deriving DecidableEq, Repr

/-- How many bytes of the packet the fragment of this index carries. -/
def copyLen (index : UInt8) : ℕ :=
  if index.toNat = sphinxFragmentCount - 1 then lastFragmentDataLen else fragmentPayloadLen

/-- Fragment number `index` of a packet, with zeros behind the end of the packet. -/
def encodeFragmentCell (packetId : PacketId) (index : UInt8) (packet : SphinxPacket) : Cell :=
  let buf : Cell := Bytes.zero cellLen
  let buf := buf.put offCommand [Command.sphinxFragment.toU8]
  let buf := buf.put offFragIdx [index]
  let buf := buf.put offPacketId packetId.toList
  let srcOff := index.toNat * fragmentPayloadLen
  buf.put offPayload (slice srcOff (copyLen index) packet.toList)

/-- The packet id, the index and the payload of a cell. -/
def decodeFragmentCell (cell : Cell) :
    Except FragmentError (PacketId × UInt8 × Bytes fragmentPayloadLen) :=
  match Command.fromU8 (cell.byte offCommand (by decide)) with
  | none => .error (.malformed "command")
  | some cmd =>
    if cmd ≠ .sphinxFragment then .error (.malformed "not a sphinx fragment") else
    let index := cell.byte offFragIdx (by decide)
    if index.toNat ≥ sphinxFragmentCount then .error (.malformed "fragment index") else
    if cell.window offReserved 2 (by decide) ≠ Bytes.zero 2 then
      .error (.malformed "reserved bytes")
    else .ok (cell.window offPacketId 8 (by decide), index,
      cell.window offPayload fragmentPayloadLen (by decide))

/-! ## A fragment is read back -/

theorem sphinxFragmentCount_eq : sphinxFragmentCount = 18 := rfl

theorem fragmentPayloadLen_eq : fragmentPayloadLen = 500 := rfl

theorem copyLen_le (index : UInt8) : copyLen index ≤ fragmentPayloadLen := by
  rw [copyLen]
  split_ifs <;> decide

/-- Every fragment lies inside the packet. -/
theorem offset_add_copyLen_le {index : UInt8} (h : index.toNat < sphinxFragmentCount) :
    index.toNat * fragmentPayloadLen + copyLen index ≤ sphinxPacketLen := by
  have hlast : lastFragmentDataLen = 12 := rfl
  have hlen : sphinxPacketLen = 8512 := rfl
  rw [sphinxFragmentCount_eq] at h
  rw [copyLen, sphinxFragmentCount_eq, fragmentPayloadLen_eq, hlast, hlen]
  split_ifs <;> omega

theorem length_fragmentData {index : UInt8} (packet : SphinxPacket)
    (h : index.toNat < sphinxFragmentCount) :
    (slice (index.toNat * fragmentPayloadLen) (copyLen index) packet.toList).length =
      copyLen index :=
  length_slice_of_le (by rw [packet.toList_length]; exact offset_add_copyLen_le h)

/-- A cell with a fragment's header is decoded. -/
theorem decodeFragmentCell_of_header {cell : Cell} {index : UInt8}
    (hcmd : cell.byte offCommand (by decide) = Command.sphinxFragment.toU8)
    (hidx : cell.byte offFragIdx (by decide) = index) (h : index.toNat < sphinxFragmentCount)
    (hres : cell.window offReserved 2 (by decide) = Bytes.zero 2) :
    decodeFragmentCell cell = .ok (cell.window offPacketId 8 (by decide), index,
      cell.window offPayload fragmentPayloadLen (by decide)) := by
  simp only [decodeFragmentCell, hcmd, Command.fromU8_toU8, hidx, hres, ne_eq, not_true_eq_false,
    if_false, if_neg (Nat.not_le.mpr h)]

section Encode

variable (packetId : PacketId) (index : UInt8) (packet : SphinxPacket)

theorem byte_command_encodeFragmentCell :
    (encodeFragmentCell packetId index packet).byte offCommand (by decide) =
      Command.sphinxFragment.toU8 := by
  rw [encodeFragmentCell, Bytes.byte_put_of_not_mem _ _ _ (Or.inl (by decide)),
    Bytes.byte_put_of_not_mem _ _ _ (Or.inl (by decide)),
    Bytes.byte_put_of_not_mem _ _ _ (Or.inl (by decide)),
    Bytes.byte_put_of_mem _ _ _ (by decide) (by decide)]
  rfl

theorem byte_fragIdx_encodeFragmentCell :
    (encodeFragmentCell packetId index packet).byte offFragIdx (by decide) = index := by
  rw [encodeFragmentCell, Bytes.byte_put_of_not_mem _ _ _ (Or.inl (by decide)),
    Bytes.byte_put_of_not_mem _ _ _ (Or.inl (by decide)),
    Bytes.byte_put_of_mem _ _ _ le_rfl (Nat.lt_succ_self _)]
  rfl

theorem window_packetId_encodeFragmentCell :
    (encodeFragmentCell packetId index packet).window offPacketId 8 (by decide) = packetId := by
  apply Bytes.ext_toList
  rw [Bytes.toList_window, encodeFragmentCell, Bytes.toList_put,
    slice_writeAt_of_disjoint (Or.inl (by decide)), Bytes.toList_put,
    slice_writeAt packetId.toList_length]
  rw [Bytes.toList_put, length_writeAt, List.Vector.toList_length]
  decide

theorem window_reserved_encodeFragmentCell :
    (encodeFragmentCell packetId index packet).window offReserved 2 (by decide) =
      Bytes.zero 2 := by
  apply Bytes.ext_toList
  rw [Bytes.toList_window, encodeFragmentCell, Bytes.toList_put,
    slice_writeAt_of_disjoint (Or.inl (by decide)), Bytes.toList_put,
    slice_writeAt_of_disjoint (Or.inr (by rw [packetId.toList_length]; decide)), Bytes.toList_put,
    slice_writeAt_of_disjoint (Or.inr (show 1 + 1 ≤ 10 by decide)), Bytes.toList_put,
    slice_writeAt_of_disjoint (Or.inr (by decide))]
  rfl

/-- The packet bytes a fragment carries are those at its index. -/
theorem payload_encodeFragmentCell (h : index.toNat < sphinxFragmentCount) :
    ((encodeFragmentCell packetId index packet).window offPayload fragmentPayloadLen
      (by decide)).toList.take (copyLen index) =
      slice (index.toNat * fragmentPayloadLen) (copyLen index) packet.toList := by
  have htake : ∀ l : List UInt8, (slice offPayload fragmentPayloadLen l).take (copyLen index) =
      slice offPayload (copyLen index) l := by
    intro l
    rw [slice, slice, List.take_take, min_eq_left (copyLen_le index)]
  rw [Bytes.toList_window, htake, encodeFragmentCell, Bytes.toList_put,
    slice_writeAt (length_fragmentData packet h)]
  rw [List.Vector.toList_length]
  exact le_trans (Nat.add_le_add_left (copyLen_le index) _) (by decide)

/-- **A fragment is read back.** -/
theorem decodeFragmentCell_encodeFragmentCell (h : index.toNat < sphinxFragmentCount) :
    decodeFragmentCell (encodeFragmentCell packetId index packet) =
      .ok (packetId, index, (encodeFragmentCell packetId index packet).window offPayload
        fragmentPayloadLen (by decide)) := by
  rw [decodeFragmentCell_of_header (byte_command_encodeFragmentCell packetId index packet)
    (byte_fragIdx_encodeFragmentCell packetId index packet) h
    (window_reserved_encodeFragmentCell packetId index packet),
    window_packetId_encodeFragmentCell]

end Encode

/-- Split a packet into its cells. -/
def fragment (packet : SphinxPacket) (packetId : PacketId) : List Cell :=
  (List.range sphinxFragmentCount).map fun i =>
    encodeFragmentCell packetId (UInt8.ofNat i) packet

/-- Split with a random id. -/
def fragmentWithRandomId {ρ : Type} (C : Suite ρ) (packet : SphinxPacket) (rng : ρ) :
    (List Cell × PacketId) × ρ :=
  let (packetId, rng) := C.fillBytes 8 rng
  ((fragment packet packetId, packetId), rng)

/-! ## Reassembly -/

/-- Collects one packet at a time, in order. -/
structure SphinxReassembler where
  expectedIndex : UInt8
  packetId : Option PacketId
  buf : Bytes sphinxPacketLen

namespace SphinxReassembler

/-- No packet has been begun. -/
def new : SphinxReassembler := ⟨0, none, Bytes.zero sphinxPacketLen⟩

/-- The packet that was begun is given up. -/
def reset (_ : SphinxReassembler) : SphinxReassembler := ⟨0, none, Bytes.zero sphinxPacketLen⟩

/-- Accept the next fragment.  The id of a first fragment is stored before its index
is checked, also when that check fails. -/
def push (r : SphinxReassembler) (cell : Cell) :
    Except FragmentError (Option SphinxPacket) × SphinxReassembler :=
  match decodeFragmentCell cell with
  | .error e => (.error e, r)
  | .ok (packetId, index, payload) =>
    if r.packetId.any (· ≠ packetId) then (.error .packetIdMismatch, r) else
    let r := { r with packetId := some packetId }
    if index ≠ r.expectedIndex then (.error (.outOfOrder r.expectedIndex index), r) else
    let destOff := index.toNat * fragmentPayloadLen
    let r := { r with buf := r.buf.put destOff (payload.toList.take (copyLen index)) }
    let r := { r with expectedIndex := r.expectedIndex + 1 }
    if r.expectedIndex.toNat = sphinxFragmentCount then (.ok (some r.buf), r.reset)
    else (.ok none, r)

end SphinxReassembler

/-- Reassemble an ordered batch. -/
def reassembleLoop (r : SphinxReassembler) (got : ℕ) : List Cell → Except FragmentError SphinxPacket
  | [] => .error (.incomplete sphinxFragmentCount got)
  | cell :: cells =>
    match r.push cell with
    | (.error e, _) => .error e
    | (.ok (some packet), _) => .ok packet
    | (.ok none, r) => reassembleLoop r got cells

/-- The packet of a list of cells, if they are its fragments in order. -/
def reassemble (cells : List Cell) : Except FragmentError SphinxPacket :=
  if cells.length ≠ sphinxFragmentCount then .error (.incomplete sphinxFragmentCount cells.length)
  else reassembleLoop .new cells.length cells

/-! ## What the reassembler does with a fragment -/

namespace SphinxReassembler

/-- A cell that is decoded. -/
theorem push_of_decode (r : SphinxReassembler) {cell : Cell} {packetId : PacketId} {index : UInt8}
    {payload : Bytes fragmentPayloadLen}
    (hdec : decodeFragmentCell cell = .ok (packetId, index, payload))
    (h : index.toNat < sphinxFragmentCount) :
    r.push cell =
      if r.packetId.any (· ≠ packetId) then (.error .packetIdMismatch, r)
      else if index ≠ r.expectedIndex then
        (.error (.outOfOrder r.expectedIndex index), { r with packetId := some packetId })
      else
        let buf := r.buf.put (index.toNat * fragmentPayloadLen)
          (payload.toList.take (copyLen index))
        if index.toNat = sphinxFragmentCount - 1 then (.ok (some buf), new)
        else (.ok none, ⟨r.expectedIndex + 1, some packetId, buf⟩) := by
  simp only [push, hdec]
  by_cases hid : r.packetId.any (· ≠ packetId) = true
  · rw [if_pos hid, if_pos hid]
  · rw [if_neg hid, if_neg hid]
    by_cases hidx : index = r.expectedIndex
    · have hlast : (r.expectedIndex + 1).toNat = sphinxFragmentCount ↔
          index.toNat = sphinxFragmentCount - 1 := by
        rw [← hidx, UInt8.toNat_add, sphinxFragmentCount_eq]
        rw [sphinxFragmentCount_eq] at h
        have hone : (1 : UInt8).toNat = 1 := rfl
        omega
      simp only [ne_eq, hidx, not_true_eq_false, if_false] at hlast ⊢
      simp only [hlast]
      rfl
    · simp only [ne_eq, hidx, not_false_eq_true, if_true]

/-- **One fragment**, in any state of the reassembler. -/
theorem push_encode (r : SphinxReassembler) (packetId : PacketId) {index : UInt8}
    (packet : SphinxPacket) (h : index.toNat < sphinxFragmentCount) :
    r.push (encodeFragmentCell packetId index packet) =
      if r.packetId.any (· ≠ packetId) then (.error .packetIdMismatch, r)
      else if index ≠ r.expectedIndex then
        (.error (.outOfOrder r.expectedIndex index), { r with packetId := some packetId })
      else
        let buf := r.buf.put (index.toNat * fragmentPayloadLen)
          (slice (index.toNat * fragmentPayloadLen) (copyLen index) packet.toList)
        if index.toNat = sphinxFragmentCount - 1 then (.ok (some buf), new)
        else (.ok none, ⟨r.expectedIndex + 1, some packetId, buf⟩) := by
  rw [push_of_decode r (decodeFragmentCell_encodeFragmentCell packetId index packet h) h,
    payload_encodeFragmentCell packetId index packet h]

/-- The reassembler has taken the first `k` fragments of `packet`. -/
structure Collecting (packetId : PacketId) (packet : SphinxPacket) (k : ℕ)
    (r : SphinxReassembler) : Prop where
  index : r.expectedIndex.toNat = k
  id : r.packetId = if k = 0 then none else some packetId
  buf : slice 0 (k * fragmentPayloadLen) r.buf.toList =
    slice 0 (k * fragmentPayloadLen) packet.toList

theorem collecting_new (packetId : PacketId) (packet : SphinxPacket) :
    Collecting packetId packet 0 new :=
  ⟨rfl, rfl, rfl⟩

variable {packetId : PacketId} {packet : SphinxPacket} {k : ℕ} {r : SphinxReassembler}

theorem Collecting.not_any_ne (h : Collecting packetId packet k r) :
    r.packetId.any (· ≠ packetId) = false := by
  rw [h.id]
  split_ifs <;> simp

/-- Writing the next fragment extends what has been collected. -/
theorem Collecting.slice_put (h : Collecting packetId packet k r)
    (hk : k < sphinxFragmentCount) :
    slice 0 (k * fragmentPayloadLen + copyLen r.expectedIndex)
      (r.buf.put (k * fragmentPayloadLen)
        (slice (k * fragmentPayloadLen) (copyLen r.expectedIndex) packet.toList)).toList =
      slice 0 (k * fragmentPayloadLen + copyLen r.expectedIndex) packet.toList := by
  have hidx : r.expectedIndex.toNat < sphinxFragmentCount := by rw [h.index]; exact hk
  have hfit := offset_add_copyLen_le hidx
  have hlen := length_fragmentData packet hidx
  rw [h.index] at hfit hlen
  rw [← slice_append_slice, ← slice_append_slice, Nat.zero_add, Bytes.toList_put,
    slice_writeAt_of_disjoint (Or.inl (by omega)), h.buf, slice_writeAt hlen]
  rw [List.Vector.toList_length]
  exact hfit

/-- **Every fragment but the last** is collected. -/
theorem Collecting.push (h : Collecting packetId packet k r) (hk : k + 1 < sphinxFragmentCount) :
    ∃ r', r.push (encodeFragmentCell packetId (UInt8.ofNat k) packet) = (.ok none, r') ∧
      Collecting packetId packet (k + 1) r' := by
  have hcount := sphinxFragmentCount_eq
  have hidx : UInt8.ofNat k = r.expectedIndex := by
    rw [← h.index, UInt8.ofNat_toNat]
  have hlt : r.expectedIndex.toNat < sphinxFragmentCount := by rw [h.index]; omega
  have hne : ¬ k = sphinxFragmentCount - 1 := by omega
  have hcopy : copyLen r.expectedIndex = fragmentPayloadLen := by
    rw [copyLen, h.index, if_neg hne]
  refine ⟨⟨r.expectedIndex + 1, some packetId, r.buf.put (k * fragmentPayloadLen)
    (slice (k * fragmentPayloadLen) (copyLen r.expectedIndex) packet.toList)⟩, ?_, ?_, ?_, ?_⟩
  · rw [hidx, push_encode r packetId packet hlt, h.not_any_ne]
    simp only [Bool.false_eq_true, if_false, ne_eq, not_true_eq_false, h.index, if_neg hne]
  · rw [UInt8.toNat_add, h.index]
    have hone : (1 : UInt8).toNat = 1 := rfl
    omega
  · rw [if_neg (Nat.succ_ne_zero k)]
  · have hput := h.slice_put (by omega)
    rw [hcopy, ← Nat.add_one_mul] at hput
    rw [hcopy]
    exact hput

/-- **The last fragment** completes the packet. -/
theorem Collecting.push_last (h : Collecting packetId packet k r)
    (hk : k + 1 = sphinxFragmentCount) :
    r.push (encodeFragmentCell packetId (UInt8.ofNat k) packet) = (.ok (some packet), new) := by
  have hidx : UInt8.ofNat k = r.expectedIndex := by
    rw [← h.index, UInt8.ofNat_toNat]
  have hlt : r.expectedIndex.toNat < sphinxFragmentCount := by rw [h.index]; omega
  have hlast : k = sphinxFragmentCount - 1 := by omega
  have hput := h.slice_put (by omega)
  have hend : k * fragmentPayloadLen + copyLen r.expectedIndex = sphinxPacketLen := by
    rw [copyLen, h.index, if_pos hlast, hlast]
    decide
  rw [hend, slice_zero_of_length (List.Vector.toList_length _),
    slice_zero_of_length packet.toList_length] at hput
  rw [hidx, push_encode r packetId packet hlt, h.not_any_ne]
  simp only [Bool.false_eq_true, if_false, ne_eq, not_true_eq_false, h.index, if_pos hlast,
    Bytes.ext_toList hput]

theorem reassembleLoop_of_collecting {got n : ℕ} (h : Collecting packetId packet k r)
    (hn : k + (n + 1) = sphinxFragmentCount) :
    reassembleLoop r got ((List.range' k (n + 1)).map fun i =>
      encodeFragmentCell packetId (UInt8.ofNat i) packet) = .ok packet := by
  induction n generalizing k r with
  | zero =>
    rw [List.range'_succ, List.map_cons, reassembleLoop, h.push_last hn]
  | succ n ih =>
    obtain ⟨r', hpush, hnext⟩ := h.push (by omega)
    rw [List.range'_succ, List.map_cons, reassembleLoop, hpush]
    exact ih hnext (by omega)

end SphinxReassembler

/-- **The round trip.** -/
theorem reassemble_fragment (packet : SphinxPacket) (packetId : PacketId) :
    reassemble (fragment packet packetId) = .ok packet := by
  have hlen : (fragment packet packetId).length = sphinxFragmentCount := by
    rw [fragment, List.length_map, List.length_range]
  rw [reassemble, if_neg (not_not.mpr hlen), fragment, List.range_eq_range']
  exact SphinxReassembler.reassembleLoop_of_collecting (n := 17)
    (SphinxReassembler.collecting_new packetId packet) rfl

end Aegis
