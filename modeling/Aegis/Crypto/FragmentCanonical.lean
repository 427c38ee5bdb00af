import Aegis.Crypto.Fragment

/-!
# Which cells make a packet (`fragment.rs`)

The decoder checks the command, the index, the id and the reserved bytes of a cell, and copies
what belongs to the packet.  The last cell has a slot of 500 bytes for 12 of them, and the rest of
the slot is not looked at.

* `cell_ext` — a cell is its header and its slot.
* `of_reassembleLoop` — the cells that are taken are those of the packet, up to that rest.
* `reassemble_iff` — the lists of cells that reassemble to a packet.
-/

namespace Aegis

open Buffer

/-! ## A cell is its header and its slot -/

theorem slice_one_toList {n : ℕ} (b : Bytes n) {i : ℕ} (h : i < n) :
    slice i 1 b.toList = [b.byte i h] := by
  have hlength : i < b.toList.length := by
    rw [b.toList_length]
    exact h
  have hbyte : b.toList[i] = b.byte i h := by
    have hget := Bytes.getElem?_toList b h
    rw [List.getElem?_eq_getElem hlength] at hget
    exact Option.some.inj hget
  rw [slice, List.drop_eq_getElem_cons hlength, hbyte, List.take_succ_cons, List.take_zero]

/-- **Cells that agree in every field are equal.**  The slot is cut at `n`. -/
theorem cell_ext {c c' : Cell} {n : ℕ} (hn : n ≤ fragmentPayloadLen)
    (hcmd : c.byte offCommand (by decide) = c'.byte offCommand (by decide))
    (hidx : c.byte offFragIdx (by decide) = c'.byte offFragIdx (by decide))
    (hid : c.window offPacketId 8 (by decide) = c'.window offPacketId 8 (by decide))
    (hres : c.window offReserved 2 (by decide) = c'.window offReserved 2 (by decide))
    (hdata : slice offPayload n c.toList = slice offPayload n c'.toList)
    (hpad : slice (offPayload + n) (fragmentPayloadLen - n) c.toList =
      slice (offPayload + n) (fragmentPayloadLen - n) c'.toList) : c = c' := by
  have hsplit : ∀ b : Cell, b.toList = slice 0 1 b.toList ++ (slice 1 1 b.toList ++
      (slice 2 8 b.toList ++ (slice 10 2 b.toList ++ (slice 12 n b.toList ++
        slice (12 + n) (500 - n) b.toList)))) := by
    intro b
    have hwhole : slice 0 (1 + (1 + (8 + (2 + (n + (500 - n)))))) b.toList = b.toList := by
      have hcell : b.toList.length = 512 := b.toList_length
      have hslot := fragmentPayloadLen_eq
      exact slice_zero_of_length (by omega)
    rw [slice_append_slice 12 n, slice_append_slice 10 2, slice_append_slice 2 8,
      slice_append_slice 1 1, slice_append_slice 0 1, hwhole]
  have hid' := congrArg List.Vector.toList hid
  have hres' := congrArg List.Vector.toList hres
  rw [Bytes.toList_window, Bytes.toList_window] at hid' hres'
  apply Bytes.ext_toList
  rw [hsplit c, hsplit c', slice_one_toList c (by decide), slice_one_toList c' (by decide),
    slice_one_toList c (by decide), slice_one_toList c' (by decide)]
  rw [show c.byte 0 _ = c'.byte 0 _ from hcmd, show c.byte 1 _ = c'.byte 1 _ from hidx,
    show slice 2 8 c.toList = _ from hid', show slice 10 2 c.toList = _ from hres',
    show slice 12 n c.toList = _ from hdata,
    show slice (12 + n) (500 - n) c.toList = _ from hpad]
  rfl

/-! ## What the decoder has checked -/

theorem Command.eq_toU8_of_fromU8 {b : UInt8} {c : Command} (h : fromU8 b = some c) :
    b = c.toU8 := by
  unfold fromU8 at h
  split at h
  all_goals cases h
  all_goals rfl

theorem of_decodeFragmentCell {cell : Cell} {packetId : PacketId} {index : UInt8}
    {payload : Bytes fragmentPayloadLen}
    (h : decodeFragmentCell cell = .ok (packetId, index, payload)) :
    cell.byte offCommand (by decide) = Command.sphinxFragment.toU8 ∧
      cell.byte offFragIdx (by decide) = index ∧ index.toNat < sphinxFragmentCount ∧
      cell.window offReserved 2 (by decide) = Bytes.zero 2 ∧
      cell.window offPacketId 8 (by decide) = packetId ∧
      cell.window offPayload fragmentPayloadLen (by decide) = payload := by
  unfold decodeFragmentCell at h
  split at h
  · cases h
  · rename_i cmd hcmd
    dsimp only at h
    split_ifs at h with hfrag hcount hres
    obtain ⟨hid, hidx, hpayload⟩ : _ = packetId ∧ _ = index ∧ _ = payload := by
      simpa only [Except.ok.injEq, Prod.mk.injEq] using h
    rw [not_not.mp hfrag] at hcmd
    exact ⟨Command.eq_toU8_of_fromU8 hcmd, hidx, hidx ▸ Nat.lt_of_not_le hcount, not_not.mp hres,
      hid, hpayload⟩

/-- The first bytes of the slot. -/
theorem take_payload (cell : Cell) (index : UInt8) :
    (cell.window offPayload fragmentPayloadLen (by decide)).toList.take (copyLen index) =
      slice offPayload (copyLen index) cell.toList := by
  rw [Bytes.toList_window, slice, slice, List.take_take, min_eq_left (copyLen_le index)]

/-- A write into the slot leaves the fields before it. -/
theorem window_put_of_le (cell : Cell) (src : List UInt8) {at_ off k : ℕ} (h : off + k ≤ cellLen)
    (hle : off + k ≤ at_) : (cell.put at_ src).window off k h = cell.window off k h := by
  apply Bytes.ext_toList
  rw [Bytes.toList_window, Bytes.toList_window, Bytes.toList_put,
    slice_writeAt_of_disjoint (Or.inl hle)]

theorem put_nil (cell : Cell) (off : ℕ) : cell.put off [] = cell := by
  apply Bytes.ext_toList
  rw [Bytes.toList_put]
  exact writeAt_slice _ off 0

/-- **A cell that is decoded** is the encoder's, but for what follows the data in its slot. -/
theorem eq_put_of_decode {cell : Cell} {packetId : PacketId} {index : UInt8}
    {payload : Bytes fragmentPayloadLen}
    (h : decodeFragmentCell cell = .ok (packetId, index, payload)) {packet : SphinxPacket}
    (hdata : payload.toList.take (copyLen index) =
      slice (index.toNat * fragmentPayloadLen) (copyLen index) packet.toList) :
    cell = (encodeFragmentCell packetId index packet).put (offPayload + copyLen index)
      (slice (offPayload + copyLen index) (fragmentPayloadLen - copyLen index) cell.toList) := by
  obtain ⟨hcmd, hidx, hcount, hres, hid, hpayload⟩ := of_decodeFragmentCell h
  have hle := copyLen_le index
  have hslot : ∀ c : Cell, c.toList.length = 12 + fragmentPayloadLen := fun c => c.toList_length
  have hpad : (slice (offPayload + copyLen index) (fragmentPayloadLen - copyLen index)
      cell.toList).length = fragmentPayloadLen - copyLen index := by
    refine length_slice_of_le ?_
    rw [hslot, offPayload, fragmentHeaderLen]
    omega
  refine cell_ext hle ?_ ?_ ?_ ?_ ?_ ?_
  · rw [hcmd, Bytes.byte_put_of_not_mem _ _ _ (Or.inl ?_),
      byte_command_encodeFragmentCell packetId index packet]
    exact Nat.lt_add_right _ (by decide)
  · rw [hidx, Bytes.byte_put_of_not_mem _ _ _ (Or.inl ?_),
      byte_fragIdx_encodeFragmentCell packetId index packet]
    exact Nat.lt_add_right _ (by decide)
  · rw [hid, window_put_of_le _ _ _ (Nat.le_add_right_of_le (by decide)),
      window_packetId_encodeFragmentCell]
  · rw [hres, window_put_of_le _ _ _ (Nat.le_add_right_of_le (by decide)),
      window_reserved_encodeFragmentCell]
  · rw [Bytes.toList_put, slice_writeAt_of_disjoint (Or.inl le_rfl), ← take_payload,
      ← take_payload, payload_encodeFragmentCell packetId index packet hcount, hpayload, hdata]
  · rw [Bytes.toList_put, slice_writeAt hpad]
    rw [hslot, offPayload, fragmentHeaderLen]
    omega

/-! ## Fragments with any padding -/

/-- Where the unused bytes of the last slot begin. -/
def offPad : ℕ := offPayload + lastFragmentDataLen

/-- How many there are. -/
def padLen : ℕ := fragmentPayloadLen - lastFragmentDataLen

/-- The cells of a packet, with other bytes in the unused part of the last slot. -/
def fragmentPadded (packet : SphinxPacket) (packetId : PacketId) (pad : Bytes padLen) : List Cell :=
  (List.range' 0 (sphinxFragmentCount - 1)).map
      (fun i => encodeFragmentCell packetId (UInt8.ofNat i) packet) ++
    [(encodeFragmentCell packetId 17 packet).put offPad pad.toList]

section Last

variable (packetId : PacketId) (packet : SphinxPacket)

theorem slice_pad_encodeFragmentCell :
    slice offPad padLen (encodeFragmentCell packetId 17 packet).toList =
      (Bytes.zero padLen).toList := by
  have hlength : (slice (17 * fragmentPayloadLen) lastFragmentDataLen packet.toList).length =
      lastFragmentDataLen := @length_fragmentData 17 packet (by decide)
  have hzero : ∀ n, (Bytes.zero n).toList = List.replicate n 0 := fun n => rfl
  rw [encodeFragmentCell, Bytes.toList_put, slice_writeAt_of_disjoint (Or.inr ?_), Bytes.toList_put,
    slice_writeAt_of_disjoint (Or.inr ?_), Bytes.toList_put,
    slice_writeAt_of_disjoint (Or.inr (by decide)), Bytes.toList_put,
    slice_writeAt_of_disjoint (Or.inr (by decide)), hzero, hzero, slice, List.drop_replicate,
    List.take_replicate]
  · rfl
  · rw [packetId.toList_length]
    decide
  · exact (Nat.add_le_add_left hlength.le _).trans (by decide)

/-- The encoder pads the last slot with zeros. -/
theorem put_zero_encodeFragmentCell :
    (encodeFragmentCell packetId 17 packet).put offPad (Bytes.zero padLen).toList =
      encodeFragmentCell packetId 17 packet := by
  apply Bytes.ext_toList
  rw [Bytes.toList_put, ← slice_pad_encodeFragmentCell packetId packet, writeAt_slice]

theorem fragment_eq_fragmentPadded :
    fragment packet packetId = fragmentPadded packet packetId (Bytes.zero padLen) := by
  have hrange : List.range sphinxFragmentCount =
      List.range' 0 (sphinxFragmentCount - 1) ++ [17] := by decide
  rw [fragment, fragmentPadded, put_zero_encodeFragmentCell, hrange, List.map_append]
  rfl

variable (pad : Bytes padLen)

/-- The decoder reads the header of a padded last cell as it does without. -/
theorem decode_put_pad :
    decodeFragmentCell ((encodeFragmentCell packetId 17 packet).put offPad pad.toList) =
      .ok (packetId, 17, ((encodeFragmentCell packetId 17 packet).put offPad pad.toList).window
        offPayload fragmentPayloadLen (by decide)) := by
  have hcmd := byte_command_encodeFragmentCell packetId 17 packet
  have hidx := byte_fragIdx_encodeFragmentCell packetId 17 packet
  rw [decodeFragmentCell_of_header
    ((Bytes.byte_put_of_not_mem _ _ _ (Or.inl (by decide))).trans hcmd)
    ((Bytes.byte_put_of_not_mem _ _ _ (Or.inl (by decide))).trans hidx) (by decide)
    ((window_put_of_le _ _ _ (by decide)).trans
      (window_reserved_encodeFragmentCell packetId 17 packet)),
    window_put_of_le _ _ _ (by decide), window_packetId_encodeFragmentCell]

/-- The reassembler does not look at the padding. -/
theorem push_put_pad (r : SphinxReassembler) :
    r.push ((encodeFragmentCell packetId 17 packet).put offPad pad.toList) =
      r.push (encodeFragmentCell packetId 17 packet) := by
  have hframe : slice offPayload (copyLen 17)
      ((encodeFragmentCell packetId 17 packet).put offPad pad.toList).toList =
        slice offPayload (copyLen 17) (encodeFragmentCell packetId 17 packet).toList := by
    rw [Bytes.toList_put]
    exact slice_writeAt_of_disjoint (Or.inl le_rfl)
  rw [SphinxReassembler.push_of_decode r (decode_put_pad packetId packet pad) (by decide),
    SphinxReassembler.push_of_decode r
      (decodeFragmentCell_encodeFragmentCell packetId 17 packet (by decide)) (by decide),
    take_payload, take_payload, hframe]

end Last

/-! ## The cells that are taken -/

namespace SphinxReassembler

/-- A cell that is taken: its fields fit the state, and its data are copied. -/
theorem of_push_ok {r r' : SphinxReassembler} {cell : Cell} {out : Option SphinxPacket}
    (h : r.push cell = (.ok out, r')) :
    ∃ packetId payload, decodeFragmentCell cell = .ok (packetId, r.expectedIndex, payload) ∧
      r.expectedIndex.toNat < sphinxFragmentCount ∧
      (∀ id, r.packetId = some id → id = packetId) ∧
      (out, r') =
        let buf := r.buf.put (r.expectedIndex.toNat * fragmentPayloadLen)
          (payload.toList.take (copyLen r.expectedIndex))
        if r.expectedIndex.toNat = sphinxFragmentCount - 1 then (some buf, new)
        else (none, ⟨r.expectedIndex + 1, some packetId, buf⟩) := by
  cases hdec : decodeFragmentCell cell with
  | error e =>
    rw [push, hdec] at h
    cases h
  | ok fields =>
    obtain ⟨packetId, index, payload⟩ := fields
    have hcount := (of_decodeFragmentCell hdec).2.2.1
    rw [push_of_decode r hdec hcount] at h
    by_cases hid : r.packetId.any (· ≠ packetId) = true
    · rw [if_pos hid] at h
      cases h
    by_cases hidx : index ≠ r.expectedIndex
    · rw [if_neg hid, if_pos hidx] at h
      cases h
    rw [if_neg hid, if_neg hidx] at h
    obtain rfl := not_not.mp hidx
    refine ⟨packetId, payload, rfl, hcount, fun id hsome => ?_, ?_⟩
    · rw [hsome] at hid
      simpa using hid
    · dsimp only at h ⊢
      split_ifs at h ⊢ with hlast
      all_goals
        obtain ⟨hout, hnext⟩ := Prod.mk.inj h
        rw [← hnext, ← Except.ok.inj hout]

/-- Parts of windows that agree agree. -/
theorem slice_of_slice_zero {m off n : ℕ} {l l' : List UInt8} (h : slice 0 m l = slice 0 m l')
    (hle : off + n ≤ m) : slice off n l = slice off n l' := by
  have hpart : ∀ k : List UInt8, slice off n k = slice off n (slice 0 m k) := by
    intro k
    rw [slice_slice hle, Nat.zero_add]
  rw [hpart l, hpart l', h]

/-- What is written of a fragment is read back. -/
theorem slice_put_payload {index : UInt8} (hcount : index.toNat < sphinxFragmentCount)
    (buf : Bytes sphinxPacketLen) (payload : Bytes fragmentPayloadLen) :
    slice (index.toNat * fragmentPayloadLen) (copyLen index)
        (buf.put (index.toNat * fragmentPayloadLen) (payload.toList.take (copyLen index))).toList =
      payload.toList.take (copyLen index) := by
  have hlength : (payload.toList.take (copyLen index)).length = copyLen index := by
    rw [List.length_take, payload.toList_length, min_eq_left (copyLen_le index)]
  rw [Bytes.toList_put, slice_writeAt hlength]
  rw [buf.toList_length]
  exact offset_add_copyLen_le hcount

/-- What has been collected before is not touched. -/
theorem slice_zero_put (index : UInt8) (buf : Bytes sphinxPacketLen) (src : List UInt8) :
    slice 0 (index.toNat * fragmentPayloadLen)
        (buf.put (index.toNat * fragmentPayloadLen) src).toList =
      slice 0 (index.toNat * fragmentPayloadLen) buf.toList := by
  rw [Bytes.toList_put, slice_writeAt_of_disjoint (Or.inl (by rw [Nat.zero_add]))]

/-- A cell that completes a packet is its last one, but for the padding. -/
theorem of_push_some {r r' : SphinxReassembler} {cell : Cell} {packet : SphinxPacket}
    (h : r.push cell = (.ok (some packet), r')) :
    r.expectedIndex = 17 ∧
      slice 0 (r.expectedIndex.toNat * fragmentPayloadLen) packet.toList =
        slice 0 (r.expectedIndex.toNat * fragmentPayloadLen) r.buf.toList ∧
      ∃ packetId, (∀ id, r.packetId = some id → id = packetId) ∧ ∃ pad : Bytes padLen,
        cell = (encodeFragmentCell packetId 17 packet).put offPad pad.toList := by
  obtain ⟨packetId, payload, hdec, hlt, hid, hout⟩ := of_push_ok h
  dsimp only at hout
  split_ifs at hout with hlast
  · obtain rfl := Option.some.inj (Prod.mk.inj hout).1
    have hdata := slice_put_payload hlt r.buf payload
    have hcell := eq_put_of_decode hdec hdata.symm
    have hindex : r.expectedIndex = 17 := UInt8.toNat_inj.mp hlast
    refine ⟨hindex, slice_zero_put _ _ _, packetId, hid, cell.window offPad padLen (by decide), ?_⟩
    rw [Bytes.toList_window]
    rw [hindex] at hcell ⊢
    exact hcell
  · cases (Prod.mk.inj hout).1

/-- A cell that does not complete a packet is that of every packet that begins with what has been
collected after it. -/
theorem of_push_none {r r' : SphinxReassembler} {cell : Cell}
    (h : r.push cell = (.ok none, r')) :
    r.expectedIndex.toNat ≠ sphinxFragmentCount - 1 ∧ r'.expectedIndex = r.expectedIndex + 1 ∧
      ∃ packetId, r'.packetId = some packetId ∧ (∀ id, r.packetId = some id → id = packetId) ∧
        ∀ packet : SphinxPacket,
          slice 0 ((r.expectedIndex.toNat + 1) * fragmentPayloadLen) packet.toList =
              slice 0 ((r.expectedIndex.toNat + 1) * fragmentPayloadLen) r'.buf.toList →
            slice 0 (r.expectedIndex.toNat * fragmentPayloadLen) packet.toList =
                slice 0 (r.expectedIndex.toNat * fragmentPayloadLen) r.buf.toList ∧
              cell = encodeFragmentCell packetId r.expectedIndex packet := by
  obtain ⟨packetId, payload, hdec, hlt, hid, hout⟩ := of_push_ok h
  dsimp only at hout
  split_ifs at hout with hlast
  · cases (Prod.mk.inj hout).1
  · obtain rfl := (Prod.mk.inj hout).2
    refine ⟨hlast, rfl, packetId, rfl, hid, fun packet hbuf => ⟨?_, ?_⟩⟩
    · rw [slice_of_slice_zero hbuf (by rw [Nat.succ_mul]; omega), slice_zero_put]
    · have hcopy : copyLen r.expectedIndex = fragmentPayloadLen := by
        rw [copyLen, if_neg hlast]
      have hdata : payload.toList.take (copyLen r.expectedIndex) =
          slice (r.expectedIndex.toNat * fragmentPayloadLen) (copyLen r.expectedIndex)
            packet.toList := by
        rw [slice_of_slice_zero hbuf (by rw [hcopy, Nat.succ_mul]), slice_put_payload hlt]
      have hcell := eq_put_of_decode hdec hdata
      rw [hcopy, Nat.sub_self] at hcell
      exact hcell.trans (put_nil _ _)

/-- **The cells that are taken**, from the `k`-th on, are those of the packet that comes out; what
has been collected before is its beginning. -/
theorem of_reassembleLoop {cells : List Cell} {got k : ℕ} {r : SphinxReassembler}
    {packet : SphinxPacket} (hindex : r.expectedIndex.toNat = k)
    (hlength : k + cells.length = sphinxFragmentCount) (hk : k < sphinxFragmentCount)
    (h : reassembleLoop r got cells = .ok packet) :
    slice 0 (k * fragmentPayloadLen) packet.toList =
        slice 0 (k * fragmentPayloadLen) r.buf.toList ∧
      ∃ packetId, (∀ id, r.packetId = some id → id = packetId) ∧ ∃ pad : Bytes padLen,
        cells = (List.range' k (sphinxFragmentCount - 1 - k)).map
            (fun i => encodeFragmentCell packetId (UInt8.ofNat i) packet) ++
          [(encodeFragmentCell packetId 17 packet).put offPad pad.toList] := by
  induction cells generalizing k r with
  | nil => exact absurd hk (by rw [← hlength]; simp)
  | cons cell cells ih =>
    have hcount := sphinxFragmentCount_eq
    rw [List.length_cons] at hlength
    unfold reassembleLoop at h
    split at h
    · cases h
    · -- the last cell
      rename_i out r' hpush
      obtain rfl := Except.ok.inj h
      obtain ⟨hlast, hbuf, packetId, hid, pad, hcell⟩ := of_push_some hpush
      have hk' : k = sphinxFragmentCount - 1 := by
        rw [← hindex, hlast]
        rfl
      obtain rfl : cells = [] := List.length_eq_zero_iff.mp (by omega)
      refine ⟨hindex ▸ hbuf, packetId, hid, pad, ?_⟩
      rw [hk', Nat.sub_self, List.range'_zero, List.map_nil, List.nil_append, hcell]
    · rename_i r' hpush
      obtain ⟨hlast, hindex', packetId, hsome, hid, hcell⟩ := of_push_none hpush
      rw [hindex] at hlast hcell
      have hnext : r'.expectedIndex.toNat = k + 1 := by
        rw [hindex', UInt8.toNat_add, hindex]
        have hone : (1 : UInt8).toNat = 1 := rfl
        omega
      obtain ⟨hbuf, packetId', hid', pad, hcells⟩ := ih hnext (by omega) (by omega) h
      obtain rfl : packetId = packetId' := hid' packetId hsome
      obtain ⟨hbefore, rfl⟩ := hcell packet hbuf
      refine ⟨hbefore, packetId, hid, pad, ?_⟩
      have hrange : sphinxFragmentCount - 1 - k = sphinxFragmentCount - 1 - (k + 1) + 1 := by
        omega
      rw [hrange, List.range'_succ, List.map_cons, List.cons_append, ← hcells, ← hindex,
        UInt8.ofNat_toNat]

/-- Cells that are pushed alike reassemble alike. -/
theorem reassembleLoop_concat_congr {cell cell' : Cell} (h : ∀ r, push r cell = push r cell')
    (cells : List Cell) (got : ℕ) (r : SphinxReassembler) :
    reassembleLoop r got (cells ++ [cell]) = reassembleLoop r got (cells ++ [cell']) := by
  induction cells generalizing r with
  | nil =>
    rw [List.nil_append, List.nil_append, reassembleLoop, reassembleLoop, h r]
  | cons c cells ih =>
    rw [List.cons_append, List.cons_append, reassembleLoop, reassembleLoop]
    split
    · rfl
    · rfl
    · exact ih _

end SphinxReassembler

/-! ## The theorem -/

theorem length_fragmentPadded (packet : SphinxPacket) (packetId : PacketId) (pad : Bytes padLen) :
    (fragmentPadded packet packetId pad).length = sphinxFragmentCount := by
  rw [fragmentPadded, List.length_append, List.length_map, List.length_range',
    List.length_singleton]
  rfl

/-- A packet's cells reassemble to it with any padding. -/
theorem reassemble_fragmentPadded (packet : SphinxPacket) (packetId : PacketId)
    (pad : Bytes padLen) : reassemble (fragmentPadded packet packetId pad) = .ok packet := by
  have hzero := reassemble_fragment packet packetId
  rw [fragment_eq_fragmentPadded, reassemble, length_fragmentPadded, if_neg (not_not.mpr rfl)]
    at hzero
  rw [reassemble, length_fragmentPadded, if_neg (not_not.mpr rfl), ← hzero]
  refine SphinxReassembler.reassembleLoop_concat_congr (fun r => ?_) _ _ _
  rw [push_put_pad, push_put_pad]

/-- **Canonical but for the padding.**  A list of cells reassembles to a packet if and only if it
is the list of the packet's fragments, for some id, with any bytes in the unused part of the last
slot. -/
theorem reassemble_iff (cells : List Cell) (packet : SphinxPacket) :
    reassemble cells = .ok packet ↔
      ∃ packetId pad, cells = fragmentPadded packet packetId pad := by
  constructor
  · intro h
    unfold reassemble at h
    split_ifs at h with hlength
    have hcount : 0 + cells.length = sphinxFragmentCount := by
      rw [Nat.zero_add]
      exact not_not.mp hlength
    obtain ⟨-, packetId, -, pad, hcells⟩ :=
      SphinxReassembler.of_reassembleLoop (k := 0) rfl hcount (by decide) h
    exact ⟨packetId, pad, hcells⟩
  · rintro ⟨packetId, pad, rfl⟩
    exact reassemble_fragmentPadded packet packetId pad

/-- The cells show their id and their padding. -/
theorem fragmentPadded_inj {packet : SphinxPacket} {packetId packetId' : PacketId}
    {pad pad' : Bytes padLen}
    (h : fragmentPadded packet packetId pad = fragmentPadded packet packetId' pad') :
    packetId = packetId' ∧ pad = pad' := by
  unfold fragmentPadded at h
  have hlast := List.singleton_inj.mp (List.append_inj' h (by simp)).2
  have hid : ∀ id : PacketId, ∀ b : Bytes padLen,
      ((encodeFragmentCell id 17 packet).put offPad b.toList).window offPacketId 8 (by decide) =
        id := by
    intro id b
    rw [window_put_of_le _ _ _ (by decide), window_packetId_encodeFragmentCell]
  have hpad : ∀ id : PacketId, ∀ b : Bytes padLen,
      slice offPad padLen ((encodeFragmentCell id 17 packet).put offPad b.toList).toList =
        b.toList := by
    intro id b
    rw [Bytes.toList_put, slice_writeAt b.toList_length]
    rw [List.Vector.toList_length]
    decide
  constructor
  · rw [← hid packetId pad, hlast, hid]
  · apply Bytes.ext_toList
    rw [← hpad packetId pad, hlast, hpad]

/-- **Bytes the encoder never writes**: the fragments of a packet of zeros, with ones behind the
data of the last cell, are accepted. -/
theorem accepted_padding_ones :
    reassemble (fragmentPadded (Bytes.zero sphinxPacketLen) (Bytes.zero 8)
        (List.Vector.replicate padLen 1)) = .ok (Bytes.zero sphinxPacketLen) ∧
      ∀ packetId, fragmentPadded (Bytes.zero sphinxPacketLen) (Bytes.zero 8)
        (List.Vector.replicate padLen 1) ≠ fragment (Bytes.zero sphinxPacketLen) packetId := by
  refine ⟨reassemble_fragmentPadded _ _ _, fun packetId h => ?_⟩
  rw [fragment_eq_fragmentPadded] at h
  have hbyte := congrArg (fun pad : Bytes padLen => pad.byte 0 (by decide)) (fragmentPadded_inj h).2
  simp [Bytes.byte, Bytes.zero] at hbyte

end Aegis
