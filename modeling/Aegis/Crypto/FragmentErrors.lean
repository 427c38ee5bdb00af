import Aegis.Crypto.FragmentCanonical

/-!
# What a refused cell leaves behind (`fragment.rs`)

A cell that is refused leaves the reassembler as it was, with one exception.  The id of a first cell
is stored before its index is compared, so that a first cell that is out of order leaves its id
behind, and the next packet is refused for it.

* `of_push_error` — what a refusal can do to the state.
* `push_atomic_iff` — **when a refusal does nothing**, in every state that can be reached.
* `not_push_atomic` — a stray cell between two packets.
-/

namespace Aegis

open Buffer

namespace SphinxReassembler

/-! ## The states that are reached -/

/-- The states a reassembler gets into, cell by cell. -/
inductive Reachable : SphinxReassembler → Prop where
  | new : Reachable new
  | push {r : SphinxReassembler} (h : Reachable r) (cell : Cell) : Reachable (r.push cell).2
  | reset {r : SphinxReassembler} (h : Reachable r) : Reachable r.reset

/-- What holds of them: without an id there is nothing else either. -/
structure Inv (r : SphinxReassembler) : Prop where
  index_lt : r.expectedIndex.toNat < sphinxFragmentCount
  idle : r.packetId = none → r = .new

theorem inv_new : Inv .new := ⟨by decide, fun _ => rfl⟩

theorem not_any_ne {o : Option PacketId} {packetId : PacketId}
    (h : ∀ id, o = some id → id = packetId) : ¬o.any (· ≠ packetId) = true := by
  cases o with
  | none => simp
  | some id => simp [h id rfl]

/-- At first there is no id. -/
theorem id_of_new (packetId : PacketId) : ∀ id, new.packetId = some id → id = packetId := by
  intro id h
  cases (show none = some id from h)

/-- A cell that is out of order leaves its id. -/
theorem push_of_ne_index {r : SphinxReassembler} {cell : Cell} {packetId : PacketId} {index : UInt8}
    {payload : Bytes fragmentPayloadLen}
    (hdec : decodeFragmentCell cell = .ok (packetId, index, payload))
    (hid : ∀ id, r.packetId = some id → id = packetId) (hne : index ≠ r.expectedIndex) :
    r.push cell =
      (.error (.outOfOrder r.expectedIndex index), { r with packetId := some packetId }) := by
  rw [push_of_decode r hdec (of_decodeFragmentCell hdec).2.2.1, if_neg (not_any_ne hid), if_pos hne]

/-- **What a refusal can do to the state**: nothing, or it leaves an id. -/
theorem of_push_error {r r' : SphinxReassembler} {cell : Cell} {e : FragmentError}
    (h : r.push cell = (.error e, r')) :
    r' = r ∨ ∃ packetId index payload, decodeFragmentCell cell = .ok (packetId, index, payload) ∧
      (∀ id, r.packetId = some id → id = packetId) ∧ index ≠ r.expectedIndex ∧
      r' = { r with packetId := some packetId } := by
  cases hdec : decodeFragmentCell cell with
  | error e =>
    rw [push, hdec] at h
    exact .inl (Prod.mk.inj h).2.symm
  | ok fields =>
    obtain ⟨packetId, index, payload⟩ := fields
    rw [push_of_decode r hdec (of_decodeFragmentCell hdec).2.2.1] at h
    dsimp only at h
    split_ifs at h with hid hidx hlast
    · exact .inl (Prod.mk.inj h).2.symm
    · refine .inr ⟨packetId, index, payload, rfl, fun id hsome => ?_, hidx, (Prod.mk.inj h).2.symm⟩
      rw [hsome] at hid
      simpa using hid
    · cases (Prod.mk.inj h).1
    · cases (Prod.mk.inj h).1

theorem Inv.push {r : SphinxReassembler} (h : Inv r) (cell : Cell) : Inv (r.push cell).2 := by
  obtain ⟨⟨result, r'⟩, hpush⟩ : ∃ p, r.push cell = p := ⟨_, rfl⟩
  rw [hpush]
  cases result with
  | error e =>
    rcases of_push_error hpush with rfl | ⟨packetId, index, payload, -, -, -, rfl⟩
    · exact h
    · exact ⟨h.index_lt, nofun⟩
  | ok out =>
    obtain ⟨packetId, payload, -, -, -, hout⟩ := of_push_ok hpush
    dsimp only at hout
    split_ifs at hout with hlast
    · rw [(Prod.mk.inj hout).2]
      exact inv_new
    · rw [(Prod.mk.inj hout).2]
      refine ⟨?_, nofun⟩
      have hlt := h.index_lt
      have hone : (1 : UInt8).toNat = 1 := rfl
      rw [sphinxFragmentCount_eq] at hlt hlast ⊢
      rw [UInt8.toNat_add]
      omega

theorem Reachable.inv {r : SphinxReassembler} (h : Reachable r) : Inv r := by
  induction h with
  | new => exact inv_new
  | push _ cell ih => exact ih.push cell
  | reset _ _ => exact inv_new

/-! ## Atomic refusals -/

/-- The cell is taken. -/
def Takes (r : SphinxReassembler) (cell : Cell) : Prop := ∃ out, (r.push cell).1 = .ok out

/-- A cell that is refused leaves the state as it is, and what comes next, which is the next cell of
the packet under way or the first one of any packet, is taken. -/
def Atomic (r : SphinxReassembler) (cell : Cell) : Prop :=
  ∀ e, (r.push cell).1 = .error e →
    (r.push cell).2 = r ∧ ∀ packetId packet, (∀ id, r.packetId = some id → id = packetId) →
      (r.push cell).2.Takes (encodeFragmentCell packetId r.expectedIndex packet)

/-- Where no packet is under way, the cell does not have a later index. -/
def InPlace (r : SphinxReassembler) (cell : Cell) : Prop :=
  r.packetId = none → ∀ packetId index payload,
    decodeFragmentCell cell = .ok (packetId, index, payload) → index = 0

/-- The next cell is taken. -/
theorem Inv.takes {r : SphinxReassembler} (h : Inv r) {packetId : PacketId}
    (hid : ∀ id, r.packetId = some id → id = packetId) (packet : SphinxPacket) :
    r.Takes (encodeFragmentCell packetId r.expectedIndex packet) := by
  unfold Takes
  rw [push_encode r packetId packet h.index_lt, if_neg (not_any_ne hid), if_neg (not_not.mpr rfl)]
  dsimp only
  split_ifs
  · exact ⟨_, rfl⟩
  · exact ⟨_, rfl⟩

/-- **When a refusal does nothing.**  In every state that can be reached, a cell that is refused
leaves the state as it is if and only if it is not a later cell of a packet that comes where no
packet is under way. -/
theorem push_atomic_iff {r : SphinxReassembler} (h : Reachable r) (cell : Cell) :
    r.Atomic cell ↔ r.InPlace cell := by
  constructor
  · intro hatomic hnone packetId index payload hdec
    by_contra hne
    obtain rfl := h.inv.idle hnone
    rw [Atomic, push_of_ne_index hdec (id_of_new packetId) hne] at hatomic
    have hsame := (hatomic _ rfl).1
    cases congrArg SphinxReassembler.packetId hsame
  · intro hplace e he
    obtain ⟨⟨result, r'⟩, hpush⟩ : ∃ p, r.push cell = p := ⟨_, rfl⟩
    rw [hpush] at he ⊢
    obtain rfl : result = .error e := he
    have hsame : r' = r := by
      rcases of_push_error hpush with hsame | ⟨packetId, index, payload, hdec, hid, hne, hleft⟩
      · exact hsame
      · cases hsome : r.packetId with
        | none =>
          have hindex := hplace hsome packetId index payload hdec
          rw [h.inv.idle hsome] at hne
          exact absurd hindex hne
        | some id => rw [hleft, ← hid id hsome, ← hsome]
    rw [hsame]
    exact ⟨rfl, fun packetId packet hid => h.inv.takes hid packet⟩

/-- The second cell of a packet is out of place where no packet is under way. -/
theorem push_atomic_iff_second :
    new.Atomic (encodeFragmentCell (.replicate 8 1) 1 (Bytes.zero sphinxPacketLen)) ↔
      new.InPlace (encodeFragmentCell (.replicate 8 1) 1 (Bytes.zero sphinxPacketLen)) :=
  push_atomic_iff .new _

/-- **A stray cell between two packets**: the second cell of a packet is refused by a reassembler
that waits for a first one, and then the first cell of every other packet is. -/
theorem not_push_atomic :
    ¬∀ r, Reachable r → ∀ cell, r.Atomic cell := by
  intro hall
  have hdec := decodeFragmentCell_encodeFragmentCell (.replicate 8 1) 1
    (Bytes.zero sphinxPacketLen) (by decide)
  have hatomic := hall new .new (encodeFragmentCell (.replicate 8 1) 1 (Bytes.zero sphinxPacketLen))
  rw [Atomic, push_of_ne_index hdec (id_of_new _) (by decide)] at hatomic
  obtain ⟨out, hout⟩ := (hatomic _ rfl).2 (.replicate 8 2) (Bytes.zero sphinxPacketLen)
    (id_of_new _)
  rw [push_encode _ _ _ (show new.expectedIndex.toNat < sphinxFragmentCount by decide),
    if_pos (by decide)] at hout
  cases hout

end SphinxReassembler

end Aegis
