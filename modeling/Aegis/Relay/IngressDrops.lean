import Aegis.Relay.Inbound
import Aegis.Relay.RateLimit

/-!
# Rate limiting and reassembly

The limiter drops frames before the reassembler sees them, one by one.  A drop inside a
packet leaves the reassembler waiting for an index (or an id) that never comes, and the
next frame that passes ends the loop.

* `ended_foldl_iff` — the loop goes on exactly as long as the frames that pass follow
  one another.
* `chain_iff_wholePackets` — that is to say, as long as they are whole packets and then
  at most the beginning of one more.
* `composes_iff` — **when the limiter and the reassembler compose.**
-/

namespace Aegis

open Buffer

/-! ## A stream of packets -/

/-- One packet of the stream, and what happens to its frames: which of them the limiter
lets pass, and whether the peer queue has a free slot when the last one is read. -/
structure Transit where
  packet : SphinxPacket
  packetId : PacketId
  passed : ℕ → Bool
  room : Bool

namespace Transit

/-- Fragment number `i` of the packet. -/
def fragmentCell (t : Transit) (i : ℕ) : Cell :=
  encodeFragmentCell t.packetId (UInt8.ofNat i) t.packet

/-- What the queue says when the packet is complete. -/
def send (t : Transit) : TrySend := if t.room then .sent else .full

/-- Every frame of the packet passed. -/
def Whole (t : Transit) : Prop := ∀ i < sphinxFragmentCount, t.passed i = true

end Transit

section Stream

variable {ρ : Type} (C : Suite ρ) (A : Aead) (cfg : InboundConfig)

/-- Seal one cell and read its frame at the other end. -/
def transmitCell (s : Connection × ρ) (cell : Cell) (allowed : Bool) (room : TrySend) :
    Connection × ρ :=
  match cfg.sessionKey.sealCell C A cell s.2 with
  | (.ok frame, rng) => (s.1.onFrame A cfg frame allowed room, rng)
  | (.error _, rng) => (s.1, rng)

/-- Send one packet as `write_packet_with_key` does, frame by frame. -/
def transmitPacket (s : Connection × ρ) (t : Transit) : Connection × ρ :=
  ((fragment t.packet t.packetId).zipIdx).foldl
    (fun s c => transmitCell C A cfg s c.1 (t.passed c.2) t.send) s

/-- One packet after another. -/
def transmit (s : Connection × ρ) (ts : List Transit) : Connection × ρ :=
  ts.foldl (transmitPacket C A cfg) s

/-- **The limiter composes with reassembly** on this stream: the connection stays open and
every packet all of whose frames passed is what its frames add to the inbound queue. -/
structure Composes (rng : ρ) (ts : List Transit) : Prop where
  stays_open : (transmit C A cfg (.start, rng) ts).1.ended = none
  delivers : ∀ before t after, ts = before ++ t :: after → t.Whole →
    (transmit C A cfg (.start, rng) (before ++ [t])).1.enqueued =
      (transmit C A cfg (.start, rng) before).1.enqueued ++ [t.packet]

end Stream

/-! ## Which frames follow one another -/

/-- Whole packets, and then at most the beginning of one more. -/
inductive WholePackets : List (PacketId × ℕ) → Prop where
  | beginning (packetId : PacketId) (k : ℕ) (hk : k < sphinxFragmentCount) :
      WholePackets ((List.range k).map fun i => (packetId, i))
  | packet (packetId : PacketId) {L : List (PacketId × ℕ)} (h : WholePackets L) :
      WholePackets ((List.range sphinxFragmentCount).map (fun i => (packetId, i)) ++ L)

/-- The frames of a stream that pass, each with its packet. -/
def passing (ts : List Transit) : List (Transit × ℕ) :=
  ts.flatMap fun t => ((List.range sphinxFragmentCount).filter t.passed).map fun i => (t, i)

/-- The header of a frame. -/
def label (p : Transit × ℕ) : PacketId × ℕ := (p.1.packetId, p.2)

/-- Each frame is the one expected next, from index `k` of packet `packetId`. -/
def Chain (packetId : PacketId) (k : ℕ) : List (PacketId × ℕ) → Prop
  | [] => True
  | (packetId', i) :: L =>
    i = k ∧ (k = 0 ∨ packetId' = packetId) ∧ Chain packetId' ((k + 1) % sphinxFragmentCount) L

theorem chain_append {packetId : PacketId} {k : ℕ} {L L' : List (PacketId × ℕ)}
    (h : Chain packetId k (L ++ L')) : Chain packetId k L := by
  induction L generalizing packetId k with
  | nil => trivial
  | cons p L ih => exact ⟨h.1, h.2.1, ih h.2.2⟩

/-- At the start of a packet its id is free. -/
theorem chain_zero (packetId packetId' : PacketId) (L : List (PacketId × ℕ)) :
    Chain packetId 0 L ↔ Chain packetId' 0 L := by
  cases L with
  | nil => exact Iff.rfl
  | cons p L => simp only [Chain, true_or, true_and]

/-- The frames of one packet, from where it stands, and what follows. -/
theorem chain_range' {packetId : PacketId} {k n : ℕ} (h : k + (n + 1) = sphinxFragmentCount)
    (L : List (PacketId × ℕ)) :
    Chain packetId k ((List.range' k (n + 1)).map (fun i => (packetId, i)) ++ L) ↔
      Chain packetId 0 L := by
  induction n generalizing k with
  | zero =>
    rw [List.range'_succ, List.map_cons, List.cons_append, Chain]
    simp only [h, Nat.mod_self, or_true, true_and, List.range'_zero, List.map_nil, List.nil_append]
  | succ n ih =>
    rw [List.range'_succ, List.map_cons, List.cons_append, Chain, Nat.mod_eq_of_lt (by omega),
      ih (by omega)]
    simp only [or_true, true_and]

theorem chain_beginning {packetId : PacketId} {k m : ℕ} (h : k + m < sphinxFragmentCount) :
    Chain packetId k ((List.range' k m).map fun i => (packetId, i)) := by
  induction m generalizing k with
  | zero => trivial
  | succ m ih =>
    rw [List.range'_succ, List.map_cons, Chain, Nat.mod_eq_of_lt (by omega)]
    exact ⟨rfl, Or.inr rfl, ih (by omega)⟩

/-- A chain runs out inside a packet, or completes it. -/
theorem Chain.cases {packetId : PacketId} {k : ℕ} {L : List (PacketId × ℕ)}
    (hk : k < sphinxFragmentCount) (hpos : 0 < k) (h : Chain packetId k L) :
    (∃ m, k + m < sphinxFragmentCount ∧ L = (List.range' k m).map fun i => (packetId, i)) ∨
      ∃ n L', k + (n + 1) = sphinxFragmentCount ∧
        L = (List.range' k (n + 1)).map (fun i => (packetId, i)) ++ L' ∧ Chain packetId 0 L' := by
  induction L generalizing k with
  | nil => exact Or.inl ⟨0, hk, rfl⟩
  | cons p L ih =>
    obtain ⟨packetId', i⟩ := p
    obtain ⟨rfl, hid, h⟩ := h
    obtain rfl : packetId' = packetId := hid.resolve_left hpos.ne'
    by_cases hlast : i + 1 = sphinxFragmentCount
    · rw [hlast, Nat.mod_self] at h
      exact Or.inr ⟨0, L, hlast, rfl, h⟩
    · rw [Nat.mod_eq_of_lt (by omega)] at h
      rcases ih (by omega) (by omega) h with ⟨m, hm, rfl⟩ | ⟨n, L', hn, rfl, hrest⟩
      · exact Or.inl ⟨m + 1, by omega, by rw [List.range'_succ, List.map_cons]⟩
      · exact Or.inr ⟨n + 1, L', by omega, by rw [List.range'_succ, List.map_cons]; rfl, hrest⟩

/-- **What passes follows one another exactly if it is whole packets** and then at most the
beginning of one more. -/
theorem chain_iff_wholePackets (packetId : PacketId) (L : List (PacketId × ℕ)) :
    Chain packetId 0 L ↔ WholePackets L := by
  constructor
  · intro h
    induction hn : L.length using Nat.strong_induction_on generalizing packetId L with
    | _ n ih =>
      cases L with
      | nil => exact .beginning packetId 0 (by decide)
      | cons p L =>
        obtain ⟨packetId', i⟩ := p
        obtain ⟨rfl, -, h⟩ := h
        rw [Nat.mod_eq_of_lt (by decide)] at h
        rcases h.cases (by decide) (by decide) with ⟨m, hm, rfl⟩ | ⟨m, L', hm, rfl, hrest⟩
        · have hrange : List.range (m + 1) = 0 :: List.range' 1 m := by
            rw [List.range_eq_range', List.range'_succ]
          have hwhole := WholePackets.beginning packetId' (m + 1) (by omega)
          rwa [hrange, List.map_cons] at hwhole
        · have hrange : List.range sphinxFragmentCount = 0 :: List.range' 1 (m + 1) := by
            rw [← hm, Nat.add_comm, List.range_eq_range', List.range'_succ]
          have hlt : L'.length < n := by
            rw [← hn, List.length_cons, List.length_append]
            omega
          have hwhole := WholePackets.packet packetId' (ih L'.length hlt packetId' L' hrest rfl)
          rwa [hrange, List.map_cons] at hwhole
  · intro h
    induction h with
    | beginning packetId' k hk =>
      rw [chain_zero packetId packetId', List.range_eq_range']
      exact chain_beginning (by omega)
    | packet packetId' h ih =>
      rw [chain_zero packetId packetId', List.range_eq_range']
      exact (chain_range' (n := 17) rfl _).mpr ((chain_zero _ _ _).mp ih)

/-! ## What the loop does with a stream -/

/-- Read a fragment that passed. -/
def readFragment (x : Connection) (p : Transit × ℕ) : Connection :=
  x.readFragment (p.1.fragmentCell p.2) p.1.send

section Loop

variable {ρ : Type} {C : Suite ρ} {A : Aead} {cfg : InboundConfig}

theorem foldl_readFragment_of_ended {x : Connection} (h : x.ended ≠ none)
    (L : List (Transit × ℕ)) : L.foldl readFragment x = x := by
  induction L with
  | nil => rfl
  | cons p L ih => rw [List.foldl_cons, readFragment, Connection.readFragment_of_ended h, ih]

variable (C cfg) in
theorem transmitCell_fst (hA : A.Correct) (s : Connection × ρ) (t : Transit) (i : ℕ)
    (allowed : Bool) :
    (transmitCell C A cfg s (t.fragmentCell i) allowed t.send).1 =
      if allowed then readFragment s.1 (t, i) else s.1 := by
  obtain ⟨frame, rng, hseal⟩ := LinkKey.sealCell_ok (C := C) hA cfg.sessionKey (t.fragmentCell i) s.2
  have hopen := (LinkKey.openFrame_of_sealCell hA cfg.sessionKey _ s.2 hseal).2
  simp only [transmitCell, hseal]
  cases allowed with
  | false => rw [Connection.onFrame_of_refused, if_neg (by decide)]
  | true =>
    rw [if_pos rfl, readFragment]
    exact Connection.onFrame_of_fragment hopen

theorem zipIdx_fragment (packet : SphinxPacket) (packetId : PacketId) :
    (fragment packet packetId).zipIdx = (List.range sphinxFragmentCount).map fun i =>
      (encodeFragmentCell packetId (UInt8.ofNat i) packet, i) := by
  apply List.ext_getElem
  · simp only [fragment, List.length_zipIdx, List.length_map]
  · intro i h _
    simp only [fragment, List.getElem_zipIdx, List.getElem_map, List.getElem_range, Nat.zero_add]

/-- The frames of one packet: those that pass are read. -/
theorem transmitPacket_fst (hA : A.Correct) (s : Connection × ρ) (t : Transit) :
    (transmitPacket C A cfg s t).1 =
      (((List.range sphinxFragmentCount).filter t.passed).map fun i => (t, i)).foldl
        readFragment s.1 := by
  rw [transmitPacket, zipIdx_fragment, List.foldl_map, List.foldl_map]
  induction List.range sphinxFragmentCount generalizing s with
  | nil => rfl
  | cons i l ih =>
    rw [List.foldl_cons, ih, List.filter_cons]
    have hcell := transmitCell_fst C cfg hA s t i (t.passed i)
    rw [Transit.fragmentCell] at hcell
    rw [hcell]
    split_ifs <;> rfl

/-- **The loop reads the frames that pass.** -/
theorem transmit_fst (hA : A.Correct) (s : Connection × ρ) (ts : List Transit) :
    (transmit C A cfg s ts).1 = (passing ts).foldl readFragment s.1 := by
  induction ts generalizing s with
  | nil => rfl
  | cons t ts ih =>
    rw [transmit, List.foldl_cons]
    change (transmit C A cfg _ ts).1 = _
    rw [ih, transmitPacket_fst hA, passing, passing, List.flatMap_cons, List.foldl_append]

end Loop

/-! ## How far the loop gets -/

/-- The reassembler waits for fragment `k`, of packet `packetId` unless `k = 0`. -/
structure Waits (packetId : PacketId) (k : ℕ) (r : SphinxReassembler) : Prop where
  lt : k < sphinxFragmentCount
  index : r.expectedIndex.toNat = k
  id : r.packetId = if k = 0 then none else some packetId

theorem waits_new (packetId : PacketId) : Waits packetId 0 .new := ⟨by decide, rfl, rfl⟩

/-- The id of the fragment awaited is checked from the second one on. -/
theorem Waits.any_ne_iff {packetId packetId' : PacketId} {k : ℕ} {r : SphinxReassembler}
    (h : Waits packetId k r) :
    r.packetId.any (· ≠ packetId') = true ↔ ¬ (k = 0 ∨ packetId' = packetId) := by
  rw [h.id]
  by_cases hk : k = 0
  · rw [if_pos hk, Option.any_none]
    exact iff_of_false Bool.false_ne_true (not_not.mpr (Or.inl hk))
  · rw [if_neg hk, Option.any_some, decide_eq_true_eq, or_iff_right hk, ne_comm]

variable {x : Connection} {packetId : PacketId} {k : ℕ}

theorem tryEnqueue_send_ended (t : Transit) (packet : SphinxPacket) :
    (x.tryEnqueue packet t.send).ended = x.ended := by
  rw [Transit.send]
  cases t.room <;> rfl

/-- **One fragment**: the one awaited is taken, any other ends the loop. -/
theorem readFragment_cases (t : Transit) {i : ℕ} (hi : i < sphinxFragmentCount)
    (hended : x.ended = none) (h : Waits packetId k x.reassembler) :
    if i = k ∧ (k = 0 ∨ t.packetId = packetId) then
      (readFragment x (t, i)).ended = none ∧
        Waits t.packetId ((k + 1) % sphinxFragmentCount) (readFragment x (t, i)).reassembler
    else (readFragment x (t, i)).ended ≠ none := by
  have hcount := sphinxFragmentCount_eq
  have hnat : (UInt8.ofNat i).toNat = i := UInt8.toNat_ofNat_of_lt' (lt_of_lt_of_le hi (by decide))
  have hlt : (UInt8.ofNat i).toNat < sphinxFragmentCount := by rwa [hnat]
  have hpush := x.reassembler.push_encode t.packetId t.packet hlt
  have hidx : UInt8.ofNat i ≠ x.reassembler.expectedIndex ↔ i ≠ k := by
    rw [← h.index, ← hnat, not_iff_not, hnat]
    exact ⟨fun he => by rw [← he, hnat], fun he => UInt8.toNat_inj.mp (hnat.trans he)⟩
  rw [readFragment, Transit.fragmentCell]
  by_cases hid : k = 0 ∨ t.packetId = packetId
  · rw [if_neg (fun hany => (h.any_ne_iff.mp hany) hid)] at hpush
    by_cases hik : i = k
    · rw [if_neg (fun hne => hidx.mp hne hik), hnat] at hpush
      rw [if_pos ⟨hik, hid⟩]
      by_cases hlast : i = sphinxFragmentCount - 1
      · rw [if_pos hlast] at hpush
        have hmod : (k + 1) % sphinxFragmentCount = 0 := by
          rw [← hik, hlast]
          rfl
        rw [Connection.readFragment_of_some hended hpush, tryEnqueue_send_ended,
          Connection.tryEnqueue_reassembler, hmod]
        exact ⟨hended, waits_new _⟩
      · rw [if_neg hlast] at hpush
        rw [Connection.readFragment_of_none hended hpush, Nat.mod_eq_of_lt (by omega)]
        refine ⟨hended, by omega, ?_, ?_⟩
        · have hone : (1 : UInt8).toNat = 1 := rfl
          rw [UInt8.toNat_add, h.index]
          omega
        · rw [if_neg (Nat.succ_ne_zero k)]
    · rw [if_pos (hidx.mpr hik)] at hpush
      rw [if_neg (fun hand => hik hand.1), Connection.readFragment_of_error hended hpush]
      exact Option.some_ne_none _
  · rw [if_pos (h.any_ne_iff.mpr hid)] at hpush
    rw [if_neg (fun hand => hid hand.2), Connection.readFragment_of_error hended hpush]
    exact Option.some_ne_none _

/-- Where the reassembler stands after a chain. -/
theorem waits_foldl {L : List (Transit × ℕ)} (hL : ∀ p ∈ L, p.2 < sphinxFragmentCount)
    (hended : x.ended = none) (h : Waits packetId k x.reassembler)
    (hchain : Chain packetId k (L.map label)) :
    (L.foldl readFragment x).ended = none ∧
      ∃ packetId' k', Waits packetId' k' (L.foldl readFragment x).reassembler ∧
        ∀ L', Chain packetId k (L.map label ++ L') → Chain packetId' k' L' := by
  induction L generalizing x packetId k with
  | nil => exact ⟨hended, packetId, k, h, fun _ hL' => hL'⟩
  | cons p L ih =>
    obtain ⟨t, i⟩ := p
    obtain ⟨hik, hid, hrest⟩ := hchain
    have hcases := readFragment_cases t (hL (t, i) List.mem_cons_self) hended h
    rw [if_pos ⟨hik, hid⟩] at hcases
    obtain ⟨hnone, packetId', k', hwaits, hmore⟩ :=
      ih (fun p hp => hL p (List.mem_cons_of_mem _ hp)) hcases.1 hcases.2 hrest
    exact ⟨hnone, packetId', k', hwaits, fun L' hL' => hmore L' hL'.2.2⟩

/-- **The loop goes on exactly as long as what passes follows one another.** -/
theorem ended_foldl_iff {L : List (Transit × ℕ)} (hL : ∀ p ∈ L, p.2 < sphinxFragmentCount)
    (hended : x.ended = none) (h : Waits packetId k x.reassembler) :
    (L.foldl readFragment x).ended = none ↔ Chain packetId k (L.map label) := by
  refine ⟨fun hnone => ?_, fun hchain => (waits_foldl hL hended h hchain).1⟩
  induction L generalizing x packetId k with
  | nil => trivial
  | cons p L ih =>
    obtain ⟨t, i⟩ := p
    have hcases := readFragment_cases t (hL (t, i) List.mem_cons_self) hended h
    rw [List.foldl_cons] at hnone
    by_cases hnext : i = k ∧ (k = 0 ∨ t.packetId = packetId)
    · rw [if_pos hnext] at hcases
      exact ⟨hnext.1, hnext.2,
        ih (fun p hp => hL p (List.mem_cons_of_mem _ hp)) hcases.1 hcases.2 hnone⟩
    · rw [if_neg hnext] at hcases
      rw [foldl_readFragment_of_ended hcases] at hnone
      exact absurd hnone hcases

/-! ## What a whole packet adds -/

theorem Waits.collecting {r : SphinxReassembler} (h : Waits packetId 0 r) (t : Transit) :
    r.Collecting t.packetId t.packet 0 := by
  refine ⟨h.index, h.id, ?_⟩
  rw [Nat.zero_mul]
  rfl

theorem passing_append (ts ts' : List Transit) : passing (ts ++ ts') = passing ts ++ passing ts' :=
  List.flatMap_append

theorem passing_lt {ts : List Transit} : ∀ p ∈ passing ts, p.2 < sphinxFragmentCount := by
  intro p hp
  obtain ⟨t, -, hp⟩ := List.mem_flatMap.mp hp
  obtain ⟨i, hi, rfl⟩ := List.mem_map.mp hp
  exact List.mem_range.mp (List.mem_filter.mp hi).1

theorem passing_whole {t : Transit} (h : t.Whole) :
    passing [t] = (List.range sphinxFragmentCount).map fun i => (t, i) := by
  rw [passing, List.flatMap_singleton, List.filter_eq_self.mpr fun i hi =>
    h i (List.mem_range.mp hi)]

/-- **A whole packet is collected**, if the loop gets so far. -/
theorem enqueued_of_whole {before after : List Transit} {t : Transit} (ht : t.Whole)
    (hchain : Chain packetId 0 ((passing (before ++ t :: after)).map label)) :
    ((passing (before ++ [t])).foldl readFragment .start).enqueued =
      if t.room then ((passing before).foldl readFragment .start).enqueued ++ [t.packet]
      else ((passing before).foldl readFragment .start).enqueued := by
  have hsplit : passing (before ++ t :: after) = passing before ++ (passing [t] ++ passing after) := by
    rw [passing_append, ← passing_append [t] after, List.singleton_append]
  rw [hsplit, List.map_append] at hchain
  obtain ⟨hnone, packetId', k', hwaits, hmore⟩ :=
    waits_foldl (x := .start) passing_lt rfl (waits_new packetId) (chain_append hchain)
  have hnext := hmore _ hchain
  have hrange : List.range sphinxFragmentCount = 0 :: List.range' 1 17 := rfl
  -- the first frame of the packet passed, so the reassembler was waiting for it
  have hk : k' = 0 := by
    rw [passing_whole ht, hrange, List.map_cons, List.cons_append, List.map_cons] at hnext
    exact hnext.1.symm
  subst hk
  rw [passing_append, List.foldl_append, passing_whole ht, List.range_eq_range', List.foldl_map]
  obtain ⟨opened, hfold⟩ := Connection.foldl_collecting t.send (n := 17) hnone
    (hwaits.collecting t) rfl
  refine (congrArg Connection.enqueued hfold).trans ?_
  rw [Transit.send]
  cases t.room <;> rfl

/-! ## The theorem -/

section Theorem

variable {ρ : Type}

/-- When the connection stays open. -/
theorem stays_open_iff (C : Suite ρ) {A : Aead} (hA : A.Correct) (cfg : InboundConfig) (rng : ρ)
    (ts : List Transit) : (transmit C A cfg (.start, rng) ts).1.ended = none ↔
      Chain (Bytes.zero 8) 0 ((passing ts).map label) := by
  rw [transmit_fst hA]
  exact ended_foldl_iff passing_lt rfl (waits_new _)

/-- **When the limiter composes with reassembly**: exactly if the frames that pass are whole
packets and then at most the beginning of one more, and the peer queue has room for every
packet all of whose frames passed. -/
theorem composes_iff (C : Suite ρ) (A : Aead) (hA : A.Correct) (cfg : InboundConfig) (rng : ρ)
    (ts : List Transit) :
    Composes C A cfg rng ts ↔
      WholePackets ((passing ts).map label) ∧ ∀ t ∈ ts, t.Whole → t.room = true := by
  have hended := stays_open_iff C hA cfg rng ts
  rw [← chain_iff_wholePackets (Bytes.zero 8)]
  constructor
  · rintro ⟨hopen, hdel⟩
    have hchain := hended.mp hopen
    refine ⟨hchain, fun t ht hwhole => ?_⟩
    obtain ⟨before, after, rfl⟩ := List.append_of_mem ht
    have henq := hdel before t after rfl hwhole
    rw [transmit_fst hA, transmit_fst hA, enqueued_of_whole hwhole hchain] at henq
    by_contra hroom
    rw [if_neg hroom] at henq
    exact List.cons_ne_nil _ _ (List.self_eq_append_right.mp henq)
  · rintro ⟨hchain, hroom⟩
    refine ⟨hended.mpr hchain, ?_⟩
    rintro before t after rfl hwhole
    rw [transmit_fst hA, transmit_fst hA, enqueued_of_whole hwhole hchain,
      if_pos (hroom t (by simp) hwhole)]

/-- One packet, all of whose frames pass, and room for it. -/
theorem composes_checksum : Composes checksumSuite checksumAead checksumConfig 3
    [⟨Bytes.zero sphinxPacketLen, Bytes.zero 8, fun _ => true, true⟩] := by
  refine (composes_iff checksumSuite checksumAead checksumAead_correct checksumConfig 3 _).mpr
    ⟨?_, fun t ht _ => ?_⟩
  · rw [passing_whole fun _ _ => rfl, List.map_map]
    have hwhole := WholePackets.packet (Bytes.zero 8) (.beginning (Bytes.zero 8) 0 (by decide))
    rwa [List.range_zero, List.map_nil, List.append_nil] at hwhole
  · rw [List.mem_singleton.mp ht]

/-- Two packets one second apart, and the frames of each that pass. -/
def burstTransits : List Transit :=
  [⟨Bytes.zero sphinxPacketLen, List.Vector.replicate 8 1, fun i => decide (i < 4), true⟩,
    ⟨Bytes.zero sphinxPacketLen, List.Vector.replicate 8 2, fun i => decide (i < 2), true⟩]

/-- The default limits let just these frames pass, each packet arriving at once. -/
theorem allowFrames_burst :
    (InboundRateLimitState.new .default 0).allowFrames (IngressRateLimitConfig.default.globalBucket 0)
        (List.replicate sphinxFragmentCount 0 ++ List.replicate sphinxFragmentCount 1) =
      burstTransits.flatMap fun t => (List.range sphinxFragmentCount).map t.passed := by
  decide +kernel

/-- The default limits drop frames such that the connection does **not** stay open. -/
theorem not_composes_checksum : ∃ ts : List Transit,
    (InboundRateLimitState.new .default 0).allowFrames (IngressRateLimitConfig.default.globalBucket 0)
        (List.replicate sphinxFragmentCount 0 ++ List.replicate sphinxFragmentCount 1) =
      ts.flatMap (fun t => (List.range sphinxFragmentCount).map t.passed) ∧
    (∀ t ∈ ts, t.room = true) ∧ ¬ Composes checksumSuite checksumAead checksumConfig 3 ts := by
  refine ⟨burstTransits, allowFrames_burst, by decide, fun hcomp => ?_⟩
  have hchain := (stays_open_iff checksumSuite checksumAead_correct checksumConfig 3 _).mp
    hcomp.stays_open
  -- index 0 of the second packet passes where index 4 of the first one is awaited
  obtain ⟨-, -, -, -, -, -, -, -, hidx, -⟩ := hchain
  exact absurd hidx (by decide)

end Theorem

end Aegis
