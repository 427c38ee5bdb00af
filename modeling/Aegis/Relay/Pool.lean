import Aegis.Lib.Run
import Aegis.Relay.Inbound

/-!
# Pooled outbound links (`net.rs`)

`forward_to_peer` keeps one connection per address, and writes a packet on it as 18
sealed frames.  When the write fails it reconnects once and writes the packet again.
Which writes fail, and after how many bytes, is the network's choice.

* `writeCells_of_stopsFrom_none`, `writeCells_of_stopsFrom_some` — what an attempt writes.
* `forwardToPeer_exit` — the five exits of a call.
-/

namespace Aegis

open Buffer

/-- The bytes of one packet on a link. -/
def packetWireLen : ℕ := sphinxFragmentCount * linkFrameLen

/-! ## Writing -/

/-- What becomes of one `write_all_timeout`: if it fails, how many bytes got through. -/
inductive WriteOutcome where
  | done
  | failed (written : ℕ)
  | timedOut (written : ℕ)

/-- What becomes of the writes of one packet: one for every frame, and the flush. -/
structure WritePattern where
  frame : ℕ → WriteOutcome
  flush : Bool

namespace WritePattern

/-- How many bytes of the frames from index `i` on, `n` of them, get through before the
attempt fails; nothing if it does not. -/
def stopsFrom (w : WritePattern) (i : ℕ) : ℕ → Option ℕ
  | 0 => if w.flush then none else some 0
  | n + 1 =>
    match w.frame i with
    | .done => (w.stopsFrom (i + 1) n).map (linkFrameLen + ·)
    | .failed k | .timedOut k => some (min k linkFrameLen)

/-- How many bytes of a packet get through before the attempt fails. -/
def stops (w : WritePattern) : Option ℕ := w.stopsFrom 0 sphinxFragmentCount

end WritePattern

/-- A connection, and every byte written on it since the handshake. -/
structure PooledConnection where
  sessionKey : LinkKey
  written : List UInt8

section Write

variable {ρ : Type} (C : Suite ρ) (A : Aead)

/-- The loop of `write_packet_with_key`, from frame `i` on. -/
def writeCells (w : WritePattern) (conn : PooledConnection) (rng : ρ) (i : ℕ) :
    List Cell → Except NetError Unit × PooledConnection × ρ
  | [] => if w.flush then (.ok (), conn, rng) else (.error .io, conn, rng)
  | cell :: cells =>
    match conn.sessionKey.sealCell C A cell rng with
    | (.error e, rng) => (.error (.crypto e), conn, rng)
    | (.ok frame, rng) =>
      match w.frame i with
      | .done => writeCells w { conn with written := conn.written ++ frame } rng (i + 1) cells
      | .failed n => (.error .io, { conn with written := conn.written ++ frame.take n }, rng)
      | .timedOut n =>
        (.error .readTimeout, { conn with written := conn.written ++ frame.take n }, rng)

/-- The fragments of a packet are written, under a fresh id. -/
def writePacketWithKey (w : WritePattern) (conn : PooledConnection) (packet : SphinxPacket)
    (rng : ρ) : Except NetError Unit × PooledConnection × ρ :=
  let ((cells, _), rng) := fragmentWithRandomId C packet rng
  writeCells C A w conn rng 0 cells

theorem writePacketWithKey_eq (w : WritePattern) (conn : PooledConnection) (packet : SphinxPacket)
    (rng : ρ) : writePacketWithKey C A w conn packet rng =
      writeCells C A w conn (C.fillBytes 8 rng).2 0 ((List.range sphinxFragmentCount).map fun i =>
        encodeFragmentCell (C.fillBytes 8 rng).1 (UInt8.ofNat i) packet) := rfl

end Write

/-! ## The pool -/

/-- What becomes of connecting and of the initiator handshake: a session key or an error,
and the random bytes it draws. -/
structure HandshakeOutcome (ρ : Type) where
  result : Except NetError LinkKey
  rng : ρ → ρ

/-- The pool, the generator, and what was recorded in the health tracker. -/
structure PoolState (Addr ρ : Type) where
  connections : Addr → Option PooledConnection
  rng : ρ
  outcomes : List (RelayId × Bool)

/-- One call of `forward_to_peer`, and what becomes of everything it tries. -/
structure Forward (Addr ρ : Type) where
  peerId : RelayId
  addr : Addr
  packet : SphinxPacket
  connect : HandshakeOutcome ρ
  first : WritePattern
  reconnect : HandshakeOutcome ρ
  second : WritePattern

namespace PoolState

variable {Addr ρ : Type} [DecidableEq Addr] (C : Suite ρ) (A : Aead)

/-- A pool without connections. -/
def initial (rng : ρ) : PoolState Addr ρ := ⟨fun _ => none, rng, []⟩

/-- `record_peer_outcome`. -/
def recordPeerOutcome (s : PoolState Addr ρ) (peerId : RelayId) (success : Bool) :
    PoolState Addr ρ :=
  { s with outcomes := s.outcomes ++ [(peerId, success)] }

/-- The connection to an address: the pooled one, or a new one. -/
def getOrHandshake (s : PoolState Addr ρ) (addr : Addr) (h : HandshakeOutcome ρ) :
    Except NetError PooledConnection × PoolState Addr ρ :=
  match s.connections addr with
  | some conn => (.ok conn, s)
  | none =>
    match h.result with
    | .error e => (.error e, { s with rng := h.rng s.rng })
    | .ok key =>
      (.ok ⟨key, []⟩,
        { s with
          connections := Function.update s.connections addr (some ⟨key, []⟩)
          rng := h.rng s.rng })

/-- The connection is dropped, and a new one made. -/
def reconnect (s : PoolState Addr ρ) (addr : Addr) (h : HandshakeOutcome ρ) :
    Except NetError PooledConnection × PoolState Addr ρ :=
  { s with connections := Function.update s.connections addr none }.getOrHandshake addr h

/-- Write a packet on a connection of the pool. -/
def writePacket (s : PoolState Addr ρ) (addr : Addr) (conn : PooledConnection)
    (packet : SphinxPacket) (w : WritePattern) : Except NetError Unit × PoolState Addr ρ :=
  let (result, conn, rng) := writePacketWithKey C A w conn packet s.rng
  (result, { s with connections := Function.update s.connections addr (some conn), rng := rng })

/-- A packet is forwarded, with a second try on a new connection where the first write fails. -/
def forwardToPeer (s : PoolState Addr ρ) (call : Forward Addr ρ) :
    Except NetError Unit × PoolState Addr ρ :=
  match s.getOrHandshake call.addr call.connect with
  | (.error e, s) => (.error e, s.recordPeerOutcome call.peerId false)
  | (.ok conn, s) =>
    match s.writePacket C A call.addr conn call.packet call.first with
    | (.ok (), s) => (.ok (), s.recordPeerOutcome call.peerId true)
    | (.error e, s) =>
      if e = .io ∨ e = .readTimeout then
        match s.reconnect call.addr call.reconnect with
        | (.error e, s) => (.error e, s.recordPeerOutcome call.peerId false)
        | (.ok conn, s) =>
          match s.writePacket C A call.addr conn call.packet call.second with
          | (.ok (), s) => (.ok (), s.recordPeerOutcome call.peerId true)
          | (.error e, s) => (.error e, s.recordPeerOutcome call.peerId false)
      else (.error e, s.recordPeerOutcome call.peerId false)

/-- The pool after one more call. -/
def step (s : PoolState Addr ρ) (call : Forward Addr ρ) : PoolState Addr ρ :=
  (s.forwardToPeer C A call).2

end PoolState

/-! ## What an attempt writes -/

section Attempt

variable {ρ : Type} {C : Suite ρ} {A : Aead} {w : WritePattern} {packetId : PacketId}
  {packet : SphinxPacket}

/-- A frame of this length that carries fragment `i` of the packet. -/
def Carries (A : Aead) (key : LinkKey) (packetId : PacketId) (packet : SphinxPacket) (i : ℕ)
    (frame : List UInt8) : Prop :=
  frame.length = linkFrameLen ∧
    key.openFrame A frame = .ok (encodeFragmentCell packetId (UInt8.ofNat i) packet)

variable (C packetId packet) in
/-- **An attempt that does not fail** writes every frame. -/
theorem writeCells_of_stopsFrom_none (hA : A.Correct) {n i : ℕ} (conn : PooledConnection) (rng : ρ)
    (h : w.stopsFrom i n = none) :
    ∃ frames rng', List.Forall₂ (Carries A conn.sessionKey packetId packet) (List.range' i n)
        frames ∧
      writeCells C A w conn rng i ((List.range' i n).map fun j =>
        encodeFragmentCell packetId (UInt8.ofNat j) packet) =
        (.ok (), { conn with written := conn.written ++ frames.flatten }, rng') := by
  induction n generalizing i conn rng with
  | zero =>
    have hflush : w.flush = true := by
      by_contra hflush
      simp only [WritePattern.stopsFrom, if_neg hflush, reduceCtorEq] at h
    refine ⟨[], rng, .nil, ?_⟩
    simp only [List.range'_zero, List.map_nil, writeCells, hflush, if_true, List.flatten_nil,
      List.append_nil]
  | succ n ih =>
    obtain ⟨frame, rng₁, hseal⟩ := LinkKey.sealCell_ok (C := C) hA conn.sessionKey
      (encodeFragmentCell packetId (UInt8.ofNat i) packet) rng
    have hframe := LinkKey.openFrame_of_sealCell hA _ _ _ hseal
    rw [WritePattern.stopsFrom] at h
    cases hw : w.frame i with
    | done =>
      simp only [hw, Option.map_eq_none_iff] at h
      obtain ⟨frames, rng', hframes, hwrite⟩ :=
        ih { conn with written := conn.written ++ frame } rng₁ h
      refine ⟨frame :: frames, rng', ?_, ?_⟩
      · rw [List.range'_succ]
        exact .cons hframe hframes
      · rw [List.range'_succ, List.map_cons, writeCells]
        simp only [hseal, hw]
        rw [hwrite, List.flatten_cons, List.append_assoc]
    | failed k => simp only [hw, reduceCtorEq] at h
    | timedOut k => simp only [hw, reduceCtorEq] at h

/-- An attempt that fails in a frame writes a part of it; if that is all there was to write, it is
the last frame. -/
theorem stopped_in_frame {key : LinkKey} {sent frame : List UInt8} {n i k m : ℕ}
    (hframe : Carries A key packetId packet i frame) (hk : k = min m linkFrameLen) :
    (sent ++ frame.take m).length = sent.length + k ∧ k ≤ (n + 1) * linkFrameLen ∧
      (k = (n + 1) * linkFrameLen → ∃ frames,
        List.Forall₂ (Carries A key packetId packet) (List.range' i (n + 1)) frames ∧
          sent ++ frame.take m = sent ++ frames.flatten) := by
  have hpos : 0 < linkFrameLen := by decide
  refine ⟨?_, ?_, fun hall => ?_⟩
  · rw [List.length_append, List.length_take, hframe.1, hk]
  · rw [hk, Nat.succ_mul]
    exact (min_le_right _ _).trans (Nat.le_add_left _ _)
  · have hle : (n + 1) * linkFrameLen ≤ 1 * linkFrameLen := by
      rw [← hall, hk, one_mul]
      exact min_le_right _ _
    obtain rfl : n = 0 := by
      have := Nat.le_of_mul_le_mul_right hle hpos
      omega
    have hm : frame.length ≤ m := by
      rw [hframe.1]
      rw [hk, Nat.zero_add, one_mul] at hall
      exact min_eq_right_iff.mp hall
    refine ⟨[frame], .cons hframe .nil, ?_⟩
    rw [List.take_of_length_le hm, List.flatten_cons, List.flatten_nil, List.append_nil]

variable (C packetId packet) in
/-- **An attempt that fails** leaves as many bytes as got through; if these are all of
them, they are the frames of the packet. -/
theorem writeCells_of_stopsFrom_some (hA : A.Correct) {n i k : ℕ} (conn : PooledConnection)
    (rng : ρ) (h : w.stopsFrom i n = some k) :
    ∃ e written rng', (e = .io ∨ e = .readTimeout) ∧
      writeCells C A w conn rng i ((List.range' i n).map fun j =>
        encodeFragmentCell packetId (UInt8.ofNat j) packet) =
        (.error e, { conn with written := written }, rng') ∧
      written.length = conn.written.length + k ∧ k ≤ n * linkFrameLen ∧
      (k = n * linkFrameLen → ∃ frames, List.Forall₂ (Carries A conn.sessionKey packetId packet)
        (List.range' i n) frames ∧ written = conn.written ++ frames.flatten) := by
  induction n generalizing i k conn rng with
  | zero =>
    rw [WritePattern.stopsFrom] at h
    split_ifs at h with hflush
    obtain rfl := Option.some.inj h
    refine ⟨.io, conn.written, rng, Or.inl rfl, ?_, rfl, Nat.zero_le _, fun _ => ⟨[], .nil, ?_⟩⟩
    · simp only [List.range'_zero, List.map_nil, writeCells, hflush]
      rfl
    · rw [List.flatten_nil, List.append_nil]
  | succ n ih =>
    obtain ⟨frame, rng₁, hseal⟩ := LinkKey.sealCell_ok (C := C) hA conn.sessionKey
      (encodeFragmentCell packetId (UInt8.ofNat i) packet) rng
    have hframe := LinkKey.openFrame_of_sealCell hA _ _ _ hseal
    rw [WritePattern.stopsFrom] at h
    cases hw : w.frame i with
    | done =>
      simp only [hw, Option.map_eq_some_iff] at h
      obtain ⟨k', hk', rfl⟩ := h
      obtain ⟨e, written, rng', he, hwrite, hlen, hle, hall⟩ :=
        ih { conn with written := conn.written ++ frame } rng₁ hk'
      refine ⟨e, written, rng', he, ?_, ?_, ?_, fun hk => ?_⟩
      · rw [List.range'_succ, List.map_cons, writeCells]
        simp only [hseal, hw]
        exact hwrite
      · rw [hlen, List.length_append, hframe.1, Nat.add_assoc]
      · rw [Nat.succ_mul, Nat.add_comm]
        exact Nat.add_le_add_right hle _
      · rw [Nat.succ_mul, Nat.add_comm] at hk
        obtain ⟨frames, hframes, hwritten⟩ := hall (Nat.add_right_cancel hk)
        refine ⟨frame :: frames, ?_, ?_⟩
        · rw [List.range'_succ]
          exact .cons hframe hframes
        · rw [hwritten, List.flatten_cons, List.append_assoc]
    | failed m =>
      simp only [hw, Option.some.injEq] at h
      refine ⟨.io, conn.written ++ frame.take m, rng₁, Or.inl rfl, ?_,
        stopped_in_frame hframe h.symm⟩
      rw [List.range'_succ, List.map_cons, writeCells]
      simp only [hseal, hw]
    | timedOut m =>
      simp only [hw, Option.some.injEq] at h
      refine ⟨.readTimeout, conn.written ++ frame.take m, rng₁, Or.inr rfl, ?_,
        stopped_in_frame hframe h.symm⟩
      rw [List.range'_succ, List.map_cons, writeCells]
      simp only [hseal, hw]

end Attempt

/-! ## The exits of a call -/

/-- The frames of a packet were written on `conn`. -/
def WritesPacket (A : Aead) (conn conn' : PooledConnection) (packet : SphinxPacket) : Prop :=
  conn'.sessionKey = conn.sessionKey ∧ ∃ packetId frames,
    List.Forall₂ (Carries A conn.sessionKey packetId packet) (List.range sphinxFragmentCount)
      frames ∧ conn'.written = conn.written ++ frames.flatten

namespace PoolState

variable {Addr ρ : Type} [DecidableEq Addr] {C : Suite ρ} {A : Aead}

/-- The connection the first attempt writes on: the pooled one, or a new one. -/
def Available (s : PoolState Addr ρ) (call : Forward Addr ρ) (conn : PooledConnection) : Prop :=
  s.connections call.addr = some conn ∨
    s.connections call.addr = none ∧ ∃ key, call.connect.result = .ok key ∧ conn = ⟨key, []⟩

/-- How a call can end: its result, and the connections it leaves. -/
inductive Exit (A : Aead) (s : PoolState Addr ρ) (call : Forward Addr ρ) :
    Except NetError Unit → (Addr → Option PooledConnection) → Prop where
  | noConnection (e : NetError) (h : ∀ conn, ¬ s.Available call conn) :
      Exit A s call (.error e) s.connections
  | first (conn conn' : PooledConnection) (h : s.Available call conn)
      (hstops : call.first.stops = none) (hwrites : WritesPacket A conn conn' call.packet) :
      Exit A s call (.ok ()) (Function.update s.connections call.addr (some conn'))
  | noReconnection (e : NetError) (conn : PooledConnection) (h : s.Available call conn)
      (hstops : call.first.stops ≠ none) (hre : call.reconnect.result = .error e) :
      Exit A s call (.error e) (Function.update s.connections call.addr none)
  | second (key : LinkKey) (conn conn' : PooledConnection) (h : s.Available call conn)
      (hfirst : call.first.stops ≠ none) (hre : call.reconnect.result = .ok key)
      (hstops : call.second.stops = none) (hwrites : WritesPacket A ⟨key, []⟩ conn' call.packet) :
      Exit A s call (.ok ()) (Function.update s.connections call.addr (some conn'))
  | secondFailed (e : NetError) (key : LinkKey) (conn conn' : PooledConnection) (k : ℕ)
      (h : s.Available call conn) (hfirst : call.first.stops ≠ none)
      (hre : call.reconnect.result = .ok key) (hstops : call.second.stops = some k)
      (hle : k ≤ packetWireLen) (hlen : conn'.written.length = k)
      (hall : k = packetWireLen → WritesPacket A ⟨key, []⟩ conn' call.packet) :
      Exit A s call (.error e) (Function.update s.connections call.addr (some conn'))

theorem getOrHandshake_cases (s : PoolState Addr ρ) (call : Forward Addr ρ) :
    (∃ e s', s.getOrHandshake call.addr call.connect = (.error e, s') ∧
      s'.connections = s.connections ∧ ∀ conn, ¬ s.Available call conn) ∨
    ∃ conn s', s.getOrHandshake call.addr call.connect = (.ok conn, s') ∧ s.Available call conn ∧
      ∀ c, Function.update s'.connections call.addr c =
        Function.update s.connections call.addr c := by
  rw [getOrHandshake]
  cases hconn : s.connections call.addr with
  | some conn => exact Or.inr ⟨conn, s, rfl, Or.inl hconn, fun _ => rfl⟩
  | none =>
    cases hres : call.connect.result with
    | error e =>
      refine Or.inl ⟨e, _, rfl, rfl, fun conn h => ?_⟩
      rcases h with h | ⟨-, key, h, -⟩
      · rw [hconn] at h
        cases h
      · rw [hres] at h
        cases h
    | ok key =>
      exact Or.inr ⟨_, _, rfl, Or.inr ⟨hconn, key, hres, rfl⟩, fun c => Function.update_idem ..⟩

theorem reconnect_cases (s : PoolState Addr ρ) (addr : Addr) (h : HandshakeOutcome ρ) :
    (∃ e s', h.result = .error e ∧ s.reconnect addr h = (.error e, s') ∧
      s'.connections = Function.update s.connections addr none) ∨
    ∃ key s', h.result = .ok key ∧ s.reconnect addr h = (.ok ⟨key, []⟩, s') ∧
      ∀ c, Function.update s'.connections addr c = Function.update s.connections addr c := by
  rw [reconnect, getOrHandshake]
  simp only [Function.update_self]
  cases hres : h.result with
  | error e => exact Or.inl ⟨e, _, rfl, rfl, rfl⟩
  | ok key =>
    refine Or.inr ⟨key, _, rfl, rfl, fun c => ?_⟩
    simp only [Function.update_idem]

theorem writePacket_of_stops_none (hA : A.Correct) (s : PoolState Addr ρ) (addr : Addr)
    (conn : PooledConnection) (packet : SphinxPacket) {w : WritePattern} (h : w.stops = none) :
    ∃ conn' s', s.writePacket C A addr conn packet w = (.ok (), s') ∧
      s'.connections = Function.update s.connections addr (some conn') ∧
      WritesPacket A conn conn' packet := by
  obtain ⟨frames, rng, hframes, hwrite⟩ := writeCells_of_stopsFrom_none C
    (C.fillBytes 8 s.rng).1 packet hA conn (C.fillBytes 8 s.rng).2 h
  rw [← List.range_eq_range'] at hframes hwrite
  refine ⟨{ conn with written := conn.written ++ frames.flatten },
    ⟨Function.update s.connections addr (some { conn with written := conn.written ++
      frames.flatten }), rng, s.outcomes⟩, ?_, rfl, rfl, _, frames, hframes, rfl⟩
  simp only [writePacket, writePacketWithKey_eq, hwrite]

theorem writePacket_of_stops_some (hA : A.Correct) (s : PoolState Addr ρ) (addr : Addr)
    (conn : PooledConnection) (packet : SphinxPacket) {w : WritePattern} {k : ℕ}
    (h : w.stops = some k) :
    ∃ e conn' s', s.writePacket C A addr conn packet w = (.error e, s') ∧
      (e = .io ∨ e = .readTimeout) ∧
      s'.connections = Function.update s.connections addr (some conn') ∧ k ≤ packetWireLen ∧
      conn'.written.length = conn.written.length + k ∧
      (k = packetWireLen → WritesPacket A conn conn' packet) := by
  obtain ⟨e, written, rng, he, hwrite, hlen, hle, hall⟩ :=
    writeCells_of_stopsFrom_some C (C.fillBytes 8 s.rng).1 packet hA conn (C.fillBytes 8 s.rng).2 h
  rw [← List.range_eq_range'] at hall hwrite
  refine ⟨e, { conn with written := written },
    ⟨Function.update s.connections addr (some { conn with written := written }), rng, s.outcomes⟩,
    ?_, he, rfl, hle, hlen, fun hk => ?_⟩
  · simp only [writePacket, writePacketWithKey_eq, hwrite]
  · obtain ⟨frames, hframes, hwritten⟩ := hall hk
    exact ⟨rfl, _, frames, hframes, hwritten⟩

/-- **The exits of a call.** -/
theorem forwardToPeer_exit (hA : A.Correct) (s : PoolState Addr ρ) (call : Forward Addr ρ) :
    Exit A s call (s.forwardToPeer C A call).1 (s.step C A call).connections := by
  rw [step, forwardToPeer]
  rcases s.getOrHandshake_cases call with
    ⟨e, s₁, hget, hconns, hnone⟩ | ⟨conn, s₁, hget, havail, hupd⟩
  · simp only [hget, recordPeerOutcome, hconns]
    exact .noConnection e hnone
  · simp only [hget]
    cases hfirst : call.first.stops with
    | none =>
      obtain ⟨conn', s₂, hwrite, hconns, hwrites⟩ :=
        writePacket_of_stops_none (C := C) hA s₁ call.addr conn call.packet hfirst
      simp only [hwrite, recordPeerOutcome, hconns, hupd]
      exact .first conn conn' havail hfirst hwrites
    | some k =>
      obtain ⟨e, conn₁, s₂, hwrite, he, hconns, -⟩ :=
        writePacket_of_stops_some (C := C) hA s₁ call.addr conn call.packet hfirst
      have hstops : call.first.stops ≠ none := by
        rw [hfirst]
        exact Option.some_ne_none k
      simp only [hwrite, if_pos he]
      have hupd₂ : ∀ c, Function.update s₂.connections call.addr c =
          Function.update s.connections call.addr c := fun c => by
        rw [hconns, Function.update_idem, hupd]
      rcases s₂.reconnect_cases call.addr call.reconnect with
        ⟨e', s₃, hres, hre, hconns₃⟩ | ⟨key, s₃, hres, hre, hupd₃⟩
      · simp only [hre, recordPeerOutcome, hconns₃, hupd₂]
        exact .noReconnection e' conn havail hstops hres
      · simp only [hre]
        cases hsecond : call.second.stops with
        | none =>
          obtain ⟨conn', s₄, hwrite', hconns₄, hwrites⟩ :=
            writePacket_of_stops_none (C := C) hA s₃ call.addr ⟨key, []⟩ call.packet hsecond
          simp only [hwrite', recordPeerOutcome, hconns₄, hupd₃, hupd₂]
          exact .second key conn conn' havail hstops hres hsecond hwrites
        | some k' =>
          obtain ⟨e', conn', s₄, hwrite', -, hconns₄, hle, hlen, hall⟩ :=
            writePacket_of_stops_some (C := C) hA s₃ call.addr ⟨key, []⟩ call.packet hsecond
          simp only [hwrite', recordPeerOutcome, hconns₄, hupd₃, hupd₂]
          refine .secondFailed e' key conn conn' k' havail hstops hres hsecond hle ?_ hall
          rw [hlen, List.length_nil, Nat.zero_add]

end PoolState

end Aegis
