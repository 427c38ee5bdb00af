import Aegis.Relay.Pool

/-!
# Framing of pooled links

An honest receiver reads the bytes of a connection frame by frame.  It reassembles the
packets of the calls that succeed as long as every connection of the pool stands at the
boundary of a packet.  The one exit that breaks this is a retry that stops inside the
packet: it leaves the new connection in the pool.

* `Idle.writes` — a packet written at a boundary is reassembled, and leaves the
  connection at a boundary.
* `good_iff` — one call.
* `staysFramed_iff` — **every run.**
-/

namespace Aegis

open Buffer

/-! ## The receiver -/

/-- What an honest receiver has read: the whole frames among the bytes so far. -/
def receive (A : Aead) (key : LinkKey) (bytes : List UInt8) : Connection :=
  (chunks linkFrameLen bytes).foldl
    (fun x frame => x.onFrame A ⟨key, none, false⟩ frame true .sent) .start

/-- The connection stands at the boundary of a packet, and so does its receiver. -/
structure PooledConnection.Idle (A : Aead) (conn : PooledConnection) : Prop where
  boundary : packetWireLen ∣ conn.written.length
  ended : (receive A conn.sessionKey conn.written).ended = none
  reassembler : (receive A conn.sessionKey conn.written).reassembler = .new

section Receive

variable {A : Aead} {key : LinkKey}

theorem linkFrameLen_pos : 0 < linkFrameLen := by decide

theorem linkFrameLen_dvd_packetWireLen : linkFrameLen ∣ packetWireLen := Nat.dvd_mul_left _ _

theorem receive_nil (A : Aead) (key : LinkKey) : receive A key [] = .start := by
  rw [receive, chunks, List.length_nil, Nat.zero_div, List.range_zero, List.map_nil,
    List.foldl_nil]

/-- A new connection is idle. -/
theorem idle_new (key : LinkKey) : PooledConnection.Idle A ⟨key, []⟩ := by
  refine ⟨Nat.dvd_zero _, ?_, ?_⟩
  · rw [receive_nil]
    rfl
  · rw [receive_nil]
    rfl

variable (A key) in
/-- Frames written at a frame boundary are read one after another. -/
theorem receive_append {bytes : List UInt8} {frames : List (List UInt8)}
    (hbytes : linkFrameLen ∣ bytes.length) (hframes : ∀ f ∈ frames, f.length = linkFrameLen) :
    receive A key (bytes ++ frames.flatten) =
      frames.foldl (fun x frame => x.onFrame A ⟨key, none, false⟩ frame true .sent)
        (receive A key bytes) := by
  induction frames generalizing bytes with
  | nil => rw [List.flatten_nil, List.append_nil, List.foldl_nil]
  | cons f frames ih =>
    have hf := hframes f List.mem_cons_self
    have hdvd : linkFrameLen ∣ (bytes ++ f).length := by
      rw [List.length_append, hf]
      exact Nat.dvd_add hbytes (Nat.dvd_refl _)
    have hfirst : receive A key (bytes ++ f) =
        (receive A key bytes).onFrame A ⟨key, none, false⟩ f true .sent := by
      rw [receive, chunks_append linkFrameLen_pos hbytes hf, List.foldl_append]
      rfl
    rw [List.flatten_cons, ← List.append_assoc,
      ih hdvd (fun g hg => hframes g (List.mem_cons_of_mem _ hg)), hfirst, List.foldl_cons]

variable {packetId : PacketId} {packet : SphinxPacket}

/-- Frames that carry fragments are read as those fragments. -/
theorem foldl_onFrame_of_carries {frames : List (List UInt8)} {indices : List ℕ}
    (h : List.Forall₂ (Carries A key packetId packet) indices frames) (x : Connection) :
    frames.foldl (fun x frame => x.onFrame A ⟨key, none, false⟩ frame true .sent) x =
      indices.foldl (fun x i => x.readFragment
        (encodeFragmentCell packetId (UInt8.ofNat i) packet) .sent) x := by
  induction h generalizing x with
  | nil => rfl
  | cons hcarries _ ih =>
    rw [List.foldl_cons, List.foldl_cons, Connection.onFrame_of_fragment hcarries.2, ih]

theorem Carries.length_flatten {frames : List (List UInt8)} {indices : List ℕ}
    (h : List.Forall₂ (Carries A key packetId packet) indices frames) :
    frames.flatten.length = indices.length * linkFrameLen := by
  induction h with
  | nil => rw [List.flatten_nil, List.length_nil, List.length_nil, Nat.zero_mul]
  | cons hcarries _ ih =>
    rw [List.flatten_cons, List.length_append, hcarries.1, ih, List.length_cons, Nat.succ_mul,
      Nat.add_comm]

theorem Carries.forall_length {frames : List (List UInt8)} {indices : List ℕ}
    (h : List.Forall₂ (Carries A key packetId packet) indices frames) :
    ∀ f ∈ frames, f.length = linkFrameLen := by
  induction h with
  | nil => exact fun f hf => (List.not_mem_nil hf).elim
  | cons hcarries _ ih =>
    intro f hf
    rcases List.mem_cons.mp hf with rfl | hf
    · exact hcarries.1
    · exact ih f hf

variable {conn conn' : PooledConnection}

/-- What a call that succeeds owes: the receiver reads on, and gets exactly the packet. -/
structure Delivers (A : Aead) (conn conn' : PooledConnection) (packet : SphinxPacket) : Prop where
  sessionKey : conn'.sessionKey = conn.sessionKey
  written : ∃ sent, conn'.written = conn.written ++ sent ∧ sent.length = packetWireLen
  ended : (receive A conn'.sessionKey conn'.written).ended = none
  enqueued : (receive A conn'.sessionKey conn'.written).enqueued =
    (receive A conn.sessionKey conn.written).enqueued ++ [packet]

/-- **A packet written at a boundary is reassembled**, and leaves the connection at one. -/
theorem PooledConnection.Idle.writes (h : conn.Idle A) (hwrites : WritesPacket A conn conn' packet) :
    conn'.Idle A ∧ Delivers A conn conn' packet := by
  obtain ⟨hkey, packetId, frames, hframes, hwritten⟩ := hwrites
  have hlen : frames.flatten.length = packetWireLen := by
    rw [Carries.length_flatten hframes, List.length_range]
    rfl
  have hread := receive_append A conn.sessionKey
    (Nat.dvd_trans linkFrameLen_dvd_packetWireLen h.boundary) (Carries.forall_length hframes)
  have hcollect : (receive A conn.sessionKey conn.written).reassembler.Collecting packetId packet
      0 := by
    rw [h.reassembler]
    exact SphinxReassembler.collecting_new packetId packet
  obtain ⟨opened, hfold⟩ := Connection.foldl_collecting .sent (n := 17) h.ended hcollect
    rfl
  rw [← List.range_eq_range'] at hfold
  rw [foldl_onFrame_of_carries hframes, ← hwritten] at hread
  have hreceive := hread.trans hfold
  refine ⟨⟨?_, ?_, ?_⟩, hkey, ⟨frames.flatten, hwritten, hlen⟩, ?_, ?_⟩
  · rw [hwritten, List.length_append, hlen]
    exact Nat.dvd_add h.boundary (Nat.dvd_refl _)
  · rw [hkey, hreceive]
    exact h.ended
  · rw [hkey, hreceive]
    rfl
  · rw [hkey, hreceive]
    exact h.ended
  · rw [hkey, hreceive]
    rfl

end Receive

/-! ## One call -/

namespace PoolState

variable {Addr ρ : Type} [DecidableEq Addr]

/-- Every connection of the pool stands at the boundary of a packet. -/
def Framed (s : PoolState Addr ρ) : Prop :=
  ∀ addr conn, s.connections addr = some conn → packetWireLen ∣ conn.written.length

/-- **A call that keeps its promises**: the pool is framed after it, and if it succeeded the
receiver of the connection it used, pooled or new, reassembles exactly the packet. -/
structure Good (C : Suite ρ) (A : Aead) (s : PoolState Addr ρ) (call : Forward Addr ρ) : Prop where
  framed : (s.step C A call).Framed
  delivers : (s.forwardToPeer C A call).1 = .ok () → ∃ conn conn',
    (s.connections call.addr = some conn ∨ conn.written = []) ∧
    (s.step C A call).connections call.addr = some conn' ∧ Delivers A conn conn' call.packet

/-- The first attempt fails, and the retry on a new connection stops inside the packet. -/
def TornRetry (s : PoolState Addr ρ) (call : Forward Addr ρ) : Prop :=
  (∃ conn, s.Available call conn) ∧ call.first.stops ≠ none ∧
    (∃ key, call.reconnect.result = .ok key) ∧
    ∃ k, call.second.stops = some k ∧ 0 < k ∧ k < packetWireLen

/-- Every connection of the pool is idle. -/
def Idle (A : Aead) (s : PoolState Addr ρ) : Prop :=
  ∀ addr conn, s.connections addr = some conn → conn.Idle A

variable {C : Suite ρ} {A : Aead} {s : PoolState Addr ρ} {call : Forward Addr ρ}

omit [DecidableEq Addr] in
theorem idle_initial (rng : ρ) : Idle A (initial rng : PoolState Addr ρ) :=
  fun _ _ h => nomatch h

omit [DecidableEq Addr] in
theorem Idle.available (h : Idle A s) {conn : PooledConnection} (havail : s.Available call conn) :
    conn.Idle A ∧ (s.connections call.addr = some conn ∨ conn.written = []) := by
  rcases havail with hconn | ⟨-, key, -, rfl⟩
  · exact ⟨h _ _ hconn, Or.inl hconn⟩
  · exact ⟨idle_new key, Or.inr rfl⟩

/-- Replacing one connection by an idle one. -/
theorem Idle.update (h : Idle A s) {addr : Addr} {c : Option PooledConnection}
    (hc : ∀ conn, c = some conn → conn.Idle A) :
    ∀ a conn, Function.update s.connections addr c a = some conn → conn.Idle A := by
  intro a conn hconn
  by_cases ha : a = addr
  · subst ha
    rw [Function.update_self] at hconn
    exact hc conn hconn
  · rw [Function.update_of_ne ha] at hconn
    exact h a conn hconn

/-- **A call whose retry is not torn** keeps every connection idle, and delivers if it
succeeds. -/
theorem Idle.forwardToPeer (hA : A.Correct) (h : Idle A s) (htorn : ¬ s.TornRetry call) :
    Idle A (s.step C A call) ∧ Good C A s call := by
  have hexit := s.forwardToPeer_exit (C := C) hA call
  have hgood : Idle A (s.step C A call) →
      ((s.forwardToPeer C A call).1 = .ok () → ∃ conn conn',
        (s.connections call.addr = some conn ∨ conn.written = []) ∧
        (s.step C A call).connections call.addr = some conn' ∧
        Delivers A conn conn' call.packet) → Good C A s call :=
    fun hidle hdel => ⟨fun addr conn hconn => (hidle addr conn hconn).boundary, hdel⟩
  suffices hsuff : Idle A (s.step C A call) ∧
      ((s.forwardToPeer C A call).1 = .ok () → ∃ conn conn',
        (s.connections call.addr = some conn ∨ conn.written = []) ∧
        (s.step C A call).connections call.addr = some conn' ∧
        Delivers A conn conn' call.packet) from ⟨hsuff.1, hgood hsuff.1 hsuff.2⟩
  rw [Idle]
  generalize hres : (s.forwardToPeer C A call).1 = result at hexit ⊢
  generalize (s.step C A call).connections = connections at hexit ⊢
  cases hexit with
  | noConnection e hnone => exact ⟨h, fun herr => by cases herr⟩
  | first conn conn' havail hstops hwrites =>
    obtain ⟨hidle, hwhich⟩ := h.available havail
    obtain ⟨hidle', hdel⟩ := hidle.writes hwrites
    refine ⟨h.update fun c hc => ?_, fun _ => ⟨conn, conn', hwhich, Function.update_self .., hdel⟩⟩
    cases hc
    exact hidle'
  | noReconnection e conn havail hstops hre =>
    exact ⟨h.update fun c hc => (nomatch hc), fun herr => by cases herr⟩
  | second key conn conn' havail hfirst hre hstops hwrites =>
    obtain ⟨hidle', hdel⟩ := (idle_new key).writes hwrites
    refine ⟨h.update fun c hc => ?_,
      fun _ => ⟨⟨key, []⟩, conn', Or.inr rfl, Function.update_self .., hdel⟩⟩
    cases hc
    exact hidle'
  | secondFailed e key conn conn' k havail hfirst hre hstops hle hlen hall =>
    refine ⟨h.update fun c hc => ?_, fun herr => by cases herr⟩
    cases hc
    by_cases hpos : 0 < k
    · -- not torn, so the retry stopped after its last byte
      have hk : k = packetWireLen := by
        by_contra hne
        exact htorn ⟨⟨conn, havail⟩, hfirst, ⟨key, hre⟩, k, hstops, hpos,
          lt_of_le_of_ne hle hne⟩
      exact ((idle_new key).writes (hall hk)).1
    · have hnil : conn'.written = [] := List.eq_nil_of_length_eq_zero (by omega)
      obtain ⟨key', written⟩ := conn'
      cases hnil
      exact idle_new key'

/-- **A torn retry leaves a connection inside a packet.** -/
theorem not_framed_of_tornRetry (hA : A.Correct) (htorn : s.TornRetry call) :
    ¬ (s.step C A call).Framed := by
  obtain ⟨⟨conn, havail⟩, hfirst, ⟨key, hre⟩, k, hstops, hpos, hlt⟩ := htorn
  have hexit := s.forwardToPeer_exit (C := C) hA call
  rw [Framed]
  generalize (s.forwardToPeer C A call).1 = result at hexit
  generalize (s.step C A call).connections = connections at hexit ⊢
  intro hframed
  cases hexit with
  | noConnection e hnone => exact hnone conn havail
  | first _ _ _ hstops' => exact hfirst hstops'
  | noReconnection _ _ _ _ hre' =>
    rw [hre] at hre'
    cases hre'
  | second _ _ _ _ _ _ hstops' =>
    rw [hstops] at hstops'
    cases hstops'
  | secondFailed _ _ _ conn' k' _ _ _ hstops' _ hlen =>
    rw [hstops] at hstops'
    cases hstops'
    have hdvd := hframed call.addr conn' (Function.update_self ..)
    rw [hlen] at hdvd
    exact absurd (Nat.le_of_dvd hpos hdvd) (Nat.not_le.mpr hlt)

/-- **One call**, from a pool whose connections are idle. -/
theorem good_iff (hA : A.Correct) (h : Idle A s) : Good C A s call ↔ ¬ s.TornRetry call :=
  ⟨fun hgood htorn => not_framed_of_tornRetry hA htorn hgood.framed,
    fun htorn => (h.forwardToPeer hA htorn).2⟩

/-! ## Every run -/

/-- **Pooled links stay framed**, and the calls that succeed deliver, exactly in the runs
none of whose retries is torn. -/
theorem staysFramed_iff (C : Suite ρ) (A : Aead) (hA : A.Correct) (rng : ρ)
    (calls : List (Forward Addr ρ)) :
    Run.Guarded (step C A) (Good C A) (initial rng) calls ↔
      Run.Guarded (step C A) (fun s call => ¬ s.TornRetry call) (initial rng) calls :=
  Run.guarded_congr (Idle A) (fun _ _ h => good_iff hA h)
    (fun _ _ htorn h => (h.forwardToPeer hA htorn).1) (idle_initial rng)

/-- A first packet to one peer, with these writes. -/
def checksumCall (first second : WritePattern) : Forward ℕ UInt8 where
  peerId := List.Vector.replicate 32 8
  addr := 0
  packet := Bytes.zero sphinxPacketLen
  connect := ⟨.ok (List.Vector.replicate 32 1), id⟩
  first := first
  reconnect := ⟨.ok (List.Vector.replicate 32 2), id⟩
  second := second

/-- Every write goes through. -/
def allDone : WritePattern := ⟨fun _ => .done, true⟩

/-- A first attempt that times out at once and a retry that goes through. -/
theorem staysFramed_checksum : Run.Guarded (step checksumSuite checksumAead)
    (Good checksumSuite checksumAead) (initial 3)
    [checksumCall ⟨fun _ => .timedOut 0, true⟩ allDone, checksumCall allDone allDone] := by
  refine (staysFramed_iff checksumSuite checksumAead checksumAead_correct 3 _).mpr ⟨?_, ?_, trivial⟩
  · rintro ⟨-, -, -, k, hstops, -⟩
    have hnone : allDone.stops = none := by decide
    exact absurd (hnone.symm.trans hstops) (Option.some_ne_none k).symm
  · rintro ⟨-, hfirst, -⟩
    exact hfirst (by decide)

/-- A retry that times out after five frames leaves its connection in the pool, **inside the
packet**. -/
theorem not_staysFramed_checksum : ∃ calls : List (Forward ℕ UInt8),
    ¬ Run.Guarded (step checksumSuite checksumAead) (Good checksumSuite checksumAead) (initial 3)
      calls := by
  refine ⟨[checksumCall ⟨fun _ => .timedOut 0, true⟩
    ⟨fun i => if i < 5 then .done else .timedOut 0, true⟩], fun hgood => ?_⟩
  refine not_framed_of_tornRetry checksumAead_correct ?_ hgood.1.framed
  exact ⟨⟨_, Or.inr ⟨rfl, _, rfl, rfl⟩⟩, by decide, ⟨_, rfl⟩, 5 * linkFrameLen, by decide,
    by decide, by decide⟩

end PoolState

end Aegis
