import Aegis.Client.Session

/-!
# What a paced session delivers

A packet is accepted when `enqueue_packet` returns `Ok`.  Its cells are then in the channel, which
is bounded; but the driver empties the channel into a queue that is bounded too, whether or not
there is room, and drops the cell where there is none.

* `Delivering.step` — the invariant of the runs in which this does not happen.
* `delivered_of_run` — **in these runs every accepted packet is sent**, in one piece and in order.
* `lossy_run` — a driver that receives faster than it sends.
-/

namespace Aegis

open Buffer

namespace PacedSession

variable {ρ : Type}

/-- What is sent, queued and in the channel are the cells of the calls, one call after another: all
the cells of those that returned `Ok`, the first cells of those that did not. -/
structure Delivered (s : PacedSession ρ) : Prop where
  whole : ∀ r ∈ s.returned, r.result = .ok () →
    r.call.placed = fragment r.call.packet r.call.packetId
  inOrder : realCells s.wire ++ s.emitter.cellQueue ++ s.channel =
    (s.returned.map fun r => r.call.placed).flatten ++ (s.calls.map EnqueueCall.placed).flatten

/-- A call begins only when no other is in progress, a cell is received only when the queue has
room, and the link takes every cell. -/
def Orderly (s : PacedSession ρ) : SessionEvent ρ → Prop
  | .enqueuePacket _ _ => s.calls = []
  | .recv => s.channel ≠ [] → s.emitter.pendingEmissions < s.maxBacklog
  | .tick sent _ _ => sent = true
  | _ => True

/-! ## Calls one after another -/

/-- The channel has taken the cells of the calls, one call after another. -/
structure CallsInOrder (s : PacedSession ρ) : Prop where
  alone : s.calls.length ≤ 1
  whole : ∀ r ∈ s.returned, r.result = .ok () →
    r.call.placed = fragment r.call.packet r.call.packetId
  taken : s.taken =
    (s.returned.map fun r => r.call.placed).flatten ++ (s.calls.map EnqueueCall.placed).flatten

namespace CallsInOrder

variable {C : Suite ρ} {s : PacedSession ρ}

/-- A call that is in progress is the only one. -/
theorem calls_eq (h : s.CallsInOrder) {i : ℕ} {call : EnqueueCall}
    (hcall : s.calls[i]? = some call) : s.calls = [call] ∧ i = 0 := by
  obtain ⟨hi, hget⟩ := List.getElem?_eq_some_iff.mp hcall
  have hi0 : i = 0 := by
    have halone := h.alone
    omega
  subst hi0
  have hlength : s.calls.length = 1 := by
    have halone := h.alone
    omega
  obtain ⟨x, hx⟩ := List.length_eq_one_iff.mp hlength
  refine ⟨?_, rfl⟩
  rw [hx] at hcall ⊢
  obtain rfl := Option.some.inj hcall
  rfl

/-- A call returns. -/
theorem finish (h : s.CallsInOrder) {i : ℕ} {call : EnqueueCall}
    {result : Except EnqueueError Unit} (hcall : s.calls[i]? = some call)
    (hwhole : result = .ok () → call.rest = []) : (s.finish i call result).CallsInOrder := by
  obtain ⟨hcalls, rfl⟩ := h.calls_eq hcall
  have hrest : s.calls.eraseIdx 0 = [] := by
    rw [hcalls]
    rfl
  have htaken : s.taken =
      ((s.returned ++ [EnqueueReturn.mk call result]).map fun r => r.call.placed).flatten := by
    rw [h.taken, hcalls]
    simp
  refine ⟨?_, ?_, ?_⟩
  · show (s.calls.eraseIdx 0).length ≤ 1
    rw [hrest]
    exact Nat.zero_le _
  · intro r hr hok
    rcases List.mem_append.mp hr with hr | hr
    · exact h.whole r hr hok
    · obtain rfl := List.mem_singleton.mp hr
      have hsplit := call.whole
      rw [hwhole hok, List.append_nil] at hsplit
      exact hsplit
  · show s.taken = _ ++ ((s.calls.eraseIdx 0).map EnqueueCall.placed).flatten
    rw [hrest, htaken]
    exact (List.append_nil _).symm

theorem enqueuePacket (h : s.CallsInOrder) (hcalls : s.calls = []) (packet : SphinxPacket)
    (rng : ρ) : (s.enqueuePacket C packet rng).CallsInOrder := by
  unfold PacedSession.enqueuePacket
  split
  · refine ⟨?_, h.whole, ?_⟩
    · show (s.calls ++ _).length ≤ 1
      rw [hcalls]
      exact le_rfl
    · show s.taken = _ ++ ((s.calls ++ _).map EnqueueCall.placed).flatten
      rw [h.taken, hcalls]
      rfl
  · exact h

theorem trySend (h : s.CallsInOrder) (i : ℕ) : (s.trySend i).CallsInOrder := by
  rcases trySend_cases s i with hsame | ⟨call, hcall, hrest, hok⟩ | ⟨call, err, hcall, herr⟩ |
    ⟨call, cell, rest, hrest, hcall, -, hplaced⟩
  · rw [hsame]
    exact h
  · rw [hok]
    exact h.finish hcall fun _ => hrest
  · rw [herr]
    exact h.finish hcall nofun
  · rw [hplaced]
    obtain ⟨hcalls, rfl⟩ := h.calls_eq hcall
    have hset : s.calls.set 0 (call.place cell rest hrest) = [call.place cell rest hrest] := by
      rw [hcalls]
      rfl
    refine ⟨?_, h.whole, ?_⟩
    · show (s.calls.set 0 _).length ≤ 1
      rw [hset]
      exact le_rfl
    · show s.taken ++ [cell] = _ ++ ((s.calls.set 0 _).map EnqueueCall.placed).flatten
      rw [hset, h.taken, hcalls, List.append_assoc]
      simp [EnqueueCall.place]

/-- The calls and what the channel has taken are no business of the driver. -/
theorem of_driver (h : s.CallsInOrder) {t : PacedSession ρ} (hcalls : t.calls = s.calls)
    (hreturned : t.returned = s.returned) (htaken : t.taken = s.taken) : t.CallsInOrder := by
  refine ⟨?_, ?_, ?_⟩
  · rw [hcalls]
    exact h.alone
  · rw [hreturned]
    exact h.whole
  · rw [htaken, hreturned, hcalls]
    exact h.taken

end CallsInOrder

/-! ## The invariant -/

/-- The channel has taken the cells of the calls, one call after another. -/
structure Delivering (s : PacedSession ρ) : Prop where
  valid : s.Valid
  running : s.handle = .held → s.running = true
  conserves : s.running = true → s.Conserves
  alone : s.calls.length ≤ 1
  whole : ∀ r ∈ s.returned, r.result = .ok () →
    r.call.placed = fragment r.call.packet r.call.packetId
  taken : s.taken =
    (s.returned.map fun r => r.call.placed).flatten ++ (s.calls.map EnqueueCall.placed).flatten

theorem Delivering.delivered {s : PacedSession ρ} (h : s.Delivering) (hheld : s.handle = .held) :
    s.Delivered :=
  ⟨h.whole, (h.conserves (h.running hheld)).trans h.taken⟩

theorem delivering_of_start {config : PacedSessionConfig} {rng : ρ} {s : PacedSession ρ}
    (h : startWithTransport config rng = some s) : s.Delivering := by
  have hvalid := valid_of_start h
  unfold startWithTransport at h
  dsimp only at h
  split_ifs at h
  obtain rfl := Option.some.inj h
  exact ⟨hvalid, fun _ => rfl, fun _ => rfl, Nat.zero_le _, fun _ hr => absurd hr List.not_mem_nil,
    rfl⟩

section Step

variable {C : Suite ρ} {s : PacedSession ρ}

theorem Orderly.roomToReceive {event : SessionEvent ρ} (h : s.Orderly event) :
    s.RoomToReceive event := by
  cases event with
  | recv => exact h
  | _ => trivial

theorem Delivering.callsInOrder (h : s.Delivering) : s.CallsInOrder :=
  ⟨h.alone, h.whole, h.taken⟩

/-- The invariant in its parts. -/
theorem CallsInOrder.delivering (h : s.CallsInOrder) (hvalid : s.Valid)
    (hrunning : s.handle = .held → s.running = true) (hconserves : s.running = true → s.Conserves) :
    s.Delivering :=
  ⟨hvalid, hrunning, hconserves, h.alone, h.whole, h.taken⟩

theorem Delivering.enqueuePacket (h : s.Delivering) (hcalls : s.calls = []) (packet : SphinxPacket)
    (rng : ρ) : (s.enqueuePacket C packet rng).Delivering := by
  have hvalid := h.valid.enqueuePacket (C := C) packet rng
  have horder := h.callsInOrder.enqueuePacket (C := C) hcalls packet rng
  unfold PacedSession.enqueuePacket at hvalid horder ⊢
  split
  · rename_i hheld
    rw [if_pos hheld] at hvalid horder
    exact horder.delivering hvalid h.running h.conserves
  · exact h

theorem trySend_frame (s : PacedSession ρ) (i : ℕ) :
    (s.trySend i).handle = s.handle ∧ (s.trySend i).running = s.running := by
  rcases trySend_cases s i with h | ⟨_, -, -, h⟩ | ⟨_, _, -, h⟩ | ⟨_, _, _, _, -, -, h⟩
  · rw [h]
    exact ⟨rfl, rfl⟩
  · rw [h]
    exact ⟨rfl, rfl⟩
  · rw [h]
    exact ⟨rfl, rfl⟩
  · rw [h]
    exact ⟨rfl, rfl⟩

theorem Delivering.trySend (h : s.Delivering) (i : ℕ) : (s.trySend i).Delivering := by
  obtain ⟨hhandle, hrunning⟩ := trySend_frame s i
  refine (h.callsInOrder.trySend i).delivering (h.valid.trySend i) ?_ ?_
  · intro hheld
    exact hrunning.trans (h.running (hhandle.symm.trans hheld))
  · intro hrun
    exact (h.conserves (hrunning.symm.trans hrun)).trySend i

/-- The calls and what the channel has taken are no business of the driver. -/
theorem Delivering.of_driver (h : s.Delivering) {t : PacedSession ρ} (hvalid : t.Valid)
    (hrunning : t.handle = .held → t.running = true) (hconserves : t.running = true → t.Conserves)
    (hcalls : t.calls = s.calls) (hreturned : t.returned = s.returned) (htaken : t.taken = s.taken) :
    t.Delivering :=
  (h.callsInOrder.of_driver hcalls hreturned htaken).delivering hvalid hrunning hconserves

theorem Delivering.consume (h : s.Delivering) {handle : Handle} (hhandle : handle ≠ .held) :
    (s.consume handle).Delivering := by
  have hvalid := h.valid.consume handle
  unfold PacedSession.consume at hvalid ⊢
  split
  · rename_i hheld
    rw [if_pos hheld] at hvalid
    exact h.of_driver hvalid (fun hheld' => absurd hheld' hhandle) h.conserves rfl rfl rfl
  · exact h

theorem Delivering.changed (h : s.Delivering) : s.changed.Delivering := by
  have hvalid := h.valid.changed
  unfold PacedSession.changed at hvalid ⊢
  split
  · rename_i hshutdown
    rw [if_pos hshutdown] at hvalid
    refine h.of_driver hvalid (fun hheld => ?_) (fun hrun => ?_) rfl rfl rfl
    · rw [show s.handle = .held from hheld] at hshutdown
      cases hshutdown
    · cases hrun
  · exact h

/-- **One step of an orderly run.** -/
theorem Delivering.step (h : s.Delivering) {event : SessionEvent ρ} (horderly : s.Orderly event) :
    (PacedSession.step C s event).Delivering := by
  have hvalid := h.valid.step (C := C) event
  have hconserves := Conserves.step (C := C) h.valid h.conserves horderly.roomToReceive
  cases event with
  | enqueuePacket packet rng => exact h.enqueuePacket horderly packet rng
  | trySend i => exact h.trySend i
  | recv =>
    obtain ⟨hhandle, hcalls, hreturned, htaken⟩ := recv_frame s
    refine h.of_driver hvalid ?_ hconserves hcalls hreturned htaken
    intro hheld
    have hheld' : s.handle = .held := hhandle.symm.trans hheld
    exact (running_recv hheld').trans (h.running hheld')
  | tick sent now now' =>
    obtain rfl : sent = true := horderly
    obtain ⟨hhandle, hcalls, hreturned, htaken⟩ := tick_frame C s true now now'
    refine h.of_driver hvalid ?_ hconserves hcalls hreturned htaken
    intro hheld
    exact (running_tick C s now now').trans (h.running (hhandle.symm.trans hheld))
  | shutdown => exact h.consume (by decide)
  | drop => exact h.consume (by decide)
  | changed => exact h.changed

end Step

theorem delivering_of_run {C : Suite ρ} {config : PacedSessionConfig} {rng : ρ}
    {s : PacedSession ρ} (hstart : startWithTransport config rng = some s)
    {events : List (SessionEvent ρ)} (horderly : Run.Guarded (step C) Orderly s events) :
    (run C s events).Delivering :=
  horderly.preserves Delivering (fun _ _ hok h => h.step hok) (delivering_of_start hstart)

/-- **Every accepted packet is sent**, in one piece and in order, in every run whose steps are
orderly, while the session is held: its cells are on the way, and once the driver has had the time
to drain the channel and the queue they are all on the wire. -/
theorem delivered_of_run (C : Suite ρ) {config : PacedSessionConfig} {rng : ρ}
    {s : PacedSession ρ} (hstart : startWithTransport config rng = some s)
    {events : List (SessionEvent ρ)} (horderly : Run.Guarded (step C) Orderly s events)
    (hheld : (run C s events).handle = .held) :
    (run C s events).Delivered ∧
      ∀ receives sends, (run C s events).Drains receives sends →
        Run.Guarded (step C) Orderly (run C s events) (receives ++ sends) →
          realCells (run C (run C s events) (receives ++ sends)).wire =
            ((run C s events).returned.map fun r => r.call.placed).flatten ++
              ((run C s events).calls.map EnqueueCall.placed).flatten := by
  have h := delivering_of_run hstart horderly
  refine ⟨h.delivered hheld, ?_⟩
  intro receives sends hdrains hguarded
  obtain ⟨hactive, hcalls, hreturned, -, hchannel, hqueue⟩ :=
    hdrains.drained (C := C) ⟨h.running hheld, hheld, h.valid⟩
  have h' : (run C (run C s events) (receives ++ sends)).Delivering :=
    hguarded.preserves Delivering (fun _ _ hok h => h.step hok) h
  have hstream := (h'.delivered hactive.held).inOrder
  rw [hchannel, hqueue, List.append_nil, List.append_nil, hcalls, hreturned] at hstream
  exact hstream

/-! ## Runs with room -/

section Room

variable {C : Suite ρ} {s : PacedSession ρ}

theorem Active.trySend (h : s.Active) (i : ℕ) :
    (s.trySend i).Active ∧ (s.trySend i).emitter = s.emitter ∧
      (s.trySend i).maxBacklog = s.maxBacklog := by
  have hvalid := h.valid.trySend i
  rcases trySend_cases s i with heq | ⟨_, -, -, heq⟩ | ⟨_, _, -, heq⟩ | ⟨_, _, _, _, -, -, heq⟩
  all_goals
    rw [heq] at hvalid ⊢
    exact ⟨⟨h.running, h.held, hvalid⟩, rfl, rfl⟩

/-- **Little enough is orderly**: no cell is dropped while the driver receives no more cells than
the queue has room for, whenever it sends them. -/
theorem Active.orderly (h : s.Active) {events : List (SessionEvent ρ)}
    (hevents : ∀ event ∈ events, event.IsDriver ∨ ∃ i, event = .trySend i)
    (hroom : s.emitter.cellQueue.length + events.countP SessionEvent.isRecv ≤ s.maxBacklog) :
    Run.Guarded (PacedSession.step C) Orderly s events := by
  induction events generalizing s with
  | nil => trivial
  | cons event events ih =>
    have hevents' : ∀ event' ∈ events, event'.IsDriver ∨ ∃ i, event' = .trySend i :=
      fun event' hmem => hevents event' (List.mem_cons_of_mem event hmem)
    rw [List.countP_cons] at hroom
    rcases hevents event List.mem_cons_self with hdriver | ⟨i, rfl⟩
    · obtain ⟨hactive, hbacklog, -, -, -, -, hqueue⟩ := h.step (C := C) hdriver
      rw [List.length_take] at hqueue
      refine ⟨?_, ih hactive hevents' ?_⟩
      · cases event with
        | recv =>
          intro _
          have hlt : s.emitter.cellQueue.length < s.maxBacklog := by
            rw [show SessionEvent.isRecv (.recv : SessionEvent ρ) = true from rfl] at hroom
            rw [if_pos rfl] at hroom
            omega
          unfold ConstantRateEmitter.pendingEmissions
          rw [h.valid.noPayload]
          exact hlt
        | tick sent now now' => exact hdriver
        | _ => exact absurd hdriver id
      · rw [hbacklog]
        have hrecv : event.isRecv.toNat = if event.isRecv = true then 1 else 0 := by
          cases event.isRecv <;> rfl
        omega
    · obtain ⟨hactive, hemitter, hbacklog⟩ := h.trySend i
      refine ⟨trivial, ih hactive hevents' ?_⟩
      show (s.trySend i).emitter.cellQueue.length + _ ≤ (s.trySend i).maxBacklog
      rw [hemitter, hbacklog]
      omega

/-- A session that has started can go on. -/
theorem active_of_start {config : PacedSessionConfig} {rng : ρ} {s : PacedSession ρ}
    (h : startWithTransport config rng = some s) :
    s.Active ∧ s.maxBacklog = config.emitterConfig.maxBacklog ∧ s.calls = [] ∧ s.returned = [] ∧
      s.channel = [] ∧ s.emitter.cellQueue = [] ∧ s.wire = [] := by
  have hvalid := valid_of_start h
  unfold startWithTransport at h
  dsimp only at h
  split_ifs at h
  obtain rfl := Option.some.inj h
  exact ⟨⟨rfl, rfl, hvalid⟩, rfl, rfl, rfl, rfl, rfl, rfl⟩

/-- `mpsc::channel` has room for one cell at least. -/
theorem positive_of_start {config : PacedSessionConfig} {rng : ρ} {s : PacedSession ρ}
    (h : startWithTransport config rng = some s) : 0 < config.emitterConfig.maxBacklog := by
  unfold startWithTransport at h
  dsimp only at h
  split_ifs at h with hpanic
  omega

theorem afterSend_of_start {config : PacedSessionConfig} {rng : ρ} {s : PacedSession ρ}
    (h : startWithTransport config rng = some s) : s.cover.afterSend = config.coverAfterSend := by
  unfold startWithTransport at h
  dsimp only at h
  split_ifs at h
  obtain rfl := Option.some.inj h
  rfl

/-- One call, with nothing in between. -/
def sendOne (packet : SphinxPacket) (rng : ρ) : List (SessionEvent ρ) :=
  .enqueuePacket packet rng :: List.replicate (sphinxFragmentCount + 1) (.trySend 0)

/-- The fragments of a packet are 18. -/
theorem length_fragment (packet : SphinxPacket) (packetId : PacketId) :
    (fragment packet packetId).length = sphinxFragmentCount := by
  unfold fragment
  rw [List.length_map, List.length_range]

/-- The session has accepted one more packet, which is in the channel. -/
structure Accepted (s t : PacedSession ρ) (packet : SphinxPacket) (packetId : PacketId) : Prop where
  active : t.Active
  maxBacklog : t.maxBacklog = s.maxBacklog
  calls : t.calls = []
  returned : ∃ done : EnqueueCall, done.packet = packet ∧ done.packetId = packetId ∧
    t.returned = s.returned ++ [⟨done, .ok ()⟩]
  channel : t.channel = s.channel ++ fragment packet packetId
  emitter : t.emitter = s.emitter

/-- A call begins in a session that has none. -/
theorem step_enqueuePacket (C : Suite ρ) (h : s.Active) (hcalls : s.calls = [])
    (packet : SphinxPacket) (rng : ρ) :
    (step C s (.enqueuePacket packet rng)).Active ∧
      step C s (.enqueuePacket packet rng) =
        { s with
          cover := s.cover.onEnqueue
          calls := [.begin packet (fragmentWithRandomId C packet rng).1.2] } := by
  have hvalid := h.valid.step (C := C) (.enqueuePacket packet rng)
  have hbegin : step C s (.enqueuePacket packet rng) =
      { s with
        cover := s.cover.onEnqueue
        calls := [.begin packet (fragmentWithRandomId C packet rng).1.2] } := by
    show s.enqueuePacket C packet rng = _
    unfold enqueuePacket
    rw [if_pos h.held, hcalls]
    rfl
  rw [hbegin] at hvalid
  refine ⟨?_, hbegin⟩
  rw [hbegin]
  exact ⟨h.running, h.held, hvalid⟩

/-- A packet that finds room is accepted. -/
theorem accepted_sendOne (C : Suite ρ) (h : s.Active) (hcalls : s.calls = [])
    (packet : SphinxPacket) (rng : ρ)
    (hroom : s.channel.length + sphinxFragmentCount ≤ s.maxBacklog) :
    Accepted s (run C s (sendOne packet rng)) packet (fragmentWithRandomId C packet rng).1.2 := by
  have hvalid : (run C s (sendOne packet rng)).Valid :=
    Run.foldl_preserves Valid (fun _ event _ hvalid => hvalid.step event) h.valid
  obtain ⟨hactive, hbegin⟩ := step_enqueuePacket C h hcalls packet rng
  have hcall : (step C s (.enqueuePacket packet rng)).calls =
      [.begin packet (fragmentWithRandomId C packet rng).1.2] := by
    rw [hbegin]
  obtain ⟨done, hpacket, hpacketId, hdone⟩ := run_trySend C hactive.running hcall rfl (by
    rw [hbegin, EnqueueCall.begin, length_fragment]
    exact hroom)
  have hrun : run C s (sendOne packet rng) = run C (step C s (.enqueuePacket packet rng))
      (List.replicate (sphinxFragmentCount + 1) (.trySend 0)) := by
    rw [sendOne, run_cons]
  rw [EnqueueCall.begin, length_fragment] at hdone
  rw [hrun, hdone, hbegin] at hvalid ⊢
  exact ⟨⟨h.running, h.held, hvalid⟩, rfl, rfl, ⟨done, hpacket, hpacketId, rfl⟩, rfl, rfl⟩

theorem orderly_sendOne (h : s.Active) (hcalls : s.calls = [])
    (hroom : s.emitter.cellQueue.length ≤ s.maxBacklog) (packet : SphinxPacket) (rng : ρ) :
    Run.Guarded (step C) Orderly s (sendOne packet rng) := by
  obtain ⟨hactive, hbegin⟩ := step_enqueuePacket C h hcalls packet rng
  refine ⟨hcalls, hactive.orderly ?_ ?_⟩
  · intro event hevent
    exact Or.inr ⟨0, List.eq_of_mem_replicate hevent⟩
  · have hnone : (List.replicate (sphinxFragmentCount + 1)
        (.trySend 0 : SessionEvent ρ)).countP SessionEvent.isRecv = 0 := by
      rw [List.countP_eq_zero]
      intro event hevent
      rw [List.eq_of_mem_replicate hevent]
      exact Bool.false_ne_true
    rw [hbegin, hnone]
    exact hroom

/-- A driver that receives `n` cells and then sends `n`. -/
def drainAll (ρ : Type) (n : ℕ) : List (SessionEvent ρ) × List (SessionEvent ρ) :=
  (List.replicate n .recv, List.replicate n (.tick true 0 0))

theorem drains_drainAll {n : ℕ} (h : s.emitter.cellQueue.length + s.channel.length ≤ n) :
    s.Drains (drainAll ρ n).1 (drainAll ρ n).2 := by
  refine ⟨?_, ?_, ?_, ?_⟩
  · intro event hevent
    rw [List.eq_of_mem_replicate hevent]
    trivial
  · intro event hevent
    rw [List.eq_of_mem_replicate hevent]
    rfl
  · show _ ≤ (List.replicate n SessionEvent.recv).countP SessionEvent.isRecv
    rw [List.countP_replicate, if_pos (show SessionEvent.isRecv .recv = true from rfl)]
    omega
  · show _ ≤ (List.replicate n (SessionEvent.tick true 0 0)).countP SessionEvent.isTick
    rw [List.countP_replicate, if_pos (show SessionEvent.isTick (.tick true 0 0) = true from rfl)]
    exact h

theorem orderly_drainAll (h : s.Active) {n : ℕ}
    (hroom : s.emitter.cellQueue.length + n ≤ s.maxBacklog) :
    Run.Guarded (step C) Orderly s ((drainAll ρ n).1 ++ (drainAll ρ n).2) := by
  refine h.orderly ?_ ?_
  · intro event hevent
    left
    rcases List.mem_append.mp hevent with hevent | hevent
    · rw [List.eq_of_mem_replicate hevent]
      trivial
    · rw [List.eq_of_mem_replicate hevent]
      rfl
  · unfold drainAll
    rw [List.countP_append, List.countP_replicate, List.countP_replicate,
      if_pos (show SessionEvent.isRecv .recv = true from rfl),
      if_neg (show ¬SessionEvent.isRecv (.tick true 0 0) = true from Bool.false_ne_true)]
    exact hroom

end Room

/-- A packet sent alone with the default backlog. -/
theorem delivered_of_run_checksum :
    ∃ s packetId, startWithTransport ⟨⟨defaultMaxBacklog⟩, 0⟩ (0 : UInt8) = some s ∧
      realCells (run checksumSuite (run checksumSuite s (sendOne (Bytes.zero sphinxPacketLen) 0))
        ((drainAll UInt8 18).1 ++ (drainAll UInt8 18).2)).wire =
          fragment (Bytes.zero sphinxPacketLen) packetId := by
  obtain ⟨s, hstart⟩ : ∃ s, startWithTransport ⟨⟨defaultMaxBacklog⟩, 0⟩ (0 : UInt8) = some s :=
    ⟨_, rfl⟩
  obtain ⟨hactive, hbacklog, hcalls, hreturned, hchannel, hqueue, -⟩ := active_of_start hstart
  have horderly := orderly_sendOne (C := checksumSuite) hactive hcalls
    (by rw [hqueue]; exact Nat.zero_le _) (Bytes.zero sphinxPacketLen) 0
  have haccepted := accepted_sendOne checksumSuite hactive hcalls (Bytes.zero sphinxPacketLen) 0
    (by rw [hchannel, hbacklog]; decide)
  obtain ⟨hdelivered, hwire⟩ :=
    delivered_of_run checksumSuite hstart horderly haccepted.active.held
  obtain ⟨done, hpacket, hpacketId, hdone⟩ := haccepted.returned
  refine ⟨s, done.packetId, hstart, (hwire _ _ (drains_drainAll ?_)
    (orderly_drainAll haccepted.active ?_)).trans ?_⟩
  · rw [haccepted.emitter, hqueue, haccepted.channel, hchannel, List.nil_append, length_fragment]
    exact le_rfl
  · rw [haccepted.emitter, hqueue, haccepted.maxBacklog, hbacklog]
    decide
  · have hwhole := hdelivered.whole ⟨done, .ok ()⟩ (by
      rw [hdone]
      exact List.mem_append_right _ List.mem_cons_self) rfl
    rw [hdone, hreturned, haccepted.calls, List.nil_append, List.map_nil, List.flatten_nil,
      List.append_nil, List.map_singleton, List.flatten_singleton, hwhole, hpacket]

/-! ## A driver that receives faster than it sends -/

section Lossy

variable {C : Suite ρ} {s : PacedSession ρ}

/-- One call is in progress, the channel is empty and nothing has been sent. -/
structure Choked (s : PacedSession ρ) (n : ℕ) (call : EnqueueCall) : Prop where
  active : s.Active
  capacity : s.maxBacklog = n
  room : 0 < n
  queue : s.emitter.cellQueue.length ≤ n
  calls : s.calls = [call]
  returned : s.returned = []
  channel : s.channel = []
  wire : s.wire = []

theorem step_trySend (C : Suite ρ) (s : PacedSession ρ) (i : ℕ) :
    step C s (.trySend i) = s.trySend i := rfl

/-- The next cell is put in the channel and received at once. -/
theorem Choked.next {n : ℕ} {call : EnqueueCall} (h : s.Choked n call) {cell : Cell} {rest : List Cell}
    (hrest : call.rest = cell :: rest) :
    (run C s [.trySend 0, .recv]).Choked n (call.place cell rest hrest) := by
  have hplaced := trySend_of_lt h.active.running h.calls hrest (by
    rw [h.channel, h.capacity]
    exact h.room)
  have hvalid : (s.trySend 0).Valid := h.active.valid.trySend 0
  have hvalid' : (s.trySend 0).recv.Valid := hvalid.recv
  have hchannel : (s.trySend 0).channel = [cell] := by
    rw [hplaced, h.channel]
    rfl
  have hrunning : (s.trySend 0).running = true := by
    rw [hplaced]
    exact h.active.running
  show (s.trySend 0).recv.Choked n _
  by_cases hroom : (s.trySend 0).emitter.pendingEmissions < (s.trySend 0).emitter.config.maxBacklog
  · obtain ⟨pending, hrecv⟩ := recv_of_lt hrunning hchannel hroom
    rw [hrecv] at hvalid' ⊢
    rw [hplaced] at hvalid' hroom ⊢
    refine ⟨⟨h.active.running, h.active.held, hvalid'⟩, h.capacity, h.room, ?_, rfl, h.returned,
      rfl, h.wire⟩
    show (s.emitter.cellQueue ++ [cell]).length ≤ n
    rw [List.length_append, List.length_singleton]
    have hlt : s.emitter.cellQueue.length < n := by
      rw [← h.capacity, ← h.active.valid.capacity]
      exact Nat.lt_of_le_of_lt (Nat.le_add_right _ _) hroom
    exact hlt
  · obtain ⟨pending, hrecv⟩ := recv_of_le hrunning hchannel (Nat.le_of_not_lt hroom)
    rw [hrecv] at hvalid' ⊢
    rw [hplaced] at hvalid' ⊢
    exact ⟨⟨h.active.running, h.active.held, hvalid'⟩, h.capacity, h.room, h.queue, rfl,
      h.returned, rfl, h.wire⟩

theorem Choked.run {n : ℕ} {call : EnqueueCall} {rest : List Cell} (h : s.Choked n call)
    (hrest : call.rest = rest) :
    ∃ done : EnqueueCall, done.packet = call.packet ∧ done.rest = [] ∧
      (PacedSession.run C s (List.replicate rest.length [.trySend 0, .recv]).flatten).Choked
        n done := by
  induction rest generalizing s call with
  | nil => exact ⟨call, rfl, hrest, h⟩
  | cons cell rest ih =>
    obtain ⟨done, hpacket, hdone, hchoked⟩ := ih (h.next (C := C) hrest) rfl
    refine ⟨done, hpacket, hdone, ?_⟩
    rw [List.length_cons, List.replicate_succ, List.flatten_cons, run_append]
    exact hchoked

/-- Each cell is received as soon as it is in the channel, and no slot comes in between. -/
def lossyEvents (packet : SphinxPacket) (rng : ρ) : List (SessionEvent ρ) :=
  .enqueuePacket packet rng ::
    ((List.replicate sphinxFragmentCount [.trySend 0, .recv]).flatten ++ [.trySend 0])

/-- **A backlog of fewer cells than a packet has loses the others**, and the packet is accepted. -/
theorem lossy_run (C : Suite ρ) {config : PacedSessionConfig} {rng : ρ}
    (hstart : startWithTransport config rng = some s) (packet : SphinxPacket) (rng' : ρ) :
    (run C s (lossyEvents packet rng')).handle = .held ∧
      (∃ done, (run C s (lossyEvents packet rng')).returned = [⟨done, .ok ()⟩] ∧
        done.packet = packet) ∧
      (realCells (run C s (lossyEvents packet rng')).wire ++
        (run C s (lossyEvents packet rng')).emitter.cellQueue ++
          (run C s (lossyEvents packet rng')).channel).length ≤ config.emitterConfig.maxBacklog := by
  obtain ⟨hactive, hbacklog, hcalls, hreturned, hchannel, hqueue, hwire⟩ := active_of_start hstart
  have hpos := positive_of_start hstart
  obtain ⟨hactive', hbegin⟩ := step_enqueuePacket C hactive hcalls packet rng'
  have hchoked : (step C s (.enqueuePacket packet rng')).Choked config.emitterConfig.maxBacklog
      (.begin packet (fragmentWithRandomId C packet rng').1.2) := by
    rw [hbegin] at hactive' ⊢
    refine ⟨hactive', hbacklog, hpos, ?_, rfl, hreturned, hchannel, hwire⟩
    show s.emitter.cellQueue.length ≤ _
    rw [hqueue]
    exact Nat.zero_le _
  obtain ⟨done, hpacket, hdone, hend⟩ := hchoked.run (C := C) rfl
  rw [EnqueueCall.begin, length_fragment] at hend
  have hrun : run C s (lossyEvents packet rng') =
      (run C (step C s (.enqueuePacket packet rng'))
        (List.replicate sphinxFragmentCount [.trySend 0, .recv]).flatten).trySend 0 := by
    rw [lossyEvents, run_cons, run_append, run_cons, step_trySend, run_nil]
  rw [hrun]
  generalize run C (step C s (.enqueuePacket packet rng'))
    (List.replicate sphinxFragmentCount [.trySend 0, .recv]).flatten = t at hend ⊢
  rw [trySend_of_nil hend.calls hdone]
  refine ⟨hend.active.held, ⟨done, ?_, hpacket⟩, ?_⟩
  · rw [hend.returned]
    rfl
  · rw [hend.wire, hend.channel, realCells_nil, List.nil_append, List.append_nil]
    exact hend.queue

/-- With a backlog of one cell, 17 of the 18 cells of an accepted packet are gone. -/
theorem undelivered_checksum :
    ∃ s, startWithTransport ⟨⟨1⟩, 0⟩ (0 : UInt8) = some s ∧
      (run checksumSuite s (lossyEvents (Bytes.zero sphinxPacketLen) 0)).handle = .held ∧
      (∃ done, (run checksumSuite s (lossyEvents (Bytes.zero sphinxPacketLen) 0)).returned =
        [⟨done, .ok ()⟩]) ∧
      (realCells (run checksumSuite s (lossyEvents (Bytes.zero sphinxPacketLen) 0)).wire ++
        (run checksumSuite s (lossyEvents (Bytes.zero sphinxPacketLen) 0)).emitter.cellQueue ++
        (run checksumSuite s (lossyEvents (Bytes.zero sphinxPacketLen) 0)).channel).length ≤ 1 ∧
      ¬(run checksumSuite s (lossyEvents (Bytes.zero sphinxPacketLen) 0)).Delivered := by
  obtain ⟨s, hstart⟩ : ∃ s, startWithTransport ⟨⟨1⟩, 0⟩ (0 : UInt8) = some s := ⟨_, rfl⟩
  obtain ⟨hheld, ⟨done, hreturned, -⟩, hlength⟩ :=
    lossy_run checksumSuite hstart (Bytes.zero sphinxPacketLen) 0
  refine ⟨s, hstart, hheld, ⟨done, hreturned⟩, hlength, ?_⟩
  intro hdelivered
  have hwhole := hdelivered.whole ⟨done, .ok ()⟩ (by
    rw [hreturned]
    exact List.mem_cons_self) rfl
  have hle : (fragment done.packet done.packetId).length ≤ 1 := by
    refine le_trans ?_ hlength
    rw [hdelivered.inOrder, hreturned, List.map_singleton, List.flatten_singleton, hwhole,
      List.length_append]
    exact Nat.le_add_right _ _
  rw [length_fragment] at hle
  exact absurd hle (by decide)

end Lossy

end PacedSession

end Aegis
