import Aegis.Client.Delivery

/-!
# Waiting for the cover window

`wait_idle_cover` returns once it sees `cover_done`, and then the client shuts the session down.
The driver raises `cover_done` when its own queue is empty and the window is over.  It does not
look at the channel, nor does it know of a call in progress.

* `Settled.step` — the invariant of the runs in which the channel is empty then.
* `settled_of_run` — **in these runs nothing is lost by a shutdown** after the wait.
* `race_run` — a slot between two cells of a packet.
-/

namespace Aegis

open Buffer

namespace PacedSession

variable {ρ : Type}

/-- A slot raises `cover_done` only when no cell is in the channel and no call in progress, and a
cell is received only when the queue has room. -/
def Quiet (s : PacedSession ρ) : SessionEvent ρ → Prop
  | .recv => s.channel ≠ [] → s.emitter.pendingEmissions < s.maxBacklog
  | .tick sent now now' => sent = true →
    s.cover.Ends (s.emitter.pendingEmissions - 1) now now' → s.channel = [] ∧ s.calls = []
  | _ => True

/-- Nothing is on its way: every cell the channel has taken is on the wire. -/
structure AllSent (s : PacedSession ρ) : Prop where
  calls : s.calls = []
  channel : s.channel = []
  queue : s.emitter.cellQueue = []
  sent : realCells s.wire = s.taken

/-! ## The invariant -/

/-- When `cover_done` is up, every cell is on the wire. -/
structure Settled (s : PacedSession ρ) : Prop where
  valid : s.Valid
  conserves : s.running = true → s.Conserves
  done : s.cover.done = true → s.AllSent

theorem settled_of_start {config : PacedSessionConfig} {rng : ρ} {s : PacedSession ρ}
    (h : startWithTransport config rng = some s) : s.Settled := by
  have hdelivering := delivering_of_start h
  obtain ⟨hactive, -, hcalls, -, hchannel, hqueue, -⟩ := active_of_start h
  refine ⟨hactive.valid, hdelivering.conserves, fun _ => ⟨hcalls, hchannel, hqueue, ?_⟩⟩
  have hconserves := hdelivering.conserves hactive.running
  unfold Conserves at hconserves
  rw [hqueue, hchannel, List.append_nil, List.append_nil] at hconserves
  exact hconserves

section Step

variable {C : Suite ρ} {s : PacedSession ρ}

theorem Quiet.roomToReceive {event : SessionEvent ρ} (h : s.Quiet event) :
    s.RoomToReceive event := by
  cases event with
  | recv => exact h
  | _ => trivial

/-- No call is in progress while `cover_done` is up. -/
theorem AllSent.trySend (h : s.AllSent) (i : ℕ) : s.trySend i = s := by
  unfold PacedSession.trySend
  rw [h.calls]
  rfl

/-- A call lowers `cover_done` before it puts a cell in the channel. -/
theorem done_trySend (s : PacedSession ρ) (i : ℕ) : (s.trySend i).cover = s.cover := by
  rcases trySend_cases s i with h | ⟨_, -, -, h⟩ | ⟨_, _, -, h⟩ | ⟨_, _, _, _, -, -, h⟩ <;> rw [h]
  · rfl
  · rfl

/-- The driver lowers it with every cell it receives. -/
theorem AllSent.recv (h : s.AllSent) : s.recv.AllSent := by
  cases hrun : s.running with
  | false =>
    rw [recv_of_stopped hrun]
    exact h
  | true =>
    rw [recv_of_nil hrun h.channel]
    split
    · exact ⟨h.calls, h.channel, h.queue, h.sent⟩
    · exact h

/-- Neither letting go of the session nor the end of the driver puts a cell on its way. -/
theorem AllSent.consume (h : s.AllSent) (handle : Handle) : (s.consume handle).AllSent := by
  unfold PacedSession.consume
  split
  · exact ⟨h.calls, h.channel, h.queue, h.sent⟩
  · exact h

theorem AllSent.changed (h : s.AllSent) : s.changed.AllSent := by
  unfold PacedSession.changed
  split
  · exact ⟨h.calls, h.channel, h.queue, h.sent⟩
  · exact h

theorem done_recv (h : s.recv.cover.done = true) : s.cover.done = true := by
  cases hrun : s.running with
  | false => rwa [recv_of_stopped hrun] at h
  | true =>
    cases hchannel : s.channel with
    | nil =>
      rw [recv_of_nil hrun hchannel] at h
      split at h <;> exact h
    | cons cell channel =>
      have hlowered : s.recv.cover = s.cover.onRecv := by
        unfold PacedSession.recv
        rw [if_neg (by rw [hrun]; decide), hchannel]
      rw [hlowered] at h
      cases h

/-- A slot without a cell to send sends a dummy. -/
theorem AllSent.nextCell (h : s.AllSent) (hvalid : s.Valid) :
    (s.emitter.nextCell C).2.cellQueue = [] ∧
      realCells (s.wire ++ [(s.emitter.nextCell C).1.2]) = s.taken := by
  rw [ConstantRateEmitter.nextCell_of_nil C h.queue hvalid.noPayload]
  refine ⟨h.queue, ?_⟩
  rw [realCells_append, realCells_dummy (isDummy_encodeDummyCell C s.emitter.rng), List.append_nil]
  exact h.sent

/-- **A slot that raises `cover_done`** leaves the queue empty. -/
theorem cellQueue_nextCell_of_ends (hvalid : s.Valid) {now now' : ℕ}
    (hends : s.cover.Ends (s.emitter.nextCell C).2.pendingEmissions now now') :
    (s.emitter.nextCell C).2.cellQueue = [] := by
  obtain ⟨-, htail, -⟩ := ConstantRateEmitter.nextCell_cellQueue C hvalid.noPayload hvalid.queued
  have hidle : (s.emitter.nextCell C).2.pendingEmissions = 0 →
      (s.emitter.nextCell C).2.cellQueue = [] := by
    intro hpending
    unfold ConstantRateEmitter.pendingEmissions at hpending
    exact List.eq_nil_of_length_eq_zero (by omega)
  rcases hends with ⟨hpending, -⟩ | ⟨deadline, hdeadline, -⟩ | ⟨hpending, -⟩
  · exact hidle hpending
  · rw [htail, hvalid.deadline (by rw [hdeadline]; exact Option.some_ne_none deadline)]
    rfl
  · exact hidle hpending

theorem Settled.tick (h : s.Settled) {sent : Bool} {now now' : ℕ}
    (hquiet : s.Quiet (.tick sent now now')) : (s.tick C sent now now').Settled := by
  have hvalid := h.valid.tick (C := C) sent now now'
  have hconserves := Conserves.step (C := C) h.valid h.conserves hquiet.roomToReceive
  cases hrun : s.running with
  | false =>
    rw [tick_of_stopped C hrun]
    exact h
  | true =>
    cases sent with
    | false =>
      refine ⟨hvalid, hconserves, ?_⟩
      rw [tick_of_failed C hrun]
      intro hdone
      have hall := h.done hdone
      exact ⟨hall.calls, hall.channel, (hall.nextCell (C := C) h.valid).1, hall.sent⟩
    | true =>
      have hconserves' := (h.conserves hrun).tick (C := C) h.valid now now'
      refine ⟨hvalid, hconserves, ?_⟩
      obtain ⟨pending, htick⟩ := tick_of_sent C hrun now now'
      rw [htick] at hconserves' ⊢
      intro hdone
      rcases Cover.done_onTick_iff.mp hdone with hbefore | hends
      · have hall := h.done hbefore
        obtain ⟨hqueue, hsent⟩ := hall.nextCell (C := C) h.valid
        exact ⟨hall.calls, hall.channel, hqueue, hsent⟩
      · have hqueue := cellQueue_nextCell_of_ends h.valid hends
        rw [ConstantRateEmitter.pendingEmissions_nextCell] at hends
        obtain ⟨hchannel, hcalls⟩ := hquiet rfl hends
        refine ⟨hcalls, hchannel, hqueue, ?_⟩
        have hall : realCells (s.wire ++ [(s.emitter.nextCell C).1.2]) ++
            (s.emitter.nextCell C).2.cellQueue ++ s.channel = s.taken := hconserves'
        rw [hqueue, hchannel, List.append_nil, List.append_nil] at hall
        exact hall

/-- **One step of a quiet run.** -/
theorem Settled.step (h : s.Settled) {event : SessionEvent ρ} (hquiet : s.Quiet event) :
    (PacedSession.step C s event).Settled := by
  have hvalid := h.valid.step (C := C) event
  have hconserves := Conserves.step (C := C) h.valid h.conserves hquiet.roomToReceive
  cases event with
  | enqueuePacket packet rng =>
    refine ⟨hvalid, hconserves, ?_⟩
    show (s.enqueuePacket C packet rng).cover.done = true → (s.enqueuePacket C packet rng).AllSent
    unfold PacedSession.enqueuePacket
    split
    · exact nofun
    · exact h.done
  | trySend i =>
    refine ⟨hvalid, hconserves, fun hdone => ?_⟩
    have hall := h.done ((done_trySend s i) ▸ hdone)
    show (s.trySend i).AllSent
    rw [hall.trySend]
    exact hall
  | recv => exact ⟨hvalid, hconserves, fun hdone => (h.done (done_recv hdone)).recv⟩
  | tick sent now now' => exact h.tick hquiet
  | shutdown =>
    obtain ⟨-, -, -, hcover⟩ := consume_frame s .shutdown
    exact ⟨hvalid, hconserves, fun hdone => (h.done (hcover ▸ hdone)).consume .shutdown⟩
  | drop =>
    obtain ⟨-, -, -, hcover⟩ := consume_frame s .dropped
    exact ⟨hvalid, hconserves, fun hdone => (h.done (hcover ▸ hdone)).consume .dropped⟩
  | changed =>
    obtain ⟨-, -, -, -, hcover⟩ := changed_frame s
    exact ⟨hvalid, hconserves, fun hdone => (h.done (hcover ▸ hdone)).changed⟩

/-- A session that is no longer held has no new calls. -/
structure Spent (s : PacedSession ρ) : Prop where
  valid : s.Valid
  released : s.handle ≠ .held
  sent : s.AllSent

theorem Spent.step (h : s.Spent) (event : SessionEvent ρ) : (PacedSession.step C s event).Spent := by
  have hvalid := h.valid.step (C := C) event
  cases event with
  | enqueuePacket packet rng =>
    show (s.enqueuePacket C packet rng).Spent
    unfold PacedSession.enqueuePacket
    rw [if_neg h.released]
    exact h
  | trySend i =>
    show (s.trySend i).Spent
    rw [h.sent.trySend]
    exact h
  | recv => exact ⟨hvalid, (recv_frame s).1 ▸ h.released, h.sent.recv⟩
  | tick sent now now' =>
    refine ⟨hvalid, (tick_frame C s sent now now').1 ▸ h.released, ?_⟩
    show (s.tick C sent now now').AllSent
    cases hrun : s.running with
    | false =>
      rw [tick_of_stopped C hrun]
      exact h.sent
    | true =>
      obtain ⟨hqueue, hsent⟩ := h.sent.nextCell (C := C) h.valid
      cases sent with
      | false =>
        rw [tick_of_failed C hrun]
        exact ⟨h.sent.calls, h.sent.channel, hqueue, h.sent.sent⟩
      | true =>
        obtain ⟨pending, htick⟩ := tick_of_sent C hrun now now'
        rw [htick]
        exact ⟨h.sent.calls, h.sent.channel, hqueue, hsent⟩
  | shutdown =>
    show (s.consume .shutdown).Spent
    unfold consume
    rw [if_neg fun hheld => h.released hheld.1]
    exact h
  | drop =>
    show (s.consume .dropped).Spent
    unfold consume
    rw [if_neg fun hheld => h.released hheld.1]
    exact h
  | changed => exact ⟨hvalid, (changed_frame s).1 ▸ h.released, h.sent.changed⟩

end Step

/-- **Nothing is lost by a shutdown**: when `wait_idle_cover` returns, in a run whose steps are
quiet, every cell the channel has taken is on the wire, and whatever happens once the session is
shut down, none is left behind. -/
theorem settled_of_run (C : Suite ρ) {config : PacedSessionConfig} {rng : ρ}
    {s : PacedSession ρ} (hstart : startWithTransport config rng = some s)
    {events : List (SessionEvent ρ)} (hquiet : Run.Guarded (step C) Quiet s events)
    (hreturns : (run C s events).WaitReturns) :
    (run C s events).AllSent ∧
      ∀ events', (run C (step C (run C s events) .shutdown) events').AllSent := by
  have h : (run C s events).Settled :=
    hquiet.preserves Settled (fun _ _ hok h => h.step hok) (settled_of_start hstart)
  obtain ⟨hheld, hcalls, hdone⟩ := hreturns
  have hall := h.done hdone
  refine ⟨hall, fun events' => ?_⟩
  have hspent : (step C (run C s events) .shutdown).Spent := by
    refine ⟨h.valid.consume .shutdown, ?_, hall.consume .shutdown⟩
    show ((run C s events).consume .shutdown).handle ≠ .held
    unfold consume
    rw [if_pos ⟨hheld, hcalls⟩]
    exact nofun
  exact (Run.foldl_preserves Spent (fun _ event _ h => h.step event) hspent).sent

/-! ## A slot between two cells -/

/-- The driver gets the first cell of a packet and sends it, before the call goes on. -/
def raceEvents (packet : SphinxPacket) (rng : ρ) : List (SessionEvent ρ) :=
  [.enqueuePacket packet rng, .trySend 0] ++ [.recv, .tick true 0 0] ++
    List.replicate sphinxFragmentCount (.trySend 0)

/-- A call has put its first cell in the channel. -/
structure Begun (s : PacedSession ρ) (config : PacedSessionConfig) (call : EnqueueCall) :
    Prop where
  active : s.Active
  maxBacklog : s.maxBacklog = config.emitterConfig.maxBacklog
  afterSend : s.cover.afterSend = config.coverAfterSend
  calls : s.calls = [call]
  rest : call.rest.length + 1 = sphinxFragmentCount
  channel : s.channel.length = 1
  queue : s.emitter.cellQueue = []

theorem begun_of_start (C : Suite ρ) {config : PacedSessionConfig} {rng : ρ} {s : PacedSession ρ}
    (hstart : startWithTransport config rng = some s) (packet : SphinxPacket) (rng' : ρ) :
    ∃ call, (run C s [.enqueuePacket packet rng', .trySend 0]).Begun config call := by
  obtain ⟨hactive, hbacklog, hcalls, -, hchannel, hqueue, -⟩ := active_of_start hstart
  obtain ⟨hactive₁, hbegin⟩ := step_enqueuePacket C hactive hcalls packet rng'
  obtain ⟨cell, rest, hrest⟩ := List.exists_cons_of_length_pos
    (l := fragment packet (fragmentWithRandomId C packet rng').1.2) (by
      rw [length_fragment]
      decide)
  have hcalls₁ : (step C s (.enqueuePacket packet rng')).calls =
      [.begin packet (fragmentWithRandomId C packet rng').1.2] := by
    rw [hbegin]
  have hplaced : (step C s (.enqueuePacket packet rng')).trySend 0 = _ :=
    trySend_of_lt hactive₁.running hcalls₁ hrest (by
      rw [hbegin, hchannel, hbacklog]
      exact positive_of_start hstart)
  have hactive₂ : ((step C s (.enqueuePacket packet rng')).trySend 0).Active :=
    (hactive₁.trySend 0).1
  refine ⟨(EnqueueCall.begin packet (fragmentWithRandomId C packet rng').1.2).place cell rest hrest,
    ?_⟩
  have hafter := afterSend_of_start hstart
  have hrun : run C s [.enqueuePacket packet rng', .trySend 0] =
      (step C s (.enqueuePacket packet rng')).trySend 0 := rfl
  rw [hrun]
  rw [hplaced, hbegin] at hactive₂ ⊢
  refine ⟨hactive₂, hbacklog, hafter, rfl, ?_, ?_, hqueue⟩
  · show rest.length + 1 = _
    rw [← List.length_cons, ← hrest, length_fragment]
  · show (s.channel ++ [cell]).length = 1
    rw [hchannel]
    rfl

/-- **A slot that sends the only cell**, when no cover is asked for, raises `cover_done`. -/
theorem done_recv_tick (C : Suite ρ) {s : PacedSession ρ} (h : s.Active)
    (hchannel : s.channel.length = 1) (hqueue : s.emitter.cellQueue = [])
    (hroom : 0 < s.maxBacklog) (hzero : s.cover.afterSend = 0) :
    (run C s [.recv, .tick true 0 0]).cover.done = true ∧
      (run C s [.recv, .tick true 0 0]).Active ∧
      (run C s [.recv, .tick true 0 0]).maxBacklog = s.maxBacklog ∧
      (run C s [.recv, .tick true 0 0]).calls = s.calls ∧
      (run C s [.recv, .tick true 0 0]).channel = [] := by
  obtain ⟨cell, hcell⟩ := List.length_eq_one_iff.mp hchannel
  obtain ⟨pending, hrecv⟩ := recv_of_lt h.running hcell (by
    rw [ConstantRateEmitter.pendingEmissions, hqueue, h.valid.noPayload, h.valid.capacity]
    exact hroom)
  have hdriver : ∀ event ∈ ([.recv, .tick true 0 0] : List (SessionEvent ρ)), event.IsDriver := by
    intro event hevent
    rcases List.mem_cons.mp hevent with rfl | hevent
    · trivial
    · rw [List.mem_singleton.mp hevent]
      rfl
  obtain ⟨hactive, hbacklog, hcalls, -, -, hrest, -⟩ := h.run (C := C) hdriver
  refine ⟨?_, hactive, hbacklog, hcalls, ?_⟩
  · show (s.recv.tick C true 0 0).cover.done = true
    obtain ⟨pending', htick⟩ := tick_of_sent C (s := s.recv) (by rw [hrecv]; exact h.running) 0 0
    rw [htick]
    refine Cover.done_onTick_iff.mpr (Or.inr (Or.inl ⟨?_, ?_, ?_⟩))
    · rw [ConstantRateEmitter.pendingEmissions_nextCell, hrecv,
        ConstantRateEmitter.pendingEmissions, hqueue, h.valid.noPayload]
      rfl
    · rw [hrecv]
      rfl
    · rw [hrecv]
      exact hzero
  · rw [hrest, hcell]
    rfl

/-- **The slot raises `cover_done`**, and the rest of the packet is still in the channel when the
wait returns. -/
theorem race_run (C : Suite ρ) {config : PacedSessionConfig} {rng : ρ} {s : PacedSession ρ}
    (hstart : startWithTransport config rng = some s)
    (hroom : sphinxFragmentCount ≤ config.emitterConfig.maxBacklog)
    (hcover : config.coverAfterSend = 0) (packet : SphinxPacket) (rng' : ρ) :
    (run C s (raceEvents packet rng')).WaitReturns ∧
      (run C s (raceEvents packet rng')).channel.length = sphinxFragmentCount - 1 := by
  obtain ⟨call, hbegun⟩ := begun_of_start C hstart packet rng'
  generalize hs : run C s [.enqueuePacket packet rng', .trySend 0] = t at hbegun
  obtain ⟨hdone, hactive, hbacklog, hcalls, hchannel⟩ := done_recv_tick C hbegun.active
    hbegun.channel hbegun.queue (by
      rw [hbegun.maxBacklog]
      exact positive_of_start hstart) (hbegun.afterSend.trans hcover)
  generalize ht : run C t [.recv, .tick true 0 0] = u at *
  obtain ⟨done, -, -, hend⟩ := run_trySend C hactive.running (hcalls.trans hbegun.calls) rfl (by
    have hrest := hbegun.rest
    rw [hchannel, hbacklog, hbegun.maxBacklog, List.length_nil]
    omega)
  rw [raceEvents, run_append, run_append, hs, ht, ← hbegun.rest, hend]
  refine ⟨⟨hactive.held, rfl, hdone⟩, ?_⟩
  show (u.channel ++ call.rest).length = _
  rw [hchannel, List.nil_append, Nat.add_sub_cancel]

/-! ## A packet that is sent alone -/

/-- No call is in progress and no cover is asked for; `m` cells are in the channel and `n` in the
queue, which has room for them all. -/
structure Feeding (s : PacedSession ρ) (n m : ℕ) : Prop where
  active : s.Active
  calls : s.calls = []
  channel : s.channel.length = m
  queue : s.emitter.cellQueue.length = n
  room : n + m ≤ s.maxBacklog
  afterSend : s.cover.afterSend = 0
  deadline : s.cover.deadline = none
  sawReal : n ≠ 0 → s.cover.sawReal = true

section Feeding

variable {C : Suite ρ} {s : PacedSession ρ} {n m : ℕ}

theorem Feeding.pendingEmissions (h : s.Feeding n m) : s.emitter.pendingEmissions = n := by
  rw [ConstantRateEmitter.pendingEmissions, h.active.valid.noPayload, h.queue]
  rfl

/-- **A cell is received**, as there is room for it. -/
theorem Feeding.recv (h : s.Feeding n (m + 1)) :
    s.Quiet .recv ∧ (PacedSession.step C s .recv).Feeding (n + 1) m := by
  have hroom : s.emitter.pendingEmissions < s.maxBacklog := by
    have := h.room
    rw [h.pendingEmissions]
    omega
  refine ⟨fun _ => hroom, ?_⟩
  obtain ⟨cell, channel, hchannel⟩ := List.exists_cons_of_length_pos (l := s.channel) (by
    rw [h.channel]
    exact Nat.succ_pos m)
  have hlength := h.channel
  rw [hchannel, List.length_cons] at hlength
  obtain ⟨pending, hrecv⟩ := recv_of_lt h.active.running hchannel (by
    rw [h.active.valid.capacity]
    exact hroom)
  have hactive : (PacedSession.step C s .recv).Active :=
    (h.active.step (show SessionEvent.IsDriver (.recv : SessionEvent ρ) from trivial)).1
  have hstep : PacedSession.step C s .recv = _ := hrecv
  rw [hstep] at hactive ⊢
  refine ⟨hactive, h.calls, Nat.succ_injective hlength, ?_, ?_, h.afterSend, rfl, fun _ => rfl⟩
  · show (s.emitter.cellQueue ++ [cell]).length = _
    rw [List.length_append, h.queue]
    rfl
  · have := h.room
    show n + 1 + m ≤ s.maxBacklog
    omega

/-- **A cell is sent**, and the last one raises `cover_done`. -/
theorem Feeding.tick (h : s.Feeding (n + 1) 0) :
    s.Quiet (.tick true 0 0) ∧ (PacedSession.step C s (.tick true 0 0)).Feeding n 0 ∧
      (n = 0 → (PacedSession.step C s (.tick true 0 0)).cover.done = true) := by
  refine ⟨fun _ _ => ⟨List.eq_nil_of_length_eq_zero h.channel, h.calls⟩, ?_⟩
  have hreal := h.sawReal (Nat.succ_ne_zero n)
  obtain ⟨-, htail, -⟩ :=
    ConstantRateEmitter.nextCell_cellQueue C h.active.valid.noPayload h.active.valid.queued
  have hpending : (s.emitter.nextCell C).2.pendingEmissions = n := by
    rw [ConstantRateEmitter.pendingEmissions_nextCell, h.pendingEmissions, Nat.add_sub_cancel]
  have hcover : s.cover.onTick n 0 0 =
      if n = 0 then { s.cover with done := true, sawReal := false } else s.cover := by
    unfold Cover.onTick
    by_cases hn : n = 0
    · simp [hn, hreal, h.afterSend, h.deadline]
    · simp [hn, h.deadline]
  obtain ⟨pending, htick⟩ := tick_of_sent C h.active.running 0 0
  have hactive : (PacedSession.step C s (.tick true 0 0)).Active :=
    (h.active.step (show SessionEvent.IsDriver (.tick true 0 0 : SessionEvent ρ) from rfl)).1
  have hstep : PacedSession.step C s (.tick true 0 0) = _ := htick
  rw [hpending, hcover] at hstep
  rw [hstep] at hactive ⊢
  refine ⟨⟨hactive, h.calls, h.channel, ?_, ?_, ?_, ?_, fun hn => ?_⟩, fun hn => ?_⟩
  · show (s.emitter.nextCell C).2.cellQueue.length = n
    rw [htail, List.length_tail, h.queue, Nat.add_sub_cancel]
  · exact (Nat.le_succ n).trans h.room
  · show Cover.afterSend (if n = 0 then _ else s.cover) = 0
    split
    · exact h.afterSend
    · exact h.afterSend
  · show Cover.deadline (if n = 0 then _ else s.cover) = none
    split
    · exact h.deadline
    · exact h.deadline
  · show Cover.sawReal (if n = 0 then _ else s.cover) = true
    rw [if_neg hn]
    exact hreal
  · show Cover.done (if n = 0 then _ else s.cover) = true
    rw [if_pos hn]

/-- Everything in the channel is received. -/
theorem Feeding.receive (h : s.Feeding n m) :
    Run.Guarded (PacedSession.step C) Quiet s (List.replicate m .recv) ∧
      (run C s (List.replicate m .recv)).Feeding (n + m) 0 := by
  induction m generalizing s n with
  | zero => exact ⟨trivial, h⟩
  | succ m ih =>
    obtain ⟨hquiet, hnext⟩ := h.recv (C := C)
    obtain ⟨hrest, hend⟩ := ih hnext
    rw [List.replicate_succ, run_cons, ← Nat.add_assoc, Nat.add_right_comm]
    exact ⟨⟨hquiet, hrest⟩, hend⟩

/-- Everything in the queue is sent, and the wait returns. -/
theorem Feeding.send (h : s.Feeding (n + 1) 0) :
    Run.Guarded (PacedSession.step C) Quiet s (List.replicate (n + 1) (.tick true 0 0)) ∧
      (run C s (List.replicate (n + 1) (.tick true 0 0))).WaitReturns := by
  induction n generalizing s with
  | zero =>
    obtain ⟨hquiet, hnext, hdone⟩ := h.tick (C := C)
    exact ⟨⟨hquiet, trivial⟩, hnext.active.held, hnext.calls, hdone rfl⟩
  | succ n ih =>
    obtain ⟨hquiet, hnext, -⟩ := h.tick (C := C)
    obtain ⟨hrest, hend⟩ := ih hnext
    rw [List.replicate_succ, run_cons]
    exact ⟨⟨hquiet, hrest⟩, hend⟩

end Feeding

/-- The cover window when a session starts. -/
theorem cover_of_start {config : PacedSessionConfig} {rng : ρ} {s : PacedSession ρ}
    (h : startWithTransport config rng = some s) :
    s.cover = ⟨config.coverAfterSend, false, none, false⟩ := by
  unfold startWithTransport at h
  dsimp only at h
  split_ifs at h
  obtain rfl := Option.some.inj h
  rfl

/-- Call by call the client's steps are quiet, and leave the window to the driver. -/
theorem quiet_sendOne (C : Suite ρ) {s : PacedSession ρ} (h : s.Active) (hcalls : s.calls = [])
    (packet : SphinxPacket) (rng : ρ) :
    Run.Guarded (step C) Quiet s (sendOne packet rng) ∧
      (run C s (sendOne packet rng)).cover = s.cover.onEnqueue := by
  obtain ⟨-, hbegin⟩ := step_enqueuePacket C h hcalls packet rng
  have hquiet : ∀ (l : ℕ) (t : PacedSession ρ),
      Run.Guarded (step C) Quiet t (List.replicate l (.trySend 0)) := by
    intro l
    induction l with
    | zero => exact fun _ => trivial
    | succ l ih => exact fun t => ⟨trivial, ih _⟩
  refine ⟨⟨trivial, hquiet _ _⟩, ?_⟩
  rw [sendOne, run_cons]
  refine Run.foldl_preserves (fun t : PacedSession ρ => t.cover = s.cover.onEnqueue)
    (fun t event hevent ht => ?_) (by rw [hbegin])
  rw [List.eq_of_mem_replicate hevent]
  exact (done_trySend t 0).trans ht

/-- A packet that is accepted, all whose cells are received and then sent. -/
theorem settled_of_run_checksum :
    ∃ s t packetId, startWithTransport ⟨⟨defaultMaxBacklog⟩, 0⟩ (0 : UInt8) = some s ∧
      t = run checksumSuite s (sendOne (Bytes.zero sphinxPacketLen) 0 ++
        (List.replicate 18 .recv ++ List.replicate 18 (.tick true 0 0))) ∧
      t.returned.map EnqueueReturn.result = [.ok ()] ∧ t.AllSent ∧
      realCells t.wire = fragment (Bytes.zero sphinxPacketLen) packetId ∧
      ∀ events', (run checksumSuite (step checksumSuite t .shutdown) events').AllSent := by
  obtain ⟨s, hstart⟩ : ∃ s, startWithTransport ⟨⟨defaultMaxBacklog⟩, 0⟩ (0 : UInt8) = some s :=
    ⟨_, rfl⟩
  obtain ⟨hactive, hbacklog, hcalls, hreturned, hchannel, hqueue, -⟩ := active_of_start hstart
  have haccepted := accepted_sendOne checksumSuite hactive hcalls (Bytes.zero sphinxPacketLen) 0
    (by rw [hchannel, hbacklog]; decide)
  obtain ⟨hcalled, hcover⟩ :=
    quiet_sendOne checksumSuite hactive hcalls (Bytes.zero sphinxPacketLen) 0
  rw [cover_of_start hstart] at hcover
  have hfeeding : (run checksumSuite s (sendOne (Bytes.zero sphinxPacketLen) 0)).Feeding 0 18 := by
    refine ⟨haccepted.active, haccepted.calls, ?_, ?_, ?_, by rw [hcover]; rfl,
      by rw [hcover]; rfl, fun h => absurd rfl h⟩
    · rw [haccepted.channel, hchannel, List.nil_append, length_fragment]
      rfl
    · rw [haccepted.emitter, hqueue]
      rfl
    · rw [haccepted.maxBacklog, hbacklog]
      decide
  obtain ⟨hreceived, hqueued⟩ := hfeeding.receive (C := checksumSuite)
  obtain ⟨hsent, hreturns⟩ := hqueued.send (C := checksumSuite)
  have hquiet := Run.guarded_append.mpr ⟨hcalled, Run.guarded_append.mpr ⟨hreceived, hsent⟩⟩
  rw [← run_append, ← run_append] at hreturns
  obtain ⟨hall, hspent⟩ := settled_of_run checksumSuite hstart hquiet hreturns
  obtain ⟨done, hpacket, -, hdone⟩ := haccepted.returned
  rw [hreturned, List.nil_append] at hdone
  have hdelivering := delivering_of_run hstart (orderly_sendOne (C := checksumSuite) hactive hcalls
    (by rw [hqueue]; exact Nat.zero_le _) (Bytes.zero sphinxPacketLen) 0)
  have hwhole := hdelivering.whole ⟨done, .ok ()⟩ (by rw [hdone]; exact List.mem_cons_self) rfl
  have hstream := hdelivering.taken
  rw [hdone, haccepted.calls, List.map_singleton, List.flatten_singleton, List.map_nil,
    List.flatten_nil, List.append_nil, hwhole, hpacket] at hstream
  have hdriver : ∀ event ∈ List.replicate 18 SessionEvent.recv ++
      List.replicate 18 (SessionEvent.tick true 0 0), event.IsDriver (ρ := UInt8) := by
    intro event hevent
    rcases List.mem_append.mp hevent with hevent | hevent
    · rw [List.eq_of_mem_replicate hevent]
      trivial
    · rw [List.eq_of_mem_replicate hevent]
      rfl
  obtain ⟨-, -, -, hkept, htaken, -⟩ := haccepted.active.run (C := checksumSuite) hdriver
  rw [← run_append] at hkept htaken
  refine ⟨s, _, done.packetId, hstart, rfl, ?_, hall, ?_, hspent⟩
  · rw [hkept, hdone]
    rfl
  · rw [hall.sent, htaken, hstream]

/-- The driver that sees the shutdown leaves the channel as it is. -/
theorem WaitReturns.shutdown (C : Suite ρ) {s : PacedSession ρ} (h : s.WaitReturns) :
    (run C s [.shutdown, .changed]).running = false ∧
      (run C s [.shutdown, .changed]).channel.length = s.channel.length := by
  have hshut : run C s [.shutdown, .changed] =
      { s with handle := .shutdown, running := false } := by
    show (s.consume .shutdown).changed = _
    unfold consume
    rw [if_pos ⟨h.1, h.2.1⟩]
    rfl
  rw [hshut]
  exact ⟨rfl, rfl⟩

/-- With no cover asked for and the default backlog, the wait returns and the shutdown leaves 17
cells behind. -/
theorem not_settled_checksum :
    ∃ s, startWithTransport ⟨⟨defaultMaxBacklog⟩, 0⟩ (0 : UInt8) = some s ∧
      (run checksumSuite s (raceEvents (Bytes.zero sphinxPacketLen) 0)).WaitReturns ∧
      ¬(run checksumSuite s (raceEvents (Bytes.zero sphinxPacketLen) 0)).AllSent ∧
      (run checksumSuite (run checksumSuite s (raceEvents (Bytes.zero sphinxPacketLen) 0))
        [.shutdown, .changed]).running = false ∧
      (run checksumSuite (run checksumSuite s (raceEvents (Bytes.zero sphinxPacketLen) 0))
        [.shutdown, .changed]).channel.length = 17 := by
  obtain ⟨s, hstart⟩ : ∃ s, startWithTransport ⟨⟨defaultMaxBacklog⟩, 0⟩ (0 : UInt8) = some s :=
    ⟨_, rfl⟩
  obtain ⟨hreturns, hlength⟩ :=
    race_run checksumSuite hstart (by decide) rfl (Bytes.zero sphinxPacketLen) 0
  obtain ⟨hstopped, hkept⟩ := hreturns.shutdown checksumSuite
  refine ⟨s, hstart, hreturns, ?_, hstopped, hkept.trans hlength⟩
  intro hall
  rw [hall.channel] at hlength
  exact absurd hlength (by decide)

end PacedSession

end Aegis
