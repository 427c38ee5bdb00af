import Aegis.Lib.Run
import Aegis.Client.Emitter

/-!
# Paced sessions (`session.rs`, `driver.rs`)

A session hands the cells of its packets to a driver through a bounded channel.  The driver moves
them to the emitter's queue and sends one cell in every slot.  After the queue has drained and the
cover window is over it raises `cover_done`, for which a client waits before it shuts down.

* `Cover.done_onTick_iff` — when a slot raises `cover_done`.
* `Valid.step` — what holds in every state.
* `Conserves.step` — **no cell is lost** in a step that finds room for the cell it receives.
* `drained` — a driver left alone empties the channel and the queue.
-/

namespace Aegis

open Buffer

/-! ## The cover window -/

/-- What the driver keeps of the cover window, and the `cover_done` watch. -/
structure Cover where
  /-- `cover_after_send`, in nanoseconds. -/
  afterSend : ℕ
  done : Bool
  deadline : Option ℕ
  sawReal : Bool
  deriving DecidableEq, Repr

namespace Cover

/-- A client starts to enqueue. -/
def onEnqueue (c : Cover) : Cover := { c with done := false }

/-- The driver receives a cell. -/
def onRecv (c : Cover) : Cover := { c with deadline := none, sawReal := true, done := false }

/-- The driver has sent a cell and `pending` are left.  It reads the clock twice. -/
def onTick (c : Cover) (pending now now' : ℕ) : Cover :=
  let c :=
    if pending = 0 ∧ c.sawReal = true then
      if c.afterSend = 0 then { c with done := true, sawReal := false }
      else if c.deadline = none then { c with deadline := some (now + c.afterSend) }
      else c
    else c
  match c.deadline with
  | some deadline =>
    if now' ≥ deadline then { c with done := true, deadline := none, sawReal := false } else c
  | none => c

/-- The slot ends the window: nothing is left after real cells and no cover is asked for, or the
deadline is over, be it set earlier or in this slot. -/
def Ends (c : Cover) (pending now now' : ℕ) : Prop :=
  (pending = 0 ∧ c.sawReal = true ∧ c.afterSend = 0) ∨
    (∃ deadline, c.deadline = some deadline ∧ deadline ≤ now') ∨
    (pending = 0 ∧ c.sawReal = true ∧ c.deadline = none ∧ now + c.afterSend ≤ now')

variable {c : Cover} {pending now now' : ℕ}

/-- **When a slot raises `cover_done`.** -/
theorem done_onTick_iff :
    (c.onTick pending now now').done = true ↔ c.done = true ∨ c.Ends pending now now' := by
  obtain ⟨afterSend, done, deadline, sawReal⟩ := c
  unfold onTick Ends
  rcases deadline with _ | deadline
  · by_cases hidle : pending = 0 ∧ sawReal = true
    · by_cases hzero : afterSend = 0
      · simp [hidle, hzero]
      · by_cases hover : now + afterSend ≤ now'
        · simp [hidle, hzero, hover]
        · simp [hidle, hzero, hover]
    · simp only [hidle, if_false]
      constructor
      · intro h
        exact Or.inl h
      · rintro (h | ⟨hp, hs, -⟩ | ⟨_, ⟨⟩, -⟩ | ⟨hp, hs, -⟩)
        · exact h
        · exact absurd ⟨hp, hs⟩ hidle
        · exact absurd ⟨hp, hs⟩ hidle
  · by_cases hover : deadline ≤ now'
    · by_cases hidle : pending = 0 ∧ sawReal = true
      · by_cases hzero : afterSend = 0 <;> simp [hidle, hzero, hover]
      · simp [hidle, hover]
    · by_cases hidle : pending = 0 ∧ sawReal = true
      · by_cases hzero : afterSend = 0 <;> simp [hidle, hzero, hover]
      · simp only [hidle, if_false, ge_iff_le, hover]
        constructor
        · intro h
          exact Or.inl h
        · rintro (h | ⟨hp, hs, -⟩ | ⟨d, hd, hle⟩ | ⟨hp, hs, -⟩)
          · exact h
          · exact absurd ⟨hp, hs⟩ hidle
          · obtain rfl := Option.some.inj hd
            exact absurd hle hover
          · exact absurd ⟨hp, hs⟩ hidle

/-- A deadline is set only when nothing is left. -/
theorem deadline_onTick (h : (c.onTick pending now now').deadline ≠ none) :
    c.deadline ≠ none ∨ pending = 0 := by
  by_cases hpending : pending = 0
  · exact Or.inr hpending
  · left
    intro hnone
    apply h
    unfold onTick
    simp [hpending, hnone]

end Cover

/-! ## Sessions -/

/-- What an `enqueue_packet` fails with. -/
inductive EnqueueError where
  | sessionClosed
  | emitterBacklogFull (e : BacklogFullError)
  deriving DecidableEq, Repr

/-- An `enqueue_packet` in progress, with the cells it has put in the channel and the others. -/
structure EnqueueCall where
  packet : SphinxPacket
  packetId : PacketId
  placed : List Cell
  rest : List Cell
  whole : placed ++ rest = fragment packet packetId

/-- All the fragments are still to be tried. -/
def EnqueueCall.begin (packet : SphinxPacket) (packetId : PacketId) : EnqueueCall where
  packet := packet
  packetId := packetId
  placed := []
  rest := fragment packet packetId
  whole := List.nil_append _

/-- The next cell is in the channel. -/
def EnqueueCall.place (call : EnqueueCall) (cell : Cell) (rest : List Cell)
    (h : call.rest = cell :: rest) : EnqueueCall where
  packet := call.packet
  packetId := call.packetId
  placed := call.placed ++ [cell]
  rest := rest
  whole := by
    rw [List.append_assoc, List.singleton_append, ← h]
    exact call.whole

/-- A call that has returned. -/
structure EnqueueReturn where
  call : EnqueueCall
  result : Except EnqueueError Unit

/-- Who has the session. -/
inductive Handle where
  | held
  /-- `shutdown` has consumed it. -/
  | shutdown
  | dropped
  deriving DecidableEq, Repr

/-- The emitter's limit, and how long cover goes on after the last real cell. -/
structure PacedSessionConfig where
  emitterConfig : EmitterConfig
  coverAfterSend : ℕ
  deriving DecidableEq, Repr

/-- A session, its channel and its driver. -/
structure PacedSession (ρ : Type) where
  maxBacklog : ℕ
  handle : Handle
  /-- The calls in progress. -/
  calls : List EnqueueCall
  /-- The calls that have returned, in the order they did. -/
  returned : List EnqueueReturn
  /-- Every cell the channel has taken. -/
  taken : List Cell
  channel : List Cell
  /-- The driver's loop goes on. -/
  running : Bool
  emitter : ConstantRateEmitter ρ
  cover : Cover
  pending : ℕ
  /-- What has been written to the link. -/
  wire : List Cell

/-- What can happen next, at the client or the driver. -/
inductive SessionEvent (ρ : Type) where
  | enqueuePacket (packet : SphinxPacket) (rng : ρ)
  /-- Call number `i` tries its next cell, or returns after the last. -/
  | trySend (i : ℕ)
  | recv
  /-- A slot, whose cell the link takes or not, and two readings of the clock. -/
  | tick (sent : Bool) (now now' : ℕ)
  | shutdown
  | drop
  /-- The driver's loop sees the shutdown. -/
  | changed

namespace PacedSession

variable {ρ : Type}

/-- `Semaphore::MAX_PERMITS`. -/
def maxPermits : ℕ := 2 ^ 61 - 1

/-- `start_with_transport`: `mpsc::channel` panics on a capacity it cannot have. -/
def startWithTransport (config : PacedSessionConfig) (rng : ρ) : Option (PacedSession ρ) :=
  let maxBacklog := config.emitterConfig.maxBacklog
  if maxBacklog = 0 ∨ maxPermits < maxBacklog then none
  else
    some
      { maxBacklog := maxBacklog
        handle := .held
        calls := []
        returned := []
        taken := []
        channel := []
        running := true
        emitter := .new config.emitterConfig rng
        cover := ⟨config.coverAfterSend, false, none, false⟩
        pending := 0
        wire := [] }

/-- A call begins. -/
def enqueuePacket (C : Suite ρ) (s : PacedSession ρ) (packet : SphinxPacket) (rng : ρ) :
    PacedSession ρ :=
  if s.handle = .held then
    { s with
      cover := s.cover.onEnqueue
      calls := s.calls ++ [.begin packet (fragmentWithRandomId C packet rng).1.2] }
  else s

/-- Call number `i` returns. -/
def finish (s : PacedSession ρ) (i : ℕ) (call : EnqueueCall) (result : Except EnqueueError Unit) :
    PacedSession ρ :=
  { s with calls := s.calls.eraseIdx i, returned := s.returned ++ [⟨call, result⟩] }

/-- One round of `enqueue_fragments`. -/
def trySend (s : PacedSession ρ) (i : ℕ) : PacedSession ρ :=
  match s.calls[i]? with
  | none => s
  | some call =>
    match h : call.rest with
    | [] => s.finish i call (.ok ())
    | cell :: rest =>
      if s.running = false then s.finish i call (.error .sessionClosed)
      else if s.channel.length ≥ s.maxBacklog then
        s.finish i call (.error (.emitterBacklogFull ⟨s.maxBacklog⟩))
      else
        { s with
          channel := s.channel ++ [cell]
          taken := s.taken ++ [cell]
          calls := s.calls.set i (call.place cell rest h) }

/-- The driver receives a cell. -/
def recv (s : PacedSession ρ) : PacedSession ρ :=
  if s.running = false then s
  else
    match s.channel with
    | [] => if s.handle = .dropped then { s with running := false } else s
    | cell :: channel =>
      let emitter :=
        match s.emitter.enqueueCell cell with
        | (.ok (), emitter) => emitter
        | (.error _, emitter) => emitter.noteDroppedEnqueue
      { s with
        channel := channel
        emitter := emitter
        cover := s.cover.onRecv
        pending := emitter.pendingEmissions }

/-- The driver sends the cell of a slot. -/
def tick (C : Suite ρ) (s : PacedSession ρ) (sent : Bool) (now now' : ℕ) : PacedSession ρ :=
  if s.running = false then s
  else
    let ((_, cell), emitter) := s.emitter.nextCell C
    if sent = true then
      { s with
        emitter := emitter
        wire := s.wire ++ [cell]
        pending := emitter.pendingEmissions
        cover := s.cover.onTick emitter.pendingEmissions now now' }
    else { s with emitter := emitter, running := false }

/-- `shutdown` consumes the session, or it is dropped. -/
def consume (s : PacedSession ρ) (handle : Handle) : PacedSession ρ :=
  if s.handle = .held ∧ s.calls = [] then { s with handle := handle } else s

/-- The driver's loop sees the shutdown and ends. -/
def changed (s : PacedSession ρ) : PacedSession ρ :=
  if s.handle = .shutdown then { s with running := false } else s

/-- What each event does to a session. -/
def step (C : Suite ρ) (s : PacedSession ρ) : SessionEvent ρ → PacedSession ρ
  | .enqueuePacket packet rng => s.enqueuePacket C packet rng
  | .trySend i => s.trySend i
  | .recv => s.recv
  | .tick sent now now' => s.tick C sent now now'
  | .shutdown => s.consume .shutdown
  | .drop => s.consume .dropped
  | .changed => s.changed

/-- One event after another. -/
def run (C : Suite ρ) (s : PacedSession ρ) (events : List (SessionEvent ρ)) : PacedSession ρ :=
  events.foldl (step C) s

theorem run_append (C : Suite ρ) (s : PacedSession ρ) (events events' : List (SessionEvent ρ)) :
    run C s (events ++ events') = run C (run C s events) events' :=
  List.foldl_append

@[simp] theorem run_nil (C : Suite ρ) (s : PacedSession ρ) : run C s [] = s := rfl

theorem run_cons (C : Suite ρ) (s : PacedSession ρ) (event : SessionEvent ρ)
    (events : List (SessionEvent ρ)) : run C s (event :: events) = run C (step C s event) events :=
  rfl

/-- A `wait_idle_cover` returns here: it has the session to itself and sees `cover_done`. -/
def WaitReturns (s : PacedSession ρ) : Prop :=
  s.handle = .held ∧ s.calls = [] ∧ s.cover.done = true

/-! ## What a step does -/

section Step

variable {s : PacedSession ρ}

/-- **What a round of `enqueue_fragments` does**: nothing, the last return, a refusal or one more
cell in the channel. -/
theorem trySend_cases (s : PacedSession ρ) (i : ℕ) :
    s.trySend i = s ∨
    (∃ call, s.calls[i]? = some call ∧ call.rest = [] ∧ s.trySend i = s.finish i call (.ok ())) ∨
    (∃ call err, s.calls[i]? = some call ∧ s.trySend i = s.finish i call (.error err)) ∨
    (∃ call cell rest, ∃ h : call.rest = cell :: rest,
      s.calls[i]? = some call ∧ s.running = true ∧
        s.trySend i =
          { s with
            channel := s.channel ++ [cell]
            taken := s.taken ++ [cell]
            calls := s.calls.set i (call.place cell rest h) }) := by
  unfold trySend
  split
  · exact Or.inl rfl
  · rename_i call hcall
    split
    · rename_i hrest
      exact Or.inr (Or.inl ⟨call, hcall, hrest, rfl⟩)
    · rename_i cell rest hrest
      split_ifs with hstopped hfull
      · exact Or.inr (Or.inr (Or.inl ⟨call, _, hcall, rfl⟩))
      · exact Or.inr (Or.inr (Or.inl ⟨call, _, hcall, rfl⟩))
      · exact Or.inr (Or.inr (Or.inr
          ⟨call, cell, rest, hrest, hcall, (Bool.not_eq_false _).mp hstopped, rfl⟩))

theorem recv_of_stopped (h : s.running = false) : s.recv = s := by
  unfold recv
  rw [if_pos h]

/-- With an empty channel the driver waits, or stops if the session was dropped. -/
theorem recv_of_nil (hrun : s.running = true) (h : s.channel = []) :
    s.recv = if s.handle = .dropped then { s with running := false } else s := by
  unfold recv
  rw [if_neg (by rw [hrun]; decide), h]

/-- With room in the queue the cell moves there. -/
theorem recv_of_lt {cell : Cell} {channel : List Cell} (hrun : s.running = true)
    (h : s.channel = cell :: channel)
    (hroom : s.emitter.pendingEmissions < s.emitter.config.maxBacklog) :
    ∃ pending, s.recv =
      { s with
        channel := channel
        emitter := { s.emitter with cellQueue := s.emitter.cellQueue ++ [cell] }
        cover := s.cover.onRecv
        pending := pending } := by
  unfold recv
  rw [if_neg (by rw [hrun]; decide), h]
  simp only [ConstantRateEmitter.enqueueCell_of_lt hroom]
  exact ⟨_, rfl⟩

/-- **Without room the cell is gone.** -/
theorem recv_of_le {cell : Cell} {channel : List Cell} (hrun : s.running = true)
    (h : s.channel = cell :: channel)
    (hfull : s.emitter.config.maxBacklog ≤ s.emitter.pendingEmissions) :
    ∃ pending, s.recv =
      { s with
        channel := channel
        emitter := s.emitter.noteDroppedEnqueue
        cover := s.cover.onRecv
        pending := pending } := by
  unfold recv
  rw [if_neg (by rw [hrun]; decide), h]
  simp only [ConstantRateEmitter.enqueueCell_of_le hfull]
  exact ⟨_, rfl⟩

/-- The driver has no part in the calls. -/
theorem recv_frame (s : PacedSession ρ) :
    s.recv.handle = s.handle ∧ s.recv.calls = s.calls ∧ s.recv.returned = s.returned ∧
      s.recv.taken = s.taken := by
  unfold recv
  split
  · exact ⟨rfl, rfl, rfl, rfl⟩
  · split
    · split <;> exact ⟨rfl, rfl, rfl, rfl⟩
    · exact ⟨rfl, rfl, rfl, rfl⟩

/-- It goes on as long as the session is held. -/
theorem running_recv (h : s.handle = .held) : s.recv.running = s.running := by
  unfold recv
  split
  · rfl
  · split
    · rw [if_neg (by rw [h]; decide)]
    · rfl

theorem tick_of_stopped (C : Suite ρ) (h : s.running = false) (sent : Bool) (now now' : ℕ) :
    s.tick C sent now now' = s := by
  unfold tick
  rw [if_pos h]

theorem tick_of_sent (C : Suite ρ) (hrun : s.running = true) (now now' : ℕ) :
    ∃ pending, s.tick C true now now' =
      { s with
        emitter := (s.emitter.nextCell C).2
        wire := s.wire ++ [(s.emitter.nextCell C).1.2]
        pending := pending
        cover := s.cover.onTick (s.emitter.nextCell C).2.pendingEmissions now now' } := by
  unfold tick
  rw [if_neg (by rw [hrun]; decide)]
  exact ⟨_, rfl⟩

theorem tick_of_failed (C : Suite ρ) (hrun : s.running = true) (now now' : ℕ) :
    s.tick C false now now' =
      { s with emitter := (s.emitter.nextCell C).2, running := false } := by
  unfold tick
  rw [if_neg (by rw [hrun]; decide)]
  rfl

theorem tick_frame (C : Suite ρ) (s : PacedSession ρ) (sent : Bool) (now now' : ℕ) :
    (s.tick C sent now now').handle = s.handle ∧ (s.tick C sent now now').calls = s.calls ∧
      (s.tick C sent now now').returned = s.returned ∧ (s.tick C sent now now').taken = s.taken := by
  unfold tick
  split
  · exact ⟨rfl, rfl, rfl, rfl⟩
  · dsimp only
    split <;> exact ⟨rfl, rfl, rfl, rfl⟩

/-- Letting go of the session touches nothing else. -/
theorem consume_frame (s : PacedSession ρ) (handle : Handle) :
    (s.consume handle).calls = s.calls ∧ (s.consume handle).returned = s.returned ∧
      (s.consume handle).taken = s.taken ∧ (s.consume handle).cover = s.cover := by
  unfold consume
  split <;> exact ⟨rfl, rfl, rfl, rfl⟩

theorem changed_frame (s : PacedSession ρ) :
    s.changed.handle = s.handle ∧ s.changed.calls = s.calls ∧
      s.changed.returned = s.returned ∧ s.changed.taken = s.taken ∧
        s.changed.cover = s.cover := by
  unfold changed
  split <;> exact ⟨rfl, rfl, rfl, rfl, rfl⟩

theorem running_tick (C : Suite ρ) (s : PacedSession ρ) (now now' : ℕ) :
    (s.tick C true now now').running = s.running := by
  cases hrun : s.running with
  | false =>
    rw [tick_of_stopped C hrun]
    exact hrun
  | true =>
    obtain ⟨pending, htick⟩ := tick_of_sent C hrun now now'
    rw [htick]
    exact hrun

end Step

/-! ## Every run -/

/-- What holds in every state: the emitter has the channel's capacity and only cells of packets to
send, and a deadline is set only while it has none. -/
structure Valid (s : PacedSession ρ) : Prop where
  capacity : s.emitter.config.maxBacklog = s.maxBacklog
  noPayload : s.emitter.queue = []
  queued : ∀ cell ∈ s.emitter.cellQueue, isDummy cell = false
  sent : ∀ cell ∈ s.channel, isDummy cell = false
  deadline : s.cover.deadline ≠ none → s.emitter.cellQueue = []

theorem valid_of_start {config : PacedSessionConfig} {rng : ρ} {s : PacedSession ρ}
    (h : startWithTransport config rng = some s) : s.Valid := by
  unfold startWithTransport at h
  dsimp only at h
  split_ifs at h
  obtain rfl := Option.some.inj h
  exact ⟨rfl, rfl, fun _ h => absurd h List.not_mem_nil, fun _ h => absurd h List.not_mem_nil,
    fun h => absurd rfl h⟩

section Run

variable {C : Suite ρ} {s : PacedSession ρ}

theorem Valid.enqueuePacket (h : s.Valid) (packet : SphinxPacket) (rng : ρ) :
    (s.enqueuePacket C packet rng).Valid := by
  unfold PacedSession.enqueuePacket
  split
  · exact ⟨h.capacity, h.noPayload, h.queued, h.sent, h.deadline⟩
  · exact h

theorem Valid.trySend (h : s.Valid) (i : ℕ) : (s.trySend i).Valid := by
  rcases trySend_cases s i with hsame | ⟨call, -, -, hok⟩ | ⟨call, err, -, herr⟩ |
    ⟨call, cell, rest, hrest, -, -, hplaced⟩
  · rw [hsame]
    exact h
  · rw [hok]
    exact ⟨h.capacity, h.noPayload, h.queued, h.sent, h.deadline⟩
  · rw [herr]
    exact ⟨h.capacity, h.noPayload, h.queued, h.sent, h.deadline⟩
  · rw [hplaced]
    refine ⟨h.capacity, h.noPayload, h.queued, ?_, h.deadline⟩
    intro x hx
    rcases List.mem_append.mp hx with hx | hx
    · exact h.sent x hx
    · obtain rfl := List.mem_singleton.mp hx
      have hmem : x ∈ fragment call.packet call.packetId := by
        rw [← call.whole, hrest]
        exact List.mem_append_right _ List.mem_cons_self
      exact not_isDummy_of_mem_fragment hmem

theorem Valid.recv (h : s.Valid) : s.recv.Valid := by
  cases hrun : s.running with
  | false =>
    rw [recv_of_stopped hrun]
    exact h
  | true =>
    cases hchannel : s.channel with
    | nil =>
      rw [recv_of_nil hrun hchannel]
      split
      · exact ⟨h.capacity, h.noPayload, h.queued, h.sent, h.deadline⟩
      · exact h
    | cons cell channel =>
      have hcell := h.sent cell (by rw [hchannel]; exact List.mem_cons_self)
      have hsent : ∀ x ∈ channel, isDummy x = false := by
        intro x hx
        exact h.sent x (by rw [hchannel]; exact List.mem_cons_of_mem _ hx)
      by_cases hroom : s.emitter.pendingEmissions < s.emitter.config.maxBacklog
      · obtain ⟨pending, hrecv⟩ := recv_of_lt hrun hchannel hroom
        rw [hrecv]
        refine ⟨h.capacity, h.noPayload, ?_, hsent, fun hnone => absurd rfl hnone⟩
        intro x hx
        rcases List.mem_append.mp hx with hx | hx
        · exact h.queued x hx
        · obtain rfl := List.mem_singleton.mp hx
          exact hcell
      · obtain ⟨pending, hrecv⟩ := recv_of_le hrun hchannel (Nat.le_of_not_lt hroom)
        rw [hrecv]
        exact ⟨h.capacity, h.noPayload, h.queued, hsent, fun hnone => absurd rfl hnone⟩

theorem Valid.tick (h : s.Valid) (sent : Bool) (now now' : ℕ) : (s.tick C sent now now').Valid := by
  cases hrun : s.running with
  | false =>
    rw [tick_of_stopped C hrun]
    exact h
  | true =>
    obtain ⟨-, htail, hqueue, hconfig⟩ :=
      ConstantRateEmitter.nextCell_cellQueue C h.noPayload h.queued
    have hqueued : ∀ x ∈ (s.emitter.nextCell C).2.cellQueue, isDummy x = false := by
      intro x hx
      rw [htail] at hx
      exact h.queued x (List.mem_of_mem_tail hx)
    have hcapacity : (s.emitter.nextCell C).2.config.maxBacklog = s.maxBacklog := by
      rw [hconfig]
      exact h.capacity
    cases sent with
    | false =>
      rw [tick_of_failed C hrun]
      refine ⟨hcapacity, hqueue, hqueued, h.sent, ?_⟩
      intro hdeadline
      show (s.emitter.nextCell C).2.cellQueue = []
      rw [htail, h.deadline hdeadline]
      rfl
    | true =>
      obtain ⟨pending, htick⟩ := tick_of_sent C hrun now now'
      rw [htick]
      refine ⟨hcapacity, hqueue, hqueued, h.sent, ?_⟩
      intro hdeadline
      show (s.emitter.nextCell C).2.cellQueue = []
      rcases Cover.deadline_onTick hdeadline with hbefore | hpending
      · rw [htail, h.deadline hbefore]
        rfl
      · unfold ConstantRateEmitter.pendingEmissions at hpending
        exact List.eq_nil_of_length_eq_zero (by omega)

theorem Valid.consume (h : s.Valid) (handle : Handle) : (s.consume handle).Valid := by
  unfold PacedSession.consume
  split
  · exact ⟨h.capacity, h.noPayload, h.queued, h.sent, h.deadline⟩
  · exact h

theorem Valid.changed (h : s.Valid) : s.changed.Valid := by
  unfold PacedSession.changed
  split
  · exact ⟨h.capacity, h.noPayload, h.queued, h.sent, h.deadline⟩
  · exact h

theorem Valid.step (h : s.Valid) (event : SessionEvent ρ) : (step C s event).Valid := by
  cases event with
  | enqueuePacket packet rng => exact h.enqueuePacket packet rng
  | trySend i => exact h.trySend i
  | recv => exact h.recv
  | tick sent now now' => exact h.tick sent now now'
  | shutdown => exact h.consume .shutdown
  | drop => exact h.consume .dropped
  | changed => exact h.changed

/-- A stopped driver stays so. -/
theorem running_of_step {event : SessionEvent ρ} (h : (step C s event).running = true) :
    s.running = true := by
  by_contra hstopped
  rw [Bool.not_eq_true] at hstopped
  have hsame : (step C s event).running = s.running := by
    cases event with
    | enqueuePacket packet rng =>
      show (s.enqueuePacket C packet rng).running = _
      unfold PacedSession.enqueuePacket
      split <;> rfl
    | trySend i =>
      show (s.trySend i).running = _
      rcases trySend_cases s i with h | ⟨_, -, -, h⟩ | ⟨_, _, -, h⟩ | ⟨_, _, _, _, -, -, h⟩ <;> rw [h]
      · rfl
      · rfl
    | recv =>
      show s.recv.running = _
      rw [recv_of_stopped hstopped]
    | tick sent now now' =>
      show (s.tick C sent now now').running = _
      rw [tick_of_stopped C hstopped]
    | shutdown =>
      show (s.consume .shutdown).running = _
      unfold PacedSession.consume
      split <;> rfl
    | drop =>
      show (s.consume .dropped).running = _
      unfold PacedSession.consume
      split <;> rfl
    | changed =>
      show s.changed.running = _
      unfold PacedSession.changed
      split
      · exact hstopped.symm
      · rfl
  rw [hsame, hstopped] at h
  cases h

/-- What the channel has taken is on the wire, in the emitter's queue or in the channel, in this
order. -/
def Conserves (s : PacedSession ρ) : Prop :=
  realCells s.wire ++ s.emitter.cellQueue ++ s.channel = s.taken

/-- A cell is received only when the emitter's queue has room. -/
def RoomToReceive (s : PacedSession ρ) : SessionEvent ρ → Prop
  | .recv => s.channel ≠ [] → s.emitter.pendingEmissions < s.maxBacklog
  | _ => True

theorem Conserves.trySend (h : s.Conserves) (i : ℕ) : (s.trySend i).Conserves := by
  rcases trySend_cases s i with hsame | ⟨call, -, -, hok⟩ | ⟨call, err, -, herr⟩ |
    ⟨call, cell, rest, hrest, -, -, hplaced⟩
  · rw [hsame]
    exact h
  · rw [hok]
    exact h
  · rw [herr]
    exact h
  · rw [hplaced]
    show realCells s.wire ++ s.emitter.cellQueue ++ (s.channel ++ [cell]) = s.taken ++ [cell]
    rw [← List.append_assoc, h]

theorem Conserves.recv (h : s.Conserves) (hvalid : s.Valid) (hroom : s.RoomToReceive .recv) :
    s.recv.Conserves := by
  cases hrun : s.running with
  | false =>
    rw [recv_of_stopped hrun]
    exact h
  | true =>
    cases hchannel : s.channel with
    | nil =>
      rw [recv_of_nil hrun hchannel]
      split <;> exact h
    | cons cell channel =>
      have hlt : s.emitter.pendingEmissions < s.emitter.config.maxBacklog := by
        rw [hvalid.capacity]
        exact hroom (by rw [hchannel]; exact List.cons_ne_nil _ _)
      obtain ⟨pending, hrecv⟩ := recv_of_lt hrun hchannel hlt
      rw [hrecv]
      show realCells s.wire ++ (s.emitter.cellQueue ++ [cell]) ++ channel = s.taken
      rw [← h, hchannel]
      simp

theorem Conserves.tick (h : s.Conserves) (hvalid : s.Valid) (now now' : ℕ) :
    (s.tick C true now now').Conserves := by
  cases hrun : s.running with
  | false =>
    rw [tick_of_stopped C hrun]
    exact h
  | true =>
    obtain ⟨hslot, -⟩ := ConstantRateEmitter.nextCell_cellQueue C hvalid.noPayload hvalid.queued
    obtain ⟨pending, htick⟩ := tick_of_sent C hrun now now'
    rw [htick]
    show realCells (s.wire ++ [(s.emitter.nextCell C).1.2]) ++ (s.emitter.nextCell C).2.cellQueue ++
      s.channel = s.taken
    rw [realCells_append, List.append_assoc (realCells s.wire), hslot]
    exact h

/-- **No cell is lost** while the driver runs and finds room for what it receives. -/
theorem Conserves.step (hvalid : s.Valid) (h : s.running = true → s.Conserves)
    {event : SessionEvent ρ} (hroom : s.RoomToReceive event)
    (hrun : (PacedSession.step C s event).running = true) :
    (PacedSession.step C s event).Conserves := by
  have hconserves := h (running_of_step hrun)
  cases event with
  | enqueuePacket packet rng =>
    show (s.enqueuePacket C packet rng).Conserves
    unfold PacedSession.enqueuePacket
    split <;> exact hconserves
  | trySend i => exact hconserves.trySend i
  | recv => exact hconserves.recv hvalid hroom
  | tick sent now now' =>
    cases sent with
    | true => exact hconserves.tick hvalid now now'
    | false =>
      have hstopped : (s.tick C false now now').running = false := by
        rw [tick_of_failed C (running_of_step hrun)]
      rw [show (PacedSession.step C s (.tick false now now')).running = false from hstopped] at hrun
      cases hrun
  | shutdown =>
    show (s.consume .shutdown).Conserves
    unfold PacedSession.consume
    split <;> exact hconserves
  | drop =>
    show (s.consume .dropped).Conserves
    unfold PacedSession.consume
    split <;> exact hconserves
  | changed =>
    show s.changed.Conserves
    unfold PacedSession.changed
    split <;> exact hconserves

end Run

/-! ## A call that finds room -/

section Room

variable {C : Suite ρ} {s : PacedSession ρ}

theorem trySend_of_nil {call : EnqueueCall} (hcalls : s.calls = [call]) (hrest : call.rest = []) :
    s.trySend 0 = { s with calls := [], returned := s.returned ++ [⟨call, .ok ()⟩] } := by
  have hcall : s.calls[0]? = some call := by
    rw [hcalls]
    rfl
  unfold trySend
  rw [hcall]
  dsimp only
  split
  · unfold finish
    rw [hcalls]
    rfl
  · rename_i cell rest hcons
    rw [hrest] at hcons
    cases hcons

theorem trySend_of_lt {call : EnqueueCall} {cell : Cell} {rest : List Cell}
    (hrun : s.running = true) (hcalls : s.calls = [call]) (hrest : call.rest = cell :: rest)
    (hroom : s.channel.length < s.maxBacklog) :
    s.trySend 0 =
      { s with
        channel := s.channel ++ [cell]
        taken := s.taken ++ [cell]
        calls := [call.place cell rest hrest] } := by
  have hcall : s.calls[0]? = some call := by
    rw [hcalls]
    rfl
  unfold trySend
  rw [hcall]
  dsimp only
  split
  · rename_i hnil
    rw [hrest] at hnil
    cases hnil
  · rename_i cell' rest' hcons
    obtain ⟨rfl, rfl⟩ := List.cons.inj (hrest.symm.trans hcons)
    rw [if_neg (by rw [hrun]; decide), if_neg (Nat.not_le.mpr hroom), hcalls]
    rfl

/-- Without room the call fails, and the cells it has placed stay. -/
theorem trySend_of_le {call : EnqueueCall} {cell : Cell} {rest : List Cell}
    (hrun : s.running = true) (hcalls : s.calls = [call]) (hrest : call.rest = cell :: rest)
    (hfull : s.maxBacklog ≤ s.channel.length) :
    s.trySend 0 =
      { s with
        calls := []
        returned := s.returned ++ [⟨call, .error (.emitterBacklogFull ⟨s.maxBacklog⟩)⟩] } := by
  have hcall : s.calls[0]? = some call := by
    rw [hcalls]
    rfl
  unfold trySend
  rw [hcall]
  dsimp only
  split
  · rename_i hnil
    rw [hrest] at hnil
    cases hnil
  · rw [if_neg (by rw [hrun]; decide), if_pos hfull]
    unfold finish
    rw [hcalls]
    rfl

/-- **A packet that finds room is accepted**, and all its cells are in the channel. -/
theorem run_trySend (C : Suite ρ) {rest : List Cell} {s : PacedSession ρ} {call : EnqueueCall}
    (hrun : s.running = true) (hcalls : s.calls = [call]) (hrest : call.rest = rest)
    (hroom : s.channel.length + rest.length ≤ s.maxBacklog) :
    ∃ done : EnqueueCall, done.packet = call.packet ∧ done.packetId = call.packetId ∧
      run C s (List.replicate (rest.length + 1) (.trySend 0)) =
        { s with
          channel := s.channel ++ rest
          taken := s.taken ++ rest
          calls := []
          returned := s.returned ++ [⟨done, .ok ()⟩] } := by
  induction rest generalizing s call with
  | nil =>
    refine ⟨call, rfl, rfl, ?_⟩
    show s.trySend 0 = _
    rw [trySend_of_nil hcalls hrest, List.append_nil, List.append_nil]
  | cons cell rest ih =>
    rw [List.length_cons] at hroom
    have hplaced := trySend_of_lt hrun hcalls hrest (by omega)
    have hcalls' : (s.trySend 0).calls = [call.place cell rest hrest] := by
      rw [hplaced]
    obtain ⟨done, hpacket, hpacketId, hdone⟩ := ih (by rw [hplaced]; exact hrun) hcalls' rfl (by
        rw [hplaced]
        show (s.channel ++ [cell]).length + rest.length ≤ s.maxBacklog
        rw [List.length_append, List.length_singleton]
        omega)
    refine ⟨done, hpacket, hpacketId, ?_⟩
    rw [List.length_cons, List.replicate_succ, run_cons]
    show run C (s.trySend 0) _ = _
    rw [hdone, hplaced]
    simp only [List.append_assoc, List.singleton_append]

end Room

/-! ## A driver left alone -/

end PacedSession

namespace SessionEvent

variable {ρ : Type}

/-- The driver's own steps, on a link that takes its cells. -/
def IsDriver : SessionEvent ρ → Prop
  | .recv => True
  | .tick sent _ _ => sent = true
  | _ => False

/-- The driver receives a cell. -/
def isRecv : SessionEvent ρ → Bool
  | .recv => true
  | _ => false

/-- The driver sends a cell. -/
def isTick : SessionEvent ρ → Bool
  | .tick _ _ _ => true
  | _ => false

end SessionEvent

namespace PacedSession

section Drain

variable {ρ : Type} {C : Suite ρ} {s : PacedSession ρ}

/-- The driver runs and the session is still held, so that it waits on an empty channel. -/
structure Active (s : PacedSession ρ) : Prop where
  running : s.running = true
  held : s.handle = .held
  valid : s.Valid

/-- **What the driver's own steps do** to the channel and the queue. -/
theorem Active.step (h : s.Active) {event : SessionEvent ρ} (hdriver : event.IsDriver) :
    (PacedSession.step C s event).Active ∧
      (PacedSession.step C s event).maxBacklog = s.maxBacklog ∧
      (PacedSession.step C s event).calls = s.calls ∧
      (PacedSession.step C s event).returned = s.returned ∧
      (PacedSession.step C s event).taken = s.taken ∧
      (PacedSession.step C s event).channel = s.channel.drop event.isRecv.toNat ∧
      (PacedSession.step C s event).emitter.cellQueue.length ≤
        s.emitter.cellQueue.length - event.isTick.toNat +
          (s.channel.take event.isRecv.toNat).length := by
  have hvalid := h.valid.step (C := C) event
  cases event with
  | recv =>
    cases hchannel : s.channel with
    | nil =>
      have hrecv : s.recv = s := by
        rw [recv_of_nil h.running hchannel, if_neg (by rw [h.held]; decide)]
      rw [show PacedSession.step C s .recv = s from hrecv]
      exact ⟨h, rfl, rfl, rfl, rfl, hchannel, Nat.le_add_right _ _⟩
    | cons cell channel =>
      by_cases hroom : s.emitter.pendingEmissions < s.emitter.config.maxBacklog
      · obtain ⟨pending, hrecv⟩ := recv_of_lt h.running hchannel hroom
        have hstep : PacedSession.step C s .recv = _ := hrecv
        rw [hstep] at hvalid ⊢
        refine ⟨⟨h.running, h.held, hvalid⟩, rfl, rfl, rfl, rfl, rfl, ?_⟩
        show (s.emitter.cellQueue ++ [cell]).length ≤ _
        rw [List.length_append]
        exact le_rfl
      · obtain ⟨pending, hrecv⟩ := recv_of_le h.running hchannel (Nat.le_of_not_lt hroom)
        have hstep : PacedSession.step C s .recv = _ := hrecv
        rw [hstep] at hvalid ⊢
        exact ⟨⟨h.running, h.held, hvalid⟩, rfl, rfl, rfl, rfl, rfl, Nat.le_add_right _ _⟩
  | tick sent now now' =>
    obtain rfl : sent = true := hdriver
    obtain ⟨-, htail, -⟩ :=
      ConstantRateEmitter.nextCell_cellQueue C h.valid.noPayload h.valid.queued
    obtain ⟨pending, htick⟩ := tick_of_sent C h.running now now'
    have hstep : PacedSession.step C s (.tick true now now') = _ := htick
    rw [hstep] at hvalid ⊢
    refine ⟨⟨h.running, h.held, hvalid⟩, rfl, rfl, rfl, rfl, rfl, ?_⟩
    show (s.emitter.nextCell C).2.cellQueue.length ≤ _
    rw [htail, List.length_tail]
    exact Nat.le_add_right _ _
  | enqueuePacket packet rng => exact absurd hdriver id
  | trySend i => exact absurd hdriver id
  | shutdown => exact absurd hdriver id
  | drop => exact absurd hdriver id
  | changed => exact absurd hdriver id

/-- What they do in a run. -/
theorem Active.run (h : s.Active) {events : List (SessionEvent ρ)}
    (hdriver : ∀ event ∈ events, event.IsDriver) :
    (PacedSession.run C s events).Active ∧
      (PacedSession.run C s events).maxBacklog = s.maxBacklog ∧
      (PacedSession.run C s events).calls = s.calls ∧
      (PacedSession.run C s events).returned = s.returned ∧
      (PacedSession.run C s events).taken = s.taken ∧
      (PacedSession.run C s events).channel = s.channel.drop (events.countP SessionEvent.isRecv) ∧
      (PacedSession.run C s events).emitter.cellQueue.length ≤
        s.emitter.cellQueue.length - events.countP SessionEvent.isTick + s.channel.length := by
  induction events generalizing s with
  | nil => exact ⟨h, rfl, rfl, rfl, rfl, rfl, Nat.le_add_right _ _⟩
  | cons event events ih =>
    obtain ⟨hactive, hbacklog, hcalls, hreturned, htaken, hchannel, hqueue⟩ :=
      h.step (C := C) (hdriver event List.mem_cons_self)
    obtain ⟨hactive', hbacklog', hcalls', hreturned', htaken', hchannel', hqueue'⟩ :=
      ih hactive fun event' hevent' => hdriver event' (List.mem_cons_of_mem event hevent')
    have hrecv : (event :: events).countP SessionEvent.isRecv =
        event.isRecv.toNat + events.countP SessionEvent.isRecv := by
      rw [List.countP_cons, Nat.add_comm]
      cases event.isRecv <;> rfl
    have htick : (event :: events).countP SessionEvent.isTick =
        event.isTick.toNat + events.countP SessionEvent.isTick := by
      rw [List.countP_cons, Nat.add_comm]
      cases event.isTick <;> rfl
    rw [run_cons, hrecv, htick]
    refine ⟨hactive', hbacklog'.trans hbacklog, hcalls'.trans hcalls, hreturned'.trans hreturned,
      htaken'.trans htaken, ?_, ?_⟩
    · rw [hchannel', hchannel, List.drop_drop]
    · rw [hchannel, List.length_drop] at hqueue'
      rw [List.length_take] at hqueue
      omega

/-- The driver is left alone until it has received what is in the channel and then sent what is
queued. -/
structure Drains (s : PacedSession ρ) (receives sends : List (SessionEvent ρ)) : Prop where
  receiver : ∀ event ∈ receives, event.IsDriver
  sender : ∀ event ∈ sends, event.IsDriver
  received : s.channel.length ≤ receives.countP SessionEvent.isRecv
  sent : s.emitter.cellQueue.length + s.channel.length ≤ sends.countP SessionEvent.isTick

/-- **A driver left alone empties the channel and the queue.** -/
theorem Drains.drained {receives sends : List (SessionEvent ρ)} (hdrains : s.Drains receives sends)
    (h : s.Active) :
    (PacedSession.run C s (receives ++ sends)).Active ∧
      (PacedSession.run C s (receives ++ sends)).calls = s.calls ∧
      (PacedSession.run C s (receives ++ sends)).returned = s.returned ∧
      (PacedSession.run C s (receives ++ sends)).taken = s.taken ∧
      (PacedSession.run C s (receives ++ sends)).channel = [] ∧
      (PacedSession.run C s (receives ++ sends)).emitter.cellQueue = [] := by
  obtain ⟨hactive, -, hcalls, hreturned, htaken, hchannel, hqueue⟩ :=
    h.run (C := C) hdrains.receiver
  obtain ⟨hactive', -, hcalls', hreturned', htaken', hchannel', hqueue'⟩ :=
    hactive.run (C := C) hdrains.sender
  have hempty : (PacedSession.run C s receives).channel = [] := by
    rw [hchannel]
    exact List.drop_eq_nil_of_le hdrains.received
  rw [run_append]
  refine ⟨hactive', hcalls'.trans hcalls, hreturned'.trans hreturned, htaken'.trans htaken, ?_, ?_⟩
  · rw [hchannel', hempty, List.drop_nil]
  · rw [hempty] at hqueue'
    have hsent := hdrains.sent
    simp only [List.length_nil, Nat.add_zero] at hqueue'
    exact List.eq_nil_of_length_eq_zero (by omega)

end Drain

end PacedSession

end Aegis
