import Aegis.Crypto.Fragment

/-!
# The constant-rate emitter (`emitter.rs`)

One cell leaves the client in every slot: a queued real cell, or a dummy.  The queues are bounded,
and a full emitter refuses the cell it is given.

* `enqueueCell_of_lt`, `enqueueCell_of_le` — a cell is queued exactly when there is room.
* `nextCell_of_cons`, `nextCell_of_nil` — what a slot sends.
-/

namespace Aegis

open Buffer

/-- The default of `max_backlog`. -/
def defaultMaxBacklog : ℕ := 256

/-- The command and a `u16` length. -/
def dataHeaderLen : ℕ := 1 + 2

/-- The longest payload of one cell. -/
def maxCellPayload : ℕ := cellLen - dataHeaderLen

/-- The emitter refuses a cell, with the limit it has reached. -/
structure BacklogFullError where
  maxBacklog : ℕ
  deriving DecidableEq, Repr

/-- How many cells may wait. -/
structure EmitterConfig where
  /-- The most real cells queued at a time. -/
  maxBacklog : ℕ
  deriving DecidableEq, Repr

/-- The cell is a dummy, which the relay drops. -/
def isDummy (cell : Cell) : Bool :=
  decide (cell.byte 0 (by decide) = Command.drop.toU8)

/-- The cells that are not dummies. -/
def realCells (cells : List Cell) : List Cell := cells.filter fun cell => !isDummy cell

@[simp] theorem realCells_append (cells cells' : List Cell) :
    realCells (cells ++ cells') = realCells cells ++ realCells cells' :=
  List.filter_append cells cells'

@[simp] theorem realCells_nil : realCells [] = [] := rfl

theorem realCells_singleton {cell : Cell} (h : isDummy cell = false) : realCells [cell] = [cell] := by
  unfold realCells
  rw [List.filter_singleton, h]
  rfl

theorem realCells_dummy {cell : Cell} (h : isDummy cell = true) : realCells [cell] = [] := by
  unfold realCells
  rw [List.filter_singleton, h]
  rfl

section Encode

variable {ρ : Type} (C : Suite ρ)

/-- A `Data` cell: the length, the payload and random bytes. -/
def encodeDataCell (payload : List UInt8) (rng : ρ) : Cell × ρ :=
  let buf : Cell := Bytes.zero cellLen
  let buf := buf.put 0 [Command.data.toU8]
  let len := if payload.length < 2 ^ 16 then payload.length else 2 ^ 16 - 1
  let buf := buf.put 1 (leBytes 2 len).reverse
  let copyLen := min payload.length maxCellPayload
  let buf := buf.put 3 (payload.take copyLen)
  let (fill, rng) := C.fillBytes (cellLen - (3 + copyLen)) rng
  (buf.put (3 + copyLen) fill.toList, rng)

/-- A `Drop` cell of random bytes. -/
def encodeDummyCell (rng : ρ) : Cell × ρ :=
  let buf : Cell := Bytes.zero cellLen
  let buf := buf.put 0 [Command.drop.toU8]
  let (fill, rng) := C.fillBytes (cellLen - 1) rng
  (buf.put 1 fill.toList, rng)

theorem isDummy_encodeDummyCell (rng : ρ) : isDummy (encodeDummyCell C rng).1 = true := by
  unfold isDummy encodeDummyCell
  rw [decide_eq_true_eq, Bytes.byte_put_of_not_mem _ _ _ (by omega),
    Bytes.byte_put_of_mem _ _ _ (by decide) (by decide)]
  rfl

end Encode

theorem isDummy_encodeFragmentCell (packetId : PacketId) (index : UInt8) (packet : SphinxPacket) :
    isDummy (encodeFragmentCell packetId index packet) = false := by
  have h := byte_command_encodeFragmentCell packetId index packet
  unfold isDummy
  rw [show (encodeFragmentCell packetId index packet).byte 0 (by decide) =
    Command.sphinxFragment.toU8 from h]
  rfl

/-- The fragments of a packet are real cells. -/
theorem not_isDummy_of_mem_fragment {packet : SphinxPacket} {packetId : PacketId} {cell : Cell}
    (h : cell ∈ fragment packet packetId) : isDummy cell = false := by
  unfold fragment at h
  obtain ⟨i, -, rfl⟩ := List.mem_map.mp h
  exact isDummy_encodeFragmentCell packetId _ packet

/-- `ConstantRateEmitter`. -/
structure ConstantRateEmitter (ρ : Type) where
  config : EmitterConfig
  /-- Payloads, sent as `Data` cells. -/
  queue : List (List UInt8)
  /-- Cells sent as they are. -/
  cellQueue : List Cell
  tick : ℕ
  droppedEnqueueCount : ℕ
  rng : ρ

namespace ConstantRateEmitter

variable {ρ : Type}

/-- An emitter with nothing queued and nothing counted. -/
def new (config : EmitterConfig) (rng : ρ) : ConstantRateEmitter ρ := ⟨config, [], [], 0, 0, rng⟩

/-- The real cells still queued. -/
def pendingEmissions (e : ConstantRateEmitter ρ) : ℕ := e.cellQueue.length + e.queue.length

/-- `try_push_real`: whether one more cell may wait. -/
def tryPushReal (e : ConstantRateEmitter ρ) : Except BacklogFullError Unit :=
  if e.pendingEmissions ≥ e.config.maxBacklog then .error ⟨e.config.maxBacklog⟩ else .ok ()

/-- Queue a payload. -/
def enqueue (e : ConstantRateEmitter ρ) (payload : List UInt8) :
    Except BacklogFullError Unit × ConstantRateEmitter ρ :=
  match e.tryPushReal with
  | .error err => (.error err, e)
  | .ok () => (.ok (), { e with queue := e.queue ++ [payload] })

/-- Queue a cell. -/
def enqueueCell (e : ConstantRateEmitter ρ) (cell : Cell) :
    Except BacklogFullError Unit × ConstantRateEmitter ρ :=
  match e.tryPushReal with
  | .error err => (.error err, e)
  | .ok () => (.ok (), { e with cellQueue := e.cellQueue ++ [cell] })

/-- The driver has lost a cell that the emitter refused. -/
def noteDroppedEnqueue (e : ConstantRateEmitter ρ) : ConstantRateEmitter ρ :=
  { e with droppedEnqueueCount := e.droppedEnqueueCount + 1 }

/-- The cell of this slot. -/
def nextCell (C : Suite ρ) (e : ConstantRateEmitter ρ) : (ℕ × Cell) × ConstantRateEmitter ρ :=
  let tick := e.tick
  match e.cellQueue, e.queue with
  | cell :: cellQueue, _ => ((tick, cell), { e with cellQueue := cellQueue, tick := tick + 1 })
  | [], payload :: queue =>
    let (cell, rng) := encodeDataCell C payload e.rng
    ((tick, cell), { e with queue := queue, rng := rng, tick := tick + 1 })
  | [], [] =>
    let (cell, rng) := encodeDummyCell C e.rng
    ((tick, cell), { e with rng := rng, tick := tick + 1 })

/-! ## What the operations do -/

variable {e : ConstantRateEmitter ρ}

/-- With room the cell is queued. -/
theorem enqueueCell_of_lt (h : e.pendingEmissions < e.config.maxBacklog) (cell : Cell) :
    e.enqueueCell cell = (.ok (), { e with cellQueue := e.cellQueue ++ [cell] }) := by
  unfold enqueueCell tryPushReal
  rw [if_neg (by omega)]

/-- Without, it is refused. -/
theorem enqueueCell_of_le (h : e.config.maxBacklog ≤ e.pendingEmissions) (cell : Cell) :
    e.enqueueCell cell = (.error ⟨e.config.maxBacklog⟩, e) := by
  unfold enqueueCell tryPushReal
  rw [if_pos h]

theorem nextCell_of_cons {C : Suite ρ} {cell : Cell} {cells : List Cell}
    (h : e.cellQueue = cell :: cells) :
    e.nextCell C = ((e.tick, cell), { e with cellQueue := cells, tick := e.tick + 1 }) := by
  unfold nextCell
  rw [h]

/-- An idle slot sends a dummy. -/
theorem nextCell_of_nil (C : Suite ρ) (hcells : e.cellQueue = []) (hqueue : e.queue = []) :
    e.nextCell C = ((e.tick, (encodeDummyCell C e.rng).1),
      { e with rng := (encodeDummyCell C e.rng).2, tick := e.tick + 1 }) := by
  unfold nextCell
  rw [hcells, hqueue]

/-- A slot takes one cell, if there is one. -/
theorem pendingEmissions_nextCell (C : Suite ρ) (e : ConstantRateEmitter ρ) :
    (e.nextCell C).2.pendingEmissions = e.pendingEmissions - 1 := by
  unfold nextCell pendingEmissions
  rcases hcells : e.cellQueue with _ | ⟨cell, cells⟩
  · rcases hqueue : e.queue with _ | ⟨payload, queue⟩
    · rfl
    · simp
  · show cells.length + e.queue.length = _
    rw [List.length_cons]
    omega

/-- **What a slot does to the queue**, when it holds real cells and no payload waits. -/
theorem nextCell_cellQueue (C : Suite ρ) (hqueue : e.queue = [])
    (hreal : ∀ cell ∈ e.cellQueue, isDummy cell = false) :
    realCells [(e.nextCell C).1.2] ++ (e.nextCell C).2.cellQueue = e.cellQueue ∧
      (e.nextCell C).2.cellQueue = e.cellQueue.tail ∧ (e.nextCell C).2.queue = [] ∧
        (e.nextCell C).2.config = e.config := by
  cases hcells : e.cellQueue with
  | nil =>
    rw [nextCell_of_nil C hcells hqueue]
    refine ⟨?_, ?_, hqueue, rfl⟩
    · show realCells [(encodeDummyCell C e.rng).1] ++ e.cellQueue = []
      rw [realCells_dummy (isDummy_encodeDummyCell C e.rng), hcells]
      rfl
    · exact hcells
  | cons cell cells =>
    rw [nextCell_of_cons hcells]
    have hcell : isDummy cell = false := hreal cell (by rw [hcells]; exact List.mem_cons_self)
    refine ⟨?_, rfl, hqueue, rfl⟩
    show realCells [cell] ++ cells = cell :: cells
    rw [realCells_singleton hcell]
    rfl

end ConstantRateEmitter

end Aegis
