import Aegis.Lib.TwoClassQueue
import Aegis.Client.Emitter

/-!
# Runs of the constant-rate emitter (`emitter.rs`)

The emitter is a bounded queue of two classes: the cells that are sent as they are come before the
payloads, which become `Data` cells when their slot comes.  A slot in which nothing waits sends a
dummy.

* `decodeDataCell_encodeDataCell` — a payload is read back from its cell.
* `apply_refines` — an operation of the emitter is one of the queue.
* `conserves_of_run` — **everything accepted is sent or waits, once and in order**.
-/

namespace Aegis

open Buffer

/-! ## Data cells -/

/-- The payload that a `Data` cell carries: as many bytes as its length prefix says. -/
def decodeDataCell (cell : Cell) : Option (List UInt8) :=
  if cell.byte offCommand offCommand_lt_cellLen = Command.data.toU8 then
    let len := leValue (slice 1 2 cell.toList).reverse
    if len ≤ maxCellPayload then some (slice dataHeaderLen len cell.toList) else none
  else none

section Encode

variable {ρ : Type} (C : Suite ρ) {payload : List UInt8}

/-- The bytes of a `Data` cell whose payload fits. -/
theorem toList_encodeDataCell (h : payload.length ≤ maxCellPayload) (rng : ρ) :
    ∃ fill : List UInt8, (encodeDataCell C payload rng).1.toList =
      writeAt (writeAt (writeAt (writeAt (Bytes.zero cellLen).toList 0 [Command.data.toU8]) 1
        (leBytes 2 payload.length).reverse) 3 payload) (3 + payload.length) fill := by
  have hmax : maxCellPayload = 509 := rfl
  have hlen : payload.length < 2 ^ 16 := by omega
  refine ⟨(C.fillBytes (cellLen - (3 + min payload.length maxCellPayload)) rng).1.toList, ?_⟩
  unfold encodeDataCell
  simp only [if_pos hlen, Nat.min_eq_left h, List.take_length]
  rw [Bytes.toList_put, Bytes.toList_put, Bytes.toList_put, Bytes.toList_put]

theorem byte_command_encodeDataCell (payload : List UInt8) (rng : ρ) :
    (encodeDataCell C payload rng).1.byte offCommand offCommand_lt_cellLen =
      Command.data.toU8 := by
  unfold encodeDataCell
  simp only
  rw [Bytes.byte_put_of_not_mem _ _ _ (Or.inl (by unfold offCommand; omega)),
    Bytes.byte_put_of_not_mem _ _ _ (Or.inl (by unfold offCommand; omega)),
    Bytes.byte_put_of_not_mem _ _ _ (Or.inl (by unfold offCommand; omega)),
    Bytes.byte_put_of_mem _ _ _ (by decide) (by decide)]
  rfl

/-- **A payload is read back from its cell.** -/
theorem decodeDataCell_encodeDataCell (h : payload.length ≤ maxCellPayload) (rng : ρ) :
    decodeDataCell (encodeDataCell C payload rng).1 = some payload := by
  obtain ⟨fill, hbytes⟩ := toList_encodeDataCell C h rng
  have hmax : maxCellPayload = 509 := rfl
  have hcell : (Bytes.zero cellLen).toList.length = 512 := List.Vector.toList_length _
  have hlength : slice 1 2 (encodeDataCell C payload rng).1.toList =
      (leBytes 2 payload.length).reverse := by
    rw [hbytes, slice_writeAt_of_disjoint (Or.inl (by omega)),
      slice_writeAt_of_disjoint (Or.inl (by omega)), slice_writeAt (by simp) (by simp [hcell])]
  have hvalue : leValue (slice 1 2 (encodeDataCell C payload rng).1.toList).reverse =
      payload.length := by
    rw [hlength, List.reverse_reverse, leValue_leBytes]
    exact Nat.mod_eq_of_lt (by omega)
  have hbody : slice dataHeaderLen payload.length (encodeDataCell C payload rng).1.toList =
      payload := by
    show slice 3 payload.length _ = payload
    rw [hbytes, slice_writeAt_of_disjoint (Or.inl le_rfl), slice_writeAt rfl (by
      simp only [length_writeAt, hcell]
      omega)]
  unfold decodeDataCell
  rw [if_pos (byte_command_encodeDataCell C payload rng)]
  simp only [hvalue]
  rw [if_pos h, hbody]

end Encode

/-! ## Operations and what they answer -/

/-- What a client and the clock do to the emitter. -/
inductive EmitterOp where
  | enqueue (payload : List UInt8)
  | enqueueCell (cell : Cell)
  /-- A slot: `next_cell`, which `tick` passes on to the transport. -/
  | nextCell

/-- The answer: an item accepted or refused, or a cell sent in a slot. -/
inductive EmitterEvent where
  | accepted (item : Cell ⊕ List UInt8)
  | refused (item : Cell ⊕ List UInt8) (err : BacklogFullError)
  | sent (tick : ℕ) (cell : Cell)

namespace EmitterOp

/-- A payload that fits in one cell. -/
def Fits : EmitterOp → Prop
  | .enqueue payload => payload.length ≤ maxCellPayload
  | _ => True

/-- The operation that queues an item. -/
def push : Cell ⊕ List UInt8 → EmitterOp
  | .inl cell => .enqueueCell cell
  | .inr payload => .enqueue payload

/-- The operation of the queue. -/
def toQueue : EmitterOp → TwoClassQueue.Op Cell (List UInt8)
  | .enqueue payload => .push (.inr payload)
  | .enqueueCell cell => .push (.inl cell)
  | .nextCell => .pop

/-- An item is accepted or refused, and a slot sends one cell. -/
def Answers : EmitterOp → EmitterEvent → Prop
  | .enqueue payload, .accepted item => item = .inr payload
  | .enqueue payload, .refused item _ => item = .inr payload
  | .enqueueCell cell, .accepted item => item = .inl cell
  | .enqueueCell cell, .refused item _ => item = .inl cell
  | .nextCell, .sent _ _ => True
  | _, _ => False

theorem push_answers (item : Cell ⊕ List UInt8) :
    (push item).Answers (.accepted item) ∧ ∀ err, (push item).Answers (.refused item err) := by
  cases item with
  | inl cell => exact ⟨rfl, fun _ => rfl⟩
  | inr payload => exact ⟨rfl, fun _ => rfl⟩

theorem toQueue_push (item : Cell ⊕ List UInt8) : (push item).toQueue = .push item := by
  cases item <;> rfl

end EmitterOp

/-- The cell that is sent is the one that was served, or the one that carries it, or a dummy. -/
def CarriesItem (cell : Cell) : Option (Cell ⊕ List UInt8) → Prop
  | some (.inl served) => cell = served
  | some (.inr payload) => decodeDataCell cell = some payload
  | none => isDummy cell = true

/-- What the emitter answers is what the queue shows. -/
def EmitterEvent.Shows : EmitterEvent → TwoClassQueue.Event Cell (List UInt8) → Prop
  | .accepted item, .accepted item' => item = item'
  | .refused item _, .refused item' => item = item'
  | .sent _ cell, .served item => CarriesItem cell item
  | _, _ => False

namespace ConstantRateEmitter

variable {ρ : Type}

/-- An operation, with its answer. -/
def apply (C : Suite ρ) (e : ConstantRateEmitter ρ) : EmitterOp → EmitterEvent × ConstantRateEmitter ρ
  | .enqueue payload =>
    match e.enqueue payload with
    | (.ok (), e) => (.accepted (.inr payload), e)
    | (.error err, e) => (.refused (.inr payload) err, e)
  | .enqueueCell cell =>
    match e.enqueueCell cell with
    | (.ok (), e) => (.accepted (.inl cell), e)
    | (.error err, e) => (.refused (.inl cell) err, e)
  | .nextCell => (.sent (e.nextCell C).1.1 (e.nextCell C).1.2, (e.nextCell C).2)

/-- A run, with the answers. -/
def run (C : Suite ρ) (e : ConstantRateEmitter ρ) (ops : List EmitterOp) :
    List EmitterEvent × ConstantRateEmitter ρ :=
  ops.foldl (fun t op => (t.1 ++ [(t.2.apply C op).1], (t.2.apply C op).2)) ([], e)

/-- An item at the end of its queue. -/
def insert (e : ConstantRateEmitter ρ) : Cell ⊕ List UInt8 → ConstantRateEmitter ρ
  | .inl cell => { e with cellQueue := e.cellQueue ++ [cell] }
  | .inr payload => { e with queue := e.queue ++ [payload] }

/-- The queue that the emitter keeps. -/
def toQueue (e : ConstantRateEmitter ρ) : TwoClassQueue Cell (List UInt8) :=
  ⟨e.config.maxBacklog, e.cellQueue, e.queue⟩

/-! ## The emitter refines the queue -/

section Refine

variable {C : Suite ρ} {e : ConstantRateEmitter ρ}

/-- With room the item is queued. -/
theorem apply_push_of_lt (h : e.pendingEmissions < e.config.maxBacklog)
    (item : Cell ⊕ List UInt8) : e.apply C (.push item) = (.accepted item, e.insert item) := by
  have hpush : e.tryPushReal = .ok () := if_neg (Nat.not_le.mpr h)
  cases item with
  | inl cell => simp only [EmitterOp.push, apply, enqueueCell, hpush, insert]
  | inr payload => simp only [EmitterOp.push, apply, enqueue, hpush, insert]

/-- Without, it is refused, and the emitter is as it was. -/
theorem apply_push_of_le (h : e.config.maxBacklog ≤ e.pendingEmissions)
    (item : Cell ⊕ List UInt8) :
    e.apply C (.push item) = (.refused item ⟨e.config.maxBacklog⟩, e) := by
  have hpush : e.tryPushReal = .error ⟨e.config.maxBacklog⟩ := if_pos h
  cases item with
  | inl cell => simp only [EmitterOp.push, apply, enqueueCell, hpush]
  | inr payload => simp only [EmitterOp.push, apply, enqueue, hpush]

/-- A payload is sent as a `Data` cell. -/
theorem nextCell_of_payload (C : Suite ρ) {payload : List UInt8} {queue : List (List UInt8)}
    (hcells : e.cellQueue = []) (hqueue : e.queue = payload :: queue) :
    e.nextCell C = ((e.tick, (encodeDataCell C payload e.rng).1),
      { e with
        queue := queue
        rng := (encodeDataCell C payload e.rng).2
        tick := e.tick + 1 }) := by
  unfold nextCell
  rw [hcells, hqueue]

/-- All the queued payloads fit in a cell. -/
def PayloadsFit (e : ConstantRateEmitter ρ) : Prop :=
  ∀ payload ∈ e.queue, payload.length ≤ maxCellPayload

/-- The emitter and the queue do the same: the answer shows it, and the queues agree. -/
structure Refines (op : EmitterOp) (e : ConstantRateEmitter ρ)
    (t : EmitterEvent × ConstantRateEmitter ρ) : Prop where
  answers : op.Answers t.1
  shows : t.1.Shows (e.toQueue.step op.toQueue).1
  queue : t.2.toQueue = (e.toQueue.step op.toQueue).2
  fit : t.2.PayloadsFit

theorem toQueue_insert (e : ConstantRateEmitter ρ) (item : Cell ⊕ List UInt8) :
    (e.insert item).toQueue = e.toQueue.insert item := by
  cases item <;> rfl

theorem PayloadsFit.insert (h : e.PayloadsFit) {item : Cell ⊕ List UInt8}
    (hfits : (EmitterOp.push item).Fits) : (e.insert item).PayloadsFit := by
  cases item with
  | inl cell => exact h
  | inr payload =>
    intro x hx
    rcases List.mem_append.mp hx with hx | hx
    · exact h x hx
    · obtain rfl := List.mem_singleton.mp hx
      exact hfits

theorem refines_push (h : e.PayloadsFit) (item : Cell ⊕ List UInt8)
    (hfits : (EmitterOp.push item).Fits) :
    Refines (.push item) e (e.apply C (.push item)) := by
  obtain ⟨haccepted, hrefused⟩ := EmitterOp.push_answers item
  by_cases hroom : e.pendingEmissions < e.config.maxBacklog
  · have hstep : e.toQueue.step (EmitterOp.push item).toQueue =
        (.accepted item, e.toQueue.insert item) := by
      rw [EmitterOp.toQueue_push]
      exact if_pos hroom
    rw [apply_push_of_lt hroom]
    refine ⟨haccepted, ?_, ?_, h.insert hfits⟩
    · rw [hstep]
      rfl
    · rw [hstep]
      exact toQueue_insert e item
  · have hstep : e.toQueue.step (EmitterOp.push item).toQueue = (.refused item, e.toQueue) := by
      rw [EmitterOp.toQueue_push]
      exact if_neg hroom
    rw [apply_push_of_le (Nat.not_lt.mp hroom)]
    refine ⟨hrefused _, ?_, ?_, h⟩
    · rw [hstep]
      rfl
    · rw [hstep]

/-- A slot refines the `pop` of the queue that it is shown to be. -/
theorem refines_of_pop {item : Option (Cell ⊕ List UInt8)} {q : TwoClassQueue Cell (List UInt8)}
    {tick : ℕ} {cell : Cell} {e' : ConstantRateEmitter ρ} (hpop : e.toQueue.pop = (.served item, q))
    (hcell : CarriesItem cell item) (hqueue : e'.toQueue = q) (hfit : e'.PayloadsFit) :
    Refines .nextCell e (.sent tick cell, e') := by
  have hstep : e.toQueue.step (EmitterOp.nextCell).toQueue = (.served item, q) := hpop
  refine ⟨trivial, ?_, ?_, hfit⟩
  · rw [hstep]
    exact hcell
  · rw [hstep]
    exact hqueue

theorem refines_nextCell (h : e.PayloadsFit) : Refines .nextCell e (e.apply C .nextCell) := by
  show Refines .nextCell e (.sent (e.nextCell C).1.1 (e.nextCell C).1.2, (e.nextCell C).2)
  rcases hcells : e.cellQueue with _ | ⟨cell, cells⟩
  · rcases hqueue : e.queue with _ | ⟨payload, queue⟩
    · have hpop : e.toQueue.pop = (.served none, e.toQueue) :=
        TwoClassQueue.pop_of_nil hcells hqueue
      rw [nextCell_of_nil C hcells hqueue]
      exact refines_of_pop hpop (isDummy_encodeDummyCell C e.rng) rfl h
    · have hpop : e.toQueue.pop = (.served (some (.inr payload)), { e.toQueue with plain := queue }) :=
        TwoClassQueue.pop_of_plain hcells hqueue
      have hfits : payload.length ≤ maxCellPayload :=
        h payload (by rw [hqueue]; exact List.mem_cons_self)
      rw [nextCell_of_payload C hcells hqueue]
      refine refines_of_pop hpop (decodeDataCell_encodeDataCell C hfits e.rng) rfl ?_
      intro x hx
      exact h x (by rw [hqueue]; exact List.mem_cons_of_mem _ hx)
  · have hpop : e.toQueue.pop = (.served (some (.inl cell)), { e.toQueue with urgent := cells }) :=
      TwoClassQueue.pop_of_urgent hcells
    rw [nextCell_of_cons hcells]
    exact refines_of_pop hpop rfl rfl h

/-- **An operation of the emitter is one of the queue.** -/
theorem apply_refines (h : e.PayloadsFit) {op : EmitterOp} (hfits : op.Fits) :
    Refines op e (e.apply C op) := by
  cases op with
  | enqueue payload => exact refines_push h (.inr payload) hfits
  | enqueueCell cell => exact refines_push h (.inl cell) hfits
  | nextCell => exact refines_nextCell h

/-- **A refused item leaves the emitter as it was.** -/
theorem apply_of_refused {op : EmitterOp} {item : Cell ⊕ List UInt8} {err : BacklogFullError}
    (h : (e.apply C op).1 = .refused item err) : (e.apply C op).2 = e := by
  have hpush : ∀ item', (e.apply C (.push item')).1 = .refused item err →
      (e.apply C (.push item')).2 = e := by
    intro item' hrefused
    by_cases hroom : e.pendingEmissions < e.config.maxBacklog
    · rw [apply_push_of_lt hroom] at hrefused
      cases hrefused
    · rw [apply_push_of_le (Nat.not_lt.mp hroom)]
  cases op with
  | enqueue payload => exact hpush (.inr payload) h
  | enqueueCell cell => exact hpush (.inl cell) h
  | nextCell => cases h

end Refine

/-! ## Every run -/

section Run

variable {C : Suite ρ}

/-- A run of the emitter beside the run of the queue. -/
theorem foldl_refines {ops done : List EmitterOp} {log : List EmitterEvent}
    {history : List (TwoClassQueue.Event Cell (List UInt8))} {e : ConstantRateEmitter ρ}
    (hops : ∀ op ∈ ops, op.Fits) (hfit : e.PayloadsFit)
    (hanswers : List.Forall₂ EmitterOp.Answers done log)
    (hshows : List.Forall₂ EmitterEvent.Shows log history) :
    ∃ log' e' history' q',
      ops.foldl (fun t op => (t.1 ++ [(t.2.apply C op).1], (t.2.apply C op).2)) (log, e) =
        (log', e') ∧
      (ops.map EmitterOp.toQueue).foldl (fun t op => (t.1 ++ [(t.2.step op).1], (t.2.step op).2))
        (history, e.toQueue) = (history', q') ∧
      List.Forall₂ EmitterOp.Answers (done ++ ops) log' ∧
      List.Forall₂ EmitterEvent.Shows log' history' ∧ e'.toQueue = q' := by
  induction ops generalizing done log history e with
  | nil =>
    refine ⟨log, e, history, e.toQueue, rfl, rfl, ?_, hshows, rfl⟩
    rw [List.append_nil]
    exact hanswers
  | cons op ops ih =>
    obtain ⟨hanswer, hshow, hqueue, hfit'⟩ :=
      apply_refines (C := C) hfit (hops op List.mem_cons_self)
    obtain ⟨log', e', history', q', hrun, hrun', hall⟩ :=
      ih (fun op' hop' => hops op' (List.mem_cons_of_mem op hop')) hfit'
        (List.rel_append hanswers (.cons hanswer .nil))
        (List.rel_append hshows (.cons hshow .nil))
    rw [hqueue] at hrun'
    rw [List.append_assoc, List.singleton_append] at hall
    exact ⟨log', e', history', q', hrun, hrun', hall⟩

/-- **Everything accepted is sent or waits, once and in order**, in every run: each slot sends one
cell, which is the oldest of the queued cells or, where none waits, carries the oldest payload, or
is a dummy where no payload waits either.  No more is pending than the backlog allows, and what is
refused changes nothing. -/
theorem conserves_of_run (C : Suite ρ) (config : EmitterConfig) (rng : ρ) {ops : List EmitterOp}
    (hops : ∀ op ∈ ops, op.Fits) :
    List.Forall₂ EmitterOp.Answers ops (run C (new config rng) ops).1 ∧
      (∃ history, List.Forall₂ EmitterEvent.Shows (run C (new config rng) ops).1 history ∧
        TwoClassQueue.Conserves (run C (new config rng) ops).2.toQueue history ∧
        TwoClassQueue.InOrder history) ∧
      (run C (new config rng) ops).2.pendingEmissions ≤ config.maxBacklog ∧
      ∀ op item err, ((run C (new config rng) ops).2.apply C op).1 = .refused item err →
        ((run C (new config rng) ops).2.apply C op).2 = (run C (new config rng) ops).2 := by
  have hfit : (new config rng).PayloadsFit := fun _ h => absurd h List.not_mem_nil
  obtain ⟨log, e, history, q, hrun, hrun', hanswers, hshows, hqueue⟩ :=
    foldl_refines (C := C) hops hfit .nil .nil
  have hkept := TwoClassQueue.kept_run config.maxBacklog (ops.map EmitterOp.toQueue)
  have hhistory : TwoClassQueue.run (⟨config.maxBacklog, [], []⟩ : TwoClassQueue Cell (List UInt8))
      (ops.map EmitterOp.toQueue) = (history, q) := hrun'
  rw [hhistory] at hkept
  have hlog : run C (new config rng) ops = (log, e) := hrun
  rw [hlog]
  refine ⟨hanswers, ⟨history, hshows, ?_, hkept.inOrder⟩, ?_, fun op item err => apply_of_refused⟩
  · show TwoClassQueue.Conserves e.toQueue history
    rw [hqueue]
    exact hkept.conserves
  · show e.toQueue.size ≤ config.maxBacklog
    rw [hqueue]
    exact hkept.size_le

/-- A payload, a cell that goes before it, and one more than the backlog allows. -/
theorem conserves_of_run_checksum :
    ∃ history, List.Forall₂ EmitterEvent.Shows
        (run checksumSuite (new ⟨2⟩ (0 : UInt8)) [.enqueue [1, 2], .enqueueCell (Bytes.zero cellLen),
          .enqueue [3], .nextCell, .nextCell, .nextCell]).1 history ∧
      TwoClassQueue.InOrder history := by
  have hops : ∀ op ∈ [EmitterOp.enqueue [1, 2], .enqueueCell (Bytes.zero cellLen), .enqueue [3],
      .nextCell, .nextCell, .nextCell], op.Fits := by
    simp [EmitterOp.Fits, maxCellPayload, cellLen, dataHeaderLen]
  obtain ⟨-, ⟨history, hshows, -, horder⟩, -⟩ :=
    conserves_of_run checksumSuite ⟨2⟩ (0 : UInt8) hops
  exact ⟨history, hshows, horder⟩

end Run

end ConstantRateEmitter

end Aegis
