import Aegis.Lib.Run
import Aegis.Relay.Inbound

/-!
# Integrity of the link channel

One side seals cells under the session key, the other runs the inbound loop, and the
network hands over whatever frames it likes.  The only thing asked of it is that the
AEAD is ideal (`Authentic`): a frame that opens is one that was sealed.  A frame
carries no counter, so nothing tells a frame from its copy.

* `Inv.step`, `inv_run` — what is accepted was sealed, and was delivered in that order.
* `accepted_of_run` — **accepted cells are sealed cells**, as often and in the order they
  were delivered; with an attacker that only drops and injects, a subsequence of what
  was sealed.
* `run_duplicate` — **a frame delivered twice is accepted twice.**
-/

namespace Aegis

open Buffer

namespace LinkChannel

variable {ρ : Type}

/-! ## The system -/

/-- The sender's generator and what it has sealed, the receiver, and every frame the
network has delivered. -/
structure State (ρ : Type) where
  rng : ρ
  sealedCells : List (Cell × List UInt8)
  receiver : Connection
  delivered : List (List UInt8)

/-- Nothing has been sealed or delivered. -/
def State.initial (rng : ρ) : State ρ := ⟨rng, [], .start, []⟩

/-- The frames that the sender has sealed. -/
def State.sealedFrames (s : State ρ) : List (List UInt8) := s.sealedCells.map Prod.snd

/-- What can happen next.  The frames delivered are the attacker's choice, the limiter's
answer and the room in the peer queue are the environment's. -/
inductive Event where
  | send (cell : Cell)
  | deliver (frame : List UInt8) (allowed : Bool) (room : TrySend)
  | readError (e : NetError)

variable (C : Suite ρ) (A : Aead) (cfg : InboundConfig)

/-- The sender seals a cell, or the attacker delivers a frame. -/
def step (s : State ρ) : Event → State ρ
  | .send cell =>
    match cfg.sessionKey.sealCell C A cell s.rng with
    | (.ok frame, rng) => { s with rng := rng, sealedCells := s.sealedCells ++ [(cell, frame)] }
    | (.error _, rng) => { s with rng := rng }
  | .deliver frame allowed room =>
    { s with
      receiver := s.receiver.onFrame A cfg frame allowed room
      delivered := s.delivered ++ [frame] }
  | .readError e => { s with receiver := s.receiver.onReadError e }

/-- One event after another. -/
def run (s : State ρ) (events : List Event) : State ρ := events.foldl (step C A cfg) s

/-- **The AEAD is ideal**: a frame that opens under the session key was sealed. -/
def Authentic (s : State ρ) : Event → Prop
  | .deliver frame _ _ => ∀ cell, cfg.sessionKey.openFrame A frame = .ok cell →
      frame ∈ s.sealedFrames
  | _ => True

/-! ## The invariant -/

/-- The accepted cells are those of sealed frames, in the order of their delivery. -/
structure Inv (s : State ρ) : Prop where
  opens : ∀ p ∈ s.sealedCells, cfg.sessionKey.openFrame A p.2 = .ok p.1
  accepted : ∃ genuine : List (Cell × List UInt8), (∀ p ∈ genuine, p ∈ s.sealedCells) ∧
    s.receiver.opened = genuine.map Prod.fst ∧ (genuine.map Prod.snd).Sublist s.delivered

variable {C A cfg}

theorem inv_initial (rng : ρ) : Inv A cfg (State.initial rng) := by
  refine ⟨fun p hp => ?_, [], fun p hp => ?_, rfl, List.Sublist.refl []⟩
  · cases hp
  · cases hp

variable {s : State ρ}

/-- Sealing one more cell. -/
theorem Inv.seal (h : Inv A cfg s) {cell : Cell} {frame : List UInt8} (rng : ρ)
    (hopen : cfg.sessionKey.openFrame A frame = .ok cell) :
    Inv A cfg { s with rng := rng, sealedCells := s.sealedCells ++ [(cell, frame)] } := by
  obtain ⟨genuine, hmem, hacc, hsub⟩ := h.accepted
  refine ⟨fun p hp => ?_, genuine, fun p hp => List.mem_append_left _ (hmem p hp), hacc, hsub⟩
  rcases List.mem_append.mp hp with hp | hp
  · exact h.opens p hp
  · rw [List.mem_singleton.mp hp]
    exact hopen

/-- Delivering one more frame. -/
theorem Inv.deliver (h : Inv A cfg s) {frame : List UInt8} (allowed : Bool) (room : TrySend)
    (hauth : ∀ cell, cfg.sessionKey.openFrame A frame = .ok cell → frame ∈ s.sealedFrames) :
    Inv A cfg
      { s with
        receiver := s.receiver.onFrame A cfg frame allowed room
        delivered := s.delivered ++ [frame] } := by
  obtain ⟨genuine, hmem, hacc, hsub⟩ := h.accepted
  refine ⟨h.opens, ?_⟩
  rcases s.receiver.onFrame_opened A cfg frame room allowed with hsame | ⟨cell, hopen, hmore⟩
  · exact ⟨genuine, hmem, hsame.trans hacc, hsub.trans (List.sublist_append_left _ _)⟩
  · obtain ⟨p, hp, hframe⟩ := List.mem_map.mp (hauth cell hopen)
    have hcell : p.1 = cell := by
      have hopen' := h.opens p hp
      rw [hframe, hopen] at hopen'
      exact (Except.ok.inj hopen').symm
    refine ⟨genuine ++ [p], fun q hq => ?_, ?_, ?_⟩
    · rcases List.mem_append.mp hq with hq | hq
      · exact hmem q hq
      · rw [List.mem_singleton.mp hq]
        exact hp
    · rw [hmore, hacc, List.map_append, List.map_singleton, hcell]
    · rw [List.map_append, List.map_singleton, hframe]
      exact hsub.append (List.Sublist.refl _)

theorem Inv.readError (h : Inv A cfg s) (e : NetError) :
    Inv A cfg { s with receiver := s.receiver.onReadError e } := by
  obtain ⟨genuine, hmem, hacc, hsub⟩ := h.accepted
  refine ⟨h.opens, genuine, hmem, ?_, hsub⟩
  rw [← hacc, Connection.onReadError]
  cases s.receiver.ended <;> rfl

/-- **One event keeps the invariant.** -/
theorem Inv.step (hA : A.Correct) (h : Inv A cfg s) (e : Event) (hauth : Authentic A cfg s e) :
    Inv A cfg (LinkChannel.step C A cfg s e) := by
  cases e with
  | send cell =>
    obtain ⟨frame, rng, hseal⟩ := LinkKey.sealCell_ok (C := C) hA cfg.sessionKey cell s.rng
    simp only [LinkChannel.step, hseal]
    exact h.seal rng (LinkKey.openFrame_of_sealCell hA cfg.sessionKey cell s.rng hseal).2
  | deliver frame allowed room => exact h.deliver allowed room hauth
  | readError e => exact h.readError e

/-- **Every run keeps it.** -/
theorem inv_run (hA : A.Correct) {rng : ρ} {events : List Event}
    (hideal : Run.Guarded (LinkChannel.step C A cfg) (Authentic A cfg) (State.initial rng) events) :
    Inv A cfg (run C A cfg (State.initial rng) events) :=
  hideal.preserves (Inv A cfg) (fun _ e hauth h => h.step hA e hauth) (inv_initial rng)

/-! ## What is accepted -/

/-- The attacker only dropped and injected: the genuine frames it delivered are some of the
sealed ones, each once and in order. -/
def State.OnlyDropsAndInjects (s : State ρ) : Prop :=
  (s.delivered.filter fun frame => decide (frame ∈ s.sealedFrames)).Sublist s.sealedFrames

/-- With such an attacker the accepted cells are a subsequence of the sealed ones. -/
theorem Inv.opened_sublist (h : Inv A cfg s) (hdrop : s.OnlyDropsAndInjects) :
    s.receiver.opened.Sublist (s.sealedCells.map Prod.fst) := by
  obtain ⟨genuine, hmem, hacc, hsub⟩ := h.accepted
  -- opening recovers the cell from a genuine frame
  let cellOf : List UInt8 → Option Cell := fun frame =>
    (cfg.sessionKey.openFrame A frame).toOption
  have hcell : ∀ p ∈ s.sealedCells, cellOf p.2 = some p.1 := fun p hp => by
    simp only [cellOf, h.opens p hp, Except.toOption]
  have hfilter : (genuine.map Prod.snd).filter (fun frame => decide (frame ∈ s.sealedFrames)) =
      genuine.map Prod.snd := by
    rw [List.filter_eq_self]
    intro frame hframe
    obtain ⟨p, hp, rfl⟩ := List.mem_map.mp hframe
    exact decide_eq_true (List.mem_map_of_mem (hmem p hp))
  have hframes : (genuine.map Prod.snd).Sublist s.sealedFrames := by
    rw [← hfilter]
    exact (hsub.filter _).trans hdrop
  have hgenuine : (genuine.map Prod.snd).filterMap cellOf = genuine.map Prod.fst := by
    rw [List.filterMap_map, ← List.filterMap_eq_map]
    exact List.filterMap_congr fun p hp => hcell p (hmem p hp)
  have hsealed : s.sealedFrames.filterMap cellOf = s.sealedCells.map Prod.fst := by
    rw [State.sealedFrames, List.filterMap_map, ← List.filterMap_eq_map]
    exact List.filterMap_congr hcell
  rw [hacc, ← hgenuine, ← hsealed]
  exact hframes.filterMap cellOf

/-! ## A frame delivered twice -/

/-- Seal one cell and deliver its frame twice. -/
def duplicateEvents (cell : Cell) (frame : List UInt8) : List Event :=
  [.send cell, .deliver frame true .sent, .deliver frame true .sent]

section Duplicate

variable {cell : Cell} {frame : List UInt8} {rng rng' : ρ}

/-- **A frame of cover delivered twice is accepted twice.** -/
theorem run_duplicate (hA : A.Correct)
    (hdrop : Command.fromU8 (cell.byte 0 (by decide)) = some .drop)
    (hseal : cfg.sessionKey.sealCell C A cell rng = (.ok frame, rng')) :
    run C A cfg (State.initial rng) (duplicateEvents cell frame) =
      ⟨rng', [(cell, frame)], { Connection.start with opened := [cell, cell] },
        [frame, frame]⟩ := by
  have hopen := (LinkKey.openFrame_of_sealCell hA cfg.sessionKey cell rng hseal).2
  have hround : ∀ x : Connection, x.ended = none →
      x.onFrame A cfg frame true .sent = { x with opened := x.opened ++ [cell] } := by
    intro x hx
    rw [Connection.onFrame_of_opened hx hopen, Connection.onCell_of_drop hdrop]
  simp only [run, duplicateEvents, List.foldl_cons, List.foldl_nil, step, State.initial, hseal]
  rw [hround .start rfl, hround { Connection.start with opened := _ } rfl]
  rfl

/-- Nothing is forged in that run. -/
theorem guarded_duplicate (hseal : cfg.sessionKey.sealCell C A cell rng = (.ok frame, rng')) :
    Run.Guarded (step C A cfg) (Authentic A cfg) (State.initial rng)
      (duplicateEvents cell frame) := by
  have hmem : ∀ s : State ρ, s.sealedCells = [(cell, frame)] → frame ∈ s.sealedFrames := by
    intro s hs
    rw [State.sealedFrames, hs]
    exact List.mem_singleton_self frame
  refine ⟨trivial, fun _ _ => hmem _ ?_, fun _ _ => hmem _ ?_, trivial⟩
  · simp only [step, State.initial, hseal]
    rfl
  · simp only [step, State.initial, hseal]
    rfl

end Duplicate

/-! ## A frame lost and a frame made up -/

/-- Seal two cells, lose the first frame, and put one behind the second. -/
def lossyEvents (lost cell : Cell) (frame forged : List UInt8) : List Event :=
  [.send lost, .send cell, .deliver frame true .sent, .deliver forged true .sent]

section Lossy

variable {lost cell : Cell} {lostFrame frame forged : List UInt8} {rng rng' rng'' : ρ}
  (hlost : cfg.sessionKey.sealCell C A lost rng = (.ok lostFrame, rng'))
  (hseal : cfg.sessionKey.sealCell C A cell rng' = (.ok frame, rng''))
  {e : CryptoError} (hforged : cfg.sessionKey.openFrame A forged = .error e)

include hlost hseal hforged

/-- The cell that was not lost is accepted, and the frame that does not open ends the loop. -/
theorem run_lossy (hA : A.Correct)
    (hdrop : Command.fromU8 (cell.byte 0 (by decide)) = some .drop) :
    run C A cfg (State.initial rng) (lossyEvents lost cell frame forged) =
      ⟨rng'', [(lost, lostFrame), (cell, frame)],
        { Connection.start with opened := [cell], ended := some (.error (.crypto e)) },
        [frame, forged]⟩ := by
  have hopen := (LinkKey.openFrame_of_sealCell hA cfg.sessionKey cell rng' hseal).2
  have hfirst : Connection.start.onFrame A cfg frame true .sent =
      { Connection.start with opened := [cell] } := by
    rw [Connection.onFrame_of_opened rfl hopen, Connection.onCell_of_drop hdrop]
    rfl
  have hlast : ∀ x : Connection, x.ended = none →
      x.onFrame A cfg forged true .sent = { x with ended := some (.error (.crypto e)) } := by
    intro x hx
    simp only [Connection.onFrame, hx, hforged, Bool.true_eq_false, if_false]
  simp only [run, lossyEvents, List.foldl_cons, List.foldl_nil, step, State.initial, hlost, hseal]
  rw [hfirst, hlast _ rfl]
  rfl

/-- Nothing is forged in that run either: what was made up does not open. -/
theorem guarded_lossy : Run.Guarded (step C A cfg) (Authentic A cfg) (State.initial rng)
    (lossyEvents lost cell frame forged) := by
  refine ⟨trivial, trivial, fun _ _ => ?_, fun c hc => ?_, trivial⟩
  · simp only [step, State.initial, hlost, hseal, State.sealedFrames]
    exact List.mem_map_of_mem (List.mem_append_right _ (List.mem_singleton_self (cell, frame)))
  · rw [hforged] at hc
    cases hc

end Lossy

/-- A cell of cover. -/
def dropCell : Cell := Bytes.put (Bytes.zero cellLen) 0 [Command.drop.toU8]

theorem fromU8_dropCell : Command.fromU8 (Bytes.byte dropCell 0 (by decide)) = some .drop := by
  rw [dropCell, Bytes.byte_put_of_mem _ _ _ le_rfl (by decide)]
  rfl

/-- What is accepted is **not** a subsequence of what was sealed: nothing in a frame tells
it from its copy. -/
theorem not_opened_sublist_checksum : ∃ events : List Event,
    Run.Guarded (step checksumSuite checksumAead checksumConfig)
      (Authentic checksumAead checksumConfig) (State.initial 3) events ∧
    ¬ (run checksumSuite checksumAead checksumConfig (State.initial 3) events).receiver.opened.Sublist
      ((run checksumSuite checksumAead checksumConfig (State.initial 3) events).sealedCells.map
        Prod.fst) := by
  obtain ⟨frame, rng, hseal⟩ := LinkKey.sealCell_ok (C := checksumSuite) checksumAead_correct
    checksumConfig.sessionKey dropCell 3
  refine ⟨duplicateEvents dropCell frame, guarded_duplicate hseal, fun hsub => ?_⟩
  rw [run_duplicate checksumAead_correct fromU8_dropCell hseal] at hsub
  have hlen : 2 ≤ 1 := hsub.length_le
  exact absurd hlen (by decide)

/-! ## The theorem -/

/-- **Integrity of every run**: the accepted cells are cells of sealed frames, accepted at
most as often as their frame was delivered and in the order of delivery; if the attacker
only drops and injects frames, they are a subsequence of the sealed cells. -/
theorem accepted_of_run (C : Suite ρ) (A : Aead) (hA : A.Correct) (cfg : InboundConfig) (rng : ρ)
    (events : List Event)
    (hideal : Run.Guarded (LinkChannel.step C A cfg) (Authentic A cfg) (State.initial rng) events) :
    let s := run C A cfg (State.initial rng) events
    (∃ genuine : List (Cell × List UInt8), (∀ p ∈ genuine, p ∈ s.sealedCells) ∧
      s.receiver.opened = genuine.map Prod.fst ∧ (genuine.map Prod.snd).Sublist s.delivered) ∧
    (s.OnlyDropsAndInjects → s.receiver.opened.Sublist (s.sealedCells.map Prod.fst)) := by
  have hinv := inv_run hA hideal
  exact ⟨hinv.accepted, hinv.opened_sublist⟩

/-- A frame sealed over `checksumSuite` and delivered twice; and two frames sealed, of which the
second is delivered, with one behind it that does not open. -/
theorem accepted_of_run_checksum :
    (∃ (events : List Event) (frame : List UInt8),
      let s := run checksumSuite checksumAead checksumConfig (State.initial 3) events
      s.delivered = [frame, frame] ∧
      (∃ genuine : List (Cell × List UInt8), (∀ p ∈ genuine, p ∈ s.sealedCells) ∧
        s.receiver.opened = genuine.map Prod.fst ∧
          (genuine.map Prod.snd).Sublist s.delivered) ∧
      (s.OnlyDropsAndInjects → s.receiver.opened.Sublist (s.sealedCells.map Prod.fst))) ∧
    ∃ (events : List Event) (frame : List UInt8),
      let s := run checksumSuite checksumAead checksumConfig (State.initial 3) events
      s.sealedCells.map Prod.fst = [Bytes.zero cellLen, dropCell] ∧ s.delivered = [frame, [0]] ∧
        s.OnlyDropsAndInjects ∧ s.receiver.opened = [dropCell] ∧
        s.receiver.opened.Sublist (s.sealedCells.map Prod.fst) := by
  refine ⟨?_, ?_⟩
  · obtain ⟨frame, rng, hseal⟩ := LinkKey.sealCell_ok (C := checksumSuite) checksumAead_correct
      checksumConfig.sessionKey dropCell 3
    refine ⟨duplicateEvents dropCell frame, frame, ?_,
      accepted_of_run checksumSuite checksumAead checksumAead_correct checksumConfig 3 _
        (guarded_duplicate hseal)⟩
    rw [run_duplicate checksumAead_correct fromU8_dropCell hseal]
  · obtain ⟨lost, rng', hlost⟩ := LinkKey.sealCell_ok (C := checksumSuite) checksumAead_correct
      checksumConfig.sessionKey (Bytes.zero cellLen) 3
    obtain ⟨frame, rng'', hseal⟩ := LinkKey.sealCell_ok (C := checksumSuite) checksumAead_correct
      checksumConfig.sessionKey dropCell rng'
    have hforged : checksumConfig.sessionKey.openFrame checksumAead [0] =
        .error (.malformed "link frame length") := rfl
    have hrun := run_lossy hlost hseal hforged checksumAead_correct fromU8_dropCell
    have hsubset := (accepted_of_run checksumSuite checksumAead checksumAead_correct checksumConfig
      3 _ (guarded_lossy hlost hseal hforged)).2
    have hnotSealed : ([0] : List UInt8) ∉ [lost, frame] := by
      have hlostLength := (LinkKey.openFrame_of_sealCell checksumAead_correct _ _ _ hlost).1
      have hlength := (LinkKey.openFrame_of_sealCell checksumAead_correct _ _ _ hseal).1
      intro hmem
      rcases List.mem_pair.mp hmem with rfl | rfl
      · cases hlostLength
      · cases hlength
    have honly : (run checksumSuite checksumAead checksumConfig (State.initial 3)
        (lossyEvents (Bytes.zero cellLen) dropCell frame [0])).OnlyDropsAndInjects := by
      rw [hrun]
      unfold State.OnlyDropsAndInjects State.sealedFrames
      rw [List.filter_cons_of_pos (by simp), List.filter_cons_of_neg (by simpa using hnotSealed)]
      exact List.sublist_append_right [lost] [frame]
    have hopened := hsubset honly
    refine ⟨lossyEvents (Bytes.zero cellLen) dropCell frame [0], frame, ?_⟩
    rw [hrun] at honly hopened ⊢
    exact ⟨rfl, rfl, honly, rfl, hopened⟩

end LinkChannel

end Aegis
