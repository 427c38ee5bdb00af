import Aegis.Crypto.SphinxOnion
import Aegis.Lib.Run
import Aegis.Relay.CoverFlow

/-!
# The mix loop (`node.rs`)

The relay's task takes one command or one packet at a time.  A packet is peeled, counted for
the bulk round, delayed and put on the outbound queue, which drops it when it is full.  The end
of a round emits the cover its count calls for.

* `round_covered_iff` — **a round reaches its target** exactly when the packets it counted and
  those that got into the queue agree up to the target.
* `round_short_checksum` — a packet is counted and dropped, and no cover makes up for it.
-/

namespace Aegis

open Buffer

/-! ## The loop -/

/-- A peeled packet on its way. -/
structure ForwardedPacket where
  nextHop : RelayId
  packet : SphinxPacket
  delayApplied : ℕ

/-- The relay's counters. -/
structure RelayStats where
  loopReturnCount : ℕ
  droppedCount : ℕ
  coverOnionSinkCount : ℕ
  coverFlowCount : ℕ
  coverCellCount : ℕ
  integrityErrorCount : ℕ
  replayErrorCount : ℕ
  otherErrorCount : ℕ
  forwardedCount : ℕ
  queueDropped : ℕ
  deriving DecidableEq, Repr

/-- All counters at zero. -/
def RelayStats.new : RelayStats := ⟨0, 0, 0, 0, 0, 0, 0, 0, 0, 0⟩

section Loop

variable {ρ : Type} (C : Suite ρ)

/-- A relay: its key, the mixing delay it samples and how it makes cover. -/
structure RelayNode where
  secret : RelayKemSecret C
  sampleMixingDelay : ρ → ℕ × ρ
  coverConfig : CoverFlowConfig C
  mlkemGenerate : MlKemGenerate C
  /-- There is a cover channel. -/
  coverTx : Bool

/-- The task's state, the packets it has put on the outbound queue and the flows it has given
to the cover channel. -/
structure RelayLoop (ρ : Type) where
  running : Bool
  round : BulkRoundTracker
  replay : ReplayCache
  rng : ρ
  stats : RelayStats
  outbound : List ForwardedPacket
  cover : List CoverFlow

/-- What the task wakes up for. -/
inductive RelayEvent where
  | begin (dial : SecurityDial) (requirement : CoverRequirement)
  /-- The cover channel takes every flow, or its receiver goes away after some. -/
  | endRound (taken : Option ℕ)
  /-- A packet, and what sending it on will find. -/
  | packet (packet : SphinxPacket) (send : TrySend)
  /-- Nobody holds the other end of a channel any more. -/
  | closed

variable {C}

namespace RelayLoop

/-- `RelayNode::spawn`. -/
def spawn (rng : ρ) : RelayLoop ρ := ⟨true, .new, .new, rng, .new, [], []⟩

/-- `try_send_drop_newest` on the outbound queue. -/
def trySendDropNewest (s : RelayLoop ρ) (item : ForwardedPacket) : TrySend → RelayLoop ρ
  | .sent => { s with outbound := s.outbound ++ [item] }
  | .full => { s with stats := { s.stats with queueDropped := s.stats.queueDropped + 1 } }
  | .closed => { s with running := false }

/-- What happens to a packet once it is peeled. -/
def onProcessed (node : RelayNode C) (s : RelayLoop ρ) (send : TrySend) :
    Except CryptoError Processed → RelayLoop ρ
  | .ok (.forward nextHop packet) =>
    if isCoverSinkHop nextHop then
      { s with stats := { s.stats with coverOnionSinkCount := s.stats.coverOnionSinkCount + 1 } }
    else
      let (delay, rng) := node.sampleMixingDelay s.rng
      let s := { s with
        round := s.round.observeRealFlow
        rng := rng
        stats := { s.stats with forwardedCount := s.stats.forwardedCount + 1 } }
      s.trySendDropNewest ⟨nextHop, packet, delay⟩ send
  | .ok .loopReturned =>
    { s with stats := { s.stats with loopReturnCount := s.stats.loopReturnCount + 1 } }
  | .ok .drop => { s with stats := { s.stats with droppedCount := s.stats.droppedCount + 1 } }
  | .error .integrityFailure =>
    { s with stats := { s.stats with integrityErrorCount := s.stats.integrityErrorCount + 1 } }
  | .error .replay =>
    { s with stats := { s.stats with replayErrorCount := s.stats.replayErrorCount + 1 } }
  | .error _ =>
    { s with stats := { s.stats with otherErrorCount := s.stats.otherErrorCount + 1 } }

/-- A packet that has come in is processed, and routed by what comes of it. -/
def processOnePacket (node : RelayNode C) (s : RelayLoop ρ) (packet : SphinxPacket)
    (send : TrySend) : RelayLoop ρ :=
  let (result, replay) := process C packet node.secret s.replay
  { s with replay := replay }.onProcessed node send result

/-- The end of a round. -/
def endRound (node : RelayNode C) (s : RelayLoop ρ) (taken : Option ℕ) : RelayLoop ρ :=
  let ((result, round), rng) :=
    BulkRoundTracker.closeAndEmit C node.mlkemGenerate node.coverConfig s.round s.rng
  let s := { s with round := round, rng := rng }
  match result with
  | none => s
  | some result =>
    let sent := result.coverFlows.take (taken.getD result.coverFlows.length)
    { s with
      stats :=
        { s.stats with
          coverFlowCount := s.stats.coverFlowCount + result.coverFlowCount
          coverCellCount := s.stats.coverCellCount + result.coverCellCount }
      cover := if node.coverTx then s.cover ++ sent else s.cover }

/-- What each event does to the loop, as long as it runs. -/
def step (node : RelayNode C) (s : RelayLoop ρ) (e : RelayEvent) : RelayLoop ρ :=
  if s.running = false then s
  else
    match e with
    | .begin dial requirement => { s with round := s.round.begin dial requirement }
    | .endRound taken => s.endRound node taken
    | .packet packet send => s.processOnePacket node packet send
    | .closed => { s with running := false }

/-- One event after another. -/
def run (node : RelayNode C) (s : RelayLoop ρ) (events : List RelayEvent) : RelayLoop ρ :=
  events.foldl (step node) s

/-! ## Real packets -/

/-- The packet is real: it goes to a hop that is not the sink. -/
def isReal : Except CryptoError Processed → Bool
  | .ok (.forward nextHop _) => !isCoverSinkHop nextHop
  | _ => false

/-- The event is a real packet. -/
def real (node : RelayNode C) (s : RelayLoop ρ) : RelayEvent → Bool
  | .packet packet _ => isReal (process C packet node.secret s.replay).1
  | _ => false

/-- The event is a real packet that finds room in the outbound queue. -/
def placed (node : RelayNode C) (s : RelayLoop ρ) : RelayEvent → Bool
  | .packet packet send =>
    isReal (process C packet node.secret s.replay).1 && decide (send = .sent)
  | _ => false

/-- The event is a command. -/
def isCommand : RelayEvent → Bool
  | .begin _ _ => true
  | .endRound _ => true
  | _ => false

section Step

variable {node : RelayNode C} {s : RelayLoop ρ} {e : RelayEvent}

theorem step_of_stopped (h : s.running = false) : step node s e = s := by
  unfold step
  rw [if_pos h]

theorem run_of_stopped (h : s.running = false) (events : List RelayEvent) :
    run node s events = s := by
  induction events with
  | nil => rfl
  | cons e events ih =>
    show run node (step node s e) events = s
    rw [step_of_stopped h, ih]

theorem step_of_running (h : s.running = true) (packet : SphinxPacket) (send : TrySend) :
    step node s (.packet packet send) =
      { s with replay := (process C packet node.secret s.replay).2 }.onProcessed node send
        (process C packet node.secret s.replay).1 := by
  unfold step
  rw [if_neg (by simp [h])]
  rfl

theorem onProcessed_of_sink {nextHop : RelayId} (h : isCoverSinkHop nextHop = true)
    (send : TrySend) (q : SphinxPacket) :
    s.onProcessed node send (.ok (.forward nextHop q)) =
      { s with
        stats := { s.stats with coverOnionSinkCount := s.stats.coverOnionSinkCount + 1 } } :=
  if_pos h

theorem onProcessed_of_real {nextHop : RelayId} (h : isCoverSinkHop nextHop = false)
    (send : TrySend) (q : SphinxPacket) :
    s.onProcessed node send (.ok (.forward nextHop q)) =
      { s with
        round := s.round.observeRealFlow
        rng := (node.sampleMixingDelay s.rng).2
        stats := { s.stats with forwardedCount := s.stats.forwardedCount + 1 }
        }.trySendDropNewest ⟨nextHop, q, (node.sampleMixingDelay s.rng).1⟩ send :=
  if_neg (by simp [h])

/-- Only a closed queue stops the task. -/
theorem running_step_packet (node : RelayNode C) (h : s.running = true) (packet : SphinxPacket)
    {send : TrySend} (hsend : send ≠ .closed) : (step node s (.packet packet send)).running = true := by
  rw [step_of_running h]
  rcases (process C packet node.secret s.replay).1 with e | (⟨nextHop, q⟩ | _ | _)
  · cases e <;> exact h
  · cases hsink : isCoverSinkHop nextHop with
    | true =>
      rw [onProcessed_of_sink hsink]
      exact h
    | false =>
      rw [onProcessed_of_real hsink]
      cases send with
      | sent => exact h
      | full => exact h
      | closed => exact absurd rfl hsend
  · exact h
  · exact h

/-- A round of one packet that finds the queue open. -/
theorem running_round (node : RelayNode C) (h : s.running = true) (dial : SecurityDial)
    (requirement : CoverRequirement) (packet : SphinxPacket) {send : TrySend}
    (hsend : send ≠ .closed) :
    (run node (step node s (.begin dial requirement)) [.packet packet send]).running = true := by
  refine running_step_packet node ?_ packet hsend
  unfold step
  rw [if_neg (by simp [h])]
  exact h

/-- Its counts. -/
theorem count_round (node : RelayNode C) (h : s.running = true) (dial : SecurityDial)
    (requirement : CoverRequirement) (packet : SphinxPacket) (send : TrySend) :
    Run.count (step node) (real node) (step node s (.begin dial requirement))
        [.packet packet send] = (isReal (process C packet node.secret s.replay).1).toNat ∧
      Run.count (step node) (placed node) (step node s (.begin dial requirement))
        [.packet packet send] =
          (isReal (process C packet node.secret s.replay).1 && decide (send = .sent)).toNat := by
  have hreplay : (step node s (.begin dial requirement)).replay = s.replay := by
    unfold step
    rw [if_neg (by simp [h])]
  unfold Run.count Run.count
  unfold real placed
  rw [hreplay]
  exact ⟨rfl, rfl⟩

/-- A peeled packet counts if it is real, and is on the queue if there was room. -/
theorem onProcessed_spec {result : Except CryptoError Processed} {send : TrySend}
    (hactive : s.round.active = true) (hrunning : (s.onProcessed node send result).running = true) :
    (s.onProcessed node send result).round =
        { s.round with realFlowCount := s.round.realFlowCount + (isReal result).toNat } ∧
      (s.onProcessed node send result).outbound.length =
        s.outbound.length + (isReal result && decide (send = .sent)).toNat ∧
      (s.onProcessed node send result).cover = s.cover := by
  rcases result with e | (⟨nextHop, q⟩ | _ | _)
  · cases e <;> exact ⟨rfl, rfl, rfl⟩
  · have hreal : isReal (.ok (.forward nextHop q)) = !isCoverSinkHop nextHop := rfl
    cases hsink : isCoverSinkHop nextHop with
    | true =>
      rw [onProcessed_of_sink hsink, hreal, hsink]
      exact ⟨rfl, rfl, rfl⟩
    | false =>
      rw [onProcessed_of_real hsink] at hrunning ⊢
      rw [hreal, hsink]
      have hround : s.round.observeRealFlow =
          { s.round with realFlowCount := s.round.realFlowCount + 1 } := if_pos hactive
      cases send with
      | sent =>
        exact ⟨hround, List.length_append, rfl⟩
      | full => exact ⟨hround, rfl, rfl⟩
      | closed => cases hrunning
  · exact ⟨rfl, rfl, rfl⟩
  · exact ⟨rfl, rfl, rfl⟩

/-- What a packet does to the round and the queues. -/
theorem step_of_not_command (he : isCommand e = false) (hactive : s.round.active = true)
    (hrunning : (step node s e).running = true) :
    (step node s e).round =
        { s.round with realFlowCount := s.round.realFlowCount + (real node s e).toNat } ∧
      (step node s e).outbound.length = s.outbound.length + (placed node s e).toNat ∧
      (step node s e).cover = s.cover := by
  have hbefore : s.running = true := by
    by_contra hstopped
    rw [step_of_stopped (eq_false_of_ne_true hstopped)] at hrunning
    exact hstopped hrunning
  cases e with
  | begin dial requirement => cases he
  | endRound taken => cases he
  | closed =>
    unfold step at hrunning
    rw [if_neg (by simp [hbefore])] at hrunning
    cases hrunning
  | packet packet send =>
    rw [step_of_running hbefore] at hrunning ⊢
    exact onProcessed_spec hactive hrunning

/-- **Within a round** every real packet is counted, and those that find room are queued. -/
theorem run_of_not_command {events : List RelayEvent} (hevents : ∀ e ∈ events, isCommand e = false)
    (hactive : s.round.active = true) (hrunning : (run node s events).running = true) :
    (run node s events).round =
        { s.round with
          realFlowCount := s.round.realFlowCount + Run.count (step node) (real node) s events } ∧
      (run node s events).outbound.length =
        s.outbound.length + Run.count (step node) (placed node) s events ∧
      (run node s events).cover = s.cover := by
  induction events generalizing s with
  | nil => exact ⟨rfl, rfl, rfl⟩
  | cons e events ih =>
    have hnext : (step node s e).running = true := by
      by_contra hstopped
      have hsame : run node (step node s e) events = step node s e :=
        run_of_stopped (eq_false_of_ne_true hstopped) events
      change (run node (step node s e) events).running = true at hrunning
      rw [hsame] at hrunning
      exact hstopped hrunning
    obtain ⟨hround, hout, hcover⟩ :=
      step_of_not_command (hevents e List.mem_cons_self) hactive hnext
    have hactive' : (step node s e).round.active = true := by
      rw [hround]
      exact hactive
    obtain ⟨hround', hout', hcover'⟩ :=
      ih (fun e he => hevents e (List.mem_cons_of_mem _ he)) hactive' hrunning
    refine ⟨hround'.trans ?_, hout'.trans ?_, hcover'.trans hcover⟩
    · rw [hround, Run.count, Nat.add_assoc]
    · rw [hout, Run.count, Nat.add_assoc]

/-- The end of an active round gives an open cover channel what the round emits. -/
theorem endRound_spec (hcover : node.coverTx = true) :
    (s.endRound node none).outbound = s.outbound ∧
      (s.endRound node none).cover = s.cover ++ BulkRoundTracker.emitted
        (BulkRoundTracker.closeAndEmit C node.mlkemGenerate node.coverConfig s.round s.rng).1.1 := by
  unfold endRound
  rcases BulkRoundTracker.closeAndEmit C node.mlkemGenerate node.coverConfig s.round s.rng with
    ⟨⟨result, round⟩, rng⟩
  cases result with
  | none => exact ⟨rfl, (List.append_nil _).symm⟩
  | some result =>
    refine ⟨rfl, ?_⟩
    dsimp only
    rw [if_pos hcover, Option.getD_none, List.take_length]
    rfl

end Step

/-! ## The theorem -/

section Round

variable (node : RelayNode C) (start : RelayLoop ρ) (before mid : List RelayEvent) (target : UInt32)

/-- **What an L2 round comes to**: the packets that found room are on the outbound queue, and
the cover is what the real packets leave to be done. -/
theorem length_round (hbaseline : node.coverConfig.multihopDefense = .baselineLocalDiscard)
    (hcover : node.coverTx = true) (hmid : ∀ e ∈ mid, isCommand e = false) :
    let opened := step node (run node start before) (.begin .l2UniformBatched ⟨target⟩)
    let s := run node opened mid
    let ended := step node s (.endRound none)
    s.running = true →
      ended.outbound.length - opened.outbound.length =
          Run.count (step node) (placed node) opened mid ∧
        ended.cover.length - s.cover.length =
          requiredCoverFlowCount (Run.count (step node) (real node) opened mid) target := by
  intro opened s ended hrunning
  have hopen : opened.running = true := by
    by_contra hstopped
    have hsame : s = opened := run_of_stopped (eq_false_of_ne_true hstopped) mid
    rw [hsame] at hrunning
    exact hstopped hrunning
  have hbegin : opened.round = ⟨true, .l2UniformBatched, ⟨target⟩, 0⟩ := by
    have hstart : (run node start before).running = true := by
      by_contra hstopped
      have hsame : opened = run node start before := step_of_stopped (eq_false_of_ne_true hstopped)
      rw [hsame] at hopen
      exact hstopped hopen
    show (step node (run node start before) _).round = _
    unfold step
    rw [if_neg (by simp [hstart])]
    rfl
  obtain ⟨hround, hout, -⟩ :=
    run_of_not_command hmid (by rw [hbegin]) (show (run node opened mid).running = true from hrunning)
  have hend : ended = s.endRound node none := by
    show step node s _ = _
    unfold step
    rw [if_neg (by simp [hrunning])]
  obtain ⟨hsame, hflows⟩ := endRound_spec (s := s) hcover
  rw [← hend] at hsame hflows
  have hcounted : s.round = ⟨true, .l2UniformBatched, ⟨target⟩,
      Run.count (step node) (real node) opened mid⟩ := by
    refine hround.trans ?_
    rw [hbegin, Nat.zero_add]
  refine ⟨?_, ?_⟩
  · rw [hsame, hout, Nat.add_sub_cancel_left]
  · rw [hflows, List.length_append, Nat.add_sub_cancel_left,
      BulkRoundTracker.length_emitted_closeAndEmit _ _ hbaseline (by rw [hcounted]), hcounted,
      if_pos rfl]

/-- **When a round reaches its target.**  After any run `before`, an L2 round is begun, `mid`
happens, which is no command, and the round ends.  The packets of the round on the outbound
queue and the cover flows make up the target, and the cover is no less than what the packets on
the queue alone would have called for, if and only if the packets that found room are as many,
in 32 bits, as the round's real packets or as its target. -/
theorem round_covered_iff (hbaseline : node.coverConfig.multihopDefense = .baselineLocalDiscard)
    (hcover : node.coverTx = true) (hmid : ∀ e ∈ mid, isCommand e = false) :
    let opened := step node (run node start before) (.begin .l2UniformBatched ⟨target⟩)
    let s := run node opened mid
    let ended := step node s (.endRound none)
    let inQueue := ended.outbound.length - opened.outbound.length
    let emitted := ended.cover.length - s.cover.length
    s.running = true →
      ((target.toNat ≤ inQueue + emitted ∧ requiredCoverFlowCount inQueue target ≤ emitted) ↔
        min target.toNat (Run.count (step node) (real node) opened mid % 2 ^ 32) ≤
          Run.count (step node) (placed node) opened mid % 2 ^ 32) := by
  intro opened s ended inQueue emitted hrunning
  obtain ⟨hqueue, hemitted⟩ :=
    length_round node start before mid target hbaseline hcover hmid hrunning
  rw [show inQueue = _ from hqueue, show emitted = _ from hemitted]
  unfold requiredCoverFlowCount
  generalize Run.count (step node) (real node) opened mid = r
  generalize Run.count (step node) (placed node) opened mid = p
  have hp := Nat.mod_le p (2 ^ 32)
  omega

end Round

end RelayLoop

end Loop

/-! ## A packet that is dropped -/

namespace RelayLoop

/-- A relay with a key of the checksum suite, no mixing delay and baseline cover. -/
def checksumNode : RelayNode checksumSuite where
  secret := checksumSecret 3 5
  sampleMixingDelay := fun r => (0, r)
  coverConfig := .default checksumSuite
  mlkemGenerate := fun r => ((r, r), r)
  coverTx := true

/-- The relay forwards what was built for it. -/
theorem exists_real_checksum :
    ∃ packet, isReal (process checksumSuite packet (checksumSecret 3 5) .new).1 = true := by
  obtain ⟨headers, secrets, henc⟩ := encapsulateAll_checksum 17
  obtain ⟨packet, rng', lastHop, out, -, hrun, -⟩ := delta_processAlong_build checksumSuite
    (by decide) (by decide) (show [104, 105].length ≤ deltaLen by decide) henc
    (ready_of_keyPairs checksumSuite keyPair_checksumPath henc defaultReplayCacheCapacity)
  refine ⟨packet, ?_⟩
  have hpath : checksumPath.tail.map PathHop.id = [List.Vector.replicate 32 2] := rfl
  rw [hpath] at hrun
  unfold checksumKeys at hrun
  rw [List.map_cons, processAlong] at hrun
  unfold ReplayCache.new
  generalize (process checksumSuite packet (checksumSecret 3 5)
    (.withCapacity defaultReplayCacheCapacity)).1 = result at hrun ⊢
  split at hrun
  · cases hrun
  · cases hrun
  · cases hrun
  · rename_i nextHop q
    split at hrun
    · cases hrun
    · obtain rfl := (List.cons.inj (Prod.mk.inj (Except.ok.inj hrun)).1).1
      show (!isCoverSinkHop (List.Vector.replicate 32 2)) = true
      decide

/-- A real packet that finds room counts twice: for the round and for the queue. -/
theorem round_covered_iff_checksum :
    ∃ packet : SphinxPacket,
      let opened := step checksumNode (run checksumNode (spawn 17) []) (.begin .l2UniformBatched ⟨3⟩)
      let s := run checksumNode opened [.packet packet .sent]
      let ended := step checksumNode s (.endRound none)
      3 ≤ (ended.outbound.length - opened.outbound.length) +
        (ended.cover.length - s.cover.length) := by
  obtain ⟨packet, hreal⟩ := exists_real_checksum
  obtain ⟨hcounted, hplaced⟩ :=
    count_round checksumNode (s := spawn 17) rfl .l2UniformBatched ⟨3⟩ packet .sent
  rw [show (spawn 17 : RelayLoop UInt8).replay = .new from rfl,
    show checksumNode.secret = checksumSecret 3 5 from rfl, hreal] at hcounted hplaced
  refine ⟨packet, ((round_covered_iff checksumNode (spawn 17) [] [.packet packet .sent] 3 rfl rfl
    (by simp [isCommand]) (running_round checksumNode rfl _ _ packet (by decide))).mpr ?_).1⟩
  rw [show run checksumNode (spawn 17) [] = spawn 17 from rfl, hcounted, hplaced]
  decide

/-- **A dropped packet is missing**: a round of target 1 counts a real packet that finds the
outbound queue full, and ends with nothing on the queue and no cover. -/
theorem round_short_checksum :
    ∃ packet : SphinxPacket,
      let opened := step checksumNode (run checksumNode (spawn 17) []) (.begin .l2UniformBatched ⟨1⟩)
      let s := run checksumNode opened [.packet packet .full]
      let ended := step checksumNode s (.endRound none)
      s.running = true ∧ (ended.outbound.length - opened.outbound.length) +
        (ended.cover.length - s.cover.length) = 0 := by
  obtain ⟨packet, hreal⟩ := exists_real_checksum
  obtain ⟨hcounted, hplaced⟩ :=
    count_round checksumNode (s := spawn 17) rfl .l2UniformBatched ⟨1⟩ packet .full
  rw [show (spawn 17 : RelayLoop UInt8).replay = .new from rfl,
    show checksumNode.secret = checksumSecret 3 5 from rfl, hreal] at hcounted hplaced
  have hrunning := running_round checksumNode (s := run checksumNode (spawn 17) []) rfl
    .l2UniformBatched ⟨1⟩ packet (show TrySend.full ≠ .closed by decide)
  refine ⟨packet, hrunning, ?_⟩
  obtain ⟨hqueue, hemitted⟩ := length_round checksumNode (spawn 17) [] [.packet packet .full] 1
    rfl rfl (by simp [isCommand]) hrunning
  rw [hqueue, hemitted, show run checksumNode (spawn 17) [] = spawn 17 from rfl, hcounted, hplaced]
  decide

end RelayLoop

end Aegis
