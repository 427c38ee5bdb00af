import Aegis.Crypto.Sphinx
import Aegis.Relay.Inbound

/-!
# Bulk cover (`cover_flow.rs`)

A relay counts the real flows of a bulk round and, at its end, makes up the difference to the
round's target with synthetic ones: bursts of fragment cells of random bytes, tagged so that
the next relay discards them.  Other defenses add flows of their own.

* `length_generateFlows`, `tagged_of_mem_generateFlows` — so many flows, each of cells that carry
  the tag.
* `BulkRoundTracker.length_emitted_closeAndEmit` — how many flows the end of a round emits in
  baseline mode.
-/

namespace Aegis

open Buffer

/-! ## Requirements (`aegis-negotiator`) -/

/-- By increasing cost. -/
inductive SecurityDial where
  | l0Raw
  | l1Bucketed
  | l2UniformBatched
  deriving DecidableEq, Repr

/-- The observed flow count a bulk round is to have. -/
structure CoverRequirement where
  targetFlowCount : UInt32
  deriving DecidableEq, Repr

/-- `target.saturating_sub(real_participants as u32)`. -/
def requiredCoverFlowCount (realParticipants : ℕ) (target : UInt32) : ℕ :=
  target.toNat - realParticipants % 2 ^ 32

/-- An L2 round needs cover when its real flows fall short of the target. -/
def dialNeedsCoverPlan (dial : SecurityDial) (realParticipants : ℕ) (target : UInt32) : Bool :=
  decide (dial = .l2UniformBatched) && decide (0 < requiredCoverFlowCount realParticipants target)

/-! ## Plans -/

/-- What is done against an observer of several hops. -/
inductive CoverMultihopDefense where
  | baselineLocalDiscard
  | matchedLocalDiscard
  | coverOnions
  | coverOnionsScaffold
  deriving DecidableEq, Repr

/-- How many flows of each kind a round's end emits. -/
structure CoverEmitPlan where
  localDiscardFlows : ℕ
  onionScaffoldFlows : ℕ
  onionPeelableFlows : ℕ
  deriving DecidableEq, Repr

namespace CoverEmitPlan

/-- Saturating sums of `u32`. -/
def totalFlows (p : CoverEmitPlan) : ℕ :=
  min (min (p.localDiscardFlows + p.onionScaffoldFlows) (2 ^ 32 - 1) + p.onionPeelableFlows)
    (2 ^ 32 - 1)

/-- The plan emits nothing. -/
def isEmpty (p : CoverEmitPlan) : Bool := decide (p.totalFlows = 0)

end CoverEmitPlan

/-- How many flows of each kind a round's end is to emit. -/
def planCoverEmit (defense : CoverMultihopDefense) (dial : SecurityDial) (realParticipants : ℕ)
    (target matchedCoverFlows coverOnionFlows : UInt32) : CoverEmitPlan :=
  if dial ≠ .l2UniformBatched then ⟨0, 0, 0⟩
  else
    match defense with
    | .baselineLocalDiscard => ⟨requiredCoverFlowCount realParticipants target, 0, 0⟩
    | .matchedLocalDiscard => ⟨matchedCoverFlows.toNat, 0, 0⟩
    | .coverOnions =>
      ⟨requiredCoverFlowCount realParticipants target, 0, coverOnionFlows.toNat⟩
    | .coverOnionsScaffold =>
      ⟨requiredCoverFlowCount realParticipants target, coverOnionFlows.toNat, 0⟩

/-! ## Cells -/

/-- `COVER_SINK_HOP_ID`. -/
def coverSinkHopId : Bytes 32 :=
  ⟨[0xA3, 0xC0, 0x53, 0x4B] ++ List.replicate 27 0 ++ [0x53], rfl⟩

/-- What the payload of a peelable cover onion begins with. -/
def coverOnionPayloadPrefix : List UInt8 := ascii "aegis-cover-onion-sink-v1"

/-- The next hop is the sink. -/
def isCoverSinkHop (nextHop : Bytes 32) : Bool := decide (nextHop = coverSinkHopId)

/-- One synthetic flow. -/
structure CoverFlow where
  cells : List Cell

section Generate

variable {ρ : Type} (C : Suite ρ)

/-- A fragment cell with a tag in its reserved bytes and random data. -/
def encodeCoverFragmentCell (packetId : PacketId) (index : UInt8) (reserved : Bytes 2) (rng : ρ) :
    Cell × ρ :=
  let buf : Cell := Bytes.zero cellLen
  let buf := buf.put offCommand [Command.sphinxFragment.toU8]
  let buf := buf.put offFragIdx [index]
  let buf := buf.put offPacketId packetId.toList
  let buf := buf.put offReserved reserved.toList
  let (data, rng) := C.fillBytes (copyLen index) rng
  (buf.put offPayload data.toList, rng)

/-- The hop a peelable cover onion is built for. -/
structure CoverOnionTerminal where
  id : Bytes 32
  pk : RelayKemPublic C

/-- How the flows of a round's end are made. -/
structure CoverFlowConfig where
  cellsPerFlow : ℕ
  multihopDefense : CoverMultihopDefense
  matchedCoverFlows : UInt32
  coverOnionFlows : UInt32
  coverOnionTerminal : Option (CoverOnionTerminal C)

/-- `CoverFlowConfig::default`. -/
def CoverFlowConfig.default : CoverFlowConfig C :=
  ⟨sphinxFragmentCount, .baselineLocalDiscard, 1, 1, none⟩

/-- Cells `i`, `i + 1`, … of a flow. -/
def coverCells (packetId : PacketId) (reserved : Bytes 2) : ℕ → ℕ → ρ → List Cell × ρ
  | _, 0, rng => ([], rng)
  | i, n + 1, rng =>
    let (cell, rng) := encodeCoverFragmentCell C packetId (UInt8.ofNat i) reserved rng
    let (cells, rng) := coverCells packetId reserved (i + 1) n rng
    (cell :: cells, rng)

/-- One flow: a fresh packet id, and as many cells as are asked for. -/
def generateOneFlow (cellsPerFlow : ℕ) (reserved : Bytes 2) (rng : ρ) : CoverFlow × ρ :=
  let (packetId, rng) := C.fillBytes 8 rng
  let (cells, rng) := coverCells C packetId reserved 0 cellsPerFlow rng
  (⟨cells⟩, rng)

/-- So many flows with a tag. -/
def generateFlows (cellsPerFlow : ℕ) (reserved : Bytes 2) : ℕ → ρ → List CoverFlow × ρ
  | 0, rng => ([], rng)
  | n + 1, rng =>
    let (flow, rng) := generateOneFlow C cellsPerFlow reserved rng
    let (flows, rng) := generateFlows cellsPerFlow reserved n rng
    (flow :: flows, rng)

/-- `MlKem768::generate`, which `RelayKemSecret::generate` calls. -/
abbrev MlKemGenerate := ρ → (C.mlkem.DecapsulationKey × C.mlkem.EncapsulationKey) × ρ

/-- `RelayKemSecret::generate`. -/
def generateKem (mlkemGenerate : MlKemGenerate C) (rng : ρ) :
    (RelayKemSecret C × RelayKemPublic C) × ρ :=
  let (x25519, rng) := C.x25519.randomFromRng rng
  let ((mlkem, mlkemPub), rng) := mlkemGenerate rng
  ((⟨x25519, mlkem⟩, ⟨C.x25519.publicKey x25519, mlkemPub⟩), rng)

/-- A valid packet over the terminal hop and the sink, in fragments. -/
def buildPeelToSinkCoverFlow (mlkemGenerate : MlKemGenerate C) (terminal : CoverOnionTerminal C)
    (rng : ρ) : Except CryptoError (CoverFlow × ρ) :=
  let ((_, sinkPk), rng) := generateKem C mlkemGenerate rng
  let path : List (PathHop C) := [⟨terminal.id, terminal.pk⟩, ⟨coverSinkHopId, sinkPk⟩]
  let n := min coverOnionPayloadPrefix.length deltaLen
  let (_, rng) := C.fillBytes (deltaLen - n) rng
  match build C path (coverOnionPayloadPrefix.take n) rng with
  | .error e => .error e
  | .ok (packet, rng) =>
    let ((cells, _), rng) := fragmentWithRandomId C packet rng
    .ok (⟨cells⟩, rng)

/-- Peelable flows, until one cannot be built. -/
def generatePeelable (mlkemGenerate : MlKemGenerate C) (terminal : CoverOnionTerminal C) :
    ℕ → ρ → List CoverFlow × ρ
  | 0, rng => ([], rng)
  | n + 1, rng =>
    match buildPeelToSinkCoverFlow C mlkemGenerate terminal rng with
    | .error _ => ([], rng)
    | .ok (flow, rng) =>
      let (flows, rng) := generatePeelable mlkemGenerate terminal n rng
      (flow :: flows, rng)

/-- `CoverFlowGenerator::generate_plan`. -/
def generatePlan (mlkemGenerate : MlKemGenerate C) (requirement : CoverRequirement)
    (config : CoverFlowConfig C) (dial : SecurityDial) (realParticipants : ℕ) (rng : ρ) :
    (CoverEmitPlan × List CoverFlow) × ρ :=
  let plan := planCoverEmit config.multihopDefense dial realParticipants
    requirement.targetFlowCount config.matchedCoverFlows config.coverOnionFlows
  let (discarded, rng) :=
    generateFlows C config.cellsPerFlow coverFragmentReserved plan.localDiscardFlows rng
  let (scaffold, rng) :=
    generateFlows C config.cellsPerFlow coverOnionScaffoldReserved plan.onionScaffoldFlows rng
  let (peelable, rng) :=
    match config.coverOnionTerminal with
    | none => ([], rng)
    | some terminal => generatePeelable C mlkemGenerate terminal plan.onionPeelableFlows rng
  (({ plan with onionPeelableFlows := peelable.length }, discarded ++ scaffold ++ peelable), rng)

/-! ## Rounds -/

/-- One bulk round. -/
structure BulkRoundTracker where
  active : Bool
  dial : SecurityDial
  requirement : CoverRequirement
  realFlowCount : ℕ
  deriving DecidableEq, Repr

/-- The outcome of a round's end that emits. -/
structure CoverEmitResult where
  coverFlows : List CoverFlow
  coverFlowCount : ℕ
  coverCellCount : ℕ
  plan : CoverEmitPlan
  multihopDefense : CoverMultihopDefense

namespace BulkRoundTracker

/-- No round has begun. -/
def new : BulkRoundTracker := ⟨false, .l0Raw, ⟨0⟩, 0⟩

/-- Start a round, with its count at zero. -/
def begin (_ : BulkRoundTracker) (dial : SecurityDial) (requirement : CoverRequirement) :
    BulkRoundTracker :=
  ⟨true, dial, requirement, 0⟩

/-- A flow counts in a round that is active. -/
def observeRealFlow (t : BulkRoundTracker) : BulkRoundTracker :=
  if t.active then { t with realFlowCount := t.realFlowCount + 1 } else t

/-- Whether a round's end emits at all. -/
def shouldEmit (t : BulkRoundTracker) (config : CoverFlowConfig C) (plan : CoverEmitPlan) : Bool :=
  match config.multihopDefense with
  | .baselineLocalDiscard =>
    dialNeedsCoverPlan t.dial t.realFlowCount t.requirement.targetFlowCount
  | _ => decide (t.dial = .l2UniformBatched) && !plan.isEmpty

/-- The round is over, and its cover is made. -/
def closeAndEmit (mlkemGenerate : MlKemGenerate C) (config : CoverFlowConfig C)
    (t : BulkRoundTracker) (rng : ρ) : (Option CoverEmitResult × BulkRoundTracker) × ρ :=
  if t.active = false then ((none, t), rng)
  else
    let closed := { t with active := false, realFlowCount := 0 }
    let plan := planCoverEmit config.multihopDefense t.dial t.realFlowCount
      t.requirement.targetFlowCount config.matchedCoverFlows config.coverOnionFlows
    if t.shouldEmit C config plan = false then ((none, closed), rng)
    else
      let ((plan, flows), rng) :=
        generatePlan C mlkemGenerate t.requirement config t.dial t.realFlowCount rng
      if plan.isEmpty ∧ flows.isEmpty then ((none, closed), rng)
      else
        ((some
          { coverFlows := flows
            coverFlowCount := flows.length % 2 ^ 32
            coverCellCount := (flows.map fun f => f.cells.length).sum
            plan := plan
            multihopDefense := config.multihopDefense }, closed), rng)

end BulkRoundTracker

/-! ## What cover looks like -/

section Tagged

variable (packetId : PacketId) (index : UInt8) (reserved : Bytes 2) (rng : ρ)

theorem byte_command_encodeCoverFragmentCell :
    (encodeCoverFragmentCell C packetId index reserved rng).1.byte offCommand (by decide) =
      Command.sphinxFragment.toU8 := by
  unfold encodeCoverFragmentCell
  dsimp only
  rw [Bytes.byte_put_of_not_mem _ _ _ (Or.inl (by decide)),
    Bytes.byte_put_of_not_mem _ _ _ (Or.inl (by decide)),
    Bytes.byte_put_of_not_mem _ _ _ (Or.inl (by decide)),
    Bytes.byte_put_of_not_mem _ _ _ (Or.inl (by decide)),
    Bytes.byte_put_of_mem _ _ _ (by decide) (by decide)]
  rfl

theorem window_reserved_encodeCoverFragmentCell :
    (encodeCoverFragmentCell C packetId index reserved rng).1.window offReserved 2 (by decide) =
      reserved := by
  apply Bytes.ext_toList
  unfold encodeCoverFragmentCell
  dsimp only
  rw [Bytes.toList_window, Bytes.toList_put, slice_writeAt_of_disjoint (Or.inl (by decide)),
    Bytes.toList_put, slice_writeAt reserved.toList_length]
  rw [Bytes.toList_put, length_writeAt, List.Vector.toList_length]
  decide

/-- **A cover cell carries its tag.** -/
theorem isTaggedFragment_encodeCoverFragmentCell :
    isTaggedFragment reserved (encodeCoverFragmentCell C packetId index reserved rng).1 = true := by
  unfold isTaggedFragment
  rw [byte_command_encodeCoverFragmentCell, Command.fromU8_toU8, if_neg (not_not.mpr rfl)]
  exact decide_eq_true (window_reserved_encodeCoverFragmentCell C packetId index reserved rng)

end Tagged

theorem tagged_of_mem_coverCells {packetId : PacketId} {reserved : Bytes 2} {i n : ℕ} {rng : ρ}
    {cell : Cell} (h : cell ∈ (coverCells C packetId reserved i n rng).1) :
    isTaggedFragment reserved cell = true := by
  induction n generalizing i rng with
  | zero => exact absurd h List.not_mem_nil
  | succ n ih =>
    rcases List.mem_cons.mp h with rfl | h
    · exact isTaggedFragment_encodeCoverFragmentCell C packetId _ reserved rng
    · exact ih h

/-- **Every cell of a generated flow carries the tag.** -/
theorem tagged_of_mem_generateFlows {cellsPerFlow k : ℕ} {reserved : Bytes 2} {rng : ρ}
    {flow : CoverFlow} (h : flow ∈ (generateFlows C cellsPerFlow reserved k rng).1) :
    ∀ cell ∈ flow.cells, isTaggedFragment reserved cell = true := by
  induction k generalizing rng with
  | zero => exact absurd h List.not_mem_nil
  | succ k ih =>
    rcases List.mem_cons.mp h with rfl | h
    · exact fun cell hcell => tagged_of_mem_coverCells C hcell
    · exact ih h

theorem length_generateFlows (cellsPerFlow : ℕ) (reserved : Bytes 2) (k : ℕ) (rng : ρ) :
    (generateFlows C cellsPerFlow reserved k rng).1.length = k := by
  induction k generalizing rng with
  | zero => rfl
  | succ k ih =>
    show (generateFlows C cellsPerFlow reserved k _).1.length + 1 = k + 1
    rw [ih]

theorem length_coverCells (packetId : PacketId) (reserved : Bytes 2) (i n : ℕ) (rng : ρ) :
    (coverCells C packetId reserved i n rng).1.length = n := by
  induction n generalizing i rng with
  | zero => rfl
  | succ n ih =>
    show (coverCells C packetId reserved (i + 1) n _).1.length + 1 = n + 1
    rw [ih]

theorem length_cells_generateFlows {cellsPerFlow k : ℕ} {reserved : Bytes 2} {rng : ρ}
    {flow : CoverFlow} (h : flow ∈ (generateFlows C cellsPerFlow reserved k rng).1) :
    flow.cells.length = cellsPerFlow := by
  induction k generalizing rng with
  | zero => exact absurd h List.not_mem_nil
  | succ k ih =>
    rcases List.mem_cons.mp h with rfl | h
    · exact length_coverCells C _ reserved 0 cellsPerFlow _
    · exact ih h

/-- **The flows of a plan without peelable ones**: so many, each of so many cells. -/
theorem generatePlan_of_no_peelable (mlkemGenerate : MlKemGenerate C)
    {requirement : CoverRequirement} {config : CoverFlowConfig C} {dial : SecurityDial}
    {real discarded scaffold : ℕ} (rng : ρ)
    (hplan : planCoverEmit config.multihopDefense dial real requirement.targetFlowCount
      config.matchedCoverFlows config.coverOnionFlows = ⟨discarded, scaffold, 0⟩) :
    (generatePlan C mlkemGenerate requirement config dial real rng).1.2.length =
        discarded + scaffold ∧
      ∀ flow ∈ (generatePlan C mlkemGenerate requirement config dial real rng).1.2,
        flow.cells.length = config.cellsPerFlow := by
  have hflows : ∃ rng', (generatePlan C mlkemGenerate requirement config dial real rng).1.2 =
      (generateFlows C config.cellsPerFlow coverFragmentReserved discarded rng).1 ++
        (generateFlows C config.cellsPerFlow coverOnionScaffoldReserved scaffold rng').1 := by
    unfold generatePlan
    rw [hplan]
    dsimp only
    refine ⟨(generateFlows C config.cellsPerFlow coverFragmentReserved discarded rng).2, ?_⟩
    cases config.coverOnionTerminal with
    | none => exact List.append_nil _
    | some terminal => exact List.append_nil _
  obtain ⟨rng', hflows⟩ := hflows
  rw [hflows]
  refine ⟨?_, fun flow hflow => ?_⟩
  · rw [List.length_append, length_generateFlows, length_generateFlows]
  · rcases List.mem_append.mp hflow with h | h
    · exact length_cells_generateFlows C h
    · exact length_cells_generateFlows C h

/-! ## The end of a round -/

namespace BulkRoundTracker

/-- The flows of a round's end. -/
def emitted (result : Option CoverEmitResult) : List CoverFlow :=
  match result with
  | some r => r.coverFlows
  | none => []

section Close

variable {C} (mlkemGenerate : MlKemGenerate C) {config : CoverFlowConfig C} {t : BulkRoundTracker}
  (rng : ρ)

theorem active_closeAndEmit : (closeAndEmit C mlkemGenerate config t rng).1.2.active = false := by
  unfold closeAndEmit
  dsimp only
  split_ifs with hactive
  · exact hactive
  · rfl
  · rfl
  · rfl

/-- The flows emitted are those of the plan, when there is something to emit. -/
theorem emitted_closeAndEmit (hactive : t.active = true) :
    emitted (closeAndEmit C mlkemGenerate config t rng).1.1 =
      if t.shouldEmit C config (planCoverEmit config.multihopDefense t.dial t.realFlowCount
        t.requirement.targetFlowCount config.matchedCoverFlows config.coverOnionFlows) = true
      then (generatePlan C mlkemGenerate t.requirement config t.dial t.realFlowCount rng).1.2
      else [] := by
  unfold closeAndEmit
  rw [if_neg (by simp [hactive])]
  dsimp only
  split_ifs with hskip hemit hempty
  · rw [hskip] at hemit
    cases hemit
  · rfl
  · exact (List.isEmpty_iff.mp hempty.2).symm
  · rename_i hemit
    exact absurd (eq_false_of_ne_true hemit) hskip
  · rfl
  · rename_i hemit
    exact absurd (eq_false_of_ne_true hemit) hskip

theorem planCoverEmit_baseline (hbaseline : config.multihopDefense = .baselineLocalDiscard)
    (requirement : CoverRequirement) (real : ℕ) :
    planCoverEmit config.multihopDefense .l2UniformBatched real requirement.targetFlowCount
        config.matchedCoverFlows config.coverOnionFlows =
      ⟨requiredCoverFlowCount real requirement.targetFlowCount, 0, 0⟩ := by
  unfold planCoverEmit
  rw [hbaseline]
  rfl

/-- The flows of a baseline plan. -/
theorem length_generatePlan_baseline (hbaseline : config.multihopDefense = .baselineLocalDiscard)
    (requirement : CoverRequirement) (real : ℕ) :
    (generatePlan C mlkemGenerate requirement config .l2UniformBatched real rng).1.2.length =
      requiredCoverFlowCount real requirement.targetFlowCount :=
  (generatePlan_of_no_peelable C mlkemGenerate rng
    (planCoverEmit_baseline hbaseline requirement real)).1

/-- **Baseline mode pads** an L2 round to its target, and no other. -/
theorem length_emitted_closeAndEmit (hbaseline : config.multihopDefense = .baselineLocalDiscard)
    (hactive : t.active = true) :
    (emitted (closeAndEmit C mlkemGenerate config t rng).1.1).length =
      if t.dial = .l2UniformBatched then
        requiredCoverFlowCount t.realFlowCount t.requirement.targetFlowCount
      else 0 := by
  rw [emitted_closeAndEmit mlkemGenerate rng hactive]
  unfold shouldEmit dialNeedsCoverPlan
  rw [hbaseline]
  by_cases hdial : t.dial = .l2UniformBatched
  · rw [hdial, if_pos rfl]
    split_ifs with hneeded
    · exact length_generatePlan_baseline mlkemGenerate rng hbaseline t.requirement t.realFlowCount
    · have hnone : ¬0 < requiredCoverFlowCount t.realFlowCount t.requirement.targetFlowCount := by
        simpa using hneeded
      exact (Nat.eq_zero_of_not_pos hnone).symm
  · simp [hdial]

end Close

end BulkRoundTracker

end Generate

end Aegis
