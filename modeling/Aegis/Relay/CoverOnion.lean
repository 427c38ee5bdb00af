import Aegis.Crypto.Fragment
import Aegis.Crypto.ProcessAtomic
import Aegis.Relay.MixNode

/-!
# Cover onions at their terminal (`cover_flow.rs`, `node.rs`)

A peelable cover onion is a real packet on the wire: it is built for two hops, split into
fragments and peeled by the first of them.  The second is the sink, which no relay is, and the
terminal stops there.

* `buildPeelToSinkCoverFlow_ok` — what a flow that was built consists of.
* `process_coverOnion` — the terminal peels it, and the next hop is the sink.
* `coverOnion_inert` — **a cover onion leaves no trace** at its terminal but in the sink counter
  and the replay cache, while any other forwarded packet counts once.
-/

namespace Aegis

open Buffer

section Onion

variable {ρ : Type} (C : Suite ρ)

/-! ## What is built -/

/-- The path of a cover onion, and the generator's state when `build` is called. -/
def sinkPath (mlkemGenerate : MlKemGenerate C) (terminal : CoverOnionTerminal C) (rng : ρ) :
    List (PathHop C) × ρ :=
  let ((_, sinkPk), rng) := generateKem C mlkemGenerate rng
  let n := min coverOnionPayloadPrefix.length deltaLen
  ([⟨terminal.id, terminal.pk⟩, ⟨coverSinkHopId, sinkPk⟩], (C.fillBytes (deltaLen - n) rng).2)

/-- What `build` gets of the payload. -/
def coverOnionPayload : List UInt8 :=
  coverOnionPayloadPrefix.take (min coverOnionPayloadPrefix.length deltaLen)

theorem buildPeelToSinkCoverFlow_eq (mlkemGenerate : MlKemGenerate C)
    (terminal : CoverOnionTerminal C) (rng : ρ) :
    buildPeelToSinkCoverFlow C mlkemGenerate terminal rng =
      match build C (sinkPath C mlkemGenerate terminal rng).1 coverOnionPayload
        (sinkPath C mlkemGenerate terminal rng).2 with
      | .error e => .error e
      | .ok (packet, rng) =>
        .ok (⟨(fragmentWithRandomId C packet rng).1.1⟩, (fragmentWithRandomId C packet rng).2) :=
  rfl

theorem length_coverOnionPayload : coverOnionPayload.length ≤ deltaLen := by
  unfold coverOnionPayload
  rw [List.length_take]
  omega

/-- A KEM that never fails encapsulates to any key. -/
theorem encapsulate_of_isSome
    (hkem : ∀ pk rng, (C.mlkem.encapsulate pk rng).isSome = true) (pk : RelayKemPublic C)
    (rng : ρ) : ∃ header secret rng', encapsulate C pk rng = .ok ((header, secret), rng') := by
  obtain ⟨⟨⟨ct, ss⟩, rng₁⟩, hct⟩ := Option.isSome_iff_exists.mp
    (hkem pk.mlkem (C.x25519.randomFromRng rng).2)
  unfold encapsulate
  simp only [hct]
  exact ⟨_, _, _, rfl⟩

theorem encapsulateAll_of_isSome
    (hkem : ∀ pk rng, (C.mlkem.encapsulate pk rng).isSome = true) (path : List (PathHop C))
    (rng : ρ) :
    ∃ headers secrets rng', encapsulateAll C path rng = .ok ((headers, secrets), rng') := by
  induction path generalizing rng with
  | nil => exact ⟨_, _, _, rfl⟩
  | cons hop path ih =>
    obtain ⟨header, secret, rng₁, hhop⟩ := encapsulate_of_isSome C hkem hop.pk rng
    obtain ⟨headers, secrets, rng₂, hrest⟩ := ih rng₁
    unfold encapsulateAll
    simp only [hhop, hrest]
    exact ⟨_, _, _, rfl⟩

/-- The first hop of a path is encapsulated to first. -/
theorem encapsulate_of_encapsulateAll {hop : PathHop C} {path : List (PathHop C)} {rng rng' : ρ}
    {headers : List KemHeader} {secrets : List SharedSecret}
    (h : encapsulateAll C (hop :: path) rng = .ok ((headers, secrets), rng')) :
    ∃ rng₁, encapsulate C hop.pk rng = .ok ((headers[0]!, secrets[0]!), rng₁) := by
  unfold encapsulateAll at h
  split at h
  · cases h
  · rename_i rng₁ hhop
    split at h
    · cases h
    · simp only [Except.ok.injEq, Prod.mk.injEq] at h
      obtain ⟨⟨rfl, rfl⟩, -⟩ := h
      exact ⟨rng₁, hhop⟩

/-- A packet is built only if every hop was encapsulated to. -/
theorem encapsulateAll_of_build {path : List (PathHop C)} {payload : List UInt8} {rng rng' : ρ}
    {packet : SphinxPacket} (h : build C path payload rng = .ok (packet, rng')) :
    ∃ headers secrets rng₁, encapsulateAll C path rng = .ok ((headers, secrets), rng₁) := by
  unfold build at h
  split at h
  · cases h
  · split at h
    · cases h
    · split at h
      · cases h
      · rename_i headers secrets rng₁ henc
        exact ⟨headers, secrets, rng₁, henc⟩

variable {C} {mlkemGenerate : MlKemGenerate C} {terminal : CoverOnionTerminal C} {rng rng' : ρ}

/-- **What a flow that was built consists of**: the fragments of a packet, built for the terminal
and the sink. -/
theorem buildPeelToSinkCoverFlow_ok {flow : CoverFlow}
    (h : buildPeelToSinkCoverFlow C mlkemGenerate terminal rng = .ok (flow, rng')) :
    ∃ packet packetId rng₁, flow.cells = fragment packet packetId ∧
      build C (sinkPath C mlkemGenerate terminal rng).1 coverOnionPayload
        (sinkPath C mlkemGenerate terminal rng).2 = .ok (packet, rng₁) := by
  rw [buildPeelToSinkCoverFlow_eq] at h
  split at h
  · cases h
  · rename_i packet rng₁ hbuild
    obtain ⟨rfl, -⟩ := Prod.mk.inj (Except.ok.inj h)
    exact ⟨packet, (C.fillBytes 8 rng₁).1, rng₁, rfl, hbuild⟩

/-- With a KEM that never fails, a flow is built. -/
theorem exists_buildPeelToSinkCoverFlow
    (hkem : ∀ pk rng, (C.mlkem.encapsulate pk rng).isSome = true) :
    ∃ flow rng', buildPeelToSinkCoverFlow C mlkemGenerate terminal rng = .ok (flow, rng') := by
  obtain ⟨headers, secrets, rng₁, henc⟩ := encapsulateAll_of_isSome C hkem
    (sinkPath C mlkemGenerate terminal rng).1 (sinkPath C mlkemGenerate terminal rng).2
  have htwo : (sinkPath C mlkemGenerate terminal rng).1.length = 2 := rfl
  obtain ⟨packet, rng₂, hbuild, -⟩ := atHop_build C htwo.ge (htwo.trans_le (by decide))
    length_coverOnionPayload henc
  rw [buildPeelToSinkCoverFlow_eq, hbuild]
  exact ⟨_, _, rfl⟩

/-! ## The terminal -/

/-- No packet with the tag of this one is in the cache. -/
def Unseen (sk : RelayKemSecret C) (replay : ReplayCache) (packet : SphinxPacket) : Prop :=
  ∀ secret, Authentic C sk packet secret → replay.ctContains (replayTag C secret) = false

/-- The packet hop 0 expects is authentic at the holder of its key. -/
theorem AtHop.authentic {headers : List KemHeader} {secrets : List SharedSecret}
    {beta : Bytes betaLen} {delta : Bytes deltaLen} {packet : SphinxPacket}
    (hat : AtHop C headers secrets beta delta 0 packet) {sk : RelayKemSecret C}
    (hdec : sk.decapsulate C headers[0]! = .ok secrets[0]!) :
    Authentic C sk packet secrets[0]! := by
  refine ⟨⟨headers[0]!, ?_, hdec⟩, ?_⟩
  · rw [extractKemHeader, hat.alpha, KemHeader.readFrom_toBytes]
  · rw [verifyMac, hat.gamma, macAfterPeels, hat.beta]
    exact decide_eq_true rfl

/-- **The terminal peels its cover onion**, and the next hop is the sink. -/
theorem process_coverOnion {packet : SphinxPacket} {rng₁ : ρ}
    (hbuild : build C (sinkPath C mlkemGenerate terminal rng).1 coverOnionPayload
      (sinkPath C mlkemGenerate terminal rng).2 = .ok (packet, rng₁))
    {sk : RelayKemSecret C} (hkey : KeyPair C terminal.pk sk) {replay : ReplayCache}
    (hunseen : Unseen sk replay packet) :
    ∃ inner, (process C packet sk replay).1 = .ok (.forward coverSinkHopId inner) := by
  obtain ⟨headers, secrets, rng₂, henc⟩ := encapsulateAll_of_build C hbuild
  have htwo : (sinkPath C mlkemGenerate terminal rng).1.length = 2 := rfl
  obtain ⟨packet', rng₃, hbuild', hat⟩ := atHop_build C htwo.ge (htwo.trans_le (by decide))
    length_coverOnionPayload henc
  obtain ⟨rfl, -⟩ := Prod.mk.inj (Except.ok.inj (hbuild.symm.trans hbuild'))
  obtain ⟨-, hsecrets⟩ := length_encapsulateAll C henc
  obtain ⟨rng₄, hhop⟩ := encapsulate_of_encapsulateAll C henc
  have hdec : sk.decapsulate C headers[0]! = .ok secrets[0]! :=
    decapsulate_of_encapsulate C hkey hhop
  have hready : Ready C (sk, replay) (headers[0]!, secrets[0]!) :=
    ⟨hdec, hunseen _ (hat.authentic hdec)⟩
  obtain ⟨inner, hproc, -⟩ :=
    hat.step rfl (by omega) (by rw [htwo]; decide) (by omega) hready
  exact ⟨inner, hproc⟩

end Onion

/-! ## The theorem -/

namespace RelayLoop

variable {ρ : Type} {C : Suite ρ}

/-- **A packet for the sink** moves its counter alone. -/
theorem processOnePacket_of_sink {node : RelayNode C} {s : RelayLoop ρ} {packet inner : SphinxPacket}
    (h : (process C packet node.secret s.replay).1 = .ok (.forward coverSinkHopId inner))
    (send : TrySend) :
    s.processOnePacket node packet send =
      { s with
        replay := (process C packet node.secret s.replay).2
        stats := { s.stats with coverOnionSinkCount := s.stats.coverOnionSinkCount + 1 } } := by
  unfold processOnePacket
  dsimp only
  rw [h]
  exact onProcessed_of_sink (decide_eq_true rfl) send inner

/-- **Any other packet that is forwarded** is counted for the round. -/
theorem round_processOnePacket_of_real {node : RelayNode C} {s : RelayLoop ρ}
    {packet inner : SphinxPacket} {nextHop : RelayId}
    (h : (process C packet node.secret s.replay).1 = .ok (.forward nextHop inner))
    (hreal : nextHop ≠ coverSinkHopId) (send : TrySend) :
    (s.processOnePacket node packet send).round = s.round.observeRealFlow := by
  unfold processOnePacket
  dsimp only
  rw [h, onProcessed_of_real (decide_eq_false hreal)]
  cases send <;> rfl

/-- A real packet is one peeled to a next hop that is not the sink. -/
theorem forward_of_isReal {result : Except CryptoError Processed} (h : isReal result = true) :
    ∃ nextHop inner, result = .ok (.forward nextHop inner) ∧ nextHop ≠ coverSinkHopId := by
  unfold isReal at h
  split at h
  · rename_i nextHop inner
    refine ⟨nextHop, inner, rfl, fun hsink => ?_⟩
    rw [hsink] at h
    exact absurd h (by decide)
  · cases h

/-- **Cover onions are inert.**  With a KEM that never fails a flow is built, for every terminal
and whatever the generator draws.  No cell of it is discarded as cover, and its cells reassemble to
a packet.  A relay that holds the terminal's key and has not seen the packet's tag peels it to the
sink, and processing it changes the sink counter and the replay cache and nothing else.  Any other
packet that is peeled to a next hop counts as one real flow of an active round. -/
theorem coverOnion_inert (C : Suite ρ) (mlkemGenerate : MlKemGenerate C)
    (terminal : CoverOnionTerminal C) (rng : ρ) :
    ((∀ pk rng, (C.mlkem.encapsulate pk rng).isSome = true) →
        ∃ flow rng', buildPeelToSinkCoverFlow C mlkemGenerate terminal rng = .ok (flow, rng')) ∧
      (∀ flow rng', buildPeelToSinkCoverFlow C mlkemGenerate terminal rng = .ok (flow, rng') →
        (∀ cell ∈ flow.cells, isDiscardCoverFragment cell = false) ∧
          ∃ packet, reassemble flow.cells = .ok packet ∧
            ∀ (node : RelayNode C) (s : RelayLoop ρ) (send : TrySend),
              KeyPair C terminal.pk node.secret → Unseen node.secret s.replay packet →
              ∃ inner cache,
                process C packet node.secret s.replay =
                  (.ok (.forward coverSinkHopId inner), cache) ∧
                s.processOnePacket node packet send =
                  { s with
                    replay := cache
                    stats :=
                      { s.stats with
                        coverOnionSinkCount := s.stats.coverOnionSinkCount + 1 } }) ∧
      ∀ (node : RelayNode C) (s : RelayLoop ρ) (packet inner : SphinxPacket) (nextHop : RelayId)
        (send : TrySend),
        (process C packet node.secret s.replay).1 = .ok (.forward nextHop inner) →
        nextHop ≠ coverSinkHopId → s.round.active = true →
        (s.processOnePacket node packet send).round =
          { s.round with realFlowCount := s.round.realFlowCount + 1 } := by
  refine ⟨exists_buildPeelToSinkCoverFlow, fun flow rng' hflow => ?_, ?_⟩
  · obtain ⟨packet, packetId, rng₁, hcells, hbuild⟩ := buildPeelToSinkCoverFlow_ok hflow
    rw [hcells]
    refine ⟨fun cell hcell => ?_, packet, reassemble_fragment packet packetId, ?_⟩
    · obtain ⟨i, -, rfl⟩ := List.mem_map.mp hcell
      exact isDiscardCoverFragment_encodeFragmentCell packetId (UInt8.ofNat i) packet
    · intro node s send hkey hunseen
      obtain ⟨inner, hproc⟩ := process_coverOnion hbuild hkey hunseen
      exact ⟨inner, _, Prod.ext hproc rfl, processOnePacket_of_sink hproc send⟩
  · intro node s packet inner nextHop send hproc hreal hactive
    rw [round_processOnePacket_of_real hproc hreal]
    exact if_pos hactive

/-- A cover onion at a relay of the checksum suite that has just started, and a packet of the
two-hop path at the relay when its round has begun. -/
theorem coverOnion_inert_checksum :
    (∃ flow rng' packet,
      buildPeelToSinkCoverFlow checksumSuite checksumNode.mlkemGenerate
        ⟨.replicate 32 1, checksumPublic 3 5⟩ 17 = .ok (flow, rng') ∧
      reassemble flow.cells = .ok packet ∧
      ((spawn 17).processOnePacket checksumNode packet .sent).stats.coverOnionSinkCount = 1 ∧
      ((spawn 17).processOnePacket checksumNode packet .sent).outbound = [] ∧
      ((spawn 17).processOnePacket checksumNode packet .sent).round = .new) ∧
      let opened := step checksumNode (spawn 17) (.begin .l2UniformBatched ⟨3⟩)
      ∃ packet, isReal (process checksumSuite packet checksumNode.secret opened.replay).1 = true ∧
        (opened.processOnePacket checksumNode packet .full).round.realFlowCount = 1 := by
  obtain ⟨hbuild, hinert, hreal⟩ := coverOnion_inert checksumSuite checksumNode.mlkemGenerate
    ⟨.replicate 32 1, checksumPublic 3 5⟩ 17
  constructor
  · obtain ⟨flow, rng', hflow⟩ := hbuild fun _ _ => rfl
    obtain ⟨-, packet, hpacket, hterminal⟩ := hinert flow rng' hflow
    have hunseen : Unseen checksumNode.secret (spawn (17 : UInt8)).replay packet :=
      fun secret _ => ReplayCache.ctContains_withCapacity _ _
    obtain ⟨inner, cache, -, hafter⟩ :=
      hterminal checksumNode (spawn 17) .sent (keyPair_checksum 3 5) hunseen
    refine ⟨flow, rng', packet, hflow, hpacket, ?_⟩
    rw [hafter]
    exact ⟨rfl, rfl, rfl⟩
  · intro opened
    obtain ⟨packet, hpacket⟩ := exists_real_checksum
    obtain ⟨nextHop, inner, hproc, hne⟩ := forward_of_isReal hpacket
    refine ⟨packet, hpacket, ?_⟩
    rw [hreal checksumNode opened packet inner nextHop .full hproc hne rfl]
    rfl

end RelayLoop

end Aegis
