import Aegis.Relay.MixnetTracks

/-!
# Delivery in the network

* `exits_of_run` — **what the exits have been handed**, in every run: nothing is forged, misrouted
  or delivered twice, and nothing is lost that is not counted.
* `drains_of_run` — **the network comes to rest**: it takes no more steps than what was sent calls
  for, never gets stuck, and from every state can deliver what is on its way.
-/

namespace Aegis

open Buffer Placement

variable {ρ : Type} {C : Suite ρ}

/-! ## Counting -/

/-- The packet has not come to an end. -/
def Place.inTransit {ι κ : Type} : Place ι κ → Bool
  | .wire _ _ | .queue _ _ | .outbound _ => true
  | _ => false

/-- **Every item is on its way, at an exit, or has been dropped.** -/
theorem length_eq_sum_queue {ι κ τ : Type} [DecidableEq ι] [DecidableEq κ] [Fintype ι] [Fintype κ]
    (l : List (Place ι κ × τ)) :
    l.length = (l.filter fun x => x.1.inTransit).length + ∑ i, (queue l (.exit i)).length +
      (∑ src, ∑ dst, (queue l (.shed src dst)).length +
        ∑ i, ((queue l (.unmixed i)).length + (queue l (.undispatched i)).length)) := by
  have hcons : ∀ (x : Place ι κ × τ) (l : List (Place ι κ × τ)) p,
      (queue (x :: l) p).length = (queue l p).length + if x.1 = p then 1 else 0 := by
    intro x l p
    rw [queue_cons]
    split <;> rfl
  induction l with
  | nil => simp [queue]
  | cons x l ih =>
    rw [List.length_cons, ih]
    simp only [hcons, Finset.sum_add_distrib]
    obtain ⟨p, t⟩ := x
    cases p with
    | wire | queue | outbound =>
      rw [List.filter_cons_of_pos (by rfl), List.length_cons]
      simp
      omega
    | exit | shed | unmixed | undispatched =>
      rw [List.filter_cons_of_neg (by simp [Place.inTransit])]
      simp [Finset.sum_ite_eq, ite_and]
      omega

/-- Nothing is left to be read. -/
theorem OnWire.packets_eq_nil {A : Aead} {key : LinkKey}
    {current : Option (PacketId × SphinxPacket × ℕ)} {bytes : List UInt8}
    {packets : List SphinxPacket} (h : OnWire A key current bytes packets) (hnil : bytes = []) :
    packets = [] := by
  have hframe : ∀ {frame rest : List UInt8}, frame.length = linkFrameLen → frame ++ rest ≠ [] := by
    intro frame rest hlen happend
    rw [(List.append_eq_nil_iff.mp happend).1] at hlen
    exact absurd hlen (by decide)
  induction h with
  | nil => rfl
  | cover length _ _ _ _ => exact absurd hnil (hframe length)
  | first _ ih => exact ih hnil
  | fragment carries _ _ _ => exact absurd hnil (hframe carries.1)
  | last carries _ _ _ => exact absurd hnil (hframe carries.1)

/-- A stream that is not at its end holds a whole frame. -/
theorem OnWire.le_length {A : Aead} {key : LinkKey}
    {current : Option (PacketId × SphinxPacket × ℕ)} {bytes : List UInt8}
    {packets : List SphinxPacket} (h : OnWire A key current bytes packets) (hne : bytes ≠ []) :
    linkFrameLen ≤ bytes.length := by
  have hframe : ∀ {frame rest : List UInt8}, frame.length = linkFrameLen →
      linkFrameLen ≤ (frame ++ rest).length := by
    intro frame rest hlen
    rw [List.length_append, hlen]
    exact Nat.le_add_right _ _
  induction h with
  | nil => exact absurd rfl hne
  | cover length _ _ _ _ => exact hframe length
  | first _ ih => exact ih hne
  | fragment carries _ _ _ => exact hframe carries.1
  | last carries _ _ _ => exact hframe carries.1

namespace MixnetState

variable {ι κ : Type}

/-- Every frame has been read, every packet mixed and dispatched. -/
def Drained (s : MixnetState ι κ ρ) : Prop :=
  (∀ src dst, (s.link src dst).unread = [] ∧
      (s.link src dst).conn.enqueued.length ≤ (s.link src dst).taken) ∧
    ∀ i, (s.relay i).outbound.length ≤ s.dispatched i

/-- The packets that found a queue full, by the counters of the network. -/
def dropped [Fintype ι] [Fintype κ] (s : MixnetState ι κ ρ) : ℕ :=
  ∑ src, ∑ dst, (s.link src dst).conn.queueDropped +
    ∑ i, ((s.relay i).stats.queueDropped + s.peerDropped i)

end MixnetState

namespace Mixnet

variable {ι κ : Type} [DecidableEq ι] [DecidableEq κ] {net : Mixnet C ι κ} {A : Aead}
  {s : MixnetState ι κ ρ} {l : List (Place ι κ × Item κ)}

/-- A network that has been drained has no packet in transit. -/
theorem Tracks.not_inTransit (h : net.Tracks A s l) (hdrained : s.Drained) :
    ∀ x ∈ l, x.1.inTransit = false := by
  rintro ⟨p, t⟩ hx
  have hmem := mem_queue.mpr hx
  cases p with
  | wire src dst =>
    obtain ⟨current, packets, hstream, -, hwire⟩ := (h.link src dst).stream
    rw [hstream.packets_eq_nil (hdrained.1 src dst).1, List.forall₂_nil_right_iff] at hwire
    rw [hwire] at hmem
    cases hmem
  | queue src dst =>
    have hqueued := (h.link src dst).queued
    rw [List.drop_eq_nil_of_le (hdrained.1 src dst).2, List.forall₂_nil_right_iff] at hqueued
    rw [hqueued] at hmem
    cases hmem
  | outbound i =>
    have hout := (h.relay i).outbound
    rw [List.drop_eq_nil_of_le (hdrained.2 i), List.forall₂_nil_right_iff] at hout
    rw [hout] at hmem
    cases hmem
  | exit | shed | unmixed | undispatched => rfl

/-- **What the network delivers**, in every run and whatever is read, mixed, dispatched and dropped
in between.  An exit is handed packets of clients whose paths end there and who have sent, each at
most once, and each starts with that client's payload.  Once the network has been drained, every
packet that was sent has been delivered or is counted as dropped. -/
theorem exits_of_run [Fintype ι] [Fintype κ] (net : Mixnet C ι κ) (A : Aead)
    (hsound : net.Sound A) (events : List (MixnetEvent ι κ)) (s : MixnetState ι κ ρ)
    (hrun : net.run A net.start events = some s) :
    ∃ delivered : ι → List κ,
      (∀ i, List.Forall₂ (fun k packet => net.payload k <+: packetDelta packet) (delivered i)
          (s.exited i) ∧
        (delivered i).Nodup ∧
        ∀ k ∈ delivered i, k ∈ s.sent ∧ (net.path k).getLast? = some i) ∧
      ∑ i, (delivered i).length + s.dropped ≤ s.sent.length ∧
      (s.Drained → ∑ i, (delivered i).length + s.dropped = s.sent.length) := by
  obtain ⟨l, h, -⟩ := (tracks_start net A).run hsound hrun
  have hkeys : (l.map fun x => x.2.1).Nodup := h.sent.nodup_iff.mpr h.nodup
  refine ⟨fun i => (queue l (.exit i)).map Prod.fst, fun i => ⟨?_, ?_, ?_⟩, ?_⟩
  · exact List.forall₂_map_left_iff.mpr ((h.exited i).imp fun t packet hexit => hexit.2)
  · have hsub : ((queue l (.exit i)).map Prod.fst).Sublist (l.map fun x => x.2.1) := by
      unfold queue
      rw [List.map_map]
      exact List.filter_sublist.map _
    exact hkeys.sublist hsub
  · intro k hk
    obtain ⟨t, ht, rfl⟩ := List.mem_map.mp hk
    have hexit := ((List.forall₂_and_left _ _).mp (h.exited i)).1 t ht
    exact ⟨h.sent.subset (List.mem_map.mpr ⟨_, mem_queue.mp ht, rfl⟩), hexit⟩
  · have hcount := length_eq_sum_queue l
    have hsent : l.length = s.sent.length := by
      rw [← h.sent.length_eq, List.length_map]
    have hdropped : s.dropped = ∑ src, ∑ dst, (queue l (.shed src dst)).length +
        ∑ i, ((queue l (.unmixed i)).length + (queue l (.undispatched i)).length) := by
      unfold MixnetState.dropped
      simp only [(h.link _ _).shed, (h.relay _).unmixed, h.undispatched]
    simp only [List.length_map]
    refine ⟨by omega, fun hdrained => ?_⟩
    have hnone : l.filter (fun x => x.1.inTransit) = [] :=
      List.filter_eq_nil_iff.mpr fun x hx => by simp [h.not_inTransit hdrained x hx]
    rw [hnone, List.length_nil] at hcount
    omega

end Mixnet

/-! ## Coming to rest -/

/-- A queue that has room drops nothing. -/
theorem Connection.queueDropped_onFrame (A : Aead) (cfg : InboundConfig) (x : Connection)
    (frame : List UInt8) :
    (x.onFrame A cfg frame true .sent).queueDropped = x.queueDropped := by
  unfold onFrame
  split
  · rfl
  · rw [if_neg (by decide)]
    split
    · rfl
    · unfold onCell
      split
      · rfl
      · rfl
      · split
        · split <;> rfl
        · rfl
      · split
        · rfl
        · unfold reassemble
          split <;> rfl
      · rfl

theorem RelayLoop.queueDropped_step {node : RelayNode C} (s : RelayLoop ρ) (packet : SphinxPacket) :
    (s.step node (.packet packet .sent)).stats.queueDropped = s.stats.queueDropped := by
  by_cases hrunning : s.running = true
  · rw [step_of_running hrunning]
    rcases (Aegis.process C packet node.secret s.replay).1 with e | (⟨nextHop, q⟩ | _ | _)
    · cases e <;> rfl
    · cases hsink : isCoverSinkHop nextHop with
      | true => rw [onProcessed_of_sink hsink]
      | false =>
        rw [onProcessed_of_real hsink]
        rfl
    · rfl
    · rfl
  · rw [step_of_stopped (eq_false_of_ne_true hrunning)]

theorem MixnetState.queueDropped_setLink {ι κ : Type} [DecidableEq ι] [DecidableEq κ]
    (s : MixnetState ι κ ρ) (src : ι ⊕ κ) (dst : ι) {l : LinkState}
    (h : l.conn.queueDropped = (s.link src dst).conn.queueDropped) (src' : ι ⊕ κ) (dst' : ι) :
    ((s.setLink src dst l).link src' dst').conn.queueDropped =
      (s.link src' dst').conn.queueDropped := by
  rw [link_setLink]
  split
  · rename_i heq
    obtain ⟨rfl, rfl⟩ := heq
    exact h
  · rfl

theorem MixnetState.dropped_write {ι κ : Type} [DecidableEq ι] [DecidableEq κ] [Fintype ι]
    [Fintype κ] (s : MixnetState ι κ ρ) (src : ι ⊕ κ) (dst : ι) (bytes : List UInt8) :
    (s.write src dst bytes).dropped = s.dropped := by
  unfold dropped write
  have hlink := s.queueDropped_setLink src dst
    (l := { s.link src dst with unread := (s.link src dst).unread ++ bytes }) rfl
  simp only [hlink, relay_setLink, peerDropped_setLink]

/-- A step that brings a packet on its way and finds room for it. -/
def MixnetEvent.hasRoom {ι κ : Type} : MixnetEvent ι κ → Bool
  | .read _ _ room | .mix _ _ room | .dispatch _ room => room
  | _ => false

namespace Mixnet

variable {ι κ : Type} [DecidableEq ι] [DecidableEq κ] [Fintype ι] [Fintype κ]
  {net : Mixnet C ι κ} {A : Aead} {s s' : MixnetState ι κ ρ} {l : List (Place ι κ × Item κ)}

omit [Fintype ι] [Fintype κ] in
/-- A client that has not sent sends what it has built. -/
theorem step_send (s : MixnetState ι κ ρ) {k : κ} {entry : ι} {rest : List ι}
    {packet : SphinxPacket} {rng : ρ} {bytes : List UInt8} (hunsent : k ∉ s.sent)
    (hpath : net.path k = entry :: rest)
    (hbuild : build C (net.hops k) (net.payload k) (net.clientRng k) = .ok (packet, rng))
    (hbytes : (net.packetBytes A (.inr k) entry packet rng).1 = .ok bytes) :
    net.step A s (.send k) =
      some { s.write (.inr k) entry bytes with sent := s.sent ++ [k] } := by
  rw [Mixnet.step, if_neg hunsent]
  simp only [hpath, hbuild, hbytes]

/-- **A step that finds room** drops nothing and sends nothing. -/
theorem frame_of_hasRoom (hA : A.Correct) {e : MixnetEvent ι κ} (he : e.hasRoom = true)
    (hstep : net.step A s e = some s') : s'.sent = s.sent ∧ s'.dropped = s.dropped := by
  unfold step at hstep
  cases e with
  | send | cover | command => cases he
  | read src dst room =>
    cases (show room = true from he)
    dsimp only at hstep
    split at hstep
    · cases hstep
    · obtain rfl := Option.some.inj hstep
      refine ⟨rfl, ?_⟩
      have hlink := s.queueDropped_setLink src dst
        (l := { s.link src dst with
          unread := (s.link src dst).unread.drop linkFrameLen
          conn := (s.link src dst).conn.onFrame A (net.inbound src dst)
            ((s.link src dst).unread.take linkFrameLen) true .sent })
        (Connection.queueDropped_onFrame ..)
      unfold MixnetState.dropped
      simp only [roomFor, if_true, hlink, MixnetState.relay_setLink,
        MixnetState.peerDropped_setLink]
  | mix src dst room =>
    cases (show room = true from he)
    dsimp only at hstep
    split at hstep
    · cases hstep
    · rename_i packet hpacket
      obtain rfl := Option.some.inj hstep
      refine ⟨rfl, ?_⟩
      have hlink := s.queueDropped_setLink src dst
        (l := { s.link src dst with taken := (s.link src dst).taken + 1 }) rfl
      have hrelay : ∀ i, (Function.update s.relay dst
          ((s.relay dst).step (net.node dst) (.packet packet .sent)) i).stats.queueDropped =
            (s.relay i).stats.queueDropped := by
        intro i
        by_cases hi : i = dst
        · subst hi
          rw [Function.update_self, RelayLoop.queueDropped_step]
        · rw [Function.update_of_ne hi]
      unfold MixnetState.dropped
      simp only [roomFor, if_true, hlink, hrelay, MixnetState.peerDropped_setLink]
  | dispatch i room =>
    cases (show room = true from he)
    dsimp only at hstep
    split at hstep
    · cases hstep
    · rename_i fwd hfwd
      obtain rfl := Option.some.inj hstep
      unfold route
      split
      · split <;> exact ⟨rfl, rfl⟩
      · rename_i j hj
        obtain ⟨bytes, hbytes, -, -⟩ :=
          net.onWire_packetBytes hA (.inl i) j fwd.packet (s.bridgeRng i)
        simp only [Bool.true_eq_false, if_false, hbytes]
        exact ⟨rfl, MixnetState.dropped_write ..⟩

omit [Fintype ι] [Fintype κ] in
/-- **A network that is stuck has been drained**: what can happen does not depend on the room. -/
theorem Tracks.drained_of_stuck (h : net.Tracks A s l) (room : Bool)
    (hstuck : ∀ e : MixnetEvent ι κ, cost e = 1 → e.hasRoom = room → net.step A s e = none) :
    s.Drained := by
  refine ⟨fun src dst => ⟨?_, ?_⟩, fun i => ?_⟩
  · obtain ⟨current, packets, hstream, -, -⟩ := (h.link src dst).stream
    by_contra hne
    have hread := hstuck (.read src dst room) rfl rfl
    rw [Mixnet.step, if_neg (Nat.not_lt_of_le (hstream.le_length hne))] at hread
    cases hread
  · have hmix := hstuck (.mix src dst room) rfl rfl
    rw [Mixnet.step] at hmix
    split at hmix
    · rename_i hnone
      exact List.getElem?_eq_none_iff.mp hnone
    · cases hmix
  · have hdispatch := hstuck (.dispatch i room) rfl rfl
    rw [Mixnet.step] at hdispatch
    split at hdispatch
    · rename_i hnone
      exact List.getElem?_eq_none_iff.mp hnone
    · cases hdispatch

omit [Fintype ι] [Fintype κ] in
/-- **A network that has not been drained goes on.** -/
theorem Tracks.progress (h : net.Tracks A s l) (hnot : ¬s.Drained) (room : Bool) :
    ∃ e s', cost e = 1 ∧ e.hasRoom = room ∧ net.step A s e = some s' := by
  by_contra hnone
  refine hnot (h.drained_of_stuck room fun e hcost hroom => ?_)
  by_contra hsome
  obtain ⟨s', hs'⟩ := Option.ne_none_iff_exists'.mp hsome
  exact hnone ⟨e, s', hcost, hroom, hs'⟩

/-- **Whatever is on its way can be delivered.**  The work that is left gets less with each step. -/
theorem Tracks.drains (h : net.Tracks A s l) (hsound : net.Sound A) :
    ∃ more s', (∀ e ∈ more, MixnetEvent.hasRoom e = true) ∧ net.run A s more = some s' ∧
      s'.Drained ∧ s'.sent = s.sent ∧ s'.dropped = s.dropped := by
  induction hwork : net.potential s l using Nat.strong_induction_on generalizing s l with
  | _ work ih =>
    by_cases hdrained : s.Drained
    · exact ⟨[], s, nofun, rfl, hdrained, rfl, rfl⟩
    · obtain ⟨e, s₁, hcost, hroom, hstep⟩ := h.progress hdrained true
      obtain ⟨l₁, h₁, hpays⟩ := h.step hsound hstep
      obtain ⟨hsent₁, hdropped₁⟩ := frame_of_hasRoom hsound.aead hroom hstep
      have hgain : net.gain e = 0 := by
        cases e with
        | send | cover | command => cases hroom
        | read | mix | dispatch => rfl
      have hless : net.potential s₁ l₁ < work := by
        have hframe : linkFrameLen = 540 := rfl
        rw [Pays, hcost, hgain, hframe] at hpays
        omega
      obtain ⟨more, s', hmore, hrun, hend, hsent, hdropped⟩ := ih _ hless h₁ rfl
      refine ⟨e :: more, s', ?_, ?_, hend, hsent.trans hsent₁, hdropped.trans hdropped₁⟩
      · rintro e' he'
        rcases List.mem_cons.mp he' with rfl | he'
        · exact hroom
        · exact hmore e' he'
      · unfold Mixnet.run
        rw [List.foldlM_cons, hstep]
        exact hrun

/-- **The network comes to rest.**  In every run the steps that bring packets on their way are no
more than those that the onions sent and the frames of cover call for.  As long as the network has
not been drained some such step can be taken, whether the queues have room or not; and from every
state that is reached all that is on its way can be brought to its end without a drop. -/
theorem drains_of_run (net : Mixnet C ι κ) (A : Aead) (hsound : net.Sound A)
    (events : List (MixnetEvent ι κ)) (s : MixnetState ι κ ρ)
    (hrun : net.run A net.start events = some s) :
    (events.map cost).sum ≤ (events.map net.gain).sum ∧
      (¬s.Drained → ∀ room, ∃ e s', cost e = 1 ∧ e.hasRoom = room ∧ net.step A s e = some s') ∧
      ∃ more s', (∀ e ∈ more, MixnetEvent.hasRoom e = true) ∧ net.run A s more = some s' ∧
        s'.Drained ∧ s'.sent = s.sent ∧ s'.dropped = s.dropped := by
  obtain ⟨l, h, hpaid⟩ := (tracks_start net A).run hsound hrun
  refine ⟨?_, h.progress, h.drains hsound⟩
  have hstart : net.potential net.start [] = 0 := by
    unfold potential MixnetState.unread
    exact Nat.add_eq_zero_iff.mpr ⟨Finset.sum_eq_zero fun _ _ => rfl, rfl⟩
  rw [hstart, Nat.zero_add] at hpaid
  exact Nat.le_of_mul_le_mul_left (le_trans (Nat.le_add_left _ _) hpaid) linkFrameLen_pos

end Mixnet

/-! ## A network of two relays -/

namespace Mixnet

/-- Two relays of the checksum suite, and a client that sends over both. -/
def checksumNet : Mixnet checksumSuite (Fin 2) Unit where
  id i := .replicate 32 (if i = 0 then 1 else 2)
  publicKey i := if i = 0 then checksumPublic 3 5 else checksumPublic 7 9
  node i :=
    { RelayLoop.checksumNode with
      secret := if i = 0 then checksumSecret 3 5 else checksumSecret 7 9 }
  peerTable i hop := if i = 0 ∧ hop = .replicate 32 2 then some 1 else none
  exitTx i := decide (i = 1)
  inbound _ _ := checksumConfig
  path _ := [0, 1]
  payload _ := [104, 105]
  clientRng _ := 17
  relayRng _ := 17
  bridgeRng _ := 17

theorem keyPair_checksumNet (i : Fin 2) :
    KeyPair checksumSuite (checksumNet.publicKey i) (checksumNet.node i).secret := by
  match i with
  | 0 => exact keyPair_checksum 3 5
  | 1 => exact keyPair_checksum 7 9

/-- The exit of `checksumNet` does not take what it finds for the cover sink. -/
theorem isCoverSinkHop_lastHop_checksum {o : Onion} (h : checksumNet.onion () = some o) :
    isCoverSinkHop (o.lastHop checksumSuite) = false := by
  obtain ⟨-, -, -, hsecrets, -, -⟩ := onion_spec h
  unfold onion at h
  split at h
  · cases h
  · rename_i headers secrets rng henc
    obtain rfl := Option.some.inj h
    refine decide_eq_false fun heq => ?_
    have hlast := Onion.toList_lastHop (C := checksumSuite) rfl hsecrets (by decide)
    rw [heq] at hlast
    -- all bytes of a block of the key stream are the same
    have hbyte : ∀ i < 2, coverSinkHopId.toList[i]? = some (rng ^^^
        (keystream checksumSuite streamBeta secrets[1]! routingSlotLen).getD 0 0) := by
      intro i hi
      have hnoise : (checksumSuite.fillBytes betaLen rng).1.toList[1 * routingSlotLen + (0 + i)]? =
          some rng := by
        refine List.getElem?_replicate_of_lt ?_
        rw [betaLen_eq, routingSlotLen_eq]
        omega
      rw [hlast, getElem?_slice, if_pos (by omega), getElem?_xorAt, getElem?_slice,
        if_pos (by rw [routingSlotLen_eq]; omega)]
      show Option.map _
        ((checksumSuite.fillBytes betaLen rng).1.toList[1 * routingSlotLen + (0 + i)]?) = _
      rw [hnoise, Option.map_some, if_neg (Nat.not_lt_zero _)]
      interval_cases i <;> rfl
    have h0 := hbyte 0 (by decide)
    rw [← hbyte 1 (by decide)] at h0
    exact absurd h0 (by decide)

theorem sound_checksumNet : checksumNet.Sound checksumAead where
  aead := checksumAead_correct
  keys := keyPair_checksumNet
  roster := by
    intro k h i j hi hj
    match h, hi, hj with
    | 0, hi, hj =>
      obtain rfl := Option.some.inj hi
      obtain rfl := Option.some.inj hj
      decide
    | 1, hi, hj => cases hj
  exit := by
    intro k i o hi ho
    obtain rfl := Option.some.inj hi
    exact ⟨rfl, rfl, isCoverSinkHop_lastHop_checksum ho⟩
  tags := by
    intro k h k' h' i o o' hi hi' _ _ _
    refine ⟨rfl, ?_⟩
    match h, h', hi, hi' with
    | 0, 0, _, _ => rfl
    | 1, 1, _, _ => rfl
    | 0, 1, hi, hi' =>
      obtain rfl := Option.some.inj hi
      cases hi'
    | 1, 0, hi, hi' =>
      obtain rfl := Option.some.inj hi
      cases hi'

/-- The client of `checksumNet` can send. -/
theorem run_send_checksum :
    ∃ s, checksumNet.run checksumAead checksumNet.start [.send ()] = some s ∧
      s.sent = [()] ∧ s.dropped = 0 := by
  obtain ⟨packet, rng, hbuild⟩ : ∃ packet rng, build checksumSuite (checksumNet.hops ())
      (checksumNet.payload ()) (checksumNet.clientRng ()) = .ok (packet, rng) := ⟨_, _, rfl⟩
  obtain ⟨bytes, hbytes, -, -⟩ :=
    checksumNet.onWire_packetBytes checksumAead_correct (.inr ()) 0 packet rng
  refine ⟨{ checksumNet.start.write (.inr ()) 0 bytes with sent := [()] }, ?_, rfl,
    (MixnetState.dropped_write checksumNet.start ..).trans rfl⟩
  unfold run
  rw [List.foldlM_cons, step_send checksumNet.start (by decide) rfl hbuild hbytes]
  rfl

/-- One onion is sent, and the exit is handed its payload. -/
theorem exits_of_run_checksum :
    ∃ events s packet, checksumNet.run checksumAead checksumNet.start events = some s ∧
      s.exited 1 = [packet] ∧ [104, 105] <+: packetDelta packet := by
  obtain ⟨s₁, hrun₁, hsent₁, hdropped₁⟩ := run_send_checksum
  obtain ⟨l, h, -⟩ := (tracks_start checksumNet checksumAead).run sound_checksumNet hrun₁
  obtain ⟨more, s, -, hrun₂, hdrained, hsent₂, hdropped₂⟩ := h.drains sound_checksumNet
  have hrun : checksumNet.run checksumAead checksumNet.start ([.send ()] ++ more) = some s := by
    unfold run at hrun₁ hrun₂ ⊢
    rw [List.foldlM_append, hrun₁]
    exact hrun₂
  obtain ⟨delivered, hexit, -, hall⟩ :=
    exits_of_run checksumNet checksumAead sound_checksumNet _ s hrun
  have hcount := hall hdrained
  -- the path ends at relay 1, so nothing is handed to the other exit
  have hother : delivered 0 = [] := List.eq_nil_iff_forall_not_mem.mpr fun k hk =>
    absurd ((hexit 0).2.2 k hk).2 (show ¬(checksumNet.path ()).getLast? = some 0 by decide)
  rw [hdropped₂, hdropped₁, hsent₂, hsent₁, Fin.sum_univ_two, hother, List.length_nil, Nat.zero_add,
    Nat.add_zero, List.length_singleton] at hcount
  obtain ⟨k, hk⟩ := List.length_eq_one_iff.mp hcount
  have hlist := (hexit 1).1
  rw [hk, List.forall₂_cons_left_iff] at hlist
  obtain ⟨packet, rest, hpayload, hrest, hexited⟩ := hlist
  rw [List.forall₂_nil_left_iff.mp hrest] at hexited
  exact ⟨_, s, packet, hrun, hexited, hpayload⟩

theorem drains_of_run_checksum :
    ∃ s, checksumNet.run checksumAead checksumNet.start [.send ()] = some s ∧
      ∃ more s', checksumNet.run checksumAead s more = some s' ∧ s'.Drained ∧ s'.dropped = 0 := by
  obtain ⟨s, hrun, -, hdropped⟩ := run_send_checksum
  obtain ⟨-, -, more, s', -, hmore, hend, -, hdropped'⟩ :=
    drains_of_run checksumNet checksumAead sound_checksumNet _ s hrun
  exact ⟨s, hrun, more, s', hmore, hend, hdropped'.trans hdropped⟩

end Mixnet

end Aegis
