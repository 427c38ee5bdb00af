import Aegis.Relay.FairDrain

/-!
# What a fair hub promises

Every packet that a connection's queue accepts is taken once, in its turn, or is still there; and
what the drain does with the credits keeps every connection's turn short.

* `Accounted.step` — **no packet is lost**, taken twice or taken out of its connection's order.
* `fair_of_run` — **the hub is fair** after every run.
-/

namespace Aegis

open Cyclic

variable {α : Type}

namespace FairHub

/-! ## Accounting -/

/-- The packets of one registration. -/
def ofPeer (p : ℕ) (l : List (ℕ × α)) : List α := (l.filter fun a => a.1 = p).map Prod.snd

theorem ofPeer_append (p : ℕ) (l l' : List (ℕ × α)) :
    ofPeer p (l ++ l') = ofPeer p l ++ ofPeer p l' := by
  unfold ofPeer
  rw [List.filter_append, List.map_append]

theorem ofPeer_self (p : ℕ) (packet : α) : ofPeer p [(p, packet)] = [packet] := by
  simp [ofPeer]

theorem ofPeer_ne {p q : ℕ} (h : q ≠ p) (packet : α) : ofPeer p [(q, packet)] = [] := by
  simp [ofPeer, h]

/-- Packets that all are of one peer. -/
theorem ofPeer_map_self (p : ℕ) (packets : List α) :
    ofPeer p (packets.map fun packet => (p, packet)) = packets := by
  simp [ofPeer, List.filter_map, Function.comp_def]

theorem ofPeer_map_ne {p q : ℕ} (h : p ≠ q) (packets : List α) :
    ofPeer p (packets.map fun packet => (q, packet)) = [] := by
  simp [ofPeer, List.filter_map, Function.comp_def, h.symm]

/-- Every packet accepted is taken or still in its queue, in its order. -/
structure Accounted (h : FairHub α) : Prop where
  distinct : ∀ i j x y, slotAt h.slots i = some x → slotAt h.slots j = some y →
    x.peer = y.peer → i = j
  fresh : ∀ i x, slotAt h.slots i = some x → x.peer < h.registered
  queued : ∀ i x, slotAt h.slots i = some x →
    ofPeer x.peer h.accepted = ofPeer x.peer h.taken ++ x.queue
  gone : ∀ p, (∀ i x, slotAt h.slots i = some x → x.peer ≠ p) →
    ofPeer p h.accepted = ofPeer p h.taken

/-- A registration gets a number that no slot has. -/
theorem Accounted.register {h : FairHub α} (hacc : h.Accounted) (weight : ℕ) :
    (h.register weight).Accounted := by
  obtain ⟨hnone, htouch⟩ := h.register_touches weight
  have hold : ∀ j x, slotAt (h.register weight).slots j = some x →
      (j = h.freeSlot ∧ x.peer = h.registered ∧ x.queue = []) ∨ slotAt h.slots j = some x := by
    intro j x hx
    rw [htouch.after j] at hx
    split at hx
    · rename_i hj
      obtain rfl := Option.some.inj hx
      exact Or.inl ⟨hj, rfl, rfl⟩
    · exact Or.inr hx
  have hfresh : ofPeer h.registered h.accepted = ofPeer h.registered h.taken :=
    hacc.gone _ fun i x hx => Nat.ne_of_lt (hacc.fresh i x hx)
  refine ⟨?_, ?_, ?_, ?_⟩
  · intro i j x y hx hy hpeer
    rcases hold i x hx with ⟨hi, hxp, -⟩ | hx'
    · rcases hold j y hy with ⟨hj, -, -⟩ | hy'
      · rw [hi, hj]
      · exact absurd (hpeer.symm.trans hxp) (Nat.ne_of_lt (hacc.fresh j y hy'))
    · rcases hold j y hy with ⟨-, hyp, -⟩ | hy'
      · exact absurd (hpeer.trans hyp) (Nat.ne_of_lt (hacc.fresh i x hx'))
      · exact hacc.distinct i j x y hx' hy' hpeer
  · intro i x hx
    show x.peer < h.registered + 1
    rcases hold i x hx with ⟨-, hxp, -⟩ | hx'
    · omega
    · exact Nat.lt_succ_of_lt (hacc.fresh i x hx')
  · intro i x hx
    rcases hold i x hx with ⟨-, hxp, hxq⟩ | hx'
    · rw [hxp, hxq, List.append_nil]
      exact hfresh
    · exact hacc.queued i x hx'
  · intro p hp
    refine hacc.gone p fun i x hx => ?_
    refine hp i x ?_
    rw [htouch.after i, if_neg, hx]
    rintro rfl
    rw [hnone] at hx
    cases hx

/-- Every slot has the peer of the slot that was there before. -/
def SamePeers (h h' : FairHub α) : Prop :=
  ∀ j y, slotAt h'.slots j = some y → ∃ x, slotAt h.slots j = some x ∧ y.peer = x.peer

theorem Accounted.distinct_of_samePeers {h h' : FairHub α} (hacc : h.Accounted)
    (hsame : SamePeers h h') (i j : ℕ) (x y : FairPeerSlot α) (hx : slotAt h'.slots i = some x)
    (hy : slotAt h'.slots j = some y) (hxy : x.peer = y.peer) : i = j := by
  obtain ⟨x', hx', hxp⟩ := hsame i x hx
  obtain ⟨y', hy', hyp⟩ := hsame j y hy
  exact hacc.distinct i j x' y' hx' hy' (by rw [← hxp, hxy, hyp])

theorem Accounted.fresh_of_samePeers {h h' : FairHub α} (hacc : h.Accounted)
    (hsame : SamePeers h h') (i : ℕ) (x : FairPeerSlot α) (hx : slotAt h'.slots i = some x) :
    x.peer < h.registered := by
  obtain ⟨x', hx', hxp⟩ := hsame i x hx
  rw [hxp]
  exact hacc.fresh i x' hx'

/-- A live slot is changed, and packets are accepted to the end of its queue. -/
theorem Accounted.change {h h' : FairHub α} (hacc : h.Accounted) {i : ℕ}
    {slot slot' : FairPeerSlot α} (hslot : slotAt h.slots i = some slot)
    (hslots : h'.slots = h.slots.set i (some slot')) (hpeer : slot'.peer = slot.peer)
    (hregistered : h'.registered = h.registered) (htaken : h'.taken = h.taken) (more : List α)
    (haccepted : h'.accepted = h.accepted ++ more.map fun packet => (slot.peer, packet))
    (hqueue : slot'.queue = slot.queue ++ more) : h'.Accounted := by
  have hafter : ∀ j, slotAt h'.slots j = if j = i then some slot' else slotAt h.slots j := by
    intro j
    rw [hslots, slotAt_set h.slots (lt_of_slotAt hslot)]
  have hsame : SamePeers h h' := by
    intro j x hx
    rw [hafter j] at hx
    split at hx
    · rename_i hj
      obtain rfl := Option.some.inj hx
      exact ⟨slot, hj ▸ hslot, hpeer⟩
    · exact ⟨x, hx, rfl⟩
  refine ⟨hacc.distinct_of_samePeers hsame, ?_, ?_, ?_⟩
  · rw [hregistered]
    exact hacc.fresh_of_samePeers hsame
  · intro j x hx
    have hx' := hx
    rw [hafter j] at hx'
    rw [haccepted, htaken, ofPeer_append]
    split at hx'
    · obtain rfl := Option.some.inj hx'
      rw [hpeer, ofPeer_map_self, hqueue, hacc.queued i slot hslot, List.append_assoc]
    · rename_i hj
      have hne : x.peer ≠ slot.peer := fun heq => hj (hacc.distinct j i x slot hx' hslot heq)
      rw [ofPeer_map_ne hne, List.append_nil]
      exact hacc.queued j x hx'
  · intro p hp
    have hne : p ≠ slot.peer := by
      have hi := hp i slot' (by rw [hafter i, if_pos rfl])
      rw [hpeer] at hi
      exact hi.symm
    rw [haccepted, htaken, ofPeer_append, ofPeer_map_ne hne, List.append_nil]
    refine hacc.gone p fun j x hx => ?_
    by_cases hj : j = i
    · rw [hj, hslot] at hx
      obtain rfl := Option.some.inj hx
      exact hne.symm
    · exact hp j x (by rw [hafter j, if_neg hj, hx])

/-- Slots are served, passed over or vacated. -/
theorem Accounted.serve {h h' : FairHub α} (hacc : h.Accounted)
    (hregistered : h'.registered = h.registered) (haccepted : h'.accepted = h.accepted)
    (hlive : ∀ j y, slotAt h'.slots j = some y → ∃ x, slotAt h.slots j = some x ∧
      y.peer = x.peer ∧ ofPeer x.peer h'.taken ++ y.queue = ofPeer x.peer h.taken ++ x.queue)
    (hvacated : ∀ j x, slotAt h.slots j = some x → slotAt h'.slots j = none →
      x.queue = [] ∧ ofPeer x.peer h'.taken = ofPeer x.peer h.taken)
    (hothers : ∀ p, (∀ j x, slotAt h.slots j = some x → x.peer ≠ p) →
      ofPeer p h'.taken = ofPeer p h.taken) : h'.Accounted := by
  have hsame : SamePeers h h' := fun j y hy =>
    (hlive j y hy).imp fun x hx => ⟨hx.1, hx.2.1⟩
  refine ⟨hacc.distinct_of_samePeers hsame, ?_, ?_, ?_⟩
  · rw [hregistered]
    exact hacc.fresh_of_samePeers hsame
  · intro i x hx
    obtain ⟨x', hx', hxp, hq⟩ := hlive i x hx
    rw [haccepted, hxp, hq]
    exact hacc.queued i x' hx'
  · intro p hp
    rw [haccepted]
    by_cases hold : ∀ j x, slotAt h.slots j = some x → x.peer ≠ p
    · rw [hothers p hold]
      exact hacc.gone p hold
    · push Not at hold
      obtain ⟨j, x, hx, hxp⟩ := hold
      have hnone : slotAt h'.slots j = none := by
        rw [Option.eq_none_iff_forall_ne_some]
        intro y hy
        obtain ⟨x', hx', hyp, -⟩ := hlive j y hy
        rw [hx] at hx'
        obtain rfl := Option.some.inj hx'
        exact hp j y hy (hyp.trans hxp)
      obtain ⟨hempty, hsame⟩ := hvacated j x hx hnone
      have hqueued := hacc.queued j x hx
      rw [hempty, List.append_nil] at hqueued
      rw [← hxp, hsame]
      exact hqueued

theorem Accounted.take {h : FairHub α} (hacc : h.Accounted) (hcursor : h.cursor ≤ h.slots.length) :
    h.take.Accounted := by
  rcases h.take_cases hcursor with ⟨-, -, htaken, -, hall⟩ |
    ⟨i, slot, packet, queue, -, -, htaken, htakes⟩
  · refine hacc.serve rfl rfl ?_ ?_ ?_
    · intro j y hy
      rw [(hall j).2] at hy
      obtain ⟨x, hx, hpass⟩ := Option.bind_eq_some_iff.mp hy
      rw [queue_of_pass hpass, htaken]
      exact ⟨x, hx, rfl, rfl⟩
    · intro j x hx _
      rw [htaken]
      exact ⟨(hall j).1 x hx, rfl⟩
    · intro p _
      rw [htaken]
  · have hother : ∀ p, p ≠ slot.peer → ofPeer p h.take.taken = ofPeer p h.taken := by
      intro p hp
      rw [htaken, ofPeer_append, ofPeer_ne hp.symm, List.append_nil]
    refine hacc.serve rfl rfl ?_ ?_ ?_
    · intro j y hy
      rw [htakes.after j] at hy
      split at hy
      · rename_i hj
        obtain rfl := Option.some.inj hy
        refine ⟨slot, hj ▸ htakes.live, rfl, ?_⟩
        rw [htaken, ofPeer_append, ofPeer_self, htakes.head, List.append_assoc]
        rfl
      · rename_i hj
        have hne : ∀ x, slotAt h.slots j = some x → x.peer ≠ slot.peer :=
          fun x hx heq => hj (hacc.distinct j i x slot hx htakes.live heq)
        split at hy
        · obtain ⟨x, hx, hpass⟩ := Option.bind_eq_some_iff.mp hy
          rw [queue_of_pass hpass]
          exact ⟨x, hx, rfl, by rw [hother x.peer (hne x hx)]; rfl⟩
        · exact ⟨y, hy, rfl, by rw [hother y.peer (hne y hy)]⟩
    · intro j x hx hnone
      rw [htakes.after j] at hnone
      split at hnone
      · cases hnone
      · rename_i hj
        split at hnone
        · rename_i hbefore
          refine ⟨htakes.idle j hbefore x hx, hother _ ?_⟩
          exact fun heq => hj (hacc.distinct j i x slot hx htakes.live heq)
        · rw [hx] at hnone
          cases hnone
    · intro p hp
      exact hother p (hp i slot htakes.live).symm

/-- **No packet is lost, taken twice or taken out of order**, step by step. -/
theorem Accounted.step {h : FairHub α} (hacc : h.Accounted) (hcursor : h.cursor ≤ h.slots.length)
    (event : HubEvent α) : (h.step event).Accounted := by
  cases event with
  | register weight => exact hacc.register weight
  | setWeight slotId weight =>
    rw [FairHub.step]
    rcases h.setWeight_cases slotId weight with hsame | ⟨slot, hslot, hset⟩
    · rw [hsame]
      exact hacc
    · rw [hset]
      exact hacc.change hslot rfl rfl rfl rfl [] (List.append_nil _).symm
        (List.append_nil _).symm
  | tryEnqueue slotId packet =>
    rw [FairHub.step]
    rcases h.tryEnqueue_cases slotId packet with ⟨n, hsame⟩ | ⟨slot, hslot, hset⟩
    · rw [hsame]
      exact ⟨hacc.distinct, hacc.fresh, hacc.queued, hacc.gone⟩
    · rw [hset]
      exact hacc.change hslot rfl rfl rfl rfl [packet] rfl rfl
  | dropSender slotId =>
    rw [FairHub.step]
    rcases h.dropSender_cases slotId with hsame | ⟨slot, hslot, hset⟩
    · rw [hsame]
      exact hacc
    · rw [hset]
      exact hacc.change hslot rfl rfl rfl rfl [] (List.append_nil _).symm
        (List.append_nil _).symm
  | take => exact hacc.take hcursor

/-! ## Every run -/

theorem reachable_of_run (capacity : ℕ) {events : List (HubEvent α)}
    (hweights : ∀ event ∈ events, event.WeightOk) :
    CreditsAtCursor (run (new capacity) events).slots (run (new capacity) events).cursor ∧
      (run (new capacity) events).Accounted := by
  refine Run.foldl_preserves
    (fun h : FairHub α => CreditsAtCursor h.slots h.cursor ∧ h.Accounted) ?_ ⟨?_, ?_⟩
  · rintro h event hevent ⟨hvalid, hacc⟩
    exact ⟨creditsAtCursor_step hvalid (hweights event hevent), hacc.step hvalid.inRange event⟩
  · have hnone : ∀ i, slotAt (new capacity : FairHub α).slots i = none :=
      fun i => slotAt_of_le i.zero_le
    refine ⟨le_rfl, ?_, ?_, ?_⟩
    · intro i slot hslot
      rw [hnone i] at hslot
      cases hslot
    · intro i
      rw [creditsAt, hnone i]
      exact Nat.zero_le _
    · intro i hi
      rw [creditsAt, hnone i] at hi
      exact absurd rfl hi
  · have hnone : ∀ i, slotAt (new capacity : FairHub α).slots i = none :=
      fun i => slotAt_of_le i.zero_le
    refine ⟨?_, ?_, ?_, fun _ _ => rfl⟩
    · intro i j x y hx
      rw [hnone i] at hx
      cases hx
    · intro i x hx
      rw [hnone i] at hx
      cases hx
    · intro i x hx
      rw [hnone i] at hx
      cases hx

/-- What a fair hub promises. -/
structure Fair (h : FairHub α) : Prop where
  /-- The packets of a connection are taken in their order, each once, or still queued. -/
  queued : ∀ i slot, slotAt h.slots i = some slot →
    ofPeer slot.peer h.accepted = ofPeer slot.peer h.taken ++ slot.queue
  /-- Those of a connection without a slot have all been taken. -/
  gone : ∀ p, (∀ i slot, slotAt h.slots i = some slot → slot.peer ≠ p) →
    ofPeer p h.accepted = ofPeer p h.taken
  /-- No two slots are of one connection. -/
  distinct : ∀ i j x y, slotAt h.slots i = some x → slotAt h.slots j = some y →
    x.peer = y.peer → i = j
  /-- A take that finds nothing has looked everywhere. -/
  exhaustive : h.served = none → ∀ i, Idle h.slots i
  /-- Only the slot at the cursor has credits. -/
  credits : ∀ i slot, slotAt h.slots i = some slot → slot.credits ≠ 0 →
    h.cursor % h.slots.length = i
  /-- While a slot waits, no other is served more than the greatest weight. -/
  bounded : ∀ s events, (∀ event ∈ events, event.WeightOk) →
    Run.Guarded step (Waits s) h events →
      ∀ j, Run.count step (serves j) h events ≤ maxPeerQueueWeight

/-- **The hub is fair** after every run. -/
theorem fair_of_run (capacity : ℕ) {events : List (HubEvent α)}
    (hweights : ∀ event ∈ events, event.WeightOk) : (run (new capacity) events).Fair := by
  obtain ⟨hvalid, hacc⟩ := reachable_of_run capacity hweights
  refine ⟨hacc.queued, hacc.gone, hacc.distinct, ?_, ?_, ?_⟩
  · intro hserved i
    rcases (run (new capacity) events).take_cases hvalid.inRange with ⟨-, -, -, -, hall⟩ |
      ⟨_, _, _, _, hsome, -⟩
    · exact (hall i).1
    · rw [hserved] at hsome
      cases hsome
  · intro i slot hslot hcredits
    have hcursor : (run (new capacity) events).cursor = i := by
      refine hvalid.atCursor i ?_
      rw [creditsAt, hslot]
      exact hcredits
    rw [hcursor]
    exact Nat.mod_eq_of_lt (lt_of_slotAt hslot)
  · intro s events' hweights' hwaits j
    exact (count_serves_le hvalid hweights' hwaits j).trans (budget_le hvalid s j)

/-- Two connections, one of weight 2 and one that is made 3. -/
theorem fair_of_run_pair :
    (run (newInbound : FairHub ℕ) [.register 2, .register 1, .tryEnqueue 0 10, .tryEnqueue 0 11,
      .setWeight 1 3, .tryEnqueue 1 20, .dropSender 0, .take, .take, .take]).Fair := by
  refine fair_of_run perPeerInboundCapacity ?_
  simp [HubEvent.WeightOk, maxPeerQueueWeight]

end FairHub

end Aegis
