import Aegis.Relay.FairHub

/-!
# Runs of a fair hub

Connections come and go, their weights change, packets arrive, and the drain takes one at a time.

* `FairHub.creditsAtCursor_step` — **credits are only at the cursor**.
* `Takes.budget`, `FairHub.budget_step` — a slot spends its budget with each packet and gets none
  while another slot waits.
* `FairHub.count_serves_le` — **how often a slot is served** while another waits.
-/

namespace Aegis

open Cyclic

variable {α : Type}

/-! ## The hub -/

/-- A hub, the cursor of its drain, and what has happened at it. -/
structure FairHub (α : Type) where
  /-- How many packets a connection's queue holds. -/
  capacity : ℕ
  slots : FairSlots α
  cursor : ℕ
  queueDropped : ℕ
  /-- How many connections have registered. -/
  registered : ℕ
  /-- The packets accepted, with the registration of the queue. -/
  accepted : List (ℕ × α)
  /-- The packets taken. -/
  taken : List (ℕ × α)

/-- A sender is named by its slot. -/
inductive HubEvent (α : Type) where
  | register (weight : ℕ)
  | setWeight (slotId weight : ℕ)
  | tryEnqueue (slotId : ℕ) (packet : α)
  | dropSender (slotId : ℕ)
  | take

namespace FairHub

/-- A hub without connections, whose queues hold so many packets each. -/
def new (capacity : ℕ) : FairHub α := ⟨capacity, [], 0, 0, 0, [], []⟩

/-- `FairInboundHub::new`. -/
def newInbound : FairHub α := new perPeerInboundCapacity

/-- The slot id a registration gets: the first vacated one, or a new one. -/
def freeSlot (h : FairHub α) : ℕ := (h.slots.findIdx? Option.isNone).getD h.slots.length

/-- `register_with_weight` and `register_peer`. -/
def register (h : FairHub α) (weight : ℕ) : FairHub α :=
  let weight := max weight defaultPeerQueueWeight
  let slot : FairPeerSlot α := ⟨h.registered, [], true, weight, 0⟩
  let slots :=
    match h.slots.findIdx? Option.isNone with
    | some i => h.slots.set i (some slot)
    | none => h.slots ++ [some slot]
  { h with slots := slots, registered := h.registered + 1 }

/-- The weight of a connection is set, and is at least the default. -/
def setWeight (h : FairHub α) (slotId weight : ℕ) : FairHub α :=
  let weight := max weight defaultPeerQueueWeight
  match slotAt h.slots slotId with
  | some slot => { h with slots := h.slots.set slotId (some { slot with weight := weight }) }
  | none => h

/-- `FairPeerSender::try_enqueue`, which drops the newest packet. -/
def tryEnqueue (h : FairHub α) (slotId : ℕ) (packet : α) : FairHub α :=
  match slotAt h.slots slotId with
  | some slot =>
    if slot.connected = false then h
    else if slot.queue.length ≥ h.capacity then { h with queueDropped := h.queueDropped + 1 }
    else
      { h with
        slots := h.slots.set slotId (some { slot with queue := slot.queue ++ [packet] })
        accepted := h.accepted ++ [(slot.peer, packet)] }
  | none => h

/-- The sender goes with its connection. -/
def dropSender (h : FairHub α) (slotId : ℕ) : FairHub α :=
  match slotAt h.slots slotId with
  | some slot => { h with slots := h.slots.set slotId (some { slot with connected := false }) }
  | none => h

/-- The drain takes one packet. -/
def take (h : FairHub α) : FairHub α :=
  let (served, slots, cursor) := fairWfqTakeOne h.slots h.cursor
  { h with
    slots := slots
    cursor := cursor
    taken := h.taken ++ served.toList.map fun s => (s.peer, s.packet) }

/-- What the drain would take. -/
def served (h : FairHub α) : Option (Served α) := (fairWfqTakeOne h.slots h.cursor).1

/-- What each event does to the hub. -/
def step (h : FairHub α) : HubEvent α → FairHub α
  | .register weight => h.register weight
  | .setWeight slotId weight => h.setWeight slotId weight
  | .tryEnqueue slotId packet => h.tryEnqueue slotId packet
  | .dropSender slotId => h.dropSender slotId
  | .take => h.take

/-- One event after another. -/
def run (h : FairHub α) (events : List (HubEvent α)) : FairHub α := events.foldl step h

end FairHub

/-- The weights that are set are at most the greatest. -/
def HubEvent.WeightOk : HubEvent α → Prop
  | .register weight => weight ≤ maxPeerQueueWeight
  | .setWeight _ weight => weight ≤ maxPeerQueueWeight
  | _ => True

/-! ## What the other events do -/

/-- The credits at a place. -/
def creditsAt (slots : FairSlots α) (i : ℕ) : ℕ := ((slotAt slots i).map FairPeerSlot.credits).getD 0

/-- The slot at one place is new or has changed, but not its credits. -/
structure Touches (slots : FairSlots α) (i : ℕ) (slot : FairPeerSlot α) (slots' : FairSlots α) :
    Prop where
  length : slots.length ≤ slots'.length
  credits : slot.credits = creditsAt slots i
  after : ∀ j, slotAt slots' j = if j = i then some slot else slotAt slots j

/-- A live slot is changed. -/
theorem touches_set {slots : FairSlots α} {i : ℕ} {slot slot' : FairPeerSlot α}
    (hslot : slotAt slots i = some slot) (hcredits : slot'.credits = slot.credits) :
    Touches slots i slot' (slots.set i (some slot')) := by
  refine ⟨?_, ?_, fun j => slotAt_set slots (lt_of_slotAt hslot) _ j⟩
  · rw [List.length_set]
  · rw [hcredits, creditsAt, hslot]
    rfl

namespace FairHub

/-- **What a registration does**: there is no slot at its place yet. -/
theorem register_touches (h : FairHub α) (weight : ℕ) :
    slotAt h.slots h.freeSlot = none ∧
      Touches h.slots h.freeSlot
        ⟨h.registered, [], true, max weight defaultPeerQueueWeight, 0⟩ (h.register weight).slots := by
  unfold freeSlot register
  cases hfind : h.slots.findIdx? Option.isNone with
  | none =>
    have hnone : slotAt h.slots h.slots.length = none := slotAt_of_le le_rfl
    refine ⟨hnone, ?_, ?_, fun j => slotAt_append h.slots _ j⟩
    · show _ ≤ (h.slots ++ [_]).length
      rw [List.length_append]
      exact Nat.le_add_right _ _
    · show 0 = creditsAt h.slots h.slots.length
      rw [creditsAt, hnone]
      rfl
  | some i =>
    obtain ⟨hi, hvacant, -⟩ := List.findIdx?_eq_some_iff_getElem.mp hfind
    have hnone : slotAt h.slots i = none := by
      unfold slotAt
      rw [List.getElem?_eq_getElem hi, Option.isNone_iff_eq_none.mp hvacant]
      rfl
    refine ⟨hnone, ?_, ?_, fun j => slotAt_set h.slots hi _ j⟩
    · show _ ≤ (h.slots.set i _).length
      rw [List.length_set]
    · show 0 = creditsAt h.slots i
      rw [creditsAt, hnone]
      rfl

end FairHub

theorem Touches.creditsAt {slots slots' : FairSlots α} {i : ℕ} {slot : FairPeerSlot α}
    (h : Touches slots i slot slots') (j : ℕ) :
    Aegis.creditsAt slots' j = Aegis.creditsAt slots j := by
  unfold Aegis.creditsAt
  rw [h.after j]
  split
  · rename_i hji
    rw [hji]
    exact h.credits
  · rfl

/-! ## Credits -/

/-- The weights are in range, and credits are only at the cursor. -/
structure CreditsAtCursor (slots : FairSlots α) (cursor : ℕ) : Prop where
  inRange : cursor ≤ slots.length
  weight : ∀ i slot, slotAt slots i = some slot → slot.weight ≤ maxPeerQueueWeight
  credits : ∀ i, creditsAt slots i ≤ maxPeerQueueWeight
  atCursor : ∀ i, creditsAt slots i ≠ 0 → cursor = i

theorem CreditsAtCursor.touch {slots slots' : FairSlots α} {cursor i : ℕ} {slot : FairPeerSlot α}
    (h : CreditsAtCursor slots cursor) (htouch : Touches slots i slot slots')
    (hweight : slot.weight ≤ maxPeerQueueWeight) : CreditsAtCursor slots' cursor := by
  refine ⟨h.inRange.trans htouch.length, ?_, ?_, ?_⟩
  · intro j x hx
    rw [htouch.after j] at hx
    split at hx
    · obtain rfl := Option.some.inj hx
      exact hweight
    · exact h.weight j x hx
  · intro j
    rw [htouch.creditsAt]
    exact h.credits j
  · intro j hj
    rw [htouch.creditsAt] at hj
    exact h.atCursor j hj

/-- A slot that is passed over has none. -/
theorem credits_pass (slot : Option (FairPeerSlot α)) :
    ((slot.bind FairPeerSlot.pass).map FairPeerSlot.credits).getD 0 = 0 := by
  cases slot with
  | none => rfl
  | some slot =>
    show (slot.pass.map FairPeerSlot.credits).getD 0 = 0
    unfold FairPeerSlot.pass
    split <;> rfl

theorem spent_le {slots : FairSlots α} {cursor i : ℕ} {slot : FairPeerSlot α}
    (h : CreditsAtCursor slots cursor) (hslot : slotAt slots i = some slot) :
    slot.spent + 1 ≤ if creditsAt slots i = 0 then maxPeerQueueWeight else creditsAt slots i := by
  have hcredits : creditsAt slots i = slot.credits := by
    rw [creditsAt, hslot]
    rfl
  have hweight := h.weight i slot hslot
  rw [hcredits]
  unfold FairPeerSlot.spent FairPeerSlot.refill
  unfold maxPeerQueueWeight at hweight ⊢
  split
  · show max slot.weight 1 - 1 + 1 ≤ 8
    omega
  · omega

section Take

variable {slots slots' : FairSlots α} {cursor i : ℕ} {slot : FairPeerSlot α} {packet : α}
  {queue : List α}

/-- **After a take** credits are only at the slot it served. -/
theorem Takes.creditsAt (h : Takes slots cursor i slot packet queue slots')
    (hvalid : CreditsAtCursor slots cursor) (j : ℕ) :
    Aegis.creditsAt slots' j = if j = i then slot.spent else 0 := by
  have hafter := h.after j
  unfold Aegis.creditsAt
  split at hafter
  · rename_i hji
    rw [hafter, if_pos hji]
    rfl
  · rename_i hji
    rw [if_neg hji]
    split at hafter
    · rw [hafter, credits_pass]
    · rename_i hbefore
      rw [hafter]
      by_contra hne
      have hcursor := hvalid.atCursor j hne
      subst hcursor
      exact hbefore (before_self (Ne.symm hji))

theorem Takes.creditsAtCursor (h : Takes slots cursor i slot packet queue slots')
    (hvalid : CreditsAtCursor slots cursor) :
    CreditsAtCursor slots' (if slot.spent = 0 then i + 1 else i) := by
  have hi := lt_of_slotAt h.live
  have hspent := spent_le hvalid h.live
  have hcredits := hvalid.credits i
  refine ⟨?_, ?_, ?_, ?_⟩
  · rw [h.length]
    split <;> omega
  · intro j x hx
    rw [h.after j] at hx
    split at hx
    · obtain rfl := Option.some.inj hx
      exact hvalid.weight i slot h.live
    · split at hx
      · obtain ⟨y, hy, hpass⟩ := Option.bind_eq_some_iff.mp hx
        rw [queue_of_pass hpass]
        exact hvalid.weight j y hy
      · exact hvalid.weight j x hx
  · intro j
    rw [h.creditsAt hvalid]
    split
    · split at hspent <;> omega
    · exact Nat.zero_le _
  · intro j hj
    rw [h.creditsAt hvalid] at hj
    split at hj
    · rename_i hji
      rw [if_neg hj, hji]
    · exact absurd rfl hj

end Take

/-! ## Budgets -/

/-- How many packets slot `j` can still send before the drain comes to `s`. -/
def budget (slots : FairSlots α) (cursor s j : ℕ) : ℕ :=
  if Before cursor j s then
    if creditsAt slots j = 0 then maxPeerQueueWeight else creditsAt slots j
  else 0

theorem budget_le {slots : FairSlots α} {cursor : ℕ} (h : CreditsAtCursor slots cursor)
    (s j : ℕ) : budget slots cursor s j ≤ maxPeerQueueWeight := by
  unfold budget
  split
  · split
    · exact le_rfl
    · exact h.credits j
  · exact Nat.zero_le _

theorem Touches.budget {slots slots' : FairSlots α} {i : ℕ} {slot : FairPeerSlot α}
    (h : Touches slots i slot slots') (cursor s j : ℕ) :
    Aegis.budget slots' cursor s j = Aegis.budget slots cursor s j := by
  unfold Aegis.budget
  rw [h.creditsAt]

/-- **A take spends the budget of the slot it serves**, and gives none to the others, while `s`
waits. -/
theorem Takes.budget {slots slots' : FairSlots α} {cursor cursor' i : ℕ} {slot : FairPeerSlot α}
    {packet : α} {queue : List α} (h : Takes slots cursor i slot packet queue slots')
    (hcursor' : cursor' = if slot.spent = 0 then i + 1 else i)
    (hvalid : CreditsAtCursor slots cursor) {s : ℕ} (hwaits : ¬Idle slots s) (his : i ≠ s) (j : ℕ) :
    Aegis.budget slots' cursor' s j + (if j = i then 1 else 0) ≤
      Aegis.budget slots cursor s j := by
  have hbefore : Before cursor i s :=
    before_of_not (fun hs => hwaits (h.idle s hs)) his
  by_cases hji : j = i
  · subst hji
    have hspent := spent_le hvalid h.live
    unfold Aegis.budget
    rw [h.creditsAt hvalid, if_pos rfl, if_pos rfl, if_pos hbefore, hcursor']
    by_cases hzero : slot.spent = 0
    · rw [if_pos hzero, if_neg not_before_succ]
      omega
    · rw [if_neg hzero, if_neg hzero]
      split <;> omega
  · rw [if_neg hji, Nat.add_zero]
    have hmoved : cursor' = i ∨ cursor' = i + 1 := by
      rw [hcursor']
      split <;> omega
    unfold Aegis.budget
    split
    · rename_i hahead
      have hmove := hahead.of_move hmoved hbefore hji
      have hsame : Aegis.creditsAt slots' j = Aegis.creditsAt slots j := by
        unfold Aegis.creditsAt
        rw [h.after j, if_neg hji, if_neg hmove.2]
      rw [if_pos hmove.1, hsame]
    · exact Nat.zero_le _

/-! ## What the events do to a hub -/

namespace FairHub

theorem setWeight_cases (h : FairHub α) (slotId weight : ℕ) :
    h.setWeight slotId weight = h ∨ ∃ slot, slotAt h.slots slotId = some slot ∧
      h.setWeight slotId weight =
        { h with
          slots := h.slots.set slotId
            (some { slot with weight := max weight defaultPeerQueueWeight }) } := by
  unfold setWeight
  cases hslot : slotAt h.slots slotId with
  | none => exact Or.inl rfl
  | some slot => exact Or.inr ⟨slot, rfl, rfl⟩

/-- **A packet is accepted**, or the queue is as it was. -/
theorem tryEnqueue_cases (h : FairHub α) (slotId : ℕ) (packet : α) :
    (∃ n, h.tryEnqueue slotId packet = { h with queueDropped := n }) ∨
      ∃ slot, slotAt h.slots slotId = some slot ∧
        h.tryEnqueue slotId packet =
          { h with
            slots := h.slots.set slotId (some { slot with queue := slot.queue ++ [packet] })
            accepted := h.accepted ++ [(slot.peer, packet)] } := by
  unfold tryEnqueue
  cases hslot : slotAt h.slots slotId with
  | none => exact Or.inl ⟨h.queueDropped, rfl⟩
  | some slot =>
    dsimp only
    split
    · exact Or.inl ⟨h.queueDropped, rfl⟩
    · split
      · exact Or.inl ⟨h.queueDropped + 1, rfl⟩
      · exact Or.inr ⟨slot, rfl, rfl⟩

theorem dropSender_cases (h : FairHub α) (slotId : ℕ) :
    h.dropSender slotId = h ∨ ∃ slot, slotAt h.slots slotId = some slot ∧
      h.dropSender slotId =
        { h with slots := h.slots.set slotId (some { slot with connected := false }) } := by
  unfold dropSender
  cases hslot : slotAt h.slots slotId with
  | none => exact Or.inl rfl
  | some slot => exact Or.inr ⟨slot, rfl, rfl⟩

/-- **The events that are not takes** leave the cursor, and the credits of all slots, as they are. -/
theorem step_touches (h : FairHub α) {event : HubEvent α} (hevent : event ≠ .take)
    (hweight : event.WeightOk) (hvalid : CreditsAtCursor h.slots h.cursor) :
    (h.step event).cursor = h.cursor ∧
      ((h.step event).slots = h.slots ∨
        ∃ i slot, Touches h.slots i slot (h.step event).slots ∧
          slot.weight ≤ maxPeerQueueWeight) := by
  cases event with
  | register weight =>
    have hle : max weight defaultPeerQueueWeight ≤ maxPeerQueueWeight := max_le hweight (by decide)
    exact ⟨rfl, Or.inr ⟨_, _, (h.register_touches weight).2, hle⟩⟩
  | setWeight slotId weight =>
    have hle : max weight defaultPeerQueueWeight ≤ maxPeerQueueWeight := max_le hweight (by decide)
    rw [step]
    rcases h.setWeight_cases slotId weight with hsame | ⟨slot, hslot, hset⟩
    · rw [hsame]
      exact ⟨rfl, Or.inl rfl⟩
    · rw [hset]
      exact ⟨rfl, Or.inr ⟨slotId, _, touches_set hslot rfl, hle⟩⟩
  | tryEnqueue slotId packet =>
    rw [step]
    rcases h.tryEnqueue_cases slotId packet with ⟨n, hsame⟩ | ⟨slot, hslot, hset⟩
    · rw [hsame]
      exact ⟨rfl, Or.inl rfl⟩
    · rw [hset]
      refine ⟨rfl, Or.inr ⟨slotId, _, touches_set hslot rfl, ?_⟩⟩
      exact hvalid.weight slotId slot hslot
  | dropSender slotId =>
    rw [step]
    rcases h.dropSender_cases slotId with hsame | ⟨slot, hslot, hset⟩
    · rw [hsame]
      exact ⟨rfl, Or.inl rfl⟩
    · rw [hset]
      refine ⟨rfl, Or.inr ⟨slotId, _, touches_set hslot rfl, ?_⟩⟩
      exact hvalid.weight slotId slot hslot
  | take => exact absurd rfl hevent

/-- **A take of the hub.** -/
theorem take_cases (h : FairHub α) (hcursor : h.cursor ≤ h.slots.length) :
    (h.served = none ∧ h.take.cursor = h.cursor ∧ h.take.taken = h.taken ∧
      h.take.slots.length = h.slots.length ∧
        ∀ j, Idle h.slots j ∧
          slotAt h.take.slots j = (slotAt h.slots j).bind FairPeerSlot.pass) ∨
    ∃ i slot packet queue, h.served = some ⟨i, slot.peer, packet⟩ ∧
      h.take.cursor = (if slot.spent = 0 then i + 1 else i) ∧
      h.take.taken = h.taken ++ [(slot.peer, packet)] ∧
      Takes h.slots h.cursor i slot packet queue h.take.slots := by
  unfold served take
  rcases fairWfqTakeOne_cases hcursor with ⟨slots', htake, hlength, hall⟩ |
    ⟨i, slot, packet, queue, slots', htakes, htake⟩
  · left
    rw [htake]
    exact ⟨rfl, rfl, List.append_nil _, hlength, hall⟩
  · right
    rw [htake]
    exact ⟨i, slot, packet, queue, rfl, rfl, rfl, htakes⟩

/-- **Credits are only at the cursor**, step by step. -/
theorem creditsAtCursor_step {h : FairHub α} (hvalid : CreditsAtCursor h.slots h.cursor)
    {event : HubEvent α} (hweight : event.WeightOk) :
    CreditsAtCursor (h.step event).slots (h.step event).cursor := by
  by_cases htake : event = .take
  · subst htake
    show CreditsAtCursor h.take.slots h.take.cursor
    rcases h.take_cases hvalid.inRange with ⟨-, hcursor, -, hlength, hall⟩ |
      ⟨i, slot, packet, queue, -, hcursor, -, htakes⟩
    · have hzero : ∀ j, creditsAt h.take.slots j = 0 := by
        intro j
        rw [creditsAt, (hall j).2, credits_pass]
      rw [hcursor]
      refine ⟨hlength ▸ hvalid.inRange, ?_, ?_, ?_⟩
      · intro j x hx
        rw [(hall j).2] at hx
        obtain ⟨y, hy, hpass⟩ := Option.bind_eq_some_iff.mp hx
        rw [queue_of_pass hpass]
        exact hvalid.weight j y hy
      · intro j
        rw [hzero]
        exact Nat.zero_le _
      · intro j hj
        exact absurd (hzero j) hj
    · rw [hcursor]
      exact htakes.creditsAtCursor hvalid
  · obtain ⟨hcursor, hslots | ⟨i, slot, htouch, hslot⟩⟩ := h.step_touches htake hweight hvalid
    · rw [hcursor, hslots]
      exact hvalid
    · rw [hcursor]
      exact hvalid.touch htouch hslot

/-! ## Fairness -/

/-- The take of this event serves slot `j`. -/
def serves (j : ℕ) (h : FairHub α) : HubEvent α → Bool
  | .take => decide (h.served.map Served.slot = some j)
  | _ => false

/-- Slot `s` has a packet, and this event does not take it. -/
def Waits (s : ℕ) (h : FairHub α) (event : HubEvent α) : Prop :=
  ¬Idle h.slots s ∧ serves s h event = false

/-- A step spends the budget of the slot it serves. -/
theorem budget_step {h : FairHub α} (hvalid : CreditsAtCursor h.slots h.cursor)
    {event : HubEvent α} (hweight : event.WeightOk) {s : ℕ} (hwaits : Waits s h event) (j : ℕ) :
    (serves j h event).toNat + budget (h.step event).slots (h.step event).cursor s j ≤
      budget h.slots h.cursor s j := by
  by_cases htake : event = .take
  · subst htake
    show _ + budget h.take.slots h.take.cursor s j ≤ _
    rcases h.take_cases hvalid.inRange with ⟨-, -, -, -, hall⟩ |
      ⟨i, slot, packet, queue, hserved, hcursor, -, htakes⟩
    · exact absurd (hall s).1 hwaits.1
    · have hserves : ∀ k, serves k h .take = decide (k = i) := by
        intro k
        unfold serves
        rw [hserved]
        simp [eq_comm]
      have his : i ≠ s := by
        have hnot := hwaits.2
        rw [hserves] at hnot
        exact fun hsi => (of_decide_eq_false hnot) hsi.symm
      have hspend := htakes.budget hcursor hvalid hwaits.1 his j
      rw [hserves, Nat.add_comm]
      refine le_trans (Nat.add_le_add_left ?_ _) hspend
      by_cases hji : j = i <;> simp [hji]
  · have hnone : serves j h event = false := by
      cases event with
      | take => exact absurd rfl htake
      | _ => rfl
    obtain ⟨hcursor, hslots | ⟨i, slot, htouch, -⟩⟩ := h.step_touches htake hweight hvalid
    · rw [hnone, hcursor, hslots]
      exact (Nat.zero_add _).le
    · rw [hnone, hcursor, htouch.budget]
      exact (Nat.zero_add _).le

/-- **While a slot waits**, another is served no more often than its budget allows. -/
theorem count_serves_le {h : FairHub α} (hvalid : CreditsAtCursor h.slots h.cursor)
    {events : List (HubEvent α)} (hweights : ∀ event ∈ events, event.WeightOk) {s : ℕ}
    (hwaits : Run.Guarded step (Waits s) h events) (j : ℕ) :
    Run.count step (serves j) h events ≤ budget h.slots h.cursor s j := by
  induction events generalizing h with
  | nil => exact Nat.zero_le _
  | cons event events ih =>
    have hweight := hweights event List.mem_cons_self
    have hrest := ih (creditsAtCursor_step hvalid hweight)
      (fun event' hevent' => hweights event' (List.mem_cons_of_mem event hevent')) hwaits.2
    have hstep := budget_step hvalid hweight hwaits.1 j
    rw [Run.count]
    omega

end FairHub

end Aegis
