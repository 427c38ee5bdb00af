import Aegis.Lib.Cyclic
import Aegis.Lib.Run

/-!
# Fair hubs (`net.rs`)

Every connection has a queue of its own.  A drain task takes packets from the queues in turn, of
each as many in a row as its weight.  The inbound and the outbound hub differ in what they carry.

* `fairWfqTakeOne_cases` — **what a take does**: it passes over empty queues up to the first that
  is not, and serves that one.
-/

namespace Aegis

open Cyclic

/-- How many packets of a connection may wait. -/
def perPeerInboundCapacity : ℕ := 16

/-- The weight of a connection that is given none. -/
def defaultPeerQueueWeight : ℕ := 1

/-- The greatest weight of a connection. -/
def maxPeerQueueWeight : ℕ := 8

/-! ## Slots -/

/-- The queue of a connection, with what its sender and the drain task do to it. -/
structure FairPeerSlot (α : Type) where
  /-- Which registration made the slot. -/
  peer : ℕ
  queue : List α
  /-- The sender has not been dropped. -/
  connected : Bool
  weight : ℕ
  /-- How many more packets the slot may send before the cursor advances. -/
  credits : ℕ

/-- Why nothing was received. -/
inductive TryRecvError where
  | empty
  | disconnected
  deriving DecidableEq, Repr

variable {α : Type}

namespace FairPeerSlot

/-- `rx.try_recv`. -/
def tryRecv (slot : FairPeerSlot α) : Except TryRecvError (α × FairPeerSlot α) :=
  match slot.queue with
  | packet :: queue => .ok (packet, { slot with queue := queue })
  | [] => .error (if slot.connected then .empty else .disconnected)

/-- Credits to start a visit with. -/
def refill (slot : FairPeerSlot α) : FairPeerSlot α :=
  if slot.credits = 0 then { slot with credits := max slot.weight defaultPeerQueueWeight }
  else slot

/-- An empty queue cannot bank its weight. -/
def forfeit (slot : FairPeerSlot α) : FairPeerSlot α := { slot with credits := 0 }

/-- The credits left after one packet. -/
def spent (slot : FairPeerSlot α) : ℕ := slot.refill.credits - 1

theorem refill_frame (slot : FairPeerSlot α) :
    slot.refill.peer = slot.peer ∧ slot.refill.queue = slot.queue ∧
      slot.refill.connected = slot.connected ∧ slot.refill.weight = slot.weight := by
  unfold refill
  split <;> exact ⟨rfl, rfl, rfl, rfl⟩

theorem forfeit_refill (slot : FairPeerSlot α) : slot.refill.forfeit = slot.forfeit := by
  unfold refill
  split <;> rfl

theorem tryRecv_of_nil {slot : FairPeerSlot α} (h : slot.queue = []) :
    slot.tryRecv = .error (if slot.connected then .empty else .disconnected) := by
  unfold tryRecv
  rw [h]

theorem tryRecv_of_cons {slot : FairPeerSlot α} {packet : α} {queue : List α}
    (h : slot.queue = packet :: queue) :
    slot.tryRecv = .ok (packet, { slot with queue := queue }) := by
  unfold tryRecv
  rw [h]

end FairPeerSlot

/-- The slots, `none` where one was vacated. -/
abbrev FairSlots (α : Type) := List (Option (FairPeerSlot α))

/-- The live slot at a place. -/
def slotAt (slots : FairSlots α) (i : ℕ) : Option (FairPeerSlot α) := slots[i]?.join

theorem slotAt_set (slots : FairSlots α) {i : ℕ} (hi : i < slots.length)
    (slot : Option (FairPeerSlot α)) (j : ℕ) :
    slotAt (slots.set i slot) j = if j = i then slot else slotAt slots j := by
  unfold slotAt
  split
  · rename_i hji
    rw [hji, List.getElem?_set_self hi]
    rfl
  · rename_i hji
    rw [List.getElem?_set_ne (Ne.symm hji)]

theorem slotAt_append (slots : FairSlots α) (slot : Option (FairPeerSlot α)) (j : ℕ) :
    slotAt (slots ++ [slot]) j = if j = slots.length then slot else slotAt slots j := by
  unfold slotAt
  rcases Nat.lt_trichotomy j slots.length with hlt | rfl | hgt
  · rw [List.getElem?_append_left hlt, if_neg (by omega)]
  · rw [List.getElem?_concat_length, if_pos rfl]
    rfl
  · rw [if_neg (by omega), List.getElem?_eq_none (by simp; omega), List.getElem?_eq_none (by omega)]

theorem lt_of_slotAt {slots : FairSlots α} {i : ℕ} {slot : FairPeerSlot α}
    (h : slotAt slots i = some slot) : i < slots.length := by
  by_contra hge
  unfold slotAt at h
  rw [List.getElem?_eq_none (by omega)] at h
  cases h

/-! ## Taking a packet -/

/-- A packet that has been taken, and where from. -/
structure Served (α : Type) where
  slot : ℕ
  peer : ℕ
  packet : α

/-- What the drain finds at a slot. -/
inductive Outcome (α : Type) where
  | packet (served : Served α) (advance : Bool)
  | disconnected
  | none

/-- The body of the loop of `fair_wfq_take_one`. -/
def visit (slots : FairSlots α) (i : ℕ) : Outcome α × FairSlots α :=
  match slots[i]? with
  | some (some slot) =>
    let slot := slot.refill
    match slot.tryRecv with
    | .ok (packet, slot) =>
      let slot := { slot with credits := slot.credits - 1 }
      (.packet ⟨i, slot.peer, packet⟩ (decide (slot.credits = 0)), slots.set i (some slot))
    | .error .empty => (.none, slots.set i (some slot.forfeit))
    | .error .disconnected => (.disconnected, slots.set i (some slot))
  | _ => (.none, slots)

/-- The loop, over the steps that are left. -/
def takeFrom (cursor : ℕ) (slots : FairSlots α) : List ℕ → Option (Served α) × FairSlots α × ℕ
  | [] => (none, slots, cursor)
  | step :: steps =>
    let i := (cursor + step) % slots.length
    match visit slots i with
    | (.packet served advance, slots) => (some served, slots, if advance then i + 1 else i)
    | (.disconnected, slots) => takeFrom cursor (slots.set i none) steps
    | (.none, slots) => takeFrom cursor slots steps

/-- The next packet in weighted turns, and where the turn is then. -/
def fairWfqTakeOne (slots : FairSlots α) (cursor : ℕ) : Option (Served α) × FairSlots α × ℕ :=
  if slots.length = 0 then (none, slots, cursor)
  else takeFrom cursor slots (List.range slots.length)

/-- No packet waits at the place. -/
def Idle (slots : FairSlots α) (i : ℕ) : Prop :=
  ∀ slot, slotAt slots i = some slot → slot.queue = []

/-- A slot that is passed over forfeits its credits, or is vacated. -/
def FairPeerSlot.pass (slot : FairPeerSlot α) : Option (FairPeerSlot α) :=
  if slot.connected then some slot.forfeit else none

/-- The table with the slot at one place passed over. -/
def passAt (slots : FairSlots α) (i : ℕ) : FairSlots α :=
  slots.set i ((slotAt slots i).bind FairPeerSlot.pass)

/-! ## What a visit does -/

theorem visit_packet {slots : FairSlots α} {i : ℕ} {slot : FairPeerSlot α} {packet : α}
    {queue : List α} (hslot : slotAt slots i = some slot) (hqueue : slot.queue = packet :: queue) :
    visit slots i = (.packet ⟨i, slot.peer, packet⟩ (decide (slot.spent = 0)),
      slots.set i (some { slot with queue := queue, credits := slot.spent })) := by
  have hget : slots[i]? = some (some slot) := by
    unfold slotAt at hslot
    exact Option.join_eq_some_iff.mp hslot
  obtain ⟨hpeer, hq, hconnected, hweight⟩ := slot.refill_frame
  unfold visit
  rw [hget]
  dsimp only
  rw [FairPeerSlot.tryRecv_of_cons (hq.trans hqueue)]
  dsimp only
  rw [hpeer, hconnected, hweight]
  rfl

/-- A slot without a packet is passed over. -/
theorem visit_idle {slots : FairSlots α} {i : ℕ} (hi : i < slots.length) (h : Idle slots i) :
    visit slots i = (.none, passAt slots i) ∨
      ∃ slots', visit slots i = (.disconnected, slots') ∧ slots'.set i none = passAt slots i ∧
        slots'.length = slots.length := by
  unfold visit passAt
  rcases hget : slots[i]? with _ | (_ | slot)
  · rw [List.getElem?_eq_none_iff] at hget
    omega
  · left
    have hnone : slotAt slots i = none := by
      unfold slotAt
      rw [hget]
      rfl
    rw [hnone]
    obtain ⟨_, hslot⟩ := List.getElem?_eq_some_iff.mp hget
    show (Outcome.none, slots) = (Outcome.none, slots.set i none)
    rw [← hslot, List.set_getElem_self]
  · have hslot : slotAt slots i = some slot := by
      unfold slotAt
      rw [hget]
      rfl
    obtain ⟨-, hq, hconnected, -⟩ := slot.refill_frame
    have hqueue : slot.refill.queue = [] := hq.trans (h slot hslot)
    rw [hslot]
    dsimp only
    rw [FairPeerSlot.tryRecv_of_nil hqueue, hconnected]
    show _ ∨ ∃ slots', _ ∧ _ = slots.set i slot.pass ∧ _
    unfold FairPeerSlot.pass
    cases hlive : slot.connected with
    | true =>
      left
      show (Outcome.none, slots.set i (some slot.refill.forfeit)) = _
      rw [FairPeerSlot.forfeit_refill]
      simp [hlive]
    | false =>
      right
      refine ⟨slots.set i (some slot.refill), rfl, ?_, List.length_set⟩
      rw [List.set_set]
      rfl

theorem length_passAt (slots : FairSlots α) (i : ℕ) : (passAt slots i).length = slots.length :=
  List.length_set

theorem slotAt_passAt (slots : FairSlots α) {i : ℕ} (hi : i < slots.length) (j : ℕ) :
    slotAt (passAt slots i) j =
      if j = i then (slotAt slots i).bind FairPeerSlot.pass else slotAt slots j :=
  slotAt_set slots hi _ j

theorem pass_pass (slot : Option (FairPeerSlot α)) :
    (slot.bind FairPeerSlot.pass).bind FairPeerSlot.pass = slot.bind FairPeerSlot.pass := by
  cases slot with
  | none => rfl
  | some slot =>
    show slot.pass.bind FairPeerSlot.pass = slot.pass
    unfold FairPeerSlot.pass
    cases hlive : slot.connected with
    | true =>
      show (if slot.forfeit.connected then some slot.forfeit.forfeit else none) = _
      rw [show slot.forfeit.connected = true from hlive]
      rfl
    | false => rfl

theorem queue_of_pass {slot slot' : FairPeerSlot α} (h : slot.pass = some slot') :
    slot' = slot.forfeit := by
  unfold FairPeerSlot.pass at h
  split at h
  · exact (Option.some.inj h).symm
  · cases h

/-- Passing over an idle slot makes no other idle. -/
theorem idle_passAt {slots : FairSlots α} {i : ℕ} (hi : i < slots.length) (h : Idle slots i)
    (j : ℕ) : Idle (passAt slots i) j ↔ Idle slots j := by
  unfold Idle
  rw [slotAt_passAt slots hi]
  split
  · rename_i hji
    rw [hji]
    constructor
    · exact fun _ => h
    · intro _ slot hslot
      obtain ⟨slot', hslot', hpass⟩ := Option.bind_eq_some_iff.mp hslot
      rw [queue_of_pass hpass]
      exact h slot' hslot'
  · exact Iff.rfl

/-- A packet that waits once an idle slot has been passed over waited before. -/
theorem slotAt_of_passAt {slots : FairSlots α} {i j : ℕ} (hi : i < slots.length)
    (h : Idle slots i) {slot : FairPeerSlot α} (hslot : slotAt (passAt slots i) j = some slot)
    (hqueue : slot.queue ≠ []) : slotAt slots j = some slot := by
  have hne : j ≠ i := by
    rintro rfl
    exact hqueue ((idle_passAt hi h j).mpr h slot hslot)
  rw [slotAt_passAt slots hi, if_neg hne] at hslot
  exact hslot

/-! ## What a take does -/

/-- Where the drain looks in a step. -/
def place (cursor n step : ℕ) : ℕ := (cursor + step) % n

theorem takeFrom_idle {slots : FairSlots α} {cursor step : ℕ} (steps : List ℕ)
    (hpos : 0 < slots.length) (h : Idle slots (place cursor slots.length step)) :
    takeFrom cursor slots (step :: steps) =
      takeFrom cursor (passAt slots (place cursor slots.length step)) steps := by
  rw [takeFrom]
  rcases visit_idle (Nat.mod_lt (cursor + step) hpos) h with hvisit | ⟨slots', hvisit, hset, -⟩
  · rw [hvisit]
    rfl
  · rw [hvisit]
    show takeFrom cursor (slots'.set _ none) steps = _
    rw [hset]
    rfl

/-- The first slot that is not idle is served. -/
theorem takeFrom_packet {slots : FairSlots α} {cursor step : ℕ} (steps : List ℕ)
    {slot : FairPeerSlot α} {packet : α} {queue : List α}
    (hslot : slotAt slots (place cursor slots.length step) = some slot)
    (hqueue : slot.queue = packet :: queue) :
    takeFrom cursor slots (step :: steps) =
      (some ⟨place cursor slots.length step, slot.peer, packet⟩,
        slots.set (place cursor slots.length step)
          (some { slot with queue := queue, credits := slot.spent }),
        if slot.spent = 0 then place cursor slots.length step + 1
        else place cursor slots.length step) := by
  have hvisit := visit_packet hslot hqueue
  unfold place at hvisit ⊢
  rw [takeFrom, hvisit]
  by_cases hspent : slot.spent = 0 <;> simp [hspent]

/-- An idle slot and, once it is passed over, idle slots. -/
theorem idle_cons {slots : FairSlots α} {cursor step : ℕ} {steps : List ℕ}
    (hpos : 0 < slots.length) (h : Idle slots (place cursor slots.length step))
    (hrest : ∀ k ∈ steps, Idle (passAt slots (place cursor slots.length step))
      (place cursor slots.length k)) :
    ∀ k ∈ step :: steps, Idle slots (place cursor slots.length k) := by
  intro k hk
  rcases List.mem_cons.mp hk with rfl | hk
  · exact h
  · exact (idle_passAt (Nat.mod_lt _ hpos) h _).mp (hrest k hk)

/-- The slots that `steps` look at are passed over. -/
def PassedBy (cursor : ℕ) (slots slots' : FairSlots α) (steps : List ℕ) : Prop :=
  ∀ j, slotAt slots' j =
    if ∃ k ∈ steps, place cursor slots.length k = j then (slotAt slots j).bind FairPeerSlot.pass
    else slotAt slots j

theorem PassedBy.nil (cursor : ℕ) (slots : FairSlots α) : PassedBy cursor slots slots [] := by
  intro j
  rw [if_neg]
  rintro ⟨k, hk, -⟩
  exact absurd hk List.not_mem_nil

theorem PassedBy.cons {cursor step : ℕ} {slots slots' : FairSlots α} {steps : List ℕ}
    (hpos : 0 < slots.length)
    (h : PassedBy cursor (passAt slots (place cursor slots.length step)) slots' steps) :
    PassedBy cursor slots slots' (step :: steps) := by
  intro j
  have hi : place cursor slots.length step < slots.length := Nat.mod_lt _ hpos
  rw [h j, length_passAt, slotAt_passAt slots hi]
  by_cases hrest : ∃ k ∈ steps, place cursor slots.length k = j
  · obtain ⟨k, hk, hkj⟩ := hrest
    have hmore : ∃ k ∈ step :: steps, place cursor slots.length k = j :=
      ⟨k, List.mem_cons_of_mem step hk, hkj⟩
    rw [if_pos ⟨k, hk, hkj⟩, if_pos hmore]
    split
    · rename_i hj
      rw [hj, pass_pass]
    · rfl
  · rw [if_neg hrest]
    split
    · rename_i hj
      rw [if_pos ⟨step, List.mem_cons_self, hj.symm⟩, hj]
    · rename_i hj
      rw [if_neg]
      rintro ⟨k, hk, hkj⟩
      rcases List.mem_cons.mp hk with rfl | hk
      · exact hj hkj.symm
      · exact hrest ⟨k, hk, hkj⟩

/-- The loop passes over idle slots up to the first that is not. -/
theorem takeFrom_cases (cursor : ℕ) (steps : List ℕ) {slots : FairSlots α}
    (hpos : 0 < slots.length) :
    (∃ slots', takeFrom cursor slots steps = (none, slots', cursor) ∧
      slots'.length = slots.length ∧ PassedBy cursor slots slots' steps ∧
        ∀ k ∈ steps, Idle slots (place cursor slots.length k)) ∨
    ∃ pre k post slot packet queue slots', steps = pre ++ k :: post ∧
      (∀ k' ∈ pre, Idle slots (place cursor slots.length k')) ∧
      slotAt slots (place cursor slots.length k) = some slot ∧ slot.queue = packet :: queue ∧
      slots'.length = slots.length ∧ PassedBy cursor slots slots' pre ∧
      takeFrom cursor slots steps =
        (some ⟨place cursor slots.length k, slot.peer, packet⟩,
          slots'.set (place cursor slots.length k)
            (some { slot with queue := queue, credits := slot.spent }),
          if slot.spent = 0 then place cursor slots.length k + 1
          else place cursor slots.length k) := by
  induction steps generalizing slots with
  | nil =>
    exact Or.inl ⟨slots, rfl, rfl, .nil cursor slots, fun k hk => absurd hk List.not_mem_nil⟩
  | cons step steps ih =>
    have hi : place cursor slots.length step < slots.length := Nat.mod_lt _ hpos
    by_cases hidle : Idle slots (place cursor slots.length step)
    · have hlen := length_passAt slots (place cursor slots.length step)
      rw [takeFrom_idle steps hpos hidle]
      rcases ih (hpos.trans_eq hlen.symm) with ⟨slots', htake, hlength, hpassed, hall⟩ |
          ⟨pre, k, post, slot, packet, queue, slots', hsteps, hpre, hslot, hqueue, hlength, hpassed,
            htake⟩
      · rw [hlen] at hlength hall
        exact Or.inl ⟨slots', htake, hlength, hpassed.cons hpos, idle_cons hpos hidle hall⟩
      · rw [hlen] at hlength hslot hpre htake
        have hkeep : slotAt slots (place cursor slots.length k) = some slot :=
          slotAt_of_passAt hi hidle hslot (by simp [hqueue])
        refine Or.inr ⟨step :: pre, k, post, slot, packet, queue, slots', ?_,
          idle_cons hpos hidle hpre, hkeep, hqueue, hlength, hpassed.cons hpos, htake⟩
        rw [hsteps]
        rfl
    · unfold Idle at hidle
      push Not at hidle
      obtain ⟨slot, hslot, hne⟩ := hidle
      obtain ⟨packet, queue, hqueue⟩ := List.exists_cons_of_ne_nil hne
      exact Or.inr ⟨[], step, steps, slot, packet, queue, slots, rfl,
        fun k hk => absurd hk List.not_mem_nil, hslot, hqueue, rfl, .nil cursor slots,
        takeFrom_packet steps hslot hqueue⟩

/-- A take serves slot `i`, the first that is not idle. -/
structure Takes (slots : FairSlots α) (cursor i : ℕ) (slot : FairPeerSlot α) (packet : α)
    (queue : List α) (slots' : FairSlots α) : Prop where
  live : slotAt slots i = some slot
  head : slot.queue = packet :: queue
  length : slots'.length = slots.length
  idle : ∀ j, Before cursor j i → Idle slots j
  after : ∀ j, slotAt slots' j =
    if j = i then some { slot with queue := queue, credits := slot.spent }
    else if Before cursor j i then (slotAt slots j).bind FairPeerSlot.pass else slotAt slots j

theorem slotAt_of_le {slots : FairSlots α} {j : ℕ} (h : slots.length ≤ j) :
    slotAt slots j = none := by
  unfold slotAt
  rw [List.getElem?_eq_none h]
  rfl

/-- A prefix of the steps. -/
theorem mem_of_range_eq {n k : ℕ} {pre post : List ℕ} (h : List.range n = pre ++ k :: post) :
    k < n ∧ ∀ k', k' ∈ pre ↔ k' < k := by
  have hlen : pre.length < n := by
    have hlength := congrArg List.length h
    rw [List.length_range, List.length_append, List.length_cons] at hlength
    omega
  have hk : k = pre.length := by
    have hget := congrArg (fun l => l[pre.length]?) h
    simp only [List.getElem?_range hlen, List.getElem?_append_right le_rfl, Nat.sub_self,
      List.getElem?_cons_zero, Option.some.injEq] at hget
    exact hget.symm
  have hpre : pre = List.range pre.length := by
    have htake := congrArg (List.take pre.length) h
    rw [List.take_left, List.take_range, Nat.min_eq_left hlen.le] at htake
    exact htake.symm
  refine ⟨hk ▸ hlen, fun k' => ?_⟩
  rw [hk, hpre, List.mem_range, List.length_range]

theorem idle_of_le {slots : FairSlots α} {j : ℕ} (h : slots.length ≤ j) : Idle slots j := by
  intro slot hslot
  exact absurd (lt_of_slotAt hslot) (by omega)

/-- The slot after those that were passed over is served. -/
theorem takes_of_passedBy {slots slots' : FairSlots α} {cursor k : ℕ} {pre post : List ℕ}
    {slot : FairPeerSlot α} {packet : α} {queue : List α} (hcursor : cursor ≤ slots.length)
    (hpos : 0 < slots.length) (hsteps : List.range slots.length = pre ++ k :: post)
    (hpre : ∀ k' ∈ pre, Idle slots (place cursor slots.length k'))
    (hslot : slotAt slots (place cursor slots.length k) = some slot)
    (hqueue : slot.queue = packet :: queue) (hlength : slots'.length = slots.length)
    (hpassed : PassedBy cursor slots slots' pre) :
    Takes slots cursor (place cursor slots.length k) slot packet queue
      (slots'.set (place cursor slots.length k)
        (some { slot with queue := queue, credits := slot.spent })) := by
  obtain ⟨hk, hpre'⟩ := mem_of_range_eq hsteps
  have hreached : ∀ j, (∃ k' ∈ pre, place cursor slots.length k' = j) ↔
      j < slots.length ∧ Before cursor j (place cursor slots.length k) := by
    intro j
    refine Iff.trans ?_ (exists_mod_eq_iff hcursor hk)
    exact exists_congr fun k' => and_congr_left fun _ => hpre' k'
  have hi : place cursor slots.length k < slots'.length := by
    rw [hlength]
    exact Nat.mod_lt _ hpos
  refine ⟨hslot, hqueue, ?_, ?_, ?_⟩
  · rw [List.length_set, hlength]
  · intro j hbefore
    by_cases hj : j < slots.length
    · obtain ⟨k', hk', rfl⟩ := (hreached j).mpr ⟨hj, hbefore⟩
      exact hpre k' hk'
    · exact idle_of_le (by omega)
  · intro j
    rw [slotAt_set slots' hi, hpassed]
    by_cases hj : j < slots.length
    · have hiff : (∃ k' ∈ pre, place cursor slots.length k' = j) ↔
          Before cursor j (place cursor slots.length k) :=
        (hreached j).trans (and_iff_right hj)
      simp only [hiff]
    · rw [slotAt_of_le (by omega), Option.bind_none, ite_self, ite_self]

/-- **What a take does**: there is no packet at all, or it serves the first slot that is not idle,
and the cursor stays there until the credits are spent. -/
theorem fairWfqTakeOne_cases {slots : FairSlots α} {cursor : ℕ} (hcursor : cursor ≤ slots.length) :
    (∃ slots', fairWfqTakeOne slots cursor = (none, slots', cursor) ∧
      slots'.length = slots.length ∧
        ∀ j, Idle slots j ∧ slotAt slots' j = (slotAt slots j).bind FairPeerSlot.pass) ∨
    ∃ i slot packet queue slots', Takes slots cursor i slot packet queue slots' ∧
      fairWfqTakeOne slots cursor =
        (some ⟨i, slot.peer, packet⟩, slots', if slot.spent = 0 then i + 1 else i) := by
  unfold fairWfqTakeOne
  split
  · rename_i hempty
    refine Or.inl ⟨slots, rfl, rfl, fun j => ⟨idle_of_le (by omega), ?_⟩⟩
    obtain rfl := List.eq_nil_of_length_eq_zero hempty
    rfl
  · rename_i hne
    have hpos : 0 < slots.length := Nat.pos_of_ne_zero hne
    rcases takeFrom_cases cursor (List.range slots.length) hpos with
      ⟨slots', htake, hlength, hpassed, hall⟩ |
      ⟨pre, k, post, slot, packet, queue, slots', hsteps, hpre, hslot, hqueue, hlength, hpassed,
        htake⟩
    · refine Or.inl ⟨slots', htake, hlength, fun j => ?_⟩
      by_cases hj : j < slots.length
      · obtain ⟨k, hk, rfl⟩ := exists_mod_eq hcursor hj
        have hk' := List.mem_range.mpr hk
        refine ⟨hall k hk', ?_⟩
        rw [hpassed, if_pos ⟨k, hk', rfl⟩]
      · refine ⟨idle_of_le (by omega), ?_⟩
        rw [slotAt_of_le (by omega), slotAt_of_le (by omega)]
        rfl
    · exact Or.inr ⟨_, slot, packet, queue, _,
        takes_of_passedBy hcursor hpos hsteps hpre hslot hqueue hlength hpassed, htake⟩

end Aegis
