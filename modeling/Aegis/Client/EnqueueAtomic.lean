import Aegis.Client.Delivery

/-!
# Packets cut short by a full channel (`session.rs`)

`enqueue_fragments` puts the cells of a packet in the channel one at a time, and gives up at the
first for which there is no slot.  The cells before it are there to stay.

* `refusedEmpty_step` — a step that keeps the refused calls without a cell.
* `returned_enqueueAmong` — how many cells of a packet find a slot.
* `wholePackets` — the stream of a run in which no packet is cut.
* `enqueue_atomic_iff` — **when a refused packet has no cell in the channel**.
-/

namespace Aegis

open Buffer

/-- The call has failed for want of a slot. -/
def EnqueueReturn.Refused (r : EnqueueReturn) : Prop :=
  ∃ e, r.result = .error (.emitterBacklogFull e)

namespace PacedSession

variable {ρ : Type}

/-- No refused call has put a cell in the channel. -/
def RefusedEmpty (s : PacedSession ρ) : Prop :=
  ∀ r ∈ s.returned, r.Refused → r.call.placed = []

/-- A cell that is not the first of its packet finds a slot. -/
def Unsplit (s : PacedSession ρ) : SessionEvent ρ → Prop
  | .trySend i => ∀ call, s.calls[i]? = some call → call.placed ≠ [] → call.rest ≠ [] →
      s.running = true → s.channel.length < s.maxBacklog
  | _ => True

/-- A call begins only when no other is in progress. -/
def Alone (s : PacedSession ρ) : SessionEvent ρ → Prop
  | .enqueuePacket _ _ => s.calls = []
  | _ => True

/-- The channel has taken whole packets, one after another, and the first cells of the one whose
call is in progress. -/
def WholePackets (s : PacedSession ρ) : Prop :=
  ∃ packets : List (SphinxPacket × PacketId),
    s.taken = (packets.map fun p => fragment p.1 p.2).flatten ++
      (s.calls.map EnqueueCall.placed).flatten

/-! ## What a call returns -/

section Step

variable {C : Suite ρ} {s : PacedSession ρ}

/-- **What a round of `enqueue_fragments` returns**, if it does, and why. -/
theorem returned_trySend (s : PacedSession ρ) (i : ℕ) :
    ((s.trySend i).returned = s.returned ∧
      ∀ call, s.calls[i]? = some call → s.channel.length < s.maxBacklog) ∨
    ∃ call, s.calls[i]? = some call ∧
      ((call.rest = [] ∧ (s.trySend i).returned = s.returned ++ [⟨call, .ok ()⟩]) ∨
        (s.running = false ∧
          (s.trySend i).returned = s.returned ++ [⟨call, .error .sessionClosed⟩]) ∨
        (call.rest ≠ [] ∧ s.running = true ∧ s.maxBacklog ≤ s.channel.length ∧
          (s.trySend i).returned =
            s.returned ++ [⟨call, .error (.emitterBacklogFull ⟨s.maxBacklog⟩)⟩])) := by
  unfold trySend
  split
  · rename_i hnone
    left
    refine ⟨rfl, ?_⟩
    intro call hcall
    rw [hnone] at hcall
    cases hcall
  · rename_i call hcall
    split
    · rename_i hrest
      exact Or.inr ⟨call, hcall, Or.inl ⟨hrest, rfl⟩⟩
    · rename_i cell rest hrest
      split_ifs with hstopped hfull
      · exact Or.inr ⟨call, hcall, Or.inr (Or.inl ⟨hstopped, rfl⟩)⟩
      · have hne : call.rest ≠ [] := by
          rw [hrest]
          exact List.cons_ne_nil _ _
        exact Or.inr ⟨call, hcall,
          Or.inr (Or.inr ⟨hne, (Bool.not_eq_false _).mp hstopped, hfull, rfl⟩)⟩
      · left
        refine ⟨rfl, ?_⟩
        intro _ _
        exact Nat.not_le.mp hfull

/-- Only a `try_send` returns from a call. -/
theorem returned_step {event : SessionEvent ρ} (h : ∀ i, event ≠ .trySend i) :
    (step C s event).returned = s.returned := by
  cases event with
  | enqueuePacket packet rng =>
    show (s.enqueuePacket C packet rng).returned = _
    unfold enqueuePacket
    split <;> rfl
  | trySend i => exact absurd rfl (h i)
  | recv => exact (recv_frame s).2.2.1
  | tick sent now now' => exact (tick_frame C s sent now now').2.2.1
  | shutdown => exact (consume_frame s .shutdown).2.1
  | drop => exact (consume_frame s .dropped).2.1
  | changed => exact (changed_frame s).2.2.1

/-- One more call has returned. -/
theorem refusedEmpty_append {t : PacedSession ρ} {r : EnqueueReturn}
    (h : t.returned = s.returned ++ [r]) :
    t.RefusedEmpty ↔ s.RefusedEmpty ∧ (r.Refused → r.call.placed = []) := by
  unfold RefusedEmpty
  rw [h]
  constructor
  · intro hall
    exact ⟨fun x hx => hall x (List.mem_append_left _ hx), hall r (by simp)⟩
  · rintro ⟨hold, hnew⟩ x hx
    rcases List.mem_append.mp hx with hx | hx
    · exact hold x hx
    · obtain rfl := List.mem_singleton.mp hx
      exact hnew

/-- **A step keeps the refused calls without a cell** exactly when it cuts no packet. -/
theorem refusedEmpty_step (s : PacedSession ρ) (event : SessionEvent ρ) :
    (step C s event).RefusedEmpty ↔ s.RefusedEmpty ∧ s.Unsplit event := by
  by_cases htry : ∃ i, event = .trySend i
  · obtain ⟨i, rfl⟩ := htry
    rw [step_trySend]
    rcases returned_trySend s i with ⟨hsame, hroom⟩ | ⟨call, hcall, hreturn⟩
    · have hunsplit : s.Unsplit (.trySend i) := fun call hcall _ _ _ => hroom call hcall
      unfold RefusedEmpty
      rw [hsame]
      exact (and_iff_left hunsplit).symm
    · rcases hreturn with ⟨hrest, hok⟩ | ⟨hstopped, hclosed⟩ | ⟨hrest, hrun, hfull, hrefused⟩
      · have hunsplit : s.Unsplit (.trySend i) := by
          intro call' hcall' _ hrest'
          obtain rfl := Option.some.inj (hcall.symm.trans hcall')
          exact absurd hrest hrest'
        rw [refusedEmpty_append hok, and_iff_left hunsplit]
        exact and_iff_left nofun
      · have hunsplit : s.Unsplit (.trySend i) := by
          intro _ _ _ _ hrun
          rw [hstopped] at hrun
          cases hrun
        rw [refusedEmpty_append hclosed, and_iff_left hunsplit]
        exact and_iff_left nofun
      · rw [refusedEmpty_append hrefused]
        refine and_congr_right fun _ => ?_
        constructor
        · intro hempty call' hcall' hplaced
          obtain rfl := Option.some.inj (hcall.symm.trans hcall')
          exact absurd (hempty ⟨_, rfl⟩) hplaced
        · intro hunsplit _
          by_contra hplaced
          exact absurd (hunsplit call hcall hplaced hrest hrun) (Nat.not_lt.mpr hfull)
  · rw [not_exists] at htry
    have hunsplit : s.Unsplit event := by
      cases event with
      | trySend i => exact absurd rfl (htry i)
      | _ => trivial
    unfold RefusedEmpty
    rw [returned_step htry]
    exact (and_iff_left hunsplit).symm

theorem refusedEmpty_of_start {config : PacedSessionConfig} {rng : ρ}
    (h : startWithTransport config rng = some s) : s.RefusedEmpty := by
  obtain ⟨-, -, -, hreturned, -⟩ := active_of_start h
  unfold RefusedEmpty
  rw [hreturned]
  exact nofun

end Step

/-! ## How many cells find a slot -/

/-- How many tries find a slot before the first that does not, in a channel with `used` cells, of
which the driver receives as many as listed before each try. -/
def fitting (capacity : ℕ) : ℕ → List ℕ → ℕ
  | _, [] => 0
  | used, r :: receives =>
    if used - r < capacity then fitting capacity (used - r + 1) receives + 1 else 0

/-- Every try finds a slot. -/
def Fits (capacity : ℕ) : ℕ → List ℕ → Prop
  | _, [] => True
  | used, r :: receives => used - r < capacity ∧ Fits capacity (used - r + 1) receives

theorem fitting_le (capacity used : ℕ) (receives : List ℕ) :
    fitting capacity used receives ≤ receives.length := by
  induction receives generalizing used with
  | nil => exact le_rfl
  | cons r receives ih =>
    unfold fitting
    split
    · exact Nat.succ_le_succ (ih _)
    · exact Nat.zero_le _

theorem fitting_eq_length {capacity used : ℕ} {receives : List ℕ} :
    fitting capacity used receives = receives.length ↔ Fits capacity used receives := by
  induction receives generalizing used with
  | nil => exact iff_of_true rfl trivial
  | cons r receives ih =>
    unfold fitting Fits
    split
    · rename_i hslot
      rw [List.length_cons, Nat.add_right_cancel_iff, ih, and_iff_right hslot]
    · rename_i hfull
      exact iff_of_false (Nat.succ_ne_zero _).symm fun h => hfull h.1

theorem fitting_eq_zero {capacity used r : ℕ} {receives : List ℕ} :
    fitting capacity used (r :: receives) = 0 ↔ capacity ≤ used - r := by
  unfold fitting
  split
  · rename_i hslot
    exact iff_of_false (Nat.succ_ne_zero _) (Nat.not_le.mpr hslot)
  · rename_i hfull
    exact iff_of_true rfl (Nat.not_lt.mp hfull)

/-- With the driver at rest the free slots decide. -/
theorem fitting_replicate_zero (capacity used n : ℕ) :
    fitting capacity used (List.replicate n 0) = min n (capacity - used) := by
  induction n generalizing used with
  | zero => simp [fitting]
  | succ n ih =>
    rw [List.replicate_succ]
    unfold fitting
    split
    · rw [Nat.sub_zero, ih]
      omega
    · omega

/-! ## A call and the driver -/

/-- The tries of a call, with the driver's steps before each. -/
def tries (waits : List (List (SessionEvent ρ))) : List (SessionEvent ρ) :=
  (waits.map (· ++ [.trySend 0])).flatten ++ [.trySend 0]

/-- A call of one packet. -/
def enqueueAmong (packet : SphinxPacket) (rng : ρ) (waits : List (List (SessionEvent ρ))) :
    List (SessionEvent ρ) :=
  .enqueuePacket packet rng :: tries waits

/-- How many cells the driver receives before each try. -/
def receives (waits : List (List (SessionEvent ρ))) : List ℕ :=
  waits.map (·.countP SessionEvent.isRecv)

/-- The call has returned, and `n` of the cells it had left are in the channel. -/
structure Returns (s t : PacedSession ρ) (call : EnqueueCall) (n : ℕ) : Prop where
  calls : t.calls = []
  returned : ∃ done : EnqueueCall, done.placed = call.placed ++ call.rest.take n ∧
    t.returned = s.returned ++
      [⟨done, if n = call.rest.length then .ok () else
        .error (.emitterBacklogFull ⟨s.maxBacklog⟩)⟩]
  taken : t.taken = s.taken ++ call.rest.take n

section Call

variable {C : Suite ρ} {s : PacedSession ρ}

theorem run_tries_cons (C : Suite ρ) (s : PacedSession ρ) (wait : List (SessionEvent ρ))
    (waits : List (List (SessionEvent ρ))) :
    run C s (tries (wait :: waits)) = run C ((run C s wait).trySend 0) (tries waits) := by
  unfold tries
  rw [List.map_cons, List.flatten_cons, List.append_assoc, List.append_assoc, run_append]
  rfl

variable (C) in
/-- What follows the return of the only call changes nothing of it. -/
theorem Active.idle (h : s.Active) (hcalls : s.calls = []) {events : List (SessionEvent ρ)}
    (hevents : ∀ event ∈ events, event.IsDriver ∨ event = .trySend 0) :
    (PacedSession.run C s events).calls = [] ∧
      (PacedSession.run C s events).returned = s.returned ∧
      (PacedSession.run C s events).taken = s.taken := by
  have hinv := Run.foldl_preserves (f := PacedSession.step C)
    (fun t : PacedSession ρ => t.Active ∧ t.calls = [] ∧ t.returned = s.returned ∧
      t.taken = s.taken) (l := events) (s := s) ?_ ⟨h, hcalls, rfl, rfl⟩
  · exact hinv.2
  · rintro t event hmem ⟨hactive, hnone, hreturned, htaken⟩
    rcases hevents event hmem with hdriver | rfl
    · obtain ⟨hactive', -, hcalls', hreturned', htaken', -⟩ := hactive.step (C := C) hdriver
      exact ⟨hactive', hcalls'.trans hnone, hreturned'.trans hreturned, htaken'.trans htaken⟩
    · have hsame : t.trySend 0 = t := by
        unfold PacedSession.trySend
        rw [hnone]
        rfl
      rw [step_trySend, hsame]
      exact ⟨hactive, hnone, hreturned, htaken⟩

theorem mem_tries {waits : List (List (SessionEvent ρ))}
    (hdriver : ∀ wait ∈ waits, ∀ event ∈ wait, event.IsDriver) {event : SessionEvent ρ}
    (h : event ∈ tries waits) : event.IsDriver ∨ event = .trySend 0 := by
  unfold tries at h
  rw [List.mem_append, List.mem_flatten, List.mem_singleton] at h
  rcases h with ⟨events, hevents, hmem⟩ | h
  · obtain ⟨wait, hwait, rfl⟩ := List.mem_map.mp hevents
    rcases List.mem_append.mp hmem with hmem | hmem
    · exact Or.inl (hdriver wait hwait event hmem)
    · exact Or.inr (List.mem_singleton.mp hmem)
  · exact Or.inr h

/-- The first try that finds no slot ends the call. -/
theorem returns_of_full {waits : List (List (SessionEvent ρ))} {call : EnqueueCall} {cell : Cell}
    {rest : List Cell} (h : s.Active) (hcalls : s.calls = [call]) (hrest : call.rest = cell :: rest)
    (hfull : s.maxBacklog ≤ s.channel.length)
    (hdriver : ∀ wait ∈ waits, ∀ event ∈ wait, event.IsDriver) :
    Returns s (run C (s.trySend 0) (tries waits)) call 0 := by
  have htry := trySend_of_le h.running hcalls hrest hfull
  obtain ⟨hcalls', hreturned, htaken⟩ := (h.trySend 0).1.idle C (by rw [htry])
    fun event hevent => mem_tries hdriver hevent
  refine ⟨hcalls', ⟨call, by simp, ?_⟩, ?_⟩
  · rw [hreturned, htry, if_neg (by rw [hrest]; exact (Nat.succ_ne_zero _).symm)]
  · rw [htaken, htry]
    simp

/-- A try that finds a slot is one more cell in the channel. -/
theorem Returns.of_slot {t : PacedSession ρ} {call : EnqueueCall} {cell : Cell} {rest : List Cell}
    {n : ℕ} (hrun : s.running = true) (hcalls : s.calls = [call])
    (hrest : call.rest = cell :: rest) (hslot : s.channel.length < s.maxBacklog)
    (h : Returns (s.trySend 0) t (call.place cell rest hrest) n) : Returns s t call (n + 1) := by
  have htry := trySend_of_lt hrun hcalls hrest hslot
  obtain ⟨hcalls', ⟨done, hdone, hreturned⟩, htaken⟩ := h
  rw [htry] at hreturned htaken
  refine ⟨hcalls', ⟨done, ?_, ?_⟩, ?_⟩
  · rw [hdone, hrest]
    simp [EnqueueCall.place]
  · rw [hreturned, hrest, List.length_cons]
    by_cases hn : n = rest.length
    · simp [EnqueueCall.place, hn]
    · simp [EnqueueCall.place, hn]
  · rw [htaken, hrest]
    simp [EnqueueCall.place]

/-- The driver's steps before a try leave the call as it is. -/
theorem Returns.of_wait {t u : PacedSession ρ} {call : EnqueueCall} {n : ℕ}
    (hbacklog : t.maxBacklog = s.maxBacklog) (hreturned : t.returned = s.returned)
    (htaken : t.taken = s.taken) (h : Returns t u call n) : Returns s u call n := by
  obtain ⟨hcalls, hdone, htaken'⟩ := h
  rw [hbacklog, hreturned] at hdone
  rw [htaken] at htaken'
  exact ⟨hcalls, hdone, htaken'⟩

variable (C) in
/-- **How many cells of a packet find a slot**: these are in the channel when the call returns. -/
theorem returns_of_tries {waits : List (List (SessionEvent ρ))} {call : EnqueueCall}
    (h : s.Active) (hcalls : s.calls = [call]) (hlength : call.rest.length = waits.length)
    (hdriver : ∀ wait ∈ waits, ∀ event ∈ wait, event.IsDriver) :
    Returns s (run C s (tries waits)) call
      (fitting s.maxBacklog s.channel.length (receives waits)) := by
  induction waits generalizing s call with
  | nil =>
    have hrest : call.rest = [] := List.eq_nil_of_length_eq_zero hlength
    have htry := trySend_of_nil hcalls hrest
    refine ⟨?_, ⟨call, by rw [hrest]; simp, ?_⟩, ?_⟩
    · show (s.trySend 0).calls = []
      rw [htry]
    · show (s.trySend 0).returned = _
      rw [htry, hrest]
      rfl
    · show (s.trySend 0).taken = _
      rw [htry, hrest]
      simp
  | cons wait waits ih =>
    obtain ⟨cell, rest, hrest⟩ := List.exists_cons_of_length_eq_add_one hlength
    have hwaits : ∀ wait' ∈ waits, ∀ event ∈ wait', event.IsDriver := fun wait' hwait' =>
      hdriver wait' (List.mem_cons_of_mem wait hwait')
    obtain ⟨hactive, hbacklog, hcalls', hreturned, htaken, hchannel, -⟩ :=
      h.run (C := C) (hdriver wait List.mem_cons_self)
    have hcall : (run C s wait).calls = [call] := hcalls'.trans hcalls
    have hused : (run C s wait).channel.length =
        s.channel.length - wait.countP SessionEvent.isRecv := by
      rw [hchannel, List.length_drop]
    rw [run_tries_cons]
    refine Returns.of_wait hbacklog hreturned htaken ?_
    show Returns _ _ _ (if _ then _ else 0)
    rw [← hused, ← hbacklog]
    split
    · rename_i hslot
      have htry := trySend_of_lt hactive.running hcall hrest hslot
      rw [hrest, List.length_cons, List.length_cons, Nat.add_right_cancel_iff] at hlength
      have hnext := ih (hactive.trySend 0).1 (by rw [htry]) hlength hwaits
      refine Returns.of_slot hactive.running hcall hrest hslot ?_
      rw [htry] at hnext ⊢
      rw [List.length_append] at hnext
      exact hnext
    · rename_i hfull
      exact returns_of_full hactive hcall hrest (Nat.not_lt.mp hfull) hwaits

variable (C) in
/-- The same from the start of the call. -/
theorem returns_enqueueAmong (h : s.Active) (hcalls : s.calls = []) (packet : SphinxPacket)
    (rng : ρ) {waits : List (List (SessionEvent ρ))} (hlength : waits.length = sphinxFragmentCount)
    (hdriver : ∀ wait ∈ waits, ∀ event ∈ wait, event.IsDriver) :
    Returns s (run C s (enqueueAmong packet rng waits))
      (.begin packet (fragmentWithRandomId C packet rng).1.2)
      (fitting s.maxBacklog s.channel.length (receives waits)) := by
  obtain ⟨hactive, hbegin⟩ := step_enqueuePacket C h hcalls packet rng
  have hreturns := returns_of_tries C hactive (by rw [hbegin]) (by
    rw [hlength]
    exact length_fragment _ _) hdriver
  rw [enqueueAmong, run_cons]
  rw [hbegin] at hreturns ⊢
  refine Returns.of_wait ?_ ?_ ?_ hreturns
  · rfl
  · rfl
  · rfl

/-- A call that is refused keeps its cells out of the channel exactly when it is refused at the
first of them. -/
theorem Returns.refused_iff {t : PacedSession ρ} {call : EnqueueCall} {n : ℕ}
    (h : Returns s t call n) (hplaced : call.placed = []) (hn : n ≤ call.rest.length) :
    ∃ r, t.returned = s.returned ++ [r] ∧
      ((r.Refused → r.call.placed = []) ↔ n = 0 ∨ n = call.rest.length) := by
  obtain ⟨done, hdone, hreturned⟩ := h.returned
  refine ⟨_, hreturned, ?_⟩
  rw [hplaced, List.nil_append] at hdone
  rw [hdone, List.take_eq_nil_iff]
  unfold EnqueueReturn.Refused
  by_cases hwhole : n = call.rest.length
  · refine iff_of_true ?_ (Or.inr hwhole)
    rintro ⟨e, he⟩
    rw [if_pos hwhole] at he
    cases he
  · have hrest : call.rest ≠ [] := by
      intro hnil
      rw [hnil, List.length_nil] at hn hwhole
      omega
    rw [if_neg hwhole]
    constructor
    · intro hempty
      exact Or.inl ((hempty ⟨_, rfl⟩).resolve_right hrest)
    · rintro (hzero | hall) _
      · exact Or.inl hzero
      · exact absurd hall hwhole

variable (C) in
/-- **A call alone with the driver**, from any number of free slots: a refused packet has no cell in
the channel exactly when the channel is full at the first try, or has a slot for every one. -/
theorem enqueueAmong_atomic_iff (h : s.Active) (hcalls : s.calls = []) (packet : SphinxPacket)
    (rng : ρ) {wait : List (SessionEvent ρ)} {waits : List (List (SessionEvent ρ))}
    (hlength : (wait :: waits).length = sphinxFragmentCount)
    (hdriver : ∀ wait' ∈ wait :: waits, ∀ event ∈ wait', event.IsDriver) :
    ∃ r, (run C s (enqueueAmong packet rng (wait :: waits))).returned = s.returned ++ [r] ∧
      ((r.Refused → r.call.placed = []) ↔
        s.maxBacklog ≤ s.channel.length - wait.countP SessionEvent.isRecv ∨
          Fits s.maxBacklog s.channel.length (receives (wait :: waits))) := by
  have hreturns := returns_enqueueAmong C h hcalls packet rng hlength hdriver
  have hcells : (EnqueueCall.begin packet (fragmentWithRandomId C packet rng).1.2).rest.length =
      (receives (wait :: waits)).length := by
    rw [receives, List.length_map, hlength]
    exact length_fragment _ _
  rw [← fitting_eq_length, ← hcells,
    ← fitting_eq_zero (r := wait.countP SessionEvent.isRecv)]
  refine hreturns.refused_iff rfl ?_
  rw [hcells]
  exact fitting_le _ _ _

end Call

/-! ## The stream -/

section Stream

variable {C : Suite ρ} {s : PacedSession ρ}

theorem callsInOrder_of_start {config : PacedSessionConfig} {rng : ρ}
    (h : startWithTransport config rng = some s) : s.CallsInOrder :=
  (delivering_of_start h).callsInOrder

/-- **One step of a run in which the calls do not overlap.** -/
theorem CallsInOrder.step (h : s.CallsInOrder) {event : SessionEvent ρ} (halone : s.Alone event) :
    (PacedSession.step C s event).CallsInOrder := by
  cases event with
  | enqueuePacket packet rng => exact h.enqueuePacket halone packet rng
  | trySend i => exact h.trySend i
  | recv =>
    obtain ⟨-, hcalls, hreturned, htaken⟩ := recv_frame s
    exact h.of_driver hcalls hreturned htaken
  | tick sent now now' =>
    obtain ⟨-, hcalls, hreturned, htaken⟩ := tick_frame C s sent now now'
    exact h.of_driver hcalls hreturned htaken
  | shutdown =>
    obtain ⟨hcalls, hreturned, htaken, -⟩ := consume_frame s .shutdown
    exact h.of_driver hcalls hreturned htaken
  | drop =>
    obtain ⟨hcalls, hreturned, htaken, -⟩ := consume_frame s .dropped
    exact h.of_driver hcalls hreturned htaken
  | changed =>
    obtain ⟨-, hcalls, hreturned, htaken, -⟩ := changed_frame s
    exact h.of_driver hcalls hreturned htaken

/-- A call finds the session closed only after the driver has stopped. -/
def ClosedStops (s : PacedSession ρ) : Prop :=
  ∀ r ∈ s.returned, r.result = .error .sessionClosed → s.running = false

theorem ClosedStops.step (h : s.ClosedStops) (event : SessionEvent ρ) :
    (PacedSession.step C s event).ClosedStops := by
  have hstops : ∀ r ∈ s.returned, r.result = .error .sessionClosed →
      (PacedSession.step C s event).running = false := by
    intro r hr hclosed
    by_contra hrun
    have hbefore := running_of_step ((Bool.not_eq_false _).mp hrun)
    rw [h r hr hclosed] at hbefore
    cases hbefore
  intro r hr hclosed
  by_cases htry : ∃ i, event = .trySend i
  · obtain ⟨i, rfl⟩ := htry
    rw [step_trySend] at hr
    rcases returned_trySend s i with ⟨hsame, -⟩ | ⟨call, -, hreturn⟩
    · rw [hsame] at hr
      exact hstops r hr hclosed
    · rcases hreturn with ⟨-, hlast⟩ | ⟨hstopped, hlast⟩ | ⟨-, -, -, hlast⟩
      · rw [hlast] at hr
        rcases List.mem_append.mp hr with hr | hr
        · exact hstops r hr hclosed
        · obtain rfl := List.mem_singleton.mp hr
          cases hclosed
      · exact (trySend_frame s i).2.trans hstopped
      · rw [hlast] at hr
        rcases List.mem_append.mp hr with hr | hr
        · exact hstops r hr hclosed
        · obtain rfl := List.mem_singleton.mp hr
          cases hclosed
  · rw [not_exists] at htry
    rw [returned_step htry] at hr
    exact hstops r hr hclosed

/-- Calls that have put all their cells or none in the channel make whole packets. -/
theorem packets_of_returned (returned : List EnqueueReturn)
    (h : ∀ r ∈ returned, r.call.placed = fragment r.call.packet r.call.packetId ∨
      r.call.placed = []) :
    ∃ packets : List (SphinxPacket × PacketId),
      (returned.map fun r => r.call.placed).flatten =
        (packets.map fun p => fragment p.1 p.2).flatten := by
  induction returned with
  | nil => exact ⟨[], rfl⟩
  | cons r returned ih =>
    obtain ⟨packets, hpackets⟩ := ih fun x hx => h x (List.mem_cons_of_mem r hx)
    rcases h r List.mem_cons_self with hwhole | hnone
    · refine ⟨(r.call.packet, r.call.packetId) :: packets, ?_⟩
      rw [List.map_cons, List.map_cons, List.flatten_cons, List.flatten_cons, hpackets, hwhole]
    · refine ⟨packets, ?_⟩
      rw [List.map_cons, List.flatten_cons, hpackets, hnone, List.nil_append]

/-- **Where no refused call has left a cell, the stream is whole packets.** -/
theorem CallsInOrder.wholePackets (h : s.CallsInOrder) (hempty : s.RefusedEmpty)
    (hclosed : s.ClosedStops) (hrun : s.running = true) : s.WholePackets := by
  obtain ⟨packets, hpackets⟩ := packets_of_returned s.returned (by
    intro r hr
    cases hresult : r.result with
    | ok => exact Or.inl (h.whole r hr hresult)
    | error err =>
      cases err with
      | sessionClosed =>
        have hstopped := hclosed r hr hresult
        rw [hrun] at hstopped
        cases hstopped
      | emitterBacklogFull e => exact Or.inr (hempty r hr ⟨e, hresult⟩))
  exact ⟨packets, by rw [h.taken, hpackets]⟩

/-- **When a refused packet has no cell in the channel**: in every run, with any number of callers,
exactly when every cell but the first of a packet finds a slot; the stream is then made of whole
packets if the calls do not overlap.  For a call alone with the driver the free slots say when. -/
theorem enqueue_atomic_iff (C : Suite ρ) {config : PacedSessionConfig} {rng : ρ}
    (hstart : startWithTransport config rng = some s) (events : List (SessionEvent ρ)) :
    ((run C s events).RefusedEmpty ↔ Run.Guarded (PacedSession.step C) Unsplit s events) ∧
      (Run.Guarded (PacedSession.step C) Unsplit s events →
        Run.Guarded (PacedSession.step C) Alone s events → (run C s events).running = true →
          (run C s events).WholePackets) ∧
      ∀ packet rng' wait waits, (run C s events).Active → (run C s events).calls = [] →
        (wait :: waits).length = sphinxFragmentCount →
        (∀ wait' ∈ wait :: waits, ∀ event ∈ wait', event.IsDriver) →
          ∃ r, (run C (run C s events) (enqueueAmong packet rng' (wait :: waits))).returned =
              (run C s events).returned ++ [r] ∧
            ((r.Refused → r.call.placed = []) ↔
              (run C s events).maxBacklog ≤
                  (run C s events).channel.length - wait.countP SessionEvent.isRecv ∨
                Fits (run C s events).maxBacklog (run C s events).channel.length
                  (receives (wait :: waits))) := by
  have hiff : (run C s events).RefusedEmpty ↔
      Run.Guarded (PacedSession.step C) Unsplit s events :=
    (Run.foldl_iff_guarded fun t event => refusedEmpty_step t event).trans
      (and_iff_right (refusedEmpty_of_start hstart))
  refine ⟨hiff, ?_, ?_⟩
  · intro hunsplit halone hrun
    have horder : (run C s events).CallsInOrder :=
      halone.preserves CallsInOrder (fun _ _ hok h => h.step hok) (callsInOrder_of_start hstart)
    have hclosed : (run C s events).ClosedStops :=
      Run.foldl_preserves ClosedStops (fun _ event _ h => h.step event) (by
        obtain ⟨-, -, -, hreturned, -⟩ := active_of_start hstart
        unfold ClosedStops
        rw [hreturned]
        exact nofun)
    exact horder.wholePackets (hiff.mpr hunsplit) hclosed hrun
  · intro packet rng' wait waits hactive hcalls hlength hdriver
    exact enqueueAmong_atomic_iff C hactive hcalls packet rng' hlength hdriver

/-- A second packet in a channel that has room for one. -/
theorem enqueue_atomic_checksum :
    ∃ s, startWithTransport ⟨⟨sphinxFragmentCount⟩, 0⟩ (0 : UInt8) = some s ∧
      ∃ r, (run checksumSuite (run checksumSuite s (sendOne (Bytes.zero sphinxPacketLen) 0))
          (enqueueAmong (Bytes.zero sphinxPacketLen) 0
            ([] :: List.replicate 17 []))).returned =
          (run checksumSuite s (sendOne (Bytes.zero sphinxPacketLen) 0)).returned ++ [r] ∧
        (r.Refused → r.call.placed = []) := by
  obtain ⟨s, hstart⟩ : ∃ s, startWithTransport ⟨⟨sphinxFragmentCount⟩, 0⟩ (0 : UInt8) = some s :=
    ⟨_, rfl⟩
  obtain ⟨hactive, hbacklog, hcalls, hreturned, hchannel, -⟩ := active_of_start hstart
  have haccepted := accepted_sendOne checksumSuite hactive hcalls (Bytes.zero sphinxPacketLen) 0
    (by rw [hchannel, hbacklog]; decide)
  obtain ⟨-, -, hcall⟩ := enqueue_atomic_iff checksumSuite hstart
    (sendOne (Bytes.zero sphinxPacketLen) 0)
  obtain ⟨r, hr, hempty⟩ := hcall (Bytes.zero sphinxPacketLen) 0 [] (List.replicate 17 [])
    haccepted.active haccepted.calls rfl (by
      intro wait hwait event hevent
      rw [← List.replicate_succ] at hwait
      rw [List.eq_of_mem_replicate hwait] at hevent
      cases hevent)
  refine ⟨s, hstart, r, hr, hempty.mpr (Or.inl ?_)⟩
  rw [haccepted.maxBacklog, hbacklog, haccepted.channel, hchannel, List.nil_append, length_fragment]
  exact le_rfl

/-- Packets sent one after another while the driver rests. -/
theorem active_of_packets (hactive : s.Active) (hcalls : s.calls = []) (packet : SphinxPacket)
    (rng : ρ) (n : ℕ) (hroom : s.channel.length + n * sphinxFragmentCount ≤ s.maxBacklog) :
    ∃ t, run C s (List.replicate n (sendOne packet rng)).flatten = t ∧ t.Active ∧ t.calls = [] ∧
      t.maxBacklog = s.maxBacklog ∧
      t.channel.length = s.channel.length + n * sphinxFragmentCount := by
  induction n generalizing s with
  | zero => exact ⟨s, rfl, hactive, hcalls, rfl, by rw [Nat.zero_mul, Nat.add_zero]⟩
  | succ n ih =>
    rw [Nat.succ_mul] at hroom
    have haccepted := accepted_sendOne C hactive hcalls packet rng (by omega)
    have hlength : (run C s (sendOne packet rng)).channel.length =
        s.channel.length + sphinxFragmentCount := by
      rw [haccepted.channel, List.length_append, length_fragment]
    obtain ⟨t, ht, hactive', hcalls', hbacklog, hchannel⟩ :=
      ih haccepted.active haccepted.calls (by rw [hlength, haccepted.maxBacklog]; omega)
    refine ⟨t, ?_, hactive', hcalls', hbacklog.trans haccepted.maxBacklog, ?_⟩
    · rw [List.replicate_succ, List.flatten_cons, run_append]
      exact ht
    · rw [hchannel, hlength, Nat.succ_mul]
      omega

/-- **The fifteenth packet in a channel of the default size**: four of its cells are there when it is
refused. -/
theorem not_refusedEmpty_checksum :
    ∃ s, startWithTransport ⟨⟨defaultMaxBacklog⟩, 0⟩ (0 : UInt8) = some s ∧
      ∃ r ∈ (run checksumSuite s
        ((List.replicate 14 (sendOne (Bytes.zero sphinxPacketLen) 0)).flatten ++
          enqueueAmong (Bytes.zero sphinxPacketLen) 0 (List.replicate 18 []))).returned,
        r.Refused ∧ r.call.placed.length = 4 := by
  obtain ⟨s, hstart⟩ : ∃ s, startWithTransport ⟨⟨defaultMaxBacklog⟩, 0⟩ (0 : UInt8) = some s :=
    ⟨_, rfl⟩
  obtain ⟨hactive, hbacklog, hcalls, -, hchannel, -⟩ := active_of_start hstart
  obtain ⟨t, ht, hactive', hcalls', hbacklog', hchannel'⟩ :=
    active_of_packets (C := checksumSuite) hactive hcalls (Bytes.zero sphinxPacketLen) 0 14
      (by rw [hchannel, hbacklog]; decide)
  rw [hbacklog] at hbacklog'
  rw [hchannel] at hchannel'
  have hdriver : ∀ wait ∈ List.replicate 18 ([] : List (SessionEvent UInt8)), ∀ event ∈ wait,
      event.IsDriver := by
    intro wait hwait event hevent
    rw [List.eq_of_mem_replicate hwait] at hevent
    cases hevent
  have hreturns := returns_enqueueAmong checksumSuite hactive' hcalls'
    (Bytes.zero sphinxPacketLen) 0 rfl hdriver
  have hfitting : fitting t.maxBacklog t.channel.length
      (receives (List.replicate 18 ([] : List (SessionEvent UInt8)))) = 4 := by
    rw [hbacklog', hchannel']
    exact fitting_replicate_zero 256 252 18
  rw [hfitting] at hreturns
  obtain ⟨done, hdone, hreturned⟩ := hreturns.returned
  have hcells := length_fragment (Bytes.zero sphinxPacketLen)
    (fragmentWithRandomId checksumSuite (Bytes.zero sphinxPacketLen) 0).1.2
  refine ⟨s, hstart, ⟨done, .error (.emitterBacklogFull ⟨t.maxBacklog⟩)⟩, ?_, ⟨_, rfl⟩, ?_⟩
  · rw [run_append, ht, hreturned, EnqueueCall.begin, if_neg (by rw [hcells]; decide)]
    exact List.mem_append_right _ List.mem_cons_self
  · show done.placed.length = 4
    rw [hdone, EnqueueCall.begin, List.nil_append, List.length_take, hcells]
    rfl

end Stream

end PacedSession

end Aegis
