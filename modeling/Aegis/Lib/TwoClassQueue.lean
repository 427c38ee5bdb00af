import Aegis.Lib.Run

/-!
# A bounded queue of two classes

Items of two classes wait in one bounded queue.  Whoever serves it takes the urgent items first, and
those of a class in the order in which they came.  A history lists what has been accepted, refused
and served.

* `Conserves` — everything accepted has been served or waits, once and in its class's order.
* `InOrder` — nothing was served before its turn.
* `Kept.step`, `kept_run` — **both hold in every run**, which never overfills the queue.
-/

/-- The items that wait, each class in the order in which it came. -/
structure TwoClassQueue (α β : Type) where
  capacity : ℕ
  urgent : List α
  plain : List β

namespace TwoClassQueue

variable {α β : Type}

/-- What is done to the queue. -/
inductive Op (α β : Type) where
  | push (item : α ⊕ β)
  | pop

/-- What an operation shows. -/
inductive Event (α β : Type) where
  | accepted (item : α ⊕ β)
  | refused (item : α ⊕ β)
  | served (item : Option (α ⊕ β))

/-! ## The operations -/

/-- How many items wait. -/
def size (q : TwoClassQueue α β) : ℕ := q.urgent.length + q.plain.length

/-- An item goes to the end of its class. -/
def insert (q : TwoClassQueue α β) : α ⊕ β → TwoClassQueue α β
  | .inl a => { q with urgent := q.urgent ++ [a] }
  | .inr b => { q with plain := q.plain ++ [b] }

/-- A full queue refuses. -/
def push (q : TwoClassQueue α β) (item : α ⊕ β) : Event α β × TwoClassQueue α β :=
  if q.size < q.capacity then (.accepted item, q.insert item) else (.refused item, q)

/-- The first of the urgent items, or of the others if there is none. -/
def pop (q : TwoClassQueue α β) : Event α β × TwoClassQueue α β :=
  match q.urgent, q.plain with
  | a :: urgent, _ => (.served (some (.inl a)), { q with urgent := urgent })
  | [], b :: plain => (.served (some (.inr b)), { q with plain := plain })
  | [], [] => (.served none, q)

/-- What an operation does, and what it shows. -/
def step (q : TwoClassQueue α β) : Op α β → Event α β × TwoClassQueue α β
  | .push item => q.push item
  | .pop => q.pop

/-- A run, with its history. -/
def run (q : TwoClassQueue α β) (ops : List (Op α β)) : List (Event α β) × TwoClassQueue α β :=
  ops.foldl (fun t op => (t.1 ++ [(t.2.step op).1], (t.2.step op).2)) ([], q)

/-! ## Histories -/

namespace Event

/-- The urgent item that was accepted. -/
def acceptedUrgent : Event α β → List α
  | .accepted (.inl a) => [a]
  | _ => []

/-- The plain item that was accepted. -/
def acceptedPlain : Event α β → List β
  | .accepted (.inr b) => [b]
  | _ => []

/-- The urgent item that was served. -/
def servedUrgent : Event α β → List α
  | .served (some (.inl a)) => [a]
  | _ => []

/-- The plain item that was served. -/
def servedPlain : Event α β → List β
  | .served (some (.inr b)) => [b]
  | _ => []

end Event

/-- What has been accepted has been served or waits. -/
structure Conserves (q : TwoClassQueue α β) (history : List (Event α β)) : Prop where
  urgent : history.flatMap Event.acceptedUrgent = history.flatMap Event.servedUrgent ++ q.urgent
  plain : history.flatMap Event.acceptedPlain = history.flatMap Event.servedPlain ++ q.plain

/-- After this history it is the item's turn: it is the next of its class, and no urgent item waits
unless it is one.  Nothing is served only when nothing waits. -/
def Turn (history : List (Event α β)) : Option (α ⊕ β) → Prop
  | some (.inl a) =>
    history.flatMap Event.servedUrgent ++ [a] <+: history.flatMap Event.acceptedUrgent
  | some (.inr b) =>
    history.flatMap Event.servedUrgent = history.flatMap Event.acceptedUrgent ∧
      history.flatMap Event.servedPlain ++ [b] <+: history.flatMap Event.acceptedPlain
  | none =>
    history.flatMap Event.servedUrgent = history.flatMap Event.acceptedUrgent ∧
      history.flatMap Event.servedPlain = history.flatMap Event.acceptedPlain

/-- Everything was served in its turn. -/
def InOrder (history : List (Event α β)) : Prop :=
  ∀ before item after, history = before ++ .served item :: after → Turn before item

/-! ## What is served -/

variable {q : TwoClassQueue α β} {history : List (Event α β)}

theorem pop_of_urgent {a : α} {urgent : List α} (h : q.urgent = a :: urgent) :
    q.pop = (.served (some (.inl a)), { q with urgent := urgent }) := by
  unfold pop
  rw [h]

theorem pop_of_plain {b : β} {plain : List β} (hu : q.urgent = []) (hp : q.plain = b :: plain) :
    q.pop = (.served (some (.inr b)), { q with plain := plain }) := by
  unfold pop
  rw [hu, hp]

theorem pop_of_nil (hu : q.urgent = []) (hp : q.plain = []) : q.pop = (.served none, q) := by
  unfold pop
  rw [hu, hp]

/-! ## What a step does to the history -/

theorem Conserves.push (h : Conserves q history) (item : α ⊕ β) :
    Conserves (q.push item).2 (history ++ [(q.push item).1]) := by
  obtain ⟨hurgent, hplain⟩ := h
  unfold TwoClassQueue.push
  split
  · cases item with
    | inl a =>
      constructor
      · simp [Event.acceptedUrgent, Event.servedUrgent, insert, hurgent]
      · simp [Event.acceptedPlain, Event.servedPlain, insert, hplain]
    | inr b =>
      constructor
      · simp [Event.acceptedUrgent, Event.servedUrgent, insert, hurgent]
      · simp [Event.acceptedPlain, Event.servedPlain, insert, hplain]
  · constructor
    · simp [Event.acceptedUrgent, Event.servedUrgent, hurgent]
    · simp [Event.acceptedPlain, Event.servedPlain, hplain]

/-- What is served waited at the head of its class. -/
theorem Conserves.pop (h : Conserves q history) :
    ∃ item, q.pop.1 = .served item ∧ Turn history item ∧
      Conserves q.pop.2 (history ++ [.served item]) := by
  obtain ⟨hurgent, hplain⟩ := h
  rcases hu : q.urgent with _ | ⟨a, urgent⟩
  · rw [hu, List.append_nil] at hurgent
    rcases hp : q.plain with _ | ⟨b, plain⟩
    · rw [hp, List.append_nil] at hplain
      rw [pop_of_nil hu hp]
      refine ⟨none, rfl, ⟨hurgent.symm, hplain.symm⟩, ?_, ?_⟩
      · simp [Event.acceptedUrgent, Event.servedUrgent, hurgent, hu]
      · simp [Event.acceptedPlain, Event.servedPlain, hplain, hp]
    · rw [hp] at hplain
      rw [pop_of_plain hu hp]
      refine ⟨some (.inr b), rfl, ⟨hurgent.symm, plain, ?_⟩, ?_, ?_⟩
      · rw [hplain, List.append_assoc, List.singleton_append]
      · simp [Event.acceptedUrgent, Event.servedUrgent, hurgent, hu]
      · simp [Event.acceptedPlain, Event.servedPlain, hplain]
  · rw [hu] at hurgent
    rw [pop_of_urgent hu]
    refine ⟨some (.inl a), rfl, ⟨urgent, ?_⟩, ?_, ?_⟩
    · rw [hurgent, List.append_assoc, List.singleton_append]
    · simp [Event.acceptedUrgent, Event.servedUrgent, hurgent]
    · simp [Event.acceptedPlain, Event.servedPlain, hplain]

theorem InOrder.concat (h : InOrder history) {event : Event α β}
    (hturn : ∀ item, event = .served item → Turn history item) : InOrder (history ++ [event]) := by
  intro before item after heq
  rcases List.eq_nil_or_concat after with rfl | ⟨rest, last, rfl⟩
  · obtain ⟨rfl, hlast⟩ := List.append_inj' heq rfl
    obtain rfl := List.singleton_inj.mp hlast
    exact hturn item rfl
  · rw [List.concat_eq_append, ← List.cons_append, ← List.append_assoc] at heq
    obtain ⟨hinit, -⟩ := List.append_inj' heq rfl
    exact h before item rest hinit

/-- The invariant of a run. -/
structure Kept (capacity : ℕ) (history : List (Event α β)) (q : TwoClassQueue α β) : Prop where
  conserves : Conserves q history
  inOrder : InOrder history
  capacity_eq : q.capacity = capacity
  size_le : q.size ≤ capacity

variable {capacity : ℕ}

theorem kept_nil (capacity : ℕ) :
    Kept capacity [] (⟨capacity, [], []⟩ : TwoClassQueue α β) := by
  refine ⟨⟨rfl, rfl⟩, ?_, rfl, Nat.zero_le _⟩
  intro before item after heq
  exact absurd heq.symm (by simp)

theorem size_insert (q : TwoClassQueue α β) (item : α ⊕ β) :
    (q.insert item).size = q.size + 1 := by
  cases item with
  | inl a =>
    show (q.urgent ++ [a]).length + q.plain.length = _
    rw [List.length_append, List.length_singleton]
    unfold size
    omega
  | inr b =>
    show q.urgent.length + (q.plain ++ [b]).length = _
    rw [List.length_append, List.length_singleton]
    unfold size
    omega

theorem capacity_insert (q : TwoClassQueue α β) (item : α ⊕ β) :
    (q.insert item).capacity = q.capacity := by
  cases item <;> rfl

theorem pop_frame (q : TwoClassQueue α β) :
    q.pop.2.capacity = q.capacity ∧ q.pop.2.size ≤ q.size := by
  rcases hu : q.urgent with _ | ⟨a, urgent⟩
  · rcases hp : q.plain with _ | ⟨b, plain⟩
    · rw [pop_of_nil hu hp]
      exact ⟨rfl, le_rfl⟩
    · rw [pop_of_plain hu hp]
      refine ⟨rfl, ?_⟩
      unfold size
      rw [hp, List.length_cons]
      exact Nat.le_succ _
  · rw [pop_of_urgent hu]
    refine ⟨rfl, ?_⟩
    unfold size
    rw [hu, List.length_cons]
    show urgent.length + q.plain.length ≤ _
    omega

/-- **One step.** -/
theorem Kept.step (h : Kept capacity history q) (op : Op α β) :
    Kept capacity (history ++ [(q.step op).1]) (q.step op).2 := by
  obtain ⟨hconserves, horder, hcapacity, hsize⟩ := h
  cases op with
  | push item =>
    refine ⟨hconserves.push item, horder.concat ?_, ?_, ?_⟩
    · intro served heq
      change (q.push item).1 = _ at heq
      unfold push at heq
      split at heq <;> cases heq
    · show (q.push item).2.capacity = _
      unfold push
      split
      · exact (capacity_insert q item).trans hcapacity
      · exact hcapacity
    · show (q.push item).2.size ≤ _
      unfold push
      split
      · rename_i hroom
        show (q.insert item).size ≤ _
        rw [size_insert]
        omega
      · exact hsize
  | pop =>
    obtain ⟨item, hserved, hturn, hkept⟩ := hconserves.pop
    obtain ⟨hframe, hle⟩ := q.pop_frame
    show Kept capacity (history ++ [q.pop.1]) q.pop.2
    rw [hserved]
    refine ⟨hkept, horder.concat ?_, hframe.trans hcapacity, hle.trans hsize⟩
    intro item' heq
    obtain rfl := Event.served.inj heq
    exact hturn

/-- **Every run** of a queue that starts empty. -/
theorem kept_run (capacity : ℕ) (ops : List (Op α β)) :
    Kept capacity (run ⟨capacity, [], []⟩ ops).1 (run ⟨capacity, [], []⟩ ops).2 :=
  Run.foldl_preserves (fun t : List (Event α β) × TwoClassQueue α β => Kept capacity t.1 t.2)
    (fun _ op _ h => h.step op) (kept_nil capacity)

end TwoClassQueue
