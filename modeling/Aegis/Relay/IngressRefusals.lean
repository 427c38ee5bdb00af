import Aegis.Relay.IngressBound

/-!
# What a refused frame costs (`net.rs`)

A bucket that refuses a frame has been refilled for nothing: its level at any later time is the same.
But the connection's own bucket is asked first, and what it has given for a frame that the shared
bucket then refuses is gone.

* `TokenBucket.tryConsume_eq` — a bucket goes by its level at the time.
* `InboundListener.decisions_kept` — **without the refused frames every other one is decided as
  before**, since the buckets have no less for it.
* `InboundListener.Refusal` — what a refusal leaves of the levels.
-/

namespace Aegis

open TokenMeter

/-! ## Buckets by their levels -/

namespace TokenBucket

/-- The level a refill at this time would bring the bucket to. -/
def levelAt (b : TokenBucket) (now : ℚ) : ℚ :=
  TokenMeter.levelAt b.rate b.capacity b.tokens b.lastRefill now

/-- The bucket has a rate, its level is in range, and it was last used before the clock. -/
structure Live (clock : ℚ) (b : TokenBucket) : Prop where
  rate_pos : 0 < b.rate
  valid : b.Valid
  last_le : b.lastRefill ≤ clock

variable {clock now : ℚ} {b b' : TokenBucket}

theorem live_new {rate : ℚ} (hrate : 0 < rate) (burst : ℕ) (now : ℚ) :
    (new rate burst now).Live now :=
  ⟨hrate, valid_new _ _ _, le_rfl⟩

theorem Live.mono (h : b.Live clock) (hnow : clock ≤ now) : b.Live now :=
  ⟨h.rate_pos, h.valid, h.last_le.trans hnow⟩

theorem Live.refill (h : b.Live clock) (hnow : clock ≤ now) :
    b.refill now = { b with tokens := b.levelAt now, lastRefill := now } := by
  have hlast := h.last_le.trans hnow
  unfold TokenBucket.refill
  dsimp only
  rw [max_eq_left (sub_nonneg.mpr hlast)]
  split_ifs with helapsed
  · rfl
  · have heq : b.lastRefill = now := le_antisymm hlast (sub_nonpos.mp (not_lt.mp helapsed))
    rw [levelAt, heq, levelAt_self h.valid.le_capacity, ← heq]

/-- **A bucket goes by its level at the time.** -/
theorem Live.tryConsume_eq (h : b.Live clock) (hnow : clock ≤ now) :
    b.tryConsume now 1 =
      if 1 ≤ b.levelAt now then
        (true, { b with tokens := b.levelAt now - 1, lastRefill := now })
      else (false, { b with tokens := b.levelAt now, lastRefill := now }) := by
  rw [tryConsume_one h.rate_pos, h.refill hnow]

/-- The level only depends on the level at an earlier time. -/
theorem levelAt_of_eq (hrate : 0 ≤ b.rate) (htime : clock ≤ now) :
    TokenMeter.levelAt b.rate b.capacity (b.levelAt clock) clock now = b.levelAt now :=
  levelAt_levelAt hrate htime

/-- What a test leaves of a bucket. -/
theorem Live.tryConsume (h : b.Live clock) (hnow : clock ≤ now) :
    (b.tryConsume now 1).2.Live now ∧ (b.tryConsume now 1).2.rate = b.rate ∧
      (b.tryConsume now 1).2.capacity = b.capacity ∧
      (b.tryConsume now 1).2.levelAt now =
        b.levelAt now - if (b.tryConsume now 1).1 then 1 else 0 := by
  have hvalid := h.valid.tryConsume now 1
  rw [h.tryConsume_eq hnow] at hvalid ⊢
  by_cases hone : 1 ≤ b.levelAt now
  · rw [if_pos hone] at hvalid ⊢
    exact ⟨⟨h.rate_pos, hvalid, le_rfl⟩, rfl, rfl, levelAt_self hvalid.le_capacity⟩
  · rw [if_neg hone] at hvalid ⊢
    refine ⟨⟨h.rate_pos, hvalid, le_rfl⟩, rfl, rfl, ?_⟩
    simp only [Bool.false_eq_true, if_false, sub_zero]
    exact levelAt_self hvalid.le_capacity

/-- **A refused test leaves no trace** in the level. -/
theorem Live.levelAt_of_refused (h : b.Live clock) (hnow : clock ≤ now)
    (hrefused : (b.tryConsume now 1).1 = false) {later : ℚ} (hlater : now ≤ later) :
    (b.tryConsume now 1).2.levelAt later = b.levelAt later := by
  obtain ⟨hlive, hrate, hcapacity, hlevel⟩ := h.tryConsume hnow
  rw [hrefused] at hlevel
  rw [← levelAt_of_eq hlive.rate_pos.le hlater, hlevel, hrate, hcapacity]
  simp only [Bool.false_eq_true, if_false, sub_zero]
  exact levelAt_of_eq h.rate_pos.le hlater

/-! ### A bucket that has at least as much -/

/-- The second bucket has at least the level of the first, now and from now on. -/
structure AtLeast (clock : ℚ) (b b' : TokenBucket) : Prop where
  left : b.Live clock
  right : b'.Live clock
  rate_eq : b'.rate = b.rate
  capacity_eq : b'.capacity = b.capacity
  level_le : b.levelAt clock ≤ b'.levelAt clock

namespace AtLeast

theorem refl (h : b.Live clock) : AtLeast clock b b := ⟨h, h, rfl, rfl, le_rfl⟩

theorem level_le_later (h : AtLeast clock b b') (hnow : clock ≤ now) :
    b.levelAt now ≤ b'.levelAt now := by
  rw [← levelAt_of_eq h.left.rate_pos.le hnow, ← levelAt_of_eq h.right.rate_pos.le hnow, h.rate_eq,
    h.capacity_eq]
  exact min_le_min_right _ (add_le_add_left h.level_le _)

theorem mono (h : AtLeast clock b b') (hnow : clock ≤ now) : AtLeast now b b' :=
  ⟨h.left.mono hnow, h.right.mono hnow, h.rate_eq, h.capacity_eq, h.level_le_later hnow⟩

/-- What the first bucket lets pass, the second one does. -/
theorem passes (h : AtLeast clock b b') (hnow : clock ≤ now)
    (hpass : (b.tryConsume now 1).1 = true) : (b'.tryConsume now 1).1 = true := by
  rw [h.left.tryConsume_eq hnow] at hpass
  have hone : 1 ≤ b.levelAt now := by
    by_contra hless
    rw [if_neg hless] at hpass
    cases hpass
  rw [h.right.tryConsume_eq hnow, if_pos (hone.trans (h.level_le_later hnow))]

/-- Both give a token. -/
theorem consume (h : AtLeast clock b b') (hnow : clock ≤ now)
    (hpass : (b.tryConsume now 1).1 = true) :
    AtLeast now (b.tryConsume now 1).2 (b'.tryConsume now 1).2 := by
  obtain ⟨hlive, hrate, hcapacity, hlevel⟩ := h.left.tryConsume hnow
  obtain ⟨hlive', hrate', hcapacity', hlevel'⟩ := h.right.tryConsume hnow
  rw [hpass] at hlevel
  rw [h.passes hnow hpass] at hlevel'
  refine ⟨hlive, hlive', by rw [hrate, hrate', h.rate_eq], by rw [hcapacity, hcapacity',
    h.capacity_eq], ?_⟩
  rw [hlevel, hlevel']
  exact sub_le_sub_right (h.level_le_later hnow) _

/-- Only the first one is asked. -/
theorem consume_left (h : AtLeast clock b b') (hnow : clock ≤ now) :
    AtLeast now (b.tryConsume now 1).2 b' := by
  obtain ⟨hlive, hrate, hcapacity, hlevel⟩ := h.left.tryConsume hnow
  refine ⟨hlive, h.right.mono hnow, by rw [hrate, h.rate_eq], by rw [hcapacity, h.capacity_eq], ?_⟩
  rw [hlevel]
  refine le_trans (sub_le_self _ ?_) (h.level_le_later hnow)
  split_ifs <;> norm_num

end AtLeast

/-- The same of a bucket that need not be there. -/
theorem AtLeast.rel_mono {o o' : Option TokenBucket} (h : Option.Rel (AtLeast clock) o o')
    (hnow : clock ≤ now) : Option.Rel (AtLeast now) o o' := by
  cases h with
  | some hb => exact .some (hb.mono hnow)
  | none => exact .none

end TokenBucket

namespace InboundRateLimitState

variable {clock now : ℚ} {config : IngressRateLimitConfig} {s s' : InboundRateLimitState}

/-- The second connection has at least as much for a frame as the first. -/
structure AtLeast (config : IngressRateLimitConfig) (clock : ℚ) (s s' : InboundRateLimitState) :
    Prop where
  config_left : s.config = config
  config_right : s'.config = config
  bucket : 0 < config.maxCellsPerSec → TokenBucket.AtLeast clock s.bucket s'.bucket

namespace AtLeast

theorem mono (h : AtLeast config clock s s') (hnow : clock ≤ now) : AtLeast config now s s' :=
  ⟨h.config_left, h.config_right, fun hlimit => (h.bucket hlimit).mono hnow⟩

theorem passes (h : AtLeast config clock s s') (hnow : clock ≤ now)
    (hpass : (s.tryOwn now).1 = true) : (s'.tryOwn now).1 = true := by
  unfold tryOwn at hpass ⊢
  rw [h.config_right]
  rw [h.config_left] at hpass
  split_ifs at hpass ⊢ with hlimit
  · exact (h.bucket hlimit).passes hnow hpass
  · rfl

theorem useOwn (h : AtLeast config clock s s') (hnow : clock ≤ now)
    (hpass : (s.tryOwn now).1 = true) : AtLeast config now (s.useOwn now) (s'.useOwn now) := by
  refine ⟨h.config_left, h.config_right, fun hlimit => ?_⟩
  unfold InboundRateLimitState.useOwn
  unfold tryOwn at hpass ⊢
  rw [h.config_left, if_pos hlimit] at hpass
  rw [h.config_left, h.config_right, if_pos hlimit, if_pos hlimit]
  exact (h.bucket hlimit).consume hnow hpass

theorem useOwn_left (h : AtLeast config clock s s') (hnow : clock ≤ now) :
    AtLeast config now (s.useOwn now).drop s' := by
  refine ⟨h.config_left, h.config_right, fun hlimit => ?_⟩
  unfold InboundRateLimitState.useOwn tryOwn
  rw [h.config_left, if_pos hlimit]
  exact (h.bucket hlimit).consume_left hnow

end AtLeast

/-- **A frame that passes the first connection passes the second one.** -/
theorem passes_allowFrame (h : AtLeast config clock s s') (hnow : clock ≤ now)
    {shared shared' : Option TokenBucket}
    (hshared : Option.Rel (TokenBucket.AtLeast clock) shared shared')
    (hpass : (s.allowFrame shared now).1 = true) :
    (s'.allowFrame shared' now).1 = true ∧
      AtLeast config now (s.allowFrame shared now).2.1 (s'.allowFrame shared' now).2.1 ∧
      Option.Rel (TokenBucket.AtLeast now) (s.allowFrame shared now).2.2
        (s'.allowFrame shared' now).2.2 := by
  have hrel := TokenBucket.AtLeast.rel_mono hshared hnow
  have hconfig : s'.config.isActive = s.config.isActive := by
    rw [h.config_left, h.config_right]
  have hfate := s.fate_allowFrame shared now
  generalize s.allowFrame shared now = r at *
  cases hfate with
  | unlimited hactive =>
    rw [allowFrame_of_inactive (hconfig.trans hactive)]
    exact ⟨rfl, h.mono hnow, hrel⟩
  | stopped _ _ => cases hpass
  | crowded _ _ _ _ _ => cases hpass
  | unshared hactive hown hnone =>
    subst hnone
    cases hshared
    rw [allowFrame_of_unshared (hconfig.trans hactive) (h.passes hnow hown)]
    exact ⟨rfl, h.useOwn hnow hown, .none⟩
  | passed b hactive hown hsome hroom =>
    subst hsome
    cases hshared with
    | some hb =>
      rw [allowFrame_of_passed (hconfig.trans hactive) (h.passes hnow hown) (hb.passes hnow hroom)]
      exact ⟨rfl, h.useOwn hnow hown, .some (hb.consume hnow hroom)⟩

/-- A frame that is refused leaves the first connection with no more. -/
theorem refused_allowFrame (h : AtLeast config clock s s') (hnow : clock ≤ now)
    {shared shared' : Option TokenBucket}
    (hshared : Option.Rel (TokenBucket.AtLeast clock) shared shared')
    (hrefused : (s.allowFrame shared now).1 = false) :
    AtLeast config now (s.allowFrame shared now).2.1 s' ∧
      Option.Rel (TokenBucket.AtLeast now) (s.allowFrame shared now).2.2 shared' := by
  have hfate := s.fate_allowFrame shared now
  generalize s.allowFrame shared now = r at *
  cases hfate with
  | unlimited _ => cases hrefused
  | unshared _ _ _ => cases hrefused
  | passed _ _ _ _ _ => cases hrefused
  | stopped _ _ => exact ⟨h.useOwn_left hnow, TokenBucket.AtLeast.rel_mono hshared hnow⟩
  | crowded b _ _ hsome _ =>
    subst hsome
    cases hshared with
    | some hb => exact ⟨h.useOwn_left hnow, .some (hb.consume_left hnow)⟩

end InboundRateLimitState

/-! ## The listener -/

namespace InboundListener

/-- What is decided about each frame. -/
def decisions (l : InboundListener) : List (ℚ × IngressEvent) → List (ℚ × ℕ × Bool)
  | [] => []
  | (now, .accept) :: events => decisions (l.accept now) events
  | (now, .frame i) :: events =>
    (now, i, (l.onFrame i now).1) :: decisions (l.onFrame i now).2 events

/-- The schedule without the frames that are refused. -/
def kept (l : InboundListener) : List (ℚ × IngressEvent) → List (ℚ × IngressEvent)
  | [] => []
  | (now, .accept) :: events => (now, .accept) :: kept (l.accept now) events
  | (now, .frame i) :: events =>
    if (l.onFrame i now).1 then (now, .frame i) :: kept (l.onFrame i now).2 events
    else kept (l.onFrame i now).2 events

/-- The second listener has at least as much for every frame as the first. -/
structure AtLeast (config : IngressRateLimitConfig) (clock : ℚ) (l l' : InboundListener) :
    Prop where
  config_left : l.config = config
  config_right : l'.config = config
  connections : List.Forall₂ (InboundRateLimitState.AtLeast config clock) l.connections
    l'.connections
  shared : Option.Rel (TokenBucket.AtLeast clock) l.shared l'.shared

variable {config : IngressRateLimitConfig} {clock now : ℚ} {l l' : InboundListener}

namespace AtLeast

theorem spawn (config : IngressRateLimitConfig) (now : ℚ) :
    AtLeast config now (spawn config now) (spawn config now) where
  config_left := rfl
  config_right := rfl
  connections := .nil
  shared := by
    unfold InboundListener.spawn IngressRateLimitConfig.globalBucket
    dsimp only
    cases hrate : config.globalMaxCellsPerSec.filter fun r => decide (0 < r) with
    | none => exact .none
    | some rate =>
      obtain ⟨-, hpos⟩ := Option.filter_eq_some_iff.mp hrate
      exact .some (.refl (TokenBucket.live_new (of_decide_eq_true hpos) _ _))

theorem mono (h : AtLeast config clock l l') (hnow : clock ≤ now) : AtLeast config now l l' :=
  ⟨h.config_left, h.config_right, h.connections.imp fun _ _ hs => hs.mono hnow,
    TokenBucket.AtLeast.rel_mono h.shared hnow⟩

/-- A new connection starts with the same bucket. -/
theorem accept (h : AtLeast config clock l l') (hnow : clock ≤ now) :
    AtLeast config now (l.accept now) (l'.accept now) := by
  refine ⟨h.config_left, h.config_right, ?_, TokenBucket.AtLeast.rel_mono h.shared hnow⟩
  have hnew : InboundRateLimitState.AtLeast config now (.new l.config now) (.new l'.config now) := by
    refine ⟨h.config_left, h.config_right, fun hlimit => ?_⟩
    unfold InboundRateLimitState.new
    dsimp only
    rw [h.config_left, h.config_right, if_pos hlimit]
    exact .refl (TokenBucket.live_new hlimit _ _)
  exact List.rel_append (h.connections.imp fun _ _ hs => hs.mono hnow) (.cons hnew .nil)

/-- A connection of the first listener is one of the second. -/
theorem connection (h : AtLeast config clock l l') {i : ℕ} {s : InboundRateLimitState}
    (hs : l.connections[i]? = some s) :
    ∃ s', l'.connections[i]? = some s' ∧ InboundRateLimitState.AtLeast config clock s s' := by
  obtain ⟨hi, rfl⟩ := List.getElem?_eq_some_iff.mp hs
  have hi' : i < l'.connections.length := by rwa [← h.connections.length_eq]
  exact ⟨_, List.getElem?_eq_getElem hi', h.connections.get hi hi'⟩

/-- Two lists related entry by entry stay so when an entry of each changes. -/
theorem forall₂_set {α β : Type} {R : α → β → Prop} {xs : List α} {ys : List β} {x : α} {y : β}
    (h : List.Forall₂ R xs ys) (hxy : R x y) (i : ℕ) : List.Forall₂ R (xs.set i x) (ys.set i y) := by
  induction h generalizing i with
  | nil => exact .nil
  | cons hab hrest ih =>
    cases i with
    | zero => exact .cons hxy hrest
    | succ i => exact .cons hab (ih i)

/-- **A frame that passes the first listener passes the second one**, and leaves it at least as
much. -/
theorem passes (h : AtLeast config clock l l') (hnow : clock ≤ now) {i : ℕ}
    (hpass : (l.onFrame i now).1 = true) :
    (l'.onFrame i now).1 = true ∧ AtLeast config now (l.onFrame i now).2 (l'.onFrame i now).2 := by
  cases hs : l.connections[i]? with
  | none =>
    unfold onFrame at hpass
    rw [hs] at hpass
    cases hpass
  | some s =>
    obtain ⟨s', hs', hss'⟩ := h.connection hs
    rw [onFrame_eq hs rfl] at hpass ⊢
    rw [onFrame_eq hs' rfl]
    obtain ⟨hpass', hstate, hshared⟩ :=
      InboundRateLimitState.passes_allowFrame hss' hnow h.shared hpass
    exact ⟨hpass', h.config_left, h.config_right,
      forall₂_set (h.connections.imp fun _ _ hs => hs.mono hnow) hstate i, hshared⟩

/-- A frame that is refused leaves the first listener with no more. -/
theorem refuse (h : AtLeast config clock l l') (hnow : clock ≤ now) {i : ℕ}
    (hrefused : (l.onFrame i now).1 = false) : AtLeast config now (l.onFrame i now).2 l' := by
  cases hs : l.connections[i]? with
  | none =>
    unfold onFrame
    rw [hs]
    exact h.mono hnow
  | some s =>
    obtain ⟨s', hs', hss'⟩ := h.connection hs
    rw [onFrame_eq hs rfl] at hrefused ⊢
    obtain ⟨hstate, hshared⟩ :=
      InboundRateLimitState.refused_allowFrame hss' hnow h.shared hrefused
    have hset := forall₂_set (h.connections.imp fun _ _ hs => hs.mono hnow) hstate i
    obtain ⟨hi', hget⟩ := List.getElem?_eq_some_iff.mp hs'
    rw [← hget, List.set_getElem_self hi'] at hset
    exact ⟨h.config_left, h.config_right, hset, hshared⟩

end AtLeast

/-- **Without the refused frames every other one is decided as before.** -/
theorem decisions_kept_of_atLeast {events : List (ℚ × IngressEvent)}
    (h : AtLeast config clock l l') (hle : ∀ e ∈ events, clock ≤ e.1)
    (hsorted : events.Pairwise fun e e' => e.1 ≤ e'.1) :
    l'.decisions (l.kept events) = (l.decisions events).filter fun d => d.2.2 := by
  induction events generalizing clock l l' with
  | nil => rfl
  | cons e events ih =>
    obtain ⟨hfirst, hrest⟩ := List.pairwise_cons.mp hsorted
    have hnow := hle e List.mem_cons_self
    obtain ⟨now, event⟩ := e
    cases event with
    | accept => exact ih (h.accept hnow) hfirst hrest
    | frame i =>
      show l'.decisions (if (l.onFrame i now).1 then
          (now, .frame i) :: (l.onFrame i now).2.kept events
        else (l.onFrame i now).2.kept events) =
          ((now, i, (l.onFrame i now).1) :: (l.onFrame i now).2.decisions events).filter _
      cases hok : (l.onFrame i now).1 with
      | false =>
        rw [if_neg Bool.false_ne_true, List.filter_cons_of_neg Bool.false_ne_true]
        exact ih (h.refuse hnow hok) hfirst hrest
      | true =>
        obtain ⟨hpass, hnext⟩ := h.passes hnow hok
        rw [if_pos rfl, List.filter_cons_of_pos rfl]
        show (now, i, (l'.onFrame i now).1) :: (l'.onFrame i now).2.decisions _ = _
        rw [hpass, ih hnext hfirst hrest]

/-! ### What a refusal costs -/

/-- The listener after a schedule. -/
def after (l : InboundListener) (events : List (ℚ × IngressEvent)) : InboundListener :=
  events.foldl (fun l e => (l.step e).2) l

namespace AtLeast

theorem forall₂_self {α : Type} {R S : α → α → Prop} {xs ys : List α} (h : List.Forall₂ R xs ys)
    (hself : ∀ a b, R a b → S a a) : List.Forall₂ S xs xs := by
  induction h with
  | nil => exact .nil
  | cons hab _ ih => exact .cons (hself _ _ hab) ih

/-- The first listener has as much as itself. -/
theorem self (h : AtLeast config clock l l') : AtLeast config clock l l := by
  refine ⟨h.config_left, h.config_left, forall₂_self h.connections fun s s' hs =>
    ⟨hs.config_left, hs.config_left, fun hlimit => .refl (hs.bucket hlimit).left⟩, ?_⟩
  have hshared := h.shared
  generalize l.shared = o at *
  generalize l'.shared = o' at *
  cases hshared with
  | some hb => exact .some (.refl hb.left)
  | none => exact .none

theorem step (h : AtLeast config clock l l) (hnow : clock ≤ now) (event : IngressEvent) :
    AtLeast config now (l.step (now, event)).2 (l.step (now, event)).2 := by
  cases event with
  | accept => exact h.accept hnow
  | frame i =>
    show AtLeast config now (l.onFrame i now).2 (l.onFrame i now).2
    cases hok : (l.onFrame i now).1 with
    | false => exact (h.refuse hnow hok).self
    | true => exact (h.passes hnow hok).2

theorem after (h : AtLeast config clock l l) {events : List (ℚ × IngressEvent)}
    (hle : ∀ e ∈ events, clock ≤ e.1) (hsorted : events.Pairwise fun e e' => e.1 ≤ e'.1)
    (hclock : clock ≤ now) (hnow : ∀ e ∈ events, e.1 ≤ now) :
    AtLeast config now (l.after events) (l.after events) := by
  induction events generalizing clock l with
  | nil => exact h.mono hclock
  | cons e events ih =>
    obtain ⟨hfirst, hrest⟩ := List.pairwise_cons.mp hsorted
    exact ih (h.step (hle e List.mem_cons_self) e.2) hfirst hrest (hnow e List.mem_cons_self)
      fun e' he' => hnow e' (List.mem_cons_of_mem e he')

end AtLeast

/-- What the refusal of a frame leaves: the level of the shared bucket, and those of all other
connections; that of the connection itself if it was below one, and one less otherwise. -/
structure Refusal (config : IngressRateLimitConfig) (now : ℚ) (i : ℕ) (l l₁ : InboundListener) :
    Prop where
  shared : ∀ b, l.shared = some b →
    ∃ b₁, l₁.shared = some b₁ ∧ ∀ later, now ≤ later → b₁.levelAt later = b.levelAt later
  others : ∀ j, j ≠ i → l₁.connections[j]? = l.connections[j]?
  own : 0 < config.maxCellsPerSec → ∀ s : InboundRateLimitState, l.connections[i]? = some s →
    ∃ s₁ : InboundRateLimitState, l₁.connections[i]? = some s₁ ∧
      (s.bucket.levelAt now < 1 ∧
          (∀ later, now ≤ later → s₁.bucket.levelAt later = s.bucket.levelAt later) ∨
        1 ≤ s.bucket.levelAt now ∧ s₁.bucket.levelAt now = s.bucket.levelAt now - 1)

/-- The level of the shared bucket is that before. -/
theorem levelAt_shared_of_refused {s : InboundRateLimitState} {shared : Option TokenBucket}
    (hlive : ∀ b, shared = some b → b.Live clock) (hnow : clock ≤ now)
    (hrefused : (s.allowFrame shared now).1 = false) {b : TokenBucket} (hb : shared = some b) :
    ∃ b₁, (s.allowFrame shared now).2.2 = some b₁ ∧
      ∀ later, now ≤ later → b₁.levelAt later = b.levelAt later := by
  have hfate := s.fate_allowFrame shared now
  generalize s.allowFrame shared now = r at *
  cases hfate with
  | unlimited _ => cases hrefused
  | unshared _ _ _ => cases hrefused
  | passed _ _ _ _ _ => cases hrefused
  | stopped _ _ => exact ⟨b, hb, fun later _ => rfl⟩
  | crowded b' _ _ hsome hfull =>
    obtain rfl := Option.some.inj (hsome.symm.trans hb)
    exact ⟨_, rfl, fun later hlater => (hlive _ hb).levelAt_of_refused hnow hfull hlater⟩

/-- The level of the connection's own bucket is that before if it was below one, and has given one
otherwise. -/
theorem levelAt_own_allowFrame {s : InboundRateLimitState} (shared : Option TokenBucket)
    (hlive : s.bucket.Live clock) (hnow : clock ≤ now) (hlimit : 0 < s.config.maxCellsPerSec) :
    s.bucket.levelAt now < 1 ∧ (∀ later, now ≤ later →
        (s.allowFrame shared now).2.1.bucket.levelAt later = s.bucket.levelAt later) ∨
      1 ≤ s.bucket.levelAt now ∧
        (s.allowFrame shared now).2.1.bucket.levelAt now = s.bucket.levelAt now - 1 := by
  obtain ⟨r, hr⟩ : ∃ r, s.allowFrame shared now = r := ⟨_, rfl⟩
  obtain ⟨ok, s₁, shared₁⟩ := r
  have hfate := s.fate_allowFrame shared now
  rw [hr] at hfate ⊢
  obtain ⟨hbucket, -⟩ := hfate.bucket hlimit
  dsimp only
  rw [hbucket]
  obtain ⟨-, -, -, hlevel⟩ := hlive.tryConsume hnow
  by_cases hone : 1 ≤ s.bucket.levelAt now
  · have hpass : (s.bucket.tryConsume now 1).1 = true := by
      rw [hlive.tryConsume_eq hnow, if_pos hone]
    rw [hpass] at hlevel
    exact Or.inr ⟨hone, hlevel⟩
  · have hstop : (s.bucket.tryConsume now 1).1 = false := by
      rw [hlive.tryConsume_eq hnow, if_neg hone]
    exact Or.inl ⟨not_le.mp hone, fun later hlater =>
      hlive.levelAt_of_refused hnow hstop hlater⟩

theorem AtLeast.refusal (h : AtLeast config clock l l) (hnow : clock ≤ now) {i : ℕ}
    (hrefused : (l.onFrame i now).1 = false) : Refusal config now i l (l.onFrame i now).2 := by
  cases hs : l.connections[i]? with
  | none =>
    unfold onFrame
    rw [hs]
    exact ⟨fun b hb => ⟨b, hb, fun _ _ => rfl⟩, fun _ _ => rfl, fun _ s hs' => by
      rw [hs] at hs'
      cases hs'⟩
  | some s =>
    rw [onFrame_eq hs rfl] at hrefused ⊢
    have hlive : ∀ b, l.shared = some b → b.Live clock := by
      intro b hb
      have hrel := h.shared
      rw [hb] at hrel
      cases hrel with
      | some hb => exact hb.left
    refine ⟨fun b hb => levelAt_shared_of_refused hlive hnow hrefused hb, fun j hj => ?_,
      fun hlimit s' hs' => ?_⟩
    · exact List.getElem?_set_ne (Ne.symm hj)
    · obtain rfl := Option.some.inj (hs.symm.trans hs')
      obtain ⟨s', -, hself⟩ := h.connection hs
      refine ⟨_, List.getElem?_set_self (List.getElem?_eq_some_iff.mp hs).1, ?_⟩
      exact levelAt_own_allowFrame l.shared (hself.bucket hlimit).left hnow
        (by rw [hself.config_left]; exact hlimit)

/-! ### The theorem -/

/-- **What refused frames do.**  When the clock does not go back, however the frames of the
connections interleave: without the refused frames every other frame is decided as before, and a
refusal costs the shared bucket nothing, and the connection nothing but the token that its own bucket
has given. -/
theorem refused_frames (config : IngressRateLimitConfig) (start : ℚ)
    (events : List (ℚ × IngressEvent)) (hstart : ∀ e ∈ events, start ≤ e.1)
    (hsorted : events.Pairwise fun e e' => e.1 ≤ e'.1) :
    (spawn config start).decisions ((spawn config start).kept events) =
        ((spawn config start).decisions events).filter (fun d => d.2.2) ∧
      ∀ (now : ℚ) (i : ℕ), start ≤ now → (∀ e ∈ events, e.1 ≤ now) →
        (((spawn config start).after events).onFrame i now).1 = false →
          Refusal config now i ((spawn config start).after events)
            (((spawn config start).after events).onFrame i now).2 := by
  have hspawn := AtLeast.spawn config start
  exact ⟨decisions_kept_of_atLeast hspawn hstart hsorted, fun now i hnow hpast hrefused =>
    (hspawn.after hstart hsorted hnow hpast).refusal le_rfl hrefused⟩

/-! ### A crowded listener -/

/-- One frame a second for all, and one in ten seconds for each. -/
def crowdedConfig : IngressRateLimitConfig := ⟨1 / 10, 1, some 1⟩

/-- The first connection takes the token they share. -/
def crowdedEvents : List (ℚ × IngressEvent) := [(0, .accept), (0, .accept), (0, .frame 0)]

theorem refused_frames_crowded :
    (spawn crowdedConfig 0).decisions ((spawn crowdedConfig 0).kept crowdedEvents) =
        ((spawn crowdedConfig 0).decisions crowdedEvents).filter (fun d => d.2.2) ∧
      ∀ (now : ℚ) (i : ℕ), 0 ≤ now → (∀ e ∈ crowdedEvents, e.1 ≤ now) →
        (((spawn crowdedConfig 0).after crowdedEvents).onFrame i now).1 = false →
          Refusal crowdedConfig now i ((spawn crowdedConfig 0).after crowdedEvents)
            (((spawn crowdedConfig 0).after crowdedEvents).onFrame i now).2 :=
  refused_frames crowdedConfig 0 crowdedEvents (by simp [crowdedEvents]) (by simp [crowdedEvents])

/-- **A frame that the shared bucket refuses costs its connection a token**: the level of its own
bucket goes from one to zero, and its next frame is refused, which would pass if the first one had
not been there. -/
theorem not_free_crowded :
    let l := (spawn crowdedConfig 0).after crowdedEvents
    (l.onFrame 1 0).1 = false ∧
      (l.connections[1]?).map (fun s => s.bucket.levelAt 0) = some 1 ∧
      ((l.onFrame 1 0).2.connections[1]?).map (fun s => s.bucket.levelAt 0) = some 0 ∧
      l.decisions [(0, .frame 1), (1, .frame 1)] = [(0, 1, false), (1, 1, false)] ∧
      l.decisions [(1, .frame 1)] = [(1, 1, true)] := by
  decide +kernel

end InboundListener

end Aegis
