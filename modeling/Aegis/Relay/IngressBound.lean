import Aegis.Lib.TokenMeter
import Aegis.Relay.RateLimit

/-!
# The ingress rate bound (`net.rs`)

A listener makes one bucket for all connections, and one for each connection it accepts.  Frames
arrive on any of the connections, in any order.

* `TokenBucket.Metered.tryConsume` — a bucket is a token meter.
* `InboundListener.Inv.run` — so are all of them, in every run.
* `InboundListener.token_bound` — how many frames pass in an interval.
-/

namespace Aegis

open TokenMeter

/-! ## Buckets as meters -/

/-- The bucket is a meter of this rate and capacity over the times at which it let a frame pass,
and it was last used before the clock. -/
structure TokenBucket.Metered (rate capacity clock : ℚ) (log : List ℚ) (b : TokenBucket) :
    Prop where
  rate_eq : b.rate = rate
  capacity_eq : b.capacity = capacity
  last_le : b.lastRefill ≤ clock
  inv : TokenMeter.Inv rate capacity b.tokens b.lastRefill log

namespace TokenBucket

variable {rate capacity clock now : ℚ} {log : List ℚ} {b : TokenBucket}

theorem metered_new (hrate : 0 ≤ rate) (burst : ℕ) (now : ℚ) :
    (new rate burst now).Metered rate (max burst 1 : ℕ) now [] :=
  ⟨rfl, rfl, le_rfl, .full (Nat.cast_nonneg _) hrate now⟩

theorem Metered.mono (h : b.Metered rate capacity clock log) (hnow : clock ≤ now) :
    b.Metered rate capacity now log :=
  ⟨h.rate_eq, h.capacity_eq, h.last_le.trans hnow, h.inv⟩

/-- A refill brings the meter up to date. -/
theorem Metered.refill (h : b.Metered rate capacity clock log) (hrate : 0 ≤ rate)
    (hnow : clock ≤ now) :
    (b.refill now).Metered rate capacity now log ∧ (b.refill now).lastRefill = now := by
  have hlast := h.last_le.trans hnow
  have hinv := h.inv.refill hrate hlast
  unfold TokenBucket.refill
  dsimp only
  rw [max_eq_left (sub_nonneg.mpr hlast)]
  split_ifs with helapsed
  · rw [← h.rate_eq, ← h.capacity_eq] at hinv ⊢
    exact ⟨⟨rfl, rfl, le_rfl, hinv⟩, rfl⟩
  · have heq : b.lastRefill = now := le_antisymm hlast (sub_nonpos.mp (not_lt.mp helapsed))
    exact ⟨h.mono hnow, heq⟩

theorem tryConsume_one (h : 0 < b.rate) (now : ℚ) :
    b.tryConsume now 1 =
      if 1 ≤ (b.refill now).tokens then
        (true, { b.refill now with tokens := (b.refill now).tokens - 1 })
      else (false, b.refill now) := by
  unfold TokenBucket.tryConsume isEnabled
  simp [h]

/-- **A bucket is a meter.**  Where it lets a frame pass, the frame may still be stopped later. -/
theorem Metered.tryConsume (h : b.Metered rate capacity clock log) (hrate : 0 < rate)
    (hnow : clock ≤ now) {ok : Bool} (hok : ok = true → (b.tryConsume now 1).1 = true) :
    (b.tryConsume now 1).2.Metered rate capacity now (log ++ if ok then [now] else []) := by
  obtain ⟨hrefill, hlast⟩ := h.refill hrate.le hnow
  rw [tryConsume_one (by rw [h.rate_eq]; exact hrate)] at hok ⊢
  by_cases hneed : 1 ≤ (b.refill now).tokens
  · rw [if_pos hneed]
    refine ⟨hrefill.rate_eq, hrefill.capacity_eq, hrefill.last_le, ?_⟩
    cases ok with
    | false =>
      rw [if_neg Bool.false_ne_true, List.append_nil]
      exact hrefill.inv.drop (sub_nonneg.mpr hneed) (sub_le_self _ zero_le_one)
    | true =>
      have htake := hrefill.inv.take hrate.le hneed
      rw [if_pos rfl]
      rw [hlast] at htake
      show TokenMeter.Inv rate capacity ((b.refill now).tokens - 1) (b.refill now).lastRefill _
      rw [hlast]
      exact htake
  · rw [if_neg hneed] at hok ⊢
    have hstopped : ok = false := by
      cases ok with
      | false => rfl
      | true => cases hok rfl
    rw [hstopped, if_neg Bool.false_ne_true, List.append_nil]
    exact hrefill

end TokenBucket

/-! ## What one frame does -/

namespace InboundRateLimitState

/-- What the connection's own bucket says. -/
def tryOwn (s : InboundRateLimitState) (now : ℚ) : Bool × TokenBucket :=
  if 0 < s.config.maxCellsPerSec then s.bucket.tryConsume now 1 else (true, s.bucket)

/-- The connection has used its own bucket. -/
def useOwn (s : InboundRateLimitState) (now : ℚ) : InboundRateLimitState :=
  { s with bucket := (s.tryOwn now).2 }

/-- A frame is dropped, and counted. -/
def drop (s : InboundRateLimitState) : InboundRateLimitState :=
  { s with droppedFrames := s.droppedFrames + 1 }

/-- What can become of a frame. -/
inductive Fate (s : InboundRateLimitState) (shared : Option TokenBucket) (now : ℚ) :
    Bool × InboundRateLimitState × Option TokenBucket → Prop where
  | unlimited (hactive : s.config.isActive = false) : Fate s shared now (true, s, shared)
  | stopped (hactive : s.config.isActive = true) (hown : (s.tryOwn now).1 = false) :
      Fate s shared now (false, (s.useOwn now).drop, shared)
  | unshared (hactive : s.config.isActive = true) (hown : (s.tryOwn now).1 = true)
      (hshared : shared = none) : Fate s shared now (true, s.useOwn now, none)
  | crowded (b : TokenBucket) (hactive : s.config.isActive = true)
      (hown : (s.tryOwn now).1 = true) (hshared : shared = some b)
      (hfull : (b.tryConsume now 1).1 = false) :
      Fate s shared now (false, (s.useOwn now).drop, some (b.tryConsume now 1).2)
  | passed (b : TokenBucket) (hactive : s.config.isActive = true)
      (hown : (s.tryOwn now).1 = true) (hshared : shared = some b)
      (hroom : (b.tryConsume now 1).1 = true) :
      Fate s shared now (true, s.useOwn now, some (b.tryConsume now 1).2)

/-- With a limit, the own bucket is asked first and then the shared one. -/
theorem allowFrame_of_active {s : InboundRateLimitState} (h : s.config.isActive = true)
    (shared : Option TokenBucket) (now : ℚ) :
    s.allowFrame shared now =
      if (s.tryOwn now).1 = false then (false, (s.useOwn now).drop, shared)
      else
        match shared with
        | none => (true, s.useOwn now, none)
        | some b =>
          if (b.tryConsume now 1).1 = false then
            (false, (s.useOwn now).drop, some (b.tryConsume now 1).2)
          else (true, s.useOwn now, some (b.tryConsume now 1).2) := by
  unfold allowFrame
  rw [if_neg (by simp [h])]
  rfl

theorem allowFrame_of_unshared {s : InboundRateLimitState} {now : ℚ}
    (h : s.config.isActive = true) (hown : (s.tryOwn now).1 = true) :
    s.allowFrame none now = (true, s.useOwn now, none) := by
  rw [allowFrame_of_active h, if_neg (by simp [hown])]

theorem allowFrame_of_passed {s : InboundRateLimitState} {now : ℚ} {b : TokenBucket}
    (h : s.config.isActive = true) (hown : (s.tryOwn now).1 = true)
    (hroom : (b.tryConsume now 1).1 = true) :
    s.allowFrame (some b) now = (true, s.useOwn now, some (b.tryConsume now 1).2) := by
  rw [allowFrame_of_active h, if_neg (by simp [hown])]
  exact if_neg (by simp [hroom])

theorem fate_allowFrame (s : InboundRateLimitState) (shared : Option TokenBucket) (now : ℚ) :
    Fate s shared now (s.allowFrame shared now) := by
  cases hactive : s.config.isActive with
  | false =>
    rw [allowFrame_of_inactive hactive]
    exact .unlimited hactive
  | true =>
    rw [allowFrame_of_active hactive]
    cases hown : (s.tryOwn now).1 with
    | false =>
      rw [if_pos rfl]
      exact .stopped hactive hown
    | true =>
      rw [if_neg (by decide)]
      cases shared with
      | none => exact .unshared hactive hown rfl
      | some b =>
        dsimp only
        split_ifs with hok
        · exact .crowded b hactive hown rfl hok
        · exact .passed b hactive hown rfl (Bool.eq_true_of_not_eq_false hok)

variable {s s' : InboundRateLimitState} {shared shared' : Option TokenBucket} {now : ℚ} {ok : Bool}

theorem Fate.config (h : Fate s shared now (ok, s', shared')) : s'.config = s.config := by
  cases h with
  | unlimited _ => rfl
  | stopped _ _ => rfl
  | unshared _ _ _ => rfl
  | crowded b _ _ _ _ => rfl
  | passed b _ _ _ _ => rfl

/-- **The connection's own bucket**: a frame that passes has taken a token of it. -/
theorem Fate.bucket (h : Fate s shared now (ok, s', shared'))
    (hlimit : 0 < s.config.maxCellsPerSec) :
    s'.bucket = (s.bucket.tryConsume now 1).2 ∧
      (ok = true → (s.bucket.tryConsume now 1).1 = true) := by
  have hown : s.tryOwn now = s.bucket.tryConsume now 1 := if_pos hlimit
  have huse : (s.useOwn now).bucket = (s.bucket.tryConsume now 1).2 := congrArg Prod.snd hown
  cases h with
  | unlimited hactive => simp [IngressRateLimitConfig.isActive, hlimit] at hactive
  | stopped _ _ => exact ⟨huse, fun h => by cases h⟩
  | unshared _ hpass _ => exact ⟨huse, fun _ => hown ▸ hpass⟩
  | crowded b _ _ _ _ => exact ⟨huse, fun h => by cases h⟩
  | passed b _ hpass _ _ => exact ⟨huse, fun _ => hown ▸ hpass⟩

/-- **The shared bucket** is left alone by a frame that was stopped before it, and decides
otherwise. -/
theorem Fate.sharedBucket {b b' : TokenBucket} (h : Fate s (some b) now (ok, s', some b'))
    (hactive : s.config.isActive = true) :
    (ok = false ∧ b' = b) ∨ (ok = (b.tryConsume now 1).1 ∧ b' = (b.tryConsume now 1).2) := by
  cases h with
  | unlimited hinactive => simp [hactive] at hinactive
  | stopped _ _ => exact .inl ⟨rfl, rfl⟩
  | crowded b _ _ hshared hfull =>
    obtain rfl := Option.some.inj hshared
    exact .inr ⟨hfull.symm, rfl⟩
  | passed b _ _ hshared hroom =>
    obtain rfl := Option.some.inj hshared
    exact .inr ⟨hroom.symm, rfl⟩

theorem Fate.isSome_shared (h : Fate s shared now (ok, s', shared')) :
    shared'.isSome = shared.isSome := by
  cases h with
  | unlimited _ => rfl
  | stopped _ _ => rfl
  | unshared _ _ hshared => rw [hshared]
  | crowded b _ _ hshared _ =>
    rw [hshared]
    rfl
  | passed b _ _ hshared _ =>
    rw [hshared]
    rfl

end InboundRateLimitState

/-! ## The listener -/

/-- What happens at the listener. -/
inductive IngressEvent where
  | accept
  /-- A frame arrives on the connection with this number. -/
  | frame (connection : ℕ)

/-- The limiters of `spawn_inbound_listener`, those of the connections in the order in which it
accepted them. -/
structure InboundListener where
  config : IngressRateLimitConfig
  shared : Option TokenBucket
  connections : List InboundRateLimitState

namespace InboundListener

/-- A listener without connections. -/
def spawn (config : IngressRateLimitConfig) (now : ℚ) : InboundListener :=
  ⟨config, config.globalBucket now, []⟩

/-- A connection comes in, with a bucket of its own. -/
def accept (l : InboundListener) (now : ℚ) : InboundListener :=
  { l with connections := l.connections ++ [.new l.config now] }

/-- A frame comes in on a connection, and takes from its bucket and the shared one. -/
def onFrame (l : InboundListener) (connection : ℕ) (now : ℚ) : Bool × InboundListener :=
  match l.connections[connection]? with
  | none => (false, l)
  | some s =>
    let (ok, s, shared) := s.allowFrame l.shared now
    (ok, { l with shared := shared, connections := l.connections.set connection s })

/-- One event at its time: the frame that passed, if one did, and the listener. -/
def step (l : InboundListener) : ℚ × IngressEvent → List (ℕ × ℚ) × InboundListener
  | (now, .accept) => ([], l.accept now)
  | (now, .frame connection) =>
    let (ok, l) := l.onFrame connection now
    (if ok then [(connection, now)] else [], l)

/-- The frames that pass, with their connections and times. -/
def passed (l : InboundListener) : List (ℚ × IngressEvent) → List (ℕ × ℚ)
  | [] => []
  | e :: events => (l.step e).1 ++ passed (l.step e).2 events

/-- The times at which frames passed on this connection. -/
def onConnection (connection : ℕ) (log : List (ℕ × ℚ)) : List ℚ :=
  (log.filter fun p => p.1 = connection).map Prod.snd

/-! ### The invariant -/

/-- Every bucket is a meter over the frames that passed it and were not stopped later. -/
structure Inv (config : IngressRateLimitConfig) (clock : ℚ) (log : List (ℕ × ℚ))
    (l : InboundListener) : Prop where
  config_eq : l.config = config
  config_connection : ∀ s ∈ l.connections, s.config = config
  /-- No frame has passed on a connection that was not accepted. -/
  accepted : ∀ p ∈ log, p.1 < l.connections.length
  own : 0 < config.maxCellsPerSec → ∀ i (s : InboundRateLimitState), l.connections[i]? = some s →
    s.bucket.Metered config.maxCellsPerSec (max config.burst 1 : ℕ) clock (onConnection i log)
  shared : ∀ rate, config.globalMaxCellsPerSec = some rate → 0 < rate → ∃ b, l.shared = some b ∧
    b.Metered rate (max config.burst 1 : ℕ) clock (log.map Prod.snd)

variable {config : IngressRateLimitConfig} {clock now : ℚ} {log : List (ℕ × ℚ)}
  {l : InboundListener}

theorem inv_spawn (config : IngressRateLimitConfig) (now : ℚ) :
    (spawn config now).Inv config now [] where
  config_eq := rfl
  config_connection := by simp [spawn]
  accepted := by simp
  own _ i s hs := by simp [spawn] at hs
  shared rate hrate hpos := by
    refine ⟨.new rate config.burst now, ?_, TokenBucket.metered_new hpos.le _ _⟩
    simp [spawn, IngressRateLimitConfig.globalBucket, hrate, hpos]

/-- Time passes. -/
theorem Inv.mono (h : l.Inv config clock log) (hnow : clock ≤ now) : l.Inv config now log where
  config_eq := h.config_eq
  config_connection := h.config_connection
  accepted := h.accepted
  own hlimit i s hs := (h.own hlimit i s hs).mono hnow
  shared rate hrate hpos := by
    obtain ⟨b, hb, hmetered⟩ := h.shared rate hrate hpos
    exact ⟨b, hb, hmetered.mono hnow⟩

theorem onConnection_eq_nil {i : ℕ} (h : ∀ p ∈ log, p.1 < i) : onConnection i log = [] := by
  unfold onConnection
  rw [List.filter_eq_nil_iff.mpr, List.map_nil]
  intro p hp
  simpa using (h p hp).ne

/-- A connection starts with a full bucket. -/
theorem Inv.accept (h : l.Inv config clock log) (hnow : clock ≤ now) :
    (l.accept now).Inv config now log where
  config_eq := h.config_eq
  config_connection s hs := by
    rcases List.mem_append.mp hs with hs | hs
    · exact h.config_connection s hs
    · rw [List.mem_singleton.mp hs]
      exact h.config_eq
  accepted p hp := by
    show p.1 < (l.connections ++ [_]).length
    rw [List.length_append]
    exact Nat.lt_add_right _ (h.accepted p hp)
  own hlimit i s hs := by
    change (l.connections ++ [_])[i]? = some s at hs
    rcases lt_or_ge i l.connections.length with hi | hi
    · rw [List.getElem?_append_left hi] at hs
      exact (h.own hlimit i s hs).mono hnow
    · rw [List.getElem?_append_right hi] at hs
      obtain rfl := List.mem_singleton.mp (List.mem_of_getElem? hs)
      rw [onConnection_eq_nil fun p hp => lt_of_lt_of_le (h.accepted p hp) hi, h.config_eq]
      show TokenBucket.Metered _ _ _ _ (if 0 < config.maxCellsPerSec then _ else _)
      rw [if_pos hlimit]
      exact TokenBucket.metered_new hlimit.le _ _
  shared := (h.mono hnow).shared

theorem onConnection_append_self (i : ℕ) (ok : Bool) :
    onConnection i (log ++ if ok then [(i, now)] else []) =
      onConnection i log ++ if ok then [now] else [] := by
  unfold onConnection
  rw [List.filter_append, List.map_append]
  cases ok with
  | false => rfl
  | true => simp

theorem onConnection_append_of_ne {i j : ℕ} (h : j ≠ i) (ok : Bool) :
    onConnection j (log ++ if ok then [(i, now)] else []) = onConnection j log := by
  unfold onConnection
  rw [List.filter_append, List.map_append]
  cases ok with
  | false => simp
  | true => simp [h.symm]

theorem map_snd_append (i : ℕ) (ok : Bool) :
    (log ++ if ok then [(i, now)] else []).map Prod.snd =
      log.map Prod.snd ++ if ok then [now] else [] := by
  rw [List.map_append]
  cases ok with
  | false => rfl
  | true => rfl

theorem onFrame_eq {i : ℕ} {s s' : InboundRateLimitState} {ok : Bool}
    {shared' : Option TokenBucket} (hs : l.connections[i]? = some s)
    (hresult : s.allowFrame l.shared now = (ok, s', shared')) :
    l.onFrame i now =
      (ok, { l with shared := shared', connections := l.connections.set i s' }) := by
  unfold InboundListener.onFrame
  rw [hs]
  dsimp only
  rw [hresult]

section Frame

variable {i : ℕ} {s s' : InboundRateLimitState} {ok : Bool} {shared' : Option TokenBucket}

/-- The buckets of the connections, when a frame arrives on one of them. -/
theorem Inv.own_frame (h : l.Inv config clock log) (hnow : clock ≤ now)
    (hs : l.connections[i]? = some s) (hfate : s.Fate l.shared now (ok, s', shared'))
    (hlimit : 0 < config.maxCellsPerSec) (j : ℕ) (t : InboundRateLimitState)
    (ht : (l.connections.set i s')[j]? = some t) :
    t.bucket.Metered config.maxCellsPerSec (max config.burst 1 : ℕ) now
      (onConnection j (log ++ if ok then [(i, now)] else [])) := by
  have hi : i < l.connections.length := (List.getElem?_eq_some_iff.mp hs).1
  by_cases hj : j = i
  · subst hj
    rw [List.getElem?_set_self hi] at ht
    obtain rfl := Option.some.inj ht
    obtain ⟨hbucket, hok⟩ := hfate.bucket (by
      rw [h.config_connection s (List.mem_of_getElem? hs)]
      exact hlimit)
    rw [onConnection_append_self, hbucket]
    exact (h.own hlimit j s hs).tryConsume hlimit hnow hok
  · rw [List.getElem?_set_ne (Ne.symm hj)] at ht
    rw [onConnection_append_of_ne hj]
    exact (h.own hlimit j t ht).mono hnow

/-- The shared bucket, when a frame arrives. -/
theorem Inv.shared_frame (h : l.Inv config clock log) (hnow : clock ≤ now)
    (hconfig : s.config = config) (hfate : s.Fate l.shared now (ok, s', shared')) (i : ℕ)
    {rate : ℚ} (hrate : config.globalMaxCellsPerSec = some rate) (hpos : 0 < rate) :
    ∃ b, shared' = some b ∧ b.Metered rate (max config.burst 1 : ℕ) now
      ((log ++ if ok then [(i, now)] else []).map Prod.snd) := by
  obtain ⟨b, hb, hmetered⟩ := h.shared rate hrate hpos
  have hsome := hfate.isSome_shared
  rw [hb] at hfate hsome
  obtain ⟨b', rfl⟩ := Option.isSome_iff_exists.mp hsome
  have hactive : s.config.isActive = true := by
    unfold IngressRateLimitConfig.isActive
    simp [hconfig, hrate, hpos]
  refine ⟨b', rfl, ?_⟩
  rw [map_snd_append]
  rcases hfate.sharedBucket hactive with ⟨rfl, rfl⟩ | ⟨rfl, rfl⟩
  · rw [if_neg Bool.false_ne_true, List.append_nil]
    exact hmetered.mono hnow
  · exact hmetered.tryConsume hpos hnow fun hok => hok

end Frame

/-- **One frame** moves the bucket of its connection and the shared one. -/
theorem Inv.onFrame (h : l.Inv config clock log) (hnow : clock ≤ now) (i : ℕ) :
    (l.onFrame i now).2.Inv config now
      (log ++ if (l.onFrame i now).1 then [(i, now)] else []) := by
  cases hs : l.connections[i]? with
  | none =>
    unfold InboundListener.onFrame
    rw [hs, if_neg Bool.false_ne_true, List.append_nil]
    exact h.mono hnow
  | some s =>
    obtain ⟨⟨ok, s', shared'⟩, hresult⟩ : ∃ r, s.allowFrame l.shared now = r := ⟨_, rfl⟩
    have hfate := s.fate_allowFrame l.shared now
    rw [hresult] at hfate
    have hconfig := h.config_connection s (List.mem_of_getElem? hs)
    rw [onFrame_eq hs hresult]
    refine ⟨h.config_eq, fun t ht => ?_, fun p hp => ?_, h.own_frame hnow hs hfate,
      fun rate hrate hpos => h.shared_frame hnow hconfig hfate i hrate hpos⟩
    · rcases List.mem_or_eq_of_mem_set ht with ht | rfl
      · exact h.config_connection t ht
      · exact hfate.config.trans hconfig
    · show p.1 < (l.connections.set i s').length
      rw [List.length_set]
      rcases List.mem_append.mp hp with hp | hp
      · exact h.accepted p hp
      · cases ok with
        | false => cases hp
        | true =>
          rw [List.mem_singleton.mp hp]
          exact (List.getElem?_eq_some_iff.mp hs).1

/-- **A run**: the frames that pass keep every bucket a meter. -/
theorem Inv.run (h : l.Inv config clock log) {events : List (ℚ × IngressEvent)}
    (hle : ∀ e ∈ events, clock ≤ e.1) (hsorted : events.Pairwise fun e e' => e.1 ≤ e'.1) :
    ∃ clock' l', Inv config clock' (log ++ l.passed events) l' := by
  induction events generalizing clock log l with
  | nil =>
    refine ⟨clock, l, ?_⟩
    rw [passed, List.append_nil]
    exact h
  | cons e events ih =>
    obtain ⟨hfirst, hrest⟩ := List.pairwise_cons.mp hsorted
    have hnow := hle e List.mem_cons_self
    have hstep : (l.step e).2.Inv config e.1 (log ++ (l.step e).1) := by
      obtain ⟨now, event⟩ := e
      cases event with
      | accept =>
        show (l.accept now).Inv config now (log ++ [])
        rw [List.append_nil]
        exact h.accept hnow
      | frame connection => exact h.onFrame hnow connection
    rw [passed, ← List.append_assoc]
    exact ih hstep hfirst hrest

/-! ### The theorem -/

/-- **The token bucket bound.**  When the clock does not go back, however the frames of the
connections interleave: in any interval at most `max burst 1 + maxCellsPerSec * width` frames pass
on one connection, when it has a limit, and over all connections no more than the capacity of the
bucket they share and what flows into it. -/
theorem token_bound (config : IngressRateLimitConfig) (start : ℚ)
    (events : List (ℚ × IngressEvent)) (hstart : ∀ e ∈ events, start ≤ e.1)
    (hsorted : events.Pairwise fun e e' => e.1 ≤ e'.1) (s width : ℚ) (hwidth : 0 ≤ width) :
    (0 < config.maxCellsPerSec → ∀ i,
      (within s width (onConnection i ((spawn config start).passed events)) : ℚ) ≤
        (max config.burst 1 : ℕ) + config.maxCellsPerSec * width) ∧
    ∀ b, config.globalBucket start = some b →
      (within s width (((spawn config start).passed events).map Prod.snd) : ℚ) ≤
        b.capacity + b.rate * width := by
  obtain ⟨clock, l, hinv⟩ := (inv_spawn config start).run hstart hsorted
  rw [List.nil_append] at hinv
  refine ⟨fun hlimit i => ?_, fun b hb => ?_⟩
  · cases hs : l.connections[i]? with
    | none =>
      rw [onConnection_eq_nil fun p hp => lt_of_lt_of_le (hinv.accepted p hp)
        (List.getElem?_eq_none_iff.mp hs)]
      have hflow : 0 ≤ config.maxCellsPerSec * width := mul_nonneg hlimit.le hwidth
      show ((0 : ℕ) : ℚ) ≤ _
      rw [Nat.cast_zero]
      exact add_nonneg (Nat.cast_nonneg _) hflow
    | some state => exact (hinv.own hlimit i state hs).inv.bound s width hwidth
  · unfold IngressRateLimitConfig.globalBucket at hb
    obtain ⟨rate, hrate, rfl⟩ := Option.map_eq_some_iff.mp hb
    obtain ⟨hrate, hpos⟩ := Option.filter_eq_some_iff.mp hrate
    obtain ⟨b, -, hmetered⟩ := hinv.shared rate hrate (of_decide_eq_true hpos)
    exact hmetered.inv.bound s width hwidth

/-- Two connections, and one token a second for each and for both: of the frames of the first
second one passes, though each connection sends two. -/
theorem token_bound_one :
    let config : IngressRateLimitConfig := ⟨1, 0, some 1⟩
    let passed := (spawn config 0).passed [(0, .accept), (0, .accept), (0, .frame 0),
      (0, .frame 1), (1 / 4, .frame 1), (1 / 2, .frame 0), (1, .frame 1)]
    passed = [(0, 0), (1, 1)] ∧
    (∀ i, (within 0 (1 / 2) (onConnection i passed) : ℚ) ≤ (max 0 1 : ℕ) + 1 * (1 / 2)) ∧
    ∃ b, config.globalBucket 0 = some b ∧ b.capacity = 1 ∧ b.rate = 1 ∧
      (within 0 (1 / 2) (passed.map Prod.snd) : ℚ) ≤ b.capacity + b.rate * (1 / 2) := by
  intro config passed
  have hbucket : config.globalBucket 0 = some (.new 1 0 0) := by
    simp [config, IngressRateLimitConfig.globalBucket]
  obtain ⟨hown, hshared⟩ := token_bound config 0 [(0, .accept), (0, .accept), (0, .frame 0),
      (0, .frame 1), (1 / 4, .frame 1), (1 / 2, .frame 0), (1, .frame 1)]
    (by norm_num) (by norm_num) 0 (1 / 2) (by norm_num)
  exact ⟨by decide +kernel, hown one_pos, .new 1 0 0, hbucket, rfl, rfl, hshared _ hbucket⟩

end InboundListener

end Aegis
