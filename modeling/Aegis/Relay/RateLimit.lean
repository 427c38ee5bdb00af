import Mathlib

/-!
# Ingress rate limiting (`net.rs`)

Each inbound connection has a token bucket, and all of them share a second one.  A
frame passes if every bucket that is enabled has a token for it.  Times are seconds
and rates are tokens per second, as exact rationals.

* `TokenBucket.Valid.tryConsume` — a bucket never holds more than its capacity nor
  less than nothing.
* `InboundRateLimitState.allowFrame_of_inactive` — without limits every frame passes.
-/

namespace Aegis

/-- `MODE1_TAU_SECS`. -/
def mode1TauSecs : ℚ := 35 / 100

/-- One cell in every slot of the first mode. -/
def defaultIngressMaxCellsPerSec : ℚ := 1 / mode1TauSecs

/-- How many cells may come at once. -/
def defaultIngressBurst : ℕ := 4

/-- For how many clients the shared bucket is. -/
def defaultExpectedIngressClients : ℚ := 8

/-- The rate of the shared bucket: that of so many clients. -/
def defaultGlobalMaxCellsPerSec : ℚ := defaultExpectedIngressClients / mode1TauSecs

/-! ## Token buckets -/

/-- Tokens, which come back at a rate until the bucket is full. -/
structure TokenBucket where
  rate : ℚ
  capacity : ℚ
  tokens : ℚ
  lastRefill : ℚ

namespace TokenBucket

/-- A full bucket. -/
def new (rate : ℚ) (burst : ℕ) (now : ℚ) : TokenBucket :=
  let capacity : ℚ := (max burst 1 : ℕ)
  ⟨rate, capacity, capacity, now⟩

/-- The bucket limits anything. -/
def isEnabled (b : TokenBucket) : Bool := decide (0 < b.rate)

/-- What has come back since the last time is added. -/
def refill (b : TokenBucket) (now : ℚ) : TokenBucket :=
  let elapsed := max (now - b.lastRefill) 0
  if 0 < elapsed then
    { b with tokens := min (b.tokens + elapsed * b.rate) b.capacity, lastRefill := now }
  else b

/-- Takes `n` tokens if there are as many. -/
def tryConsume (b : TokenBucket) (now : ℚ) (n : ℕ) : Bool × TokenBucket :=
  if b.isEnabled = false then (true, b)
  else
    let b := b.refill now
    let need : ℚ := n
    if need ≤ b.tokens then (true, { b with tokens := b.tokens - need }) else (false, b)

/-- The level of a bucket lies between nothing and its capacity. -/
structure Valid (b : TokenBucket) : Prop where
  nonneg : 0 ≤ b.tokens
  le_capacity : b.tokens ≤ b.capacity

theorem valid_new (rate : ℚ) (burst : ℕ) (now : ℚ) : (new rate burst now).Valid :=
  ⟨Nat.cast_nonneg _, le_rfl⟩

theorem Valid.refill {b : TokenBucket} (h : b.Valid) (hrate : 0 ≤ b.rate) (now : ℚ) :
    (b.refill now).Valid := by
  rw [TokenBucket.refill]
  split_ifs with helapsed
  · have hgain : 0 ≤ max (now - b.lastRefill) 0 * b.rate := mul_nonneg helapsed.le hrate
    exact ⟨le_min (add_nonneg h.nonneg hgain) (h.nonneg.trans h.le_capacity), min_le_right _ _⟩
  · exact h

/-- **A bucket keeps its level in range.** -/
theorem Valid.tryConsume {b : TokenBucket} (h : b.Valid) (now : ℚ) (n : ℕ) :
    (b.tryConsume now n).2.Valid := by
  simp only [TokenBucket.tryConsume]
  by_cases henabled : b.isEnabled = false
  · rw [if_pos henabled]
    exact h
  · have hrate : 0 < b.rate := by simpa [isEnabled] using henabled
    have hrefill := h.refill hrate.le now
    rw [if_neg henabled]
    split_ifs with hneed
    · refine ⟨sub_nonneg.mpr hneed, ?_⟩
      exact (sub_le_self _ (Nat.cast_nonneg n)).trans hrefill.le_capacity
    · exact hrefill

end TokenBucket

/-! ## One connection's limiter -/

/-- The limits of a connection, and of all together. -/
structure IngressRateLimitConfig where
  maxCellsPerSec : ℚ
  burst : ℕ
  globalMaxCellsPerSec : Option ℚ

namespace IngressRateLimitConfig

/-- The limits that a relay has unless it is configured. -/
def default : IngressRateLimitConfig :=
  ⟨defaultIngressMaxCellsPerSec, defaultIngressBurst, some defaultGlobalMaxCellsPerSec⟩

/-- There is a limit. -/
def isActive (c : IngressRateLimitConfig) : Bool :=
  decide (0 < c.maxCellsPerSec) || c.globalMaxCellsPerSec.any fun r => decide (0 < r)

/-- The bucket `spawn_inbound_listener` makes for all connections. -/
def globalBucket (c : IngressRateLimitConfig) (now : ℚ) : Option TokenBucket :=
  (c.globalMaxCellsPerSec.filter fun r => decide (0 < r)).map fun r => .new r c.burst now

end IngressRateLimitConfig

/-- The connection's own bucket, and how many frames were dropped. -/
structure InboundRateLimitState where
  bucket : TokenBucket
  droppedFrames : ℕ
  config : IngressRateLimitConfig

namespace InboundRateLimitState

/-- A connection that has just been accepted. -/
def new (config : IngressRateLimitConfig) (now : ℚ) : InboundRateLimitState :=
  let bucket :=
    if 0 < config.maxCellsPerSec then TokenBucket.new config.maxCellsPerSec config.burst now
    else .new 0 0 now
  ⟨bucket, 0, config⟩

/-- `allow_frame`, with the bucket all connections share. -/
def allowFrame (s : InboundRateLimitState) (shared : Option TokenBucket) (now : ℚ) :
    Bool × InboundRateLimitState × Option TokenBucket :=
  if s.config.isActive = false then (true, s, shared)
  else
    let (ok, bucket) :=
      if 0 < s.config.maxCellsPerSec then s.bucket.tryConsume now 1 else (true, s.bucket)
    let s := { s with bucket := bucket }
    if ok = false then (false, { s with droppedFrames := s.droppedFrames + 1 }, shared)
    else
      match shared with
      | none => (true, s, none)
      | some b =>
        let (ok, b) := b.tryConsume now 1
        if ok = false then (false, { s with droppedFrames := s.droppedFrames + 1 }, some b)
        else (true, s, some b)

/-- Which of the frames that arrive at these times pass, with no other connection. -/
def allowFrames (s : InboundRateLimitState) (shared : Option TokenBucket) : List ℚ → List Bool
  | [] => []
  | now :: times =>
    let (ok, s, shared) := s.allowFrame shared now
    ok :: allowFrames s shared times

theorem allowFrame_of_inactive {s : InboundRateLimitState} (h : s.config.isActive = false)
    (shared : Option TokenBucket) (now : ℚ) : s.allowFrame shared now = (true, s, shared) := by
  rw [allowFrame, if_pos h]

end InboundRateLimitState

end Aegis
