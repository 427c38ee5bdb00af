import Aegis.Lib.Run
import Aegis.Relay.NoiseResponder

/-!
# Freshness of Noise handshakes

Any number of connections run the Noise responder at once, and the network hands each of
them whatever message 1 it likes.  The only thing asked of it is that the pattern is ideal
(`Authentic`): a message 1 that reveals a peer's static key to this relay is one that the
peer wrote for it.  The pattern ends with message 2, so the responder hears nothing of the
initiator after message 1, and a replayed message 1 is credited like the first.

* `Inv.step`, `inv_run` — a credit stands for one connection and one initiated message 1.
* `credits_of_run` — **a peer is credited for the messages it initiated**, and no more often
  than it initiated any if none is replayed.
* `credits_exceed_checksum` — **one handshake, two credits.**
-/

namespace Aegis

open Buffer

namespace NoiseResponder

/-! ## The system -/

/-- A handshake success recorded for a peer: the connection it came from and the message 1
that was read on it. -/
structure Credit where
  connection : ℕ
  peer : RelayId
  msg1 : Bytes noiseIkMsg1Len

/-- All connections, every message 1 delivered to one of them, every handshake a peer
initiated toward this relay, and what was recorded in the health tracker. -/
structure State where
  connections : ℕ → Option Phase
  delivered : List (ℕ × Bytes noiseIkMsg1Len)
  initiated : List (RelayId × Bytes noiseIkMsg1Len)
  outcomes : List (RelayId × Bool)
  credits : List Credit

/-- Nobody has begun. -/
def State.initial : State := ⟨fun _ => none, [], [], [], []⟩

/-- What can happen next.  The messages delivered are the attacker's choice. -/
inductive Event (σ : Type) where
  | initiate (p : RelayId) (staticSecret : Bytes 32) (seed : σ)
  | accept (j : ℕ)
  | deliverMsg1 (j : ℕ) (msg1 : Bytes noiseIkMsg1Len) (seed : σ)
  | written (j : ℕ) (result : Except NetError Unit)
  | readError (j : ℕ) (e : NetError)

/-- The successes among the outcomes, for the message 1 the connection has read. -/
def creditsOf (j : ℕ) (phase : Phase) (outcomes : List (RelayId × Bool)) : List Credit :=
  match phase with
  | .writing msg1 _ _ _ => (outcomes.filter Prod.snd).map fun o => ⟨j, o.1, msg1⟩
  | _ => []

section System

variable {ρ σ : Type} (C : Suite ρ) (N : Snow σ) (cfg : Config)

/-- What each event does. -/
def step (s : State) : Event σ → State
  | .initiate p staticSecret seed =>
    match cfg.noiseStaticSecret with
    | none => s
    | some localSk =>
      match noiseIkInitiatorWriteMsg1 N staticSecret (noiseStaticPublic N localSk) seed with
      | .error _ => s
      | .ok (_, msg1) => { s with initiated := s.initiated ++ [(p, msg1)] }
  | .accept j =>
    match s.connections j with
    | some _ => s
    | none => { s with connections := Function.update s.connections j (some .awaitMsg1) }
  | .deliverMsg1 j msg1 seed =>
    match s.connections j with
    | none => s
    | some phase =>
      let (phase', outcomes) := onMsg1 C N cfg phase msg1 seed
      { s with
        connections := Function.update s.connections j (some phase')
        delivered := s.delivered ++ [(j, msg1)]
        outcomes := s.outcomes ++ outcomes }
  | .written j result =>
    match s.connections j with
    | none => s
    | some phase =>
      let (phase', outcomes) := onWritten cfg phase result
      { s with
        connections := Function.update s.connections j (some phase')
        outcomes := s.outcomes ++ outcomes
        credits := s.credits ++ creditsOf j phase outcomes }
  | .readError j e =>
    match s.connections j with
    | none => s
    | some phase =>
      { s with connections := Function.update s.connections j (some (onReadError phase e)) }

/-- One event after another. -/
def run (s : State) (events : List (Event σ)) : State := events.foldl (step C N cfg) s

/-- **The pattern is ideal**: a message 1 that reveals the static key expected of a peer is one
that the peer wrote for this relay. -/
def Authentic (s : State) : Event σ → Prop
  | .deliverMsg1 _ msg1 seed => ∀ localSk st p peer, cfg.noiseStaticSecret = some localSk →
      noiseIkResponderReadMsg1 C N localSk msg1.toList seed = .ok st →
      (p, peer) ∈ cfg.peerTable → st.initiatorStaticPk = peer.expected C N →
      (p, msg1) ∈ s.initiated
  | _ => True

end System

/-! ## The invariant -/

/-- A message 1 the connection has accepted, for a peer of the table. -/
def Phase.accepted : Phase → Option (RelayId × Bytes noiseIkMsg1Len)
  | .writing msg1 _ matched _ | .returned msg1 _ matched => matched.map fun p => (p, msg1)
  | _ => none

/-- What holds in every state that is reached. -/
structure Inv (s : State) : Prop where
  /-- What a connection has accepted was initiated, and delivered to it. -/
  accepted : ∀ j phase p msg1, s.connections j = some phase → phase.accepted = some (p, msg1) →
    (p, msg1) ∈ s.initiated ∧ (j, msg1) ∈ s.delivered
  /-- A credit belongs to a connection that has returned. -/
  returned : ∀ c ∈ s.credits, ∃ session,
    s.connections c.connection = some (.returned c.msg1 session (some c.peer))
  nodup : (s.credits.map Credit.connection).Nodup
  outcomes : (s.outcomes.filter Prod.snd).map Prod.fst = s.credits.map Credit.peer

theorem inv_initial : Inv State.initial := by
  refine ⟨fun j phase p msg1 h => ?_, fun c hc => ?_, List.nodup_nil, rfl⟩
  · cases h
  · cases hc

section Steps

variable {ρ σ : Type} {C : Suite ρ} {N : Snow σ} {cfg : Config} {s : State}

/-- A connection that moves on without being credited. -/
theorem Inv.move (h : Inv s) {j : ℕ} {phase' : Phase}
    (hj : ∀ msg1 session matched, s.connections j ≠ some (.returned msg1 session matched))
    {delivered : List (ℕ × Bytes noiseIkMsg1Len)} (hdel : ∀ d ∈ s.delivered, d ∈ delivered)
    (hacc : ∀ p msg1, phase'.accepted = some (p, msg1) →
      (p, msg1) ∈ s.initiated ∧ (j, msg1) ∈ delivered)
    {outcomes : List (RelayId × Bool)} (hout : ∀ o ∈ outcomes, o.2 = false) :
    Inv
      { s with
        connections := Function.update s.connections j (some phase')
        delivered := delivered
        outcomes := s.outcomes ++ outcomes } := by
  refine ⟨fun k phase₀ p msg1 hk hphase₀ => ?_, fun c hc => ?_, h.nodup, ?_⟩
  · by_cases hkj : k = j
    · subst hkj
      have hphase' : some phase' = some phase₀ := by simpa using hk
      cases hphase'
      exact hacc p msg1 hphase₀
    · simp only [Function.update_of_ne hkj] at hk
      obtain ⟨hinit, hdel'⟩ := h.accepted k phase₀ p msg1 hk hphase₀
      exact ⟨hinit, hdel _ hdel'⟩
  · obtain ⟨session, hreturned⟩ := h.returned c hc
    have hne : c.connection ≠ j := by
      rintro rfl
      exact hj _ _ _ hreturned
    exact ⟨session, by simpa only [Function.update_of_ne hne] using hreturned⟩
  · have hnone : outcomes.filter Prod.snd = [] := by
      rw [List.filter_eq_nil_iff]
      intro o ho
      rw [hout o ho]
      exact Bool.false_ne_true
    rw [List.filter_append, hnone, List.append_nil]
    exact h.outcomes

/-- A connection that moves on, with nothing delivered or recorded. -/
theorem Inv.moveQuiet (h : Inv s) {j : ℕ} {phase' : Phase}
    (hj : ∀ msg1 session matched, s.connections j ≠ some (.returned msg1 session matched))
    (hacc : phase'.accepted = none) :
    Inv { s with connections := Function.update s.connections j (some phase') } := by
  have hmove : Inv
      { s with
        connections := Function.update s.connections j (some phase')
        delivered := s.delivered
        outcomes := s.outcomes ++ [] } := by
    refine h.move hj (fun _ hd => hd) (fun p msg1 hsome => ?_) (fun o ho => nomatch ho)
    rw [hacc] at hsome
    cases hsome
  simpa only [List.append_nil] using hmove

/-- A connection that stays where it is. -/
theorem Inv.stay (h : Inv s) {j : ℕ} {phase : Phase} (hj : s.connections j = some phase)
    {delivered : List (ℕ × Bytes noiseIkMsg1Len)} (hdel : ∀ d ∈ s.delivered, d ∈ delivered) :
    Inv
      { s with
        connections := Function.update s.connections j (some phase)
        delivered := delivered } := by
  rw [← hj, Function.update_eq_self]
  exact ⟨fun k phase₀ p msg1 hk hphase =>
    ⟨(h.accepted k phase₀ p msg1 hk hphase).1, hdel _ (h.accepted k phase₀ p msg1 hk hphase).2⟩,
    h.returned, h.nodup, h.outcomes⟩

theorem recordOutcome_false (matched : Option RelayId) :
    ∀ o ∈ cfg.recordOutcome matched false, o.2 = false := by
  intro o ho
  rw [Config.recordOutcome] at ho
  split_ifs at ho
  · obtain ⟨id, -, rfl⟩ := List.mem_map.mp ho
    rfl
  · cases ho

theorem Inv.initiate (h : Inv s) (x : RelayId × Bytes noiseIkMsg1Len) :
    Inv { s with initiated := s.initiated ++ [x] } :=
  ⟨fun j phase p msg1 hj hphase =>
    ⟨List.mem_append_left _ (h.accepted j phase p msg1 hj hphase).1,
      (h.accepted j phase p msg1 hj hphase).2⟩, h.returned, h.nodup, h.outcomes⟩

/-- The credits of a connection that returns are its own, for the peer that was matched. -/
theorem of_mem_creditsOf_writing {j : ℕ} {msg1 : Bytes noiseIkMsg1Len} {session : LinkKey}
    {matched : Option RelayId} {msg2 : Bytes noiseIkMsg2Len} {c : Credit}
    (hc : c ∈ creditsOf j (.writing msg1 session matched msg2) (cfg.recordOutcome matched true)) :
    c.connection = j ∧ c.msg1 = msg1 ∧ matched = some c.peer := by
  obtain ⟨o, ho, rfl⟩ := List.mem_map.mp hc
  have ho := (List.mem_filter.mp ho).1
  rw [Config.recordOutcome] at ho
  split_ifs at ho
  · obtain ⟨id, hid, rfl⟩ := List.mem_map.mp ho
    exact ⟨rfl, rfl, Option.mem_toList.mp hid⟩
  · cases ho

/-- There is one at most. -/
theorem nodup_creditsOf_writing (j : ℕ) (msg1 : Bytes noiseIkMsg1Len) (session : LinkKey)
    (matched : Option RelayId) (msg2 : Bytes noiseIkMsg2Len) :
    ((creditsOf j (.writing msg1 session matched msg2) (cfg.recordOutcome matched true)).map
      Credit.connection).Nodup := by
  rw [creditsOf, Config.recordOutcome]
  cases cfg.peerHealth <;> cases matched <;> simp

/-- A connection that returns, and is credited if there is a tracker. -/
theorem Inv.written (h : Inv s) {j : ℕ} {msg1 : Bytes noiseIkMsg1Len} {session : LinkKey}
    {matched : Option RelayId} {msg2 : Bytes noiseIkMsg2Len}
    (hj : s.connections j = some (.writing msg1 session matched msg2)) :
    Inv
      { s with
        connections := Function.update s.connections j (some (.returned msg1 session matched))
        outcomes := s.outcomes ++ cfg.recordOutcome matched true
        credits := s.credits ++
          creditsOf j (.writing msg1 session matched msg2) (cfg.recordOutcome matched true) } := by
  have hfresh : ∀ c ∈ s.credits, c.connection ≠ j := by
    rintro c hc rfl
    obtain ⟨session', hreturned⟩ := h.returned c hc
    rw [hj] at hreturned
    cases hreturned
  refine ⟨fun k phase p msg1' hk hphase => ?_, fun c hc => ?_, ?_, ?_⟩
  · by_cases hkj : k = j
    · subst hkj
      have hphase' : some (Phase.returned msg1 session matched) = some phase := by simpa using hk
      cases hphase'
      exact h.accepted k _ p msg1' hj hphase
    · simp only [Function.update_of_ne hkj] at hk
      exact h.accepted k phase p msg1' hk hphase
  · rcases List.mem_append.mp hc with hc | hc
    · obtain ⟨session', hreturned⟩ := h.returned c hc
      exact ⟨session', by simpa only [Function.update_of_ne (hfresh c hc)] using hreturned⟩
    · obtain ⟨hconn, hmsg, hmatched⟩ := of_mem_creditsOf_writing hc
      refine ⟨session, ?_⟩
      simp only [hconn, Function.update_self, hmsg, hmatched]
  · rw [List.map_append, List.nodup_append]
    refine ⟨h.nodup, nodup_creditsOf_writing j msg1 session matched msg2, fun a ha b hb => ?_⟩
    obtain ⟨c, hc, rfl⟩ := List.mem_map.mp ha
    obtain ⟨c', hc', rfl⟩ := List.mem_map.mp hb
    rw [(of_mem_creditsOf_writing hc').1]
    exact hfresh c hc
  · have hnew : ((cfg.recordOutcome matched true).filter Prod.snd).map Prod.fst =
        (creditsOf j (.writing msg1 session matched msg2)
          (cfg.recordOutcome matched true)).map Credit.peer := by
      rw [creditsOf, List.map_map]
      rfl
    rw [List.filter_append, List.map_append, List.map_append, h.outcomes, hnew]

/-- A first message is delivered. -/
theorem Inv.deliver (h : Inv s) {j : ℕ} {msg1 : Bytes noiseIkMsg1Len} {seed : σ}
    (hauth : Authentic C N cfg s (.deliverMsg1 j msg1 seed)) :
    Inv (NoiseResponder.step C N cfg s (.deliverMsg1 j msg1 seed)) := by
  rw [NoiseResponder.step]
  cases hj : s.connections j with
  | none => exact h
  | some phase =>
    have hdel : ∀ d ∈ s.delivered, d ∈ s.delivered ++ [(j, msg1)] :=
      fun d hd => List.mem_append_left _ hd
    rcases onMsg1_cases C N cfg phase msg1 seed with
      heq | ⟨rfl, e, heq⟩ | ⟨rfl, localSk, st, matched, hsk, hread, hcand, heq⟩
    · simp only [heq, List.append_nil]
      exact h.stay hj hdel
    · simp only [heq]
      exact h.move (fun _ _ _ hret => by rw [hj] at hret; cases hret) hdel
        (fun p msg hacc => by cases hacc) (fun o ho => nomatch ho)
    · simp only [heq]
      refine h.move (fun _ _ _ hret => by rw [hj] at hret; cases hret) hdel ?_
        (fun o ho => nomatch ho)
      intro p msg hacc
      obtain ⟨q, rfl, hq⟩ := Option.map_eq_some_iff.mp hacc
      cases hq
      obtain ⟨peer, hpeer, hexpected⟩ := mem_peerTable_of_mem_candidates hcand
      exact ⟨hauth localSk st p peer hsk hread hpeer hexpected,
        List.mem_append_right _ (List.mem_singleton_self _)⟩

/-- The second message has been written, or has not. -/
theorem Inv.writes (h : Inv s) (j : ℕ) (result : Except NetError Unit) :
    Inv (NoiseResponder.step C N cfg s (.written j result)) := by
  rw [NoiseResponder.step]
  cases hj : s.connections j with
  | none => exact h
  | some phase =>
    rcases onWritten_cases cfg phase result with
      heq | ⟨msg1, session, matched, msg2, rfl, ⟨e, heq⟩ | heq⟩
    · have hnone : creditsOf j phase [] = [] := by
        cases phase <;> rfl
      simp only [heq, hnone, List.append_nil]
      exact h.stay hj fun _ hd => hd
    · have hnone : creditsOf j (.writing msg1 session matched msg2)
          (cfg.recordOutcome matched false) = [] := by
        rw [creditsOf, List.map_eq_nil_iff, List.filter_eq_nil_iff]
        intro o ho
        rw [recordOutcome_false matched o ho]
        exact Bool.false_ne_true
      simp only [heq, hnone, List.append_nil]
      exact h.move (fun _ _ _ hret => by rw [hj] at hret; cases hret) (fun _ hd => hd)
        (fun p msg hacc => by cases hacc) (recordOutcome_false matched)
    · simp only [heq]
      exact h.written hj

/-- **One event keeps the invariant.** -/
theorem Inv.step (h : Inv s) (e : Event σ) (hauth : Authentic C N cfg s e) :
    Inv (NoiseResponder.step C N cfg s e) := by
  cases e with
  | initiate p staticSecret seed =>
    rw [NoiseResponder.step]
    split
    · exact h
    · split
      · exact h
      · exact h.initiate _
  | accept j =>
    rw [NoiseResponder.step]
    cases hj : s.connections j with
    | some phase => exact h
    | none =>
      exact h.moveQuiet (fun _ _ _ hret => by rw [hj] at hret; cases hret) rfl
  | deliverMsg1 j msg1 seed => exact h.deliver hauth
  | written j result => exact h.writes j result
  | readError j e =>
    rw [NoiseResponder.step]
    cases hj : s.connections j with
    | none => exact h
    | some phase =>
      cases phase with
      | awaitMsg1 =>
        exact h.moveQuiet (fun _ _ _ hret => by rw [hj] at hret; cases hret) rfl
      | writing msg1 session matched msg2 => exact h.stay hj fun _ hd => hd
      | returned msg1 session matched => exact h.stay hj fun _ hd => hd
      | failed e' => exact h.stay hj fun _ hd => hd

/-- **Every run keeps it.** -/
theorem inv_run {events : List (Event σ)}
    (hideal : Run.Guarded (NoiseResponder.step C N cfg) (Authentic C N cfg) .initial events) :
    Inv (run C N cfg .initial events) :=
  hideal.preserves Inv (fun _ e hauth h => h.step e hauth) inv_initial

end Steps

/-! ## Counting -/

namespace State

/-- How many handshakes `p` initiated toward this relay. -/
def handshakes (s : State) (p : RelayId) : ℕ := (s.initiated.filter fun x => x.1 = p).length

/-- How many handshake successes were recorded for `p`. -/
def creditCount (s : State) (p : RelayId) : ℕ := s.outcomes.count (p, true)

/-- The credits of a peer. -/
def creditsFor (s : State) (p : RelayId) : List Credit := s.credits.filter fun c => c.peer = p

/-- No message 1 was delivered to two connections. -/
def NoReplay (s : State) : Prop :=
  ∀ j j' msg1, (j, msg1) ∈ s.delivered → (j', msg1) ∈ s.delivered → j = j'

end State

theorem count_success (outcomes : List (RelayId × Bool)) (p : RelayId) :
    ((outcomes.filter Prod.snd).map Prod.fst).count p = outcomes.count (p, true) := by
  induction outcomes with
  | nil => rfl
  | cons o outcomes ih =>
    obtain ⟨q, success⟩ := o
    cases success with
    | false =>
      rw [List.filter_cons_of_neg Bool.false_ne_true, ih, List.count_cons_of_ne (by simp)]
    | true =>
      rw [List.filter_cons_of_pos rfl, List.map_cons, List.count_cons, List.count_cons, ih]
      simp

section Counts

variable {s : State} (h : Inv s)

include h

theorem Inv.creditCount_eq (p : RelayId) : s.creditCount p = (s.creditsFor p).length := by
  rw [State.creditCount, ← count_success, h.outcomes, List.count_eq_countP, List.countP_map,
    List.countP_eq_length_filter, State.creditsFor]
  refine congrArg List.length (List.filter_congr fun c _ => ?_)
  simp only [Function.comp_apply, beq_eq_decide]

theorem Inv.credit (c : Credit) (hc : c ∈ s.credits) :
    (c.peer, c.msg1) ∈ s.initiated ∧ (c.connection, c.msg1) ∈ s.delivered := by
  obtain ⟨session, hreturned⟩ := h.returned c hc
  exact h.accepted _ _ _ _ hreturned rfl

/-- The messages credited to a peer are messages it wrote. -/
theorem Inv.msg1_subset (p : RelayId) : (s.creditsFor p).map Credit.msg1 ⊆
    (s.initiated.filter fun x => x.1 = p).map Prod.snd := by
  intro m hm
  obtain ⟨c, hc, rfl⟩ := List.mem_map.mp hm
  obtain ⟨hc, hp⟩ := List.mem_filter.mp hc
  refine List.mem_map.mpr ⟨(c.peer, c.msg1), List.mem_filter.mpr ⟨(h.credit c hc).1, ?_⟩, rfl⟩
  exact hp

/-- Different messages credited to a peer are different handshakes of it. -/
theorem Inv.dedup_length_le (p : RelayId) :
    ((s.creditsFor p).map Credit.msg1).dedup.length ≤ s.handshakes p := by
  have hsub : ((s.creditsFor p).map Credit.msg1).dedup ⊆
      (s.initiated.filter fun x => x.1 = p).map Prod.snd :=
    fun m hm => h.msg1_subset p (List.mem_dedup.mp hm)
  have hle := ((List.nodup_dedup _).subperm hsub).length_le
  rwa [List.length_map] at hle

/-- Without replays no message is credited twice. -/
theorem Inv.nodup_msg1 (hreplay : s.NoReplay) : (s.credits.map Credit.msg1).Nodup := by
  refine List.Nodup.map_on (fun c hc c' hc' hmsg => ?_) h.nodup.of_map
  have hconn : c.connection = c'.connection :=
    hreplay _ _ c.msg1 (h.credit c hc).2 (hmsg ▸ (h.credit c' hc').2)
  exact List.inj_on_of_nodup_map h.nodup hc hc' hconn

theorem Inv.creditCount_le (hreplay : s.NoReplay) (p : RelayId) :
    s.creditCount p ≤ s.handshakes p := by
  have hnodup : ((s.creditsFor p).map Credit.msg1).Nodup :=
    ((List.filter_sublist).map Credit.msg1).nodup (h.nodup_msg1 hreplay)
  have hle := h.dedup_length_le p
  rwa [hnodup.dedup, List.length_map, ← h.creditCount_eq] at hle

end Counts

/-! ## The theorem -/

section Theorem

variable {ρ σ : Type}

/-- **What a peer is credited for**, in every run: messages it wrote for this relay, each credit
on a connection of its own.  The different messages credited are no more than the handshakes
the peer initiated, and so are the credits if no message is replayed. -/
theorem credits_of_run (C : Suite ρ) (N : Snow σ) (cfg : Config) (events : List (Event σ))
    (hideal : Run.Guarded (step C N cfg) (Authentic C N cfg) .initial events) :
    let s := run C N cfg .initial events
    (∀ c ∈ s.credits, (c.peer, c.msg1) ∈ s.initiated ∧ (c.connection, c.msg1) ∈ s.delivered) ∧
    (s.credits.map Credit.connection).Nodup ∧
    ∀ p, s.creditCount p = (s.creditsFor p).length ∧
      ((s.creditsFor p).map Credit.msg1).dedup.length ≤ s.handshakes p ∧
      (s.NoReplay → s.creditCount p ≤ s.handshakes p) := by
  have hinv := inv_run hideal
  exact ⟨hinv.credit, hinv.nodup, fun p => ⟨hinv.creditCount_eq p, hinv.dedup_length_le p,
    fun hreplay => hinv.creditCount_le hreplay p⟩⟩

/-- A relay with one peer, `8…8`, whose static key is `1…1`. -/
def checksumNoiseConfig : Config where
  noiseStaticSecret := some (List.Vector.replicate 32 2)
  ingressNoiseStaticPublic := none
  ingressLinkKey := none
  peerTable := [(List.Vector.replicate 32 8,
    ⟨List.Vector.replicate 32 7, some (List.Vector.replicate 32 1)⟩)]
  peerHealth := true

/-- What the peer writes for it, with the ephemeral key `5…5`. -/
def checksumMsg1 : Bytes noiseIkMsg1Len :=
  ⟨List.replicate 32 5 ++ (List.replicate 32 1 ++ List.replicate 32 69), rfl⟩

/-- The peer initiates one handshake, and the network delivers its message 1 twice. -/
def replayEvents : List (Event UInt8) :=
  [.initiate (List.Vector.replicate 32 8) (List.Vector.replicate 32 1) 5, .accept 0, .accept 1,
    .deliverMsg1 0 checksumMsg1 6, .deliverMsg1 1 checksumMsg1 7, .written 0 (.ok ()),
    .written 1 (.ok ())]

/-- Whatever is delivered once the peer has written `checksumMsg1`, that is all it wrote. -/
theorem authentic_replay {s : State} (hs : (List.Vector.replicate 32 8, checksumMsg1) ∈ s.initiated)
    (j : ℕ) (seed : UInt8) : Authentic checksumSuite checksumSnow checksumNoiseConfig s
      (.deliverMsg1 j checksumMsg1 seed) := by
  intro localSk st p peer _ _ hpeer _
  cases List.mem_singleton.mp hpeer
  exact hs

theorem guarded_replay : Run.Guarded (step checksumSuite checksumSnow checksumNoiseConfig)
    (Authentic checksumSuite checksumSnow checksumNoiseConfig) .initial replayEvents := by
  refine ⟨trivial, trivial, trivial, authentic_replay ?_ 0 6, authentic_replay ?_ 1 7, trivial,
    trivial, trivial⟩
  · decide +kernel
  · decide +kernel

theorem credits_of_run_checksum :
    let s := run checksumSuite checksumSnow checksumNoiseConfig .initial replayEvents
    s.creditCount (List.Vector.replicate 32 8) = 2 ∧
    ((s.creditsFor (List.Vector.replicate 32 8)).map Credit.msg1).dedup.length ≤
      s.handshakes (List.Vector.replicate 32 8) := by
  refine ⟨by decide +kernel, ?_⟩
  exact ((credits_of_run checksumSuite checksumSnow checksumNoiseConfig replayEvents
    guarded_replay).2.2 (List.Vector.replicate 32 8)).2.1

/-- **One handshake, two credits**: the relay keeps no record of the message 1s it has read. -/
theorem credits_exceed_checksum :
    ∃ events : List (Event UInt8),
      Run.Guarded (step checksumSuite checksumSnow checksumNoiseConfig)
        (Authentic checksumSuite checksumSnow checksumNoiseConfig) .initial events ∧
      (run checksumSuite checksumSnow checksumNoiseConfig .initial events).handshakes
          (List.Vector.replicate 32 8) <
        (run checksumSuite checksumSnow checksumNoiseConfig .initial events).creditCount
          (List.Vector.replicate 32 8) :=
  ⟨replayEvents, guarded_replay, by decide +kernel⟩

end Theorem

end NoiseResponder

end Aegis
