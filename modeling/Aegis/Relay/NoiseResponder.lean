import Aegis.Crypto.NoiseLink
import Aegis.Relay.Inbound

/-!
# The Noise responder (`net.rs`)

`run_responder_noise_handshake` reads message 1, matches the static key it reveals with
the ones it expects, writes message 2 and credits the peer.  A connection is one such
call: it waits for message 1, then for the write of message 2.

* `onMsg1_cases`, `onWritten_cases` — what each of the two steps can do.
-/

namespace Aegis

open Buffer

namespace NoiseResponder

/-- What the handshake uses of a `PeerInfo`. -/
structure NoisePeer where
  linkKeyBytes : Bytes 32
  noiseStaticPublic : Option (Bytes 32)

/-- The arguments of `run_responder_noise_handshake`: the peer table in the order it is
iterated, and whether there is a health tracker. -/
structure Config where
  noiseStaticSecret : Option (Bytes 32)
  ingressNoiseStaticPublic : Option (Bytes 32)
  ingressLinkKey : Option (Bytes 32)
  peerTable : List (RelayId × NoisePeer)
  peerHealth : Bool

section Candidates

variable {ρ σ : Type} (C : Suite ρ) (N : Snow σ)

/-- The static key expected of a peer. -/
def NoisePeer.expected (peer : NoisePeer) : Bytes 32 :=
  match peer.noiseStaticPublic with
  | some pk => pk
  | none => Aegis.noiseStaticPublic N (deriveNoiseStaticSecret C peer.linkKeyBytes)

/-- The static keys expected, with the peer each one identifies: the ingress key first,
then the peer table. -/
def Config.candidates (cfg : Config) : List (Bytes 32 × Option RelayId) :=
  (match cfg.ingressNoiseStaticPublic, cfg.ingressLinkKey with
    | some expected, _ => [(expected, none)]
    | none, some ingressPsk =>
      [(noiseStaticPublic N (deriveNoiseStaticSecret C ingressPsk), none)]
    | none, none => []) ++
    cfg.peerTable.map fun p => (p.2.expected C N, some p.1)

/-- `record_inbound_handshake_outcome`. -/
def Config.recordOutcome (cfg : Config) (matched : Option RelayId) (success : Bool) :
    List (RelayId × Bool) :=
  if cfg.peerHealth then matched.toList.map fun id => (id, success) else []

end Candidates

/-- One call: waiting for message 1, writing message 2, or done. -/
inductive Phase where
  | awaitMsg1
  | writing (msg1 : Bytes noiseIkMsg1Len) (session : LinkKey) (matched : Option RelayId)
      (msg2 : Bytes noiseIkMsg2Len)
  | returned (msg1 : Bytes noiseIkMsg1Len) (session : LinkKey) (matched : Option RelayId)
  | failed (e : NetError)

section Steps

variable {ρ σ : Type} (C : Suite ρ) (N : Snow σ) (cfg : Config)

/-- Message 1 has been read.  The second component is what is recorded. -/
def onMsg1 (phase : Phase) (msg1 : Bytes noiseIkMsg1Len) (seed : σ) :
    Phase × List (RelayId × Bool) :=
  match phase with
  | .awaitMsg1 =>
    match cfg.noiseStaticSecret with
    | none => (.failed (.noiseConfig "missing local noise_static_secret"), [])
    | some localSk =>
      match noiseIkResponderReadMsg1 C N localSk msg1.toList seed with
      | .error e => (.failed (.crypto e), [])
      | .ok respState =>
        match (cfg.candidates C N).find? fun c =>
          verifyNoiseStaticPublic respState.initiatorStaticPk c.1 with
        | none => (.failed .unidentifiedInbound, [])
        | some (expected, matched) =>
          match respState.intoSessionIfPeerMatches expected with
          | .ok session => (.writing msg1 session matched respState.msg2, [])
          | .error e => (.failed (.crypto e), cfg.recordOutcome matched false)
  | phase => (phase, [])

/-- Message 2 has been written, or not. -/
def onWritten (phase : Phase) (result : Except NetError Unit) : Phase × List (RelayId × Bool) :=
  match phase with
  | .writing msg1 session matched _ =>
    match result with
    | .error e => (.failed e, cfg.recordOutcome matched false)
    | .ok () => (.returned msg1 session matched, cfg.recordOutcome matched true)
  | phase => (phase, [])

/-- A read that fails or times out. -/
def onReadError (phase : Phase) (e : NetError) : Phase :=
  match phase with
  | .awaitMsg1 => .failed e
  | phase => phase

variable {C N cfg}

theorem mem_peerTable_of_mem_candidates {expected : Bytes 32} {p : RelayId}
    (h : (expected, some p) ∈ cfg.candidates C N) :
    ∃ peer, (p, peer) ∈ cfg.peerTable ∧ expected = peer.expected C N := by
  rcases List.mem_append.mp h with h | h
  · revert h
    split <;> intro h
    · cases List.mem_singleton.mp h
    · cases List.mem_singleton.mp h
    · cases h
  · obtain ⟨⟨q, peer⟩, hmem, heq⟩ := List.mem_map.mp h
    cases heq
    exact ⟨peer, hmem, rfl⟩

variable (C N cfg) in
/-- **Reading message 1**: nothing happens, the call fails, or it goes on to write message 2,
having seen the static key it expects. -/
theorem onMsg1_cases (phase : Phase) (msg1 : Bytes noiseIkMsg1Len) (seed : σ) :
    onMsg1 C N cfg phase msg1 seed = (phase, []) ∨
      (phase = .awaitMsg1 ∧ ∃ e, onMsg1 C N cfg phase msg1 seed = (.failed e, [])) ∨
      phase = .awaitMsg1 ∧ ∃ localSk st matched,
        cfg.noiseStaticSecret = some localSk ∧
        noiseIkResponderReadMsg1 C N localSk msg1.toList seed = .ok st ∧
        (st.initiatorStaticPk, matched) ∈ cfg.candidates C N ∧
        onMsg1 C N cfg phase msg1 seed = (.writing msg1 st.session matched st.msg2, []) := by
  cases phase with
  | awaitMsg1 =>
    right
    cases hsk : cfg.noiseStaticSecret with
    | none =>
      refine Or.inl ⟨rfl, .noiseConfig "missing local noise_static_secret", ?_⟩
      simp only [onMsg1, hsk]
    | some localSk =>
      cases hread : noiseIkResponderReadMsg1 C N localSk msg1.toList seed with
      | error e =>
        refine Or.inl ⟨rfl, .crypto e, ?_⟩
        simp only [onMsg1, hsk, hread]
      | ok st =>
        cases hfind : (cfg.candidates C N).find? fun c =>
            verifyNoiseStaticPublic st.initiatorStaticPk c.1 with
        | none =>
          refine Or.inl ⟨rfl, .unidentifiedInbound, ?_⟩
          simp only [onMsg1, hsk, hread, hfind]
        | some c =>
          obtain ⟨expected, matched⟩ := c
          have hver := List.find?_some hfind
          have hexpected : st.initiatorStaticPk = expected := of_decide_eq_true hver
          refine Or.inr ⟨rfl, localSk, st, matched, rfl, hread, ?_, ?_⟩
          · rw [hexpected]
            exact List.mem_of_find?_eq_some hfind
          · simp only [onMsg1, hsk, hread, hfind,
              NoiseIkResponderState.intoSessionIfPeerMatches_of_eq hexpected]
  | _ => exact Or.inl rfl

variable (cfg) in
/-- **Writing message 2**: nothing happens, or the call returns or fails and records it. -/
theorem onWritten_cases (phase : Phase) (result : Except NetError Unit) :
    onWritten cfg phase result = (phase, []) ∨
      ∃ msg1 session matched msg2, phase = .writing msg1 session matched msg2 ∧
        ((∃ e, onWritten cfg phase result = (.failed e, cfg.recordOutcome matched false)) ∨
          onWritten cfg phase result =
            (.returned msg1 session matched, cfg.recordOutcome matched true)) := by
  cases phase with
  | writing msg1 session matched msg2 =>
    refine Or.inr ⟨msg1, session, matched, msg2, rfl, ?_⟩
    cases result with
    | error e => exact Or.inl ⟨e, rfl⟩
    | ok _ => exact Or.inr rfl
  | _ => exact Or.inl rfl

end Steps

end NoiseResponder

end Aegis
