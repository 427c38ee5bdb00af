import Aegis.Crypto.Link

/-!
# Noise_IK link handshakes (`noise_link.rs`)

The crate drives one Noise_IK handshake with the `snow` library: message 1 carries the
initiator's static key, message 2 completes it.  A `Snow` is a choice of that library;
every function here takes one.

* `intoSessionIfPeerMatches_of_eq` — the session key is released for the static key that
  message 1 revealed.
-/

namespace Aegis

open Buffer

/-- The first message of the pattern. -/
def noiseIkMsg1Len : ℕ := 32 + 48 + 16

/-- The second message of the pattern. -/
def noiseIkMsg2Len : ℕ := 32 + 16

/-- What sets the derivation of a static secret apart. -/
def staticSkDomain : List UInt8 := ascii "aegis-noise-static-sk-v1"

/-- What sets the session key apart. -/
def noiseSessionDomain : List UInt8 := ascii "aegis-noise-session-v1"

/-- Why `snow` refuses. -/
inductive SnowError where
  | decrypt
  | other
  deriving DecidableEq, Repr

/-- `snow` for `Noise_IK_25519_ChaChaPoly_BLAKE2s`, with the random bytes of its own
generator as an argument, and the X25519 public key of a secret. -/
structure Snow (σ : Type) where
  HandshakeState : Type
  buildInitiator (localPrivate remotePublic : Bytes 32) : Except SnowError HandshakeState
  buildResponder (localPrivate : Bytes 32) : Except SnowError HandshakeState
  /-- `write_message` with an empty payload. -/
  writeMessage : HandshakeState → σ → Except SnowError (List UInt8 × HandshakeState)
  readMessage : HandshakeState → List UInt8 → Except SnowError HandshakeState
  getRemoteStatic : HandshakeState → Option (List UInt8)
  isHandshakeFinished : HandshakeState → Bool
  getHandshakeHash : HandshakeState → List UInt8
  staticPublic : Bytes 32 → Bytes 32

/-- `map_snow_err`. -/
def mapSnowErr : SnowError → CryptoError
  | .decrypt => .integrityFailure
  | .other => .malformed "noise handshake"

section Noise

variable {ρ σ : Type} (C : Suite ρ) (N : Snow σ)

/-- A static secret from pre-shared key material. -/
def deriveNoiseStaticSecret (material : Bytes 32) : Bytes 32 :=
  C.sha3 (staticSkDomain ++ material.toList)

/-- The public key of a static secret. -/
def noiseStaticPublic (staticSecret : Bytes 32) : Bytes 32 := N.staticPublic staticSecret

/-- The static key is the one expected. -/
def verifyNoiseStaticPublic (got expected : Bytes 32) : Bool := decide (got = expected)

/-- The session key, from the hash of the handshake. -/
def linkKeyFromHandshakeHash (h : List UInt8) : LinkKey := C.sha3 (noiseSessionDomain ++ h)

/-- Write message 1. -/
def noiseIkInitiatorWriteMsg1 (localStaticSecret remoteStaticPk : Bytes 32) (seed : σ) :
    Except CryptoError (N.HandshakeState × Bytes noiseIkMsg1Len) :=
  match N.buildInitiator localStaticSecret remoteStaticPk with
  | .error e => .error (mapSnowErr e)
  | .ok hs =>
    match N.writeMessage hs seed with
    | .error e => .error (mapSnowErr e)
    | .ok (msg, hs) =>
      if h : msg.length = noiseIkMsg1Len then .ok (hs, ⟨msg, h⟩)
      else .error (.malformed "noise msg1 length")

/-- The responder, ready to send message 2. -/
structure NoiseIkResponderState where
  initiatorStaticPk : Bytes 32
  msg2 : Bytes noiseIkMsg2Len
  session : LinkKey

/-- Read message 1 and produce message 2. -/
def noiseIkResponderReadMsg1 (localStaticSecret : Bytes 32) (msg1 : List UInt8) (seed : σ) :
    Except CryptoError NoiseIkResponderState :=
  if msg1.length ≠ noiseIkMsg1Len then .error (.malformed "noise msg1 length") else
  match N.buildResponder localStaticSecret with
  | .error e => .error (mapSnowErr e)
  | .ok hs =>
    match N.readMessage hs msg1 with
    | .error e => .error (mapSnowErr e)
    | .ok hs =>
      match N.getRemoteStatic hs with
      | none => .error (.malformed "noise initiator static missing")
      | some remote =>
        if hremote : remote.length = 32 then
          match N.writeMessage hs seed with
          | .error e => .error (mapSnowErr e)
          | .ok (msg2, hs) =>
            if hmsg2 : msg2.length = noiseIkMsg2Len then
              if N.isHandshakeFinished hs = false then
                .error (.malformed "noise handshake incomplete")
              else .ok ⟨⟨remote, hremote⟩, ⟨msg2, hmsg2⟩,
                linkKeyFromHandshakeHash C (N.getHandshakeHash hs)⟩
            else .error (.malformed "noise msg2 length")
        else .error (.malformed "noise initiator static length")

/-- The session key, once the initiator's static key is the expected one. -/
def NoiseIkResponderState.intoSessionIfPeerMatches (st : NoiseIkResponderState)
    (expectedInitiatorPk : Bytes 32) : Except CryptoError LinkKey :=
  if decide (st.initiatorStaticPk = expectedInitiatorPk) = false then .error .integrityFailure
  else .ok st.session

theorem NoiseIkResponderState.intoSessionIfPeerMatches_of_eq {st : NoiseIkResponderState}
    {expected : Bytes 32} (h : st.initiatorStaticPk = expected) :
    st.intoSessionIfPeerMatches expected = .ok st.session := by
  rw [intoSessionIfPeerMatches, if_neg (by simp [h])]

end Noise

/-- A `snow` simple enough to compute with: a secret is its own public key, message 1 is
the ephemeral key, the static key and a checksum, message 2 an ephemeral key and a checksum. -/
def checksumSnow : Snow UInt8 where
  HandshakeState := Bytes 32 × Option (Bytes 32) × Bool
  buildInitiator localPrivate remotePublic := .ok (localPrivate, some remotePublic, false)
  buildResponder localPrivate := .ok (localPrivate, none, true)
  writeMessage := fun (localPrivate, remote, responder) seed =>
    match responder with
    | false => .ok (List.replicate 32 seed ++ (localPrivate.toList ++
        List.replicate 32 (remote.elim 0 fun r => r.toList.foldl (· + ·) seed)),
          localPrivate, remote, responder)
    | true => .ok (List.replicate 48 seed, localPrivate, remote, responder)
  readMessage := fun (localPrivate, _, responder) msg =>
    if slice 64 32 msg = List.replicate 32 (localPrivate.toList.foldl (· + ·) (msg.headD 0)) then
      if h : (slice 32 32 msg).length = 32 then
        .ok (localPrivate, some ⟨slice 32 32 msg, h⟩, responder)
      else .error .other
    else .error .decrypt
  getRemoteStatic := fun (_, remote, _) => remote.map List.Vector.toList
  isHandshakeFinished := fun (_, _, responder) => responder
  getHandshakeHash := fun (localPrivate, remote, _) =>
    localPrivate.toList ++ remote.elim [] List.Vector.toList
  staticPublic := id

end Aegis
