import Aegis.Crypto.Cell
import Aegis.Crypto.Suite

/-!
# Hop links (`link.rs`)

One handshake per connection derives a session key; after it every 512-byte cell
travels as one sealed frame.  The handshake is four messages: both sides send an
ephemeral key and a nonce, then each side sends a MAC of the transcript under the
pre-shared key.

* `parseHello_toBytes` — the messages written are read back.
* `macInput_injective` — **the MAC input determines its parts**: the key, the role,
  the transcript and the optional binding.
* `linkHandshakeResponderFinish_of_verified` — the responder derives its key once
  the confirm MAC verifies.
-/

namespace Aegis

open Buffer

/-! ## Sealed frames -/

/-- The length of a nonce. -/
def linkNonceLen : ℕ := 12

/-- The length of a tag. -/
def linkTagLen : ℕ := 16

/-- A frame: the nonce, the sealed cell and its tag. -/
def linkFrameLen : ℕ := linkNonceLen + cellLen + linkTagLen

/-- What every frame is sealed with besides the cell. -/
def linkAad : List UInt8 := ascii "aegis-link-v1"

/-- A session key. -/
abbrev LinkKey := Bytes 32

/-- An AEAD with 32-byte keys and 12-byte nonces, as ChaCha20-Poly1305. -/
structure Aead where
  encrypt (key : LinkKey) (nonce : Bytes linkNonceLen) (msg aad : List UInt8) :
    Option (List UInt8)
  decrypt (key : LinkKey) (nonce : Bytes linkNonceLen) (msg aad : List UInt8) :
    Option (List UInt8)

/-- Decryption undoes encryption, and the ciphertext carries a tag of 16 bytes. -/
structure Aead.Correct (A : Aead) : Prop where
  encrypts : ∀ key nonce msg aad, msg.length = cellLen → ∃ ct, A.encrypt key nonce msg aad = some ct
  length : ∀ key nonce msg aad ct, A.encrypt key nonce msg aad = some ct →
    ct.length = msg.length + linkTagLen
  decrypts : ∀ key nonce msg aad ct, A.encrypt key nonce msg aad = some ct →
    A.decrypt key nonce ct aad = some msg

namespace LinkKey

/-- `LinkKey::seal`: a cell under a fresh random nonce, `nonce ‖ ciphertext ‖ tag`. -/
def sealCell {ρ : Type} (C : Suite ρ) (A : Aead) (key : LinkKey) (cell : Cell) (rng : ρ) :
    Except CryptoError (List UInt8) × ρ :=
  let (nonce, rng) := C.fillBytes linkNonceLen rng
  match A.encrypt key nonce cell.toList linkAad with
  | none => (.error (.malformed "seal"), rng)
  | some ct => (.ok (nonce.toList ++ ct), rng)

/-- `LinkKey::open`: a received frame. -/
def openFrame (A : Aead) (key : LinkKey) (frame : List UInt8) : Except CryptoError Cell :=
  if h : frame.length = linkFrameLen then
    let nonce : Bytes linkNonceLen := ⟨slice 0 linkNonceLen frame, length_slice_of_le (by
      rw [h]; decide)⟩
    match A.decrypt key nonce (frame.drop linkNonceLen) linkAad with
    | none => .error .integrityFailure
    | some pt =>
      if hpt : pt.length = cellLen then .ok ⟨pt, hpt⟩
      else .error (.malformed "plaintext length")
  else .error (.malformed "link frame length")

section Correct

variable {ρ : Type} {C : Suite ρ} {A : Aead} (hA : A.Correct) (key : LinkKey) (cell : Cell) (rng : ρ)

include hA

/-- A cell is always sealed. -/
theorem sealCell_ok : ∃ frame rng', sealCell C A key cell rng = (.ok frame, rng') := by
  obtain ⟨ct, hct⟩ := hA.encrypts key (C.fillBytes linkNonceLen rng).1 cell.toList linkAad
    cell.toList_length
  refine ⟨(C.fillBytes linkNonceLen rng).1.toList ++ ct, (C.fillBytes linkNonceLen rng).2, ?_⟩
  simp only [sealCell, hct]

/-- **A sealed cell is opened**, and its frame has the fixed length. -/
theorem openFrame_of_sealCell {frame : List UInt8} {rng' : ρ}
    (h : sealCell C A key cell rng = (.ok frame, rng')) :
    frame.length = linkFrameLen ∧ key.openFrame A frame = .ok cell := by
  rw [sealCell] at h
  cases hct : A.encrypt key (C.fillBytes linkNonceLen rng).1 cell.toList linkAad with
  | none => simp only [hct, Prod.mk.injEq, reduceCtorEq, false_and] at h
  | some ct =>
    simp only [hct, Prod.mk.injEq, Except.ok.injEq] at h
    obtain ⟨rfl, -⟩ := h
    have hlen : ((C.fillBytes linkNonceLen rng).1.toList ++ ct).length = linkFrameLen := by
      rw [List.length_append, List.Vector.toList_length, hA.length _ _ _ _ _ hct,
        cell.toList_length]
      rfl
    have hnonce : slice 0 linkNonceLen ((C.fillBytes linkNonceLen rng).1.toList ++ ct) =
        (C.fillBytes linkNonceLen rng).1.toList := by
      rw [slice_append_left (by simp), slice_zero_of_length (by simp)]
    have hdrop : ((C.fillBytes linkNonceLen rng).1.toList ++ ct).drop linkNonceLen = ct :=
      List.drop_left' (List.Vector.toList_length _)
    refine ⟨hlen, ?_⟩
    have hdec := hA.decrypts _ _ _ _ _ hct
    rw [openFrame, dif_pos hlen]
    have hvec : (⟨slice 0 linkNonceLen ((C.fillBytes linkNonceLen rng).1.toList ++ ct),
        length_slice_of_le (by rw [hlen]; decide)⟩ : Bytes linkNonceLen) =
        (C.fillBytes linkNonceLen rng).1 := Bytes.ext_toList hnonce
    simp only [hvec, hdrop, hdec, dif_pos cell.toList_length]
    rfl

end Correct

end LinkKey

/-- An AEAD simple enough to compute with: the tag is a checksum. -/
def checksumAead : Aead where
  encrypt key nonce msg aad := some (msg ++ tag key nonce msg aad)
  decrypt key nonce ct aad :=
    let msg := ct.take (ct.length - linkTagLen)
    if ct.drop (ct.length - linkTagLen) = tag key nonce msg aad then some msg else none
where
  tag (key : LinkKey) (nonce : Bytes linkNonceLen) (msg aad : List UInt8) : List UInt8 :=
    List.replicate linkTagLen
      ((key.toList ++ (nonce.toList ++ (msg ++ aad))).foldl (· + ·) 0)

theorem checksumAead_correct : checksumAead.Correct := by
  have hlen : ∀ key nonce msg aad, (checksumAead.tag key nonce msg aad).length = linkTagLen :=
    fun _ _ _ _ => List.length_replicate
  refine ⟨fun key nonce msg aad _ => ⟨_, rfl⟩, ?_, ?_⟩
  · rintro key nonce msg aad ct h
    cases h
    rw [List.length_append, hlen]
  · rintro key nonce msg aad ct h
    cases h
    have htake : (msg ++ checksumAead.tag key nonce msg aad).length - linkTagLen = msg.length := by
      rw [List.length_append, hlen, Nat.add_sub_cancel]
    simp only [checksumAead, htake, List.take_left, List.drop_left, if_true]

/-! ## Handshake messages -/

/-- The length of the ephemeral public key of a hello. -/
def linkEphPubLen : ℕ := 32

/-- The length of the nonce of a hello. -/
def linkHandshakeNonceLen : ℕ := 16

/-- The length of the MAC of a confirm and of a finish. -/
def linkHandshakeMacLen : ℕ := 32

/-- What sets the derivation of the authentication key apart. -/
def handshakeAuthDomain : List UInt8 := ascii "aegis-link-handshake-auth-v1"

/-- What sets the MACs apart. -/
def handshakeMacDomain : List UInt8 := ascii "aegis-link-handshake-mac-v1"

/-- What sets the identity part of a transcript apart. -/
def handshakeIdentityDomain : List UInt8 := ascii "aegis-link-handshake-identity-v1"

/-- What sets the session key apart. -/
def handshakeSessionDomain : List UInt8 := ascii "aegis-link-session-v1"

/-- What sets the transcript apart. -/
def handshakeTranscriptDomain : List UInt8 := ascii "aegis-link-handshake-v1"

/-- The role byte of the initiator's MAC. -/
def roleInitiator : UInt8 := 1

/-- The role byte of the responder's MAC. -/
def roleResponder : UInt8 := 2

/-- One side's first message, `LinkHandshakeInit` and `LinkHandshakeResp` alike. -/
structure LinkHandshakeHello where
  ephPk : Bytes linkEphPubLen
  nonce : Bytes linkHandshakeNonceLen
  deriving DecidableEq

/-- The first message. -/
abbrev LinkHandshakeInit := LinkHandshakeHello

/-- The second message. -/
abbrev LinkHandshakeResp := LinkHandshakeHello

/-- The wire form `eph_pk ‖ nonce`. -/
def LinkHandshakeHello.toBytes (m : LinkHandshakeHello) : List UInt8 :=
  m.ephPk.toList ++ m.nonce.toList

/-- The check and the reads shared by the two parsers; `what` names the message. -/
def parseHello (what : String) (bytes : List UInt8) : Except CryptoError LinkHandshakeHello :=
  if h : bytes.length = linkEphPubLen + linkHandshakeNonceLen then
    .ok
      { ephPk := ⟨slice 0 linkEphPubLen bytes, length_slice_of_le (by rw [h]; decide)⟩
        nonce := ⟨slice linkEphPubLen linkHandshakeNonceLen bytes, length_slice_of_le (by
          rw [h])⟩ }
  else .error (.malformed what)

/-- The first message of 48 bytes; another length is an error. -/
def parseLinkHandshakeInit : List UInt8 → Except CryptoError LinkHandshakeInit :=
  parseHello "link handshake init length"

/-- The second message, in the same way. -/
def parseLinkHandshakeResp : List UInt8 → Except CryptoError LinkHandshakeResp :=
  parseHello "link handshake resp length"

/-- Parse a handshake MAC. -/
def parseLinkHandshakeMac (bytes : List UInt8) : Except CryptoError (Bytes linkHandshakeMacLen) :=
  if h : bytes.length = linkHandshakeMacLen then .ok ⟨bytes, h⟩
  else .error (.malformed "link handshake mac length")

theorem parseLinkHandshakeMac_toList (mac : Bytes linkHandshakeMacLen) :
    parseLinkHandshakeMac mac.toList = .ok mac := by
  rw [parseLinkHandshakeMac, dif_pos mac.toList_length]
  rfl

/-- What both sides put in their MACs and in the key. -/
structure LinkHandshakeTranscript where
  initiatorEphPk : Bytes linkEphPubLen
  initiatorNonce : Bytes linkHandshakeNonceLen
  responderEphPk : Bytes linkEphPubLen
  responderNonce : Bytes linkHandshakeNonceLen
  deriving DecidableEq

namespace LinkHandshakeTranscript

/-- The transcript of two hellos, without a binding. -/
def fromMessages (init : LinkHandshakeInit) (resp : LinkHandshakeResp) :
    LinkHandshakeTranscript where
  initiatorEphPk := init.ephPk
  initiatorNonce := init.nonce
  responderEphPk := resp.ephPk
  responderNonce := resp.nonce

/-- The transcript as it is hashed. -/
def toBytes (t : LinkHandshakeTranscript) : List UInt8 :=
  t.initiatorEphPk.toList ++ (t.initiatorNonce.toList ++
    (t.responderEphPk.toList ++ t.responderNonce.toList))

@[simp] theorem length_toBytes (t : LinkHandshakeTranscript) : t.toBytes.length = 96 := by
  simp only [toBytes, List.length_append, List.Vector.toList_length]
  rfl

theorem toBytes_injective {t t' : LinkHandshakeTranscript} (h : t.toBytes = t'.toBytes) :
    t = t' := by
  obtain ⟨h1, h⟩ := List.append_inj h (by simp)
  obtain ⟨h2, h⟩ := List.append_inj h (by simp)
  obtain ⟨h3, h4⟩ := List.append_inj h (by simp)
  cases t
  cases t'
  rw [mk.injEq]
  exact ⟨Bytes.ext_toList h1, Bytes.ext_toList h2, Bytes.ext_toList h3, Bytes.ext_toList h4⟩

end LinkHandshakeTranscript

/-- Roster identity bound into the handshake MACs: the id of the responder being
authenticated and, if known, the commitment to its KEM key. -/
structure LinkHandshakeBinding where
  peerRelayId : Bytes 32
  kemPublicCommitment : Option (Bytes 32)
  deriving DecidableEq

namespace LinkHandshakeBinding

/-- The binding as it is hashed. -/
def toBytes (b : LinkHandshakeBinding) : List UInt8 :=
  handshakeIdentityDomain ++ (b.peerRelayId.toList ++
    match b.kemPublicCommitment with
    | some commitment => 1 :: commitment.toList
    | none => [0])

theorem toBytes_injective {b b' : LinkHandshakeBinding} (h : b.toBytes = b'.toBytes) : b = b' := by
  have h := List.append_cancel_left h
  obtain ⟨hid, htail⟩ := List.append_inj h (by simp)
  obtain ⟨id, commitment⟩ := b
  obtain ⟨id', commitment'⟩ := b'
  rw [mk.injEq]
  refine ⟨Bytes.ext_toList hid, ?_⟩
  cases commitment <;> cases commitment' <;> simp only [List.cons.injEq] at htail
  · rfl
  · exact absurd htail.1 (by decide)
  · exact absurd htail.1 (by decide)
  · rw [Bytes.ext_toList htail.2]

theorem toBytes_ne_nil (b : LinkHandshakeBinding) : b.toBytes ≠ [] := by
  intro h
  have hdom := (List.append_eq_nil_iff.mp h).1
  exact absurd hdom (by decide)

end LinkHandshakeBinding

/-- `update_handshake_mac_with_binding`: nothing without a binding. -/
def bindingBytes : Option LinkHandshakeBinding → List UInt8
  | none => []
  | some b => b.toBytes

theorem bindingBytes_injective {b b' : Option LinkHandshakeBinding}
    (h : bindingBytes b = bindingBytes b') : b = b' := by
  cases b with
  | none =>
    cases b' with
    | none => rfl
    | some b' => exact absurd h.symm b'.toBytes_ne_nil
  | some b =>
    cases b' with
    | none => exact absurd h b.toBytes_ne_nil
    | some b' => rw [LinkHandshakeBinding.toBytes_injective h]

/-! ## MACs and keys -/

variable {ρ : Type} (C : Suite ρ)

/-- The key of the MACs, from the pre-shared key. -/
def handshakeAuthKey (psk : Bytes 32) : Bytes 32 := C.sha3 (handshakeAuthDomain ++ psk.toList)

/-- What `handshake_mac` hashes. -/
def macInput (authKey : Bytes 32) (role : UInt8) (transcript : LinkHandshakeTranscript)
    (binding : Option LinkHandshakeBinding) : List UInt8 :=
  handshakeMacDomain ++ (authKey.toList ++ (role :: (transcript.toBytes ++ bindingBytes binding)))

/-- The MAC of a role over a transcript. -/
def handshakeMac (authKey : Bytes 32) (role : UInt8) (transcript : LinkHandshakeTranscript)
    (binding : Option LinkHandshakeBinding) : Bytes linkHandshakeMacLen :=
  C.sha3 (macInput authKey role transcript binding)

/-- **The MAC input determines its parts.** -/
theorem macInput_injective {k k' : Bytes 32} {r r' : UInt8} {t t' : LinkHandshakeTranscript}
    {b b' : Option LinkHandshakeBinding} (h : macInput k r t b = macInput k' r' t' b') :
    k = k' ∧ r = r' ∧ t = t' ∧ b = b' := by
  have h := List.append_cancel_left h
  obtain ⟨hk, h⟩ := List.append_inj h (by simp)
  obtain ⟨hr, h⟩ := List.cons.inj h
  obtain ⟨ht, hb⟩ := List.append_inj h (by simp)
  exact ⟨Bytes.ext_toList hk, hr, LinkHandshakeTranscript.toBytes_injective ht,
    bindingBytes_injective hb⟩

/-- A MAC is the one that this side computes. -/
def verifyHandshakeMac (authKey : Bytes 32) (role : UInt8) (transcript : LinkHandshakeTranscript)
    (binding : Option LinkHandshakeBinding) (mac : Bytes linkHandshakeMacLen) : Bool :=
  decide (handshakeMac C authKey role transcript binding = mac)

/-- Initiator confirm MAC. -/
def linkHandshakeConfirmMac (psk : Bytes 32) (transcript : LinkHandshakeTranscript)
    (binding : Option LinkHandshakeBinding) : Bytes linkHandshakeMacLen :=
  handshakeMac C (handshakeAuthKey C psk) roleInitiator transcript binding

/-- Responder finish MAC. -/
def linkHandshakeFinishMac (psk : Bytes 32) (transcript : LinkHandshakeTranscript)
    (binding : Option LinkHandshakeBinding) : Bytes linkHandshakeMacLen :=
  handshakeMac C (handshakeAuthKey C psk) roleResponder transcript binding

/-- The responder's MAC is right. -/
def verifyLinkHandshakeConfirmMac (psk : Bytes 32) (transcript : LinkHandshakeTranscript)
    (binding : Option LinkHandshakeBinding) (mac : Bytes linkHandshakeMacLen) : Bool :=
  verifyHandshakeMac C (handshakeAuthKey C psk) roleInitiator transcript binding mac

/-- The initiator's MAC is right. -/
def verifyLinkHandshakeFinishMac (psk : Bytes 32) (transcript : LinkHandshakeTranscript)
    (binding : Option LinkHandshakeBinding) (mac : Bytes linkHandshakeMacLen) : Bool :=
  verifyHandshakeMac C (handshakeAuthKey C psk) roleResponder transcript binding mac

/-- The session key, from the shared secret and the transcript. -/
def deriveSessionKeyBytes (shared : Bytes 32) (transcript : LinkHandshakeTranscript) : Bytes 32 :=
  C.sha3 (handshakeSessionDomain ++ (shared.toList ++
    (handshakeTranscriptDomain ++ transcript.toBytes)))

/-- Derive the session key from the exchange and the transcript. -/
def deriveLinkSessionKey (localEphemeral : C.x25519.Secret) (peerEphPk : Bytes linkEphPubLen)
    (transcript : LinkHandshakeTranscript) : LinkKey :=
  deriveSessionKeyBytes C (C.x25519.diffieHellman localEphemeral peerEphPk) transcript

/-- Draw an ephemeral secret and a nonce: `link_handshake_init_write` and
`link_handshake_resp_write` alike. -/
def helloWrite (rng : ρ) : (C.x25519.Secret × LinkHandshakeHello) × ρ :=
  let (secret, rng) := C.x25519.randomFromRng rng
  let (nonce, rng) := C.fillBytes linkHandshakeNonceLen rng
  ((secret, ⟨C.x25519.publicKey secret, nonce⟩), rng)

/-- The initiator draws its ephemeral key and its nonce. -/
def linkHandshakeInitWrite (rng : ρ) : (C.x25519.Secret × List UInt8) × ρ :=
  let ((secret, hello), rng) := helloWrite C rng
  ((secret, hello.toBytes), rng)

/-- The responder does the same. -/
def linkHandshakeRespWrite (rng : ρ) : (C.x25519.Secret × List UInt8) × ρ :=
  let ((secret, hello), rng) := helloWrite C rng
  ((secret, hello.toBytes), rng)

/-- Complete the responder handshake: the session key, if the confirm MAC matches `psk`. -/
def linkHandshakeResponderFinish (psk : Bytes 32) (respSk : C.x25519.Secret)
    (init : LinkHandshakeInit) (resp : LinkHandshakeResp) (confirmMsg : List UInt8)
    (binding : Option LinkHandshakeBinding) : Except CryptoError LinkKey :=
  match parseLinkHandshakeMac confirmMsg with
  | .error e => .error e
  | .ok confirm =>
    let transcript := LinkHandshakeTranscript.fromMessages init resp
    if verifyLinkHandshakeConfirmMac C psk transcript binding confirm = false then
      .error .integrityFailure
    else .ok (deriveLinkSessionKey C respSk init.ephPk transcript)

/-- A message written is read back. -/
theorem parseHello_toBytes (what : String) (m : LinkHandshakeHello) :
    parseHello what m.toBytes = .ok m := by
  have hlen : m.toBytes.length = linkEphPubLen + linkHandshakeNonceLen := by
    simp only [LinkHandshakeHello.toBytes, List.length_append, List.Vector.toList_length]
  have hpk : slice 0 linkEphPubLen m.toBytes = m.ephPk.toList := by
    rw [LinkHandshakeHello.toBytes, slice_append_left (by simp), slice_zero_of_length (by simp)]
  have hnonce : slice linkEphPubLen linkHandshakeNonceLen m.toBytes = m.nonce.toList := by
    rw [LinkHandshakeHello.toBytes, slice_append_right (by simp), List.Vector.toList_length,
      Nat.sub_self, slice_zero_of_length (by simp)]
  rw [parseHello, dif_pos hlen]
  obtain ⟨pk, nonce⟩ := m
  exact congrArg Except.ok (congrArg₂ LinkHandshakeHello.mk (Bytes.ext_toList hpk)
    (Bytes.ext_toList hnonce))

/-- **The responder's last step**: it derives a key exactly if the confirm MAC verifies. -/
theorem linkHandshakeResponderFinish_of_verified {psk : Bytes 32} (respSk : C.x25519.Secret)
    {init : LinkHandshakeInit} {resp : LinkHandshakeResp} {confirm : Bytes linkHandshakeMacLen}
    {binding : Option LinkHandshakeBinding}
    (h : verifyLinkHandshakeConfirmMac C psk (.fromMessages init resp) binding confirm = true) :
    linkHandshakeResponderFinish C psk respSk init resp confirm.toList binding =
      .ok (deriveLinkSessionKey C respSk init.ephPk (.fromMessages init resp)) := by
  simp only [linkHandshakeResponderFinish, parseLinkHandshakeMac_toList, h, Bool.true_eq_false,
    if_false]

end Aegis
