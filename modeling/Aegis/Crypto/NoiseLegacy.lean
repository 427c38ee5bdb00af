import Aegis.Crypto.Link
import Aegis.Lib.Fallible
import Aegis.Lib.HashChain

/-!
# Noise_IK over SHA3-256 (`noise_link_legacy.rs`)

The two messages of the handshake that the crate runs without `snow`.  Both sides mix what they send
and receive into a running hash, and the secrets of their key agreements into a chaining key; the
link key is the hash of both.

* `session_of_delivered` — messages that are delivered as they were sent give both sides one key.
* `session_eq_iff` — **both sides have one key exactly if each has received what the other has
  sent**, to the responder that the initiator meant.
-/

namespace Aegis

open Buffer Fallible

namespace NoiseLegacy

/-- The first message: the ephemeral key, the static key and the tag. -/
def noiseIkMsg1Len : ℕ := 32 + 32 + 16

/-- The second message: the ephemeral key and the tag. -/
def noiseIkMsg2Len : ℕ := 32 + 16

/-- What the chaining key and the running hash begin with. -/
def protocolName : List UInt8 := ascii "Noise_IK_25519_ChaChaPoly_SHA3_AEGIS_v1"

/-- What sets the extraction step apart. -/
def extractDomain : List UInt8 := ascii "aegis-noise-ik-extract-v1"

/-- What sets the next chaining key apart. -/
def expandCkDomain : List UInt8 := ascii "aegis-noise-ik-expand-ck-v1"

/-- What sets the key to encrypt with apart. -/
def expandKDomain : List UInt8 := ascii "aegis-noise-ik-expand-k-v1"

/-- What sets the session key apart. -/
def sessionDomain : List UInt8 := ascii "aegis-noise-session-v1"

section Handshake

variable {ρ : Type} (C : Suite ρ) (A : Aead) (staticSecret : Bytes 32 → C.x25519.Secret)

/-! ## Hashes and keys -/

/-- The running hash takes in some bytes. -/
def mixHash (h : Bytes 32) (data : List UInt8) : Bytes 32 := C.sha3 (h.toList ++ data)

/-- The next chaining key, and a key to encrypt with. -/
def hkdf (ck : Bytes 32) (ikm : List UInt8) : Bytes 32 × Bytes 32 :=
  let temp := C.sha3 (extractDomain ++ ck.toList ++ ikm)
  (C.sha3 (expandCkDomain ++ temp.toList), C.sha3 (expandKDomain ++ temp.toList))

/-- The chaining key and the running hash, to begin with. -/
def initSymmetric : Bytes 32 × Bytes 32 := (C.sha3 protocolName, C.sha3 protocolName)

/-- The chaining key and the key to encrypt with, from a secret that was agreed on. -/
def mixKey (ck dhOut : Bytes 32) : Bytes 32 × Bytes 32 := hkdf C ck dhOut.toList

/-- The session key, from the chaining key and the running hash. -/
def splitSession (ck h : Bytes 32) : LinkKey := C.sha3 (sessionDomain ++ ck.toList ++ h.toList)

/-- `aead_nonce(0)`. -/
def aeadNonce : Bytes linkNonceLen := Bytes.zero linkNonceLen

/-- Encrypts under the nonce 0; every key is used once. -/
def aeadEncrypt (key : Bytes 32) (aad plaintext : List UInt8) : Except CryptoError (List UInt8) :=
  match A.encrypt key aeadNonce plaintext aad with
  | none => .error (.malformed "noise encrypt")
  | some ct => .ok ct

/-- Decrypts what was encrypted so. -/
def aeadDecrypt (key : Bytes 32) (aad ciphertext : List UInt8) : Except CryptoError (List UInt8) :=
  match A.decrypt key aeadNonce ciphertext aad with
  | none => .error .integrityFailure
  | some pt => .ok pt

/-! ## The messages -/

/-- What the initiator keeps between the messages. -/
structure NoiseIkInitiatorState where
  ck : Bytes 32
  h : Bytes 32
  ephSeed : Bytes 32
  localStatic : Bytes 32
  deriving DecidableEq

/-- What the responder has after the first message, its answer among it. -/
structure NoiseIkResponderState where
  initiatorStaticPk : Bytes 32
  msg2 : List UInt8
  session : LinkKey
  deriving DecidableEq

/-- The first `n` bytes, as the key they are. -/
def keyOf (bytes : List UInt8) : Bytes 32 := ⟨(bytes ++ List.replicate 32 0).take 32, by simp⟩

/-- The initiator's first message, and what it keeps. -/
def noiseIkInitiatorWriteMsg1 (localStaticSecret remoteStaticPk : Bytes 32) (rng : ρ) :
    Except CryptoError (NoiseIkInitiatorState × List UInt8) := do
  let localSk := staticSecret localStaticSecret
  let (ck, h) := initSymmetric C
  let h := mixHash C h remoteStaticPk.toList
  let (ephSeed, _) := C.fillBytes 32 rng
  let ephSk := staticSecret ephSeed
  let ephPk := C.x25519.publicKey ephSk
  let h := mixHash C h ephPk.toList
  let (ck, k) := mixKey C ck (C.x25519.diffieHellman ephSk remoteStaticPk)
  let encS ← aeadEncrypt A k h.toList (C.x25519.publicKey localSk).toList
  if encS.length ≠ 48 then
    .error (.malformed "noise msg1 enc_s length")
  else
    let h := mixHash C h encS
    let (ck, _) := mixKey C ck (C.x25519.diffieHellman localSk remoteStaticPk)
    .ok (⟨ck, h, ephSeed, localStaticSecret⟩, ephPk.toList ++ encS)

/-- The initiator reads the answer, and has the session key. -/
def noiseIkInitiatorReadMsg2 (state : NoiseIkInitiatorState) (msg2 : List UInt8) :
    Except CryptoError LinkKey :=
  if msg2.length ≠ noiseIkMsg2Len then .error (.malformed "noise msg2 length")
  else do
    let eR := keyOf msg2
    let enc := msg2.drop 32
    let h := mixHash C state.h eR.toList
    let (ck, _) := mixKey C state.ck (C.x25519.diffieHellman (staticSecret state.ephSeed) eR)
    let (ck, k) := mixKey C ck (C.x25519.diffieHellman (staticSecret state.localStatic) eR)
    let pt ← aeadDecrypt A k h.toList enc
    if pt ≠ [] then
      .error (.malformed "noise msg2 payload")
    else
      .ok (splitSession C ck (mixHash C h enc))

/-- The responder reads the first message, and answers it. -/
def noiseIkResponderReadMsg1 (localStaticSecret : Bytes 32) (msg1 : List UInt8) (rng : ρ) :
    Except CryptoError NoiseIkResponderState :=
  if msg1.length ≠ noiseIkMsg1Len then .error (.malformed "noise msg1 length")
  else do
    let localSk := staticSecret localStaticSecret
    let eI := keyOf msg1
    let encS := msg1.drop 32
    let (ck, h) := initSymmetric C
    let h := mixHash C h (C.x25519.publicKey localSk).toList
    let h := mixHash C h eI.toList
    let (ck, k) := mixKey C ck (C.x25519.diffieHellman localSk eI)
    let sIBytes ← aeadDecrypt A k h.toList encS
    if sIBytes.length ≠ 32 then
      .error (.malformed "noise initiator static length")
    else
      let sI := keyOf sIBytes
      let h := mixHash C h encS
      let (ck, _) := mixKey C ck (C.x25519.diffieHellman localSk sI)
      let (ephSeed, _) := C.fillBytes 32 rng
      let ephSk := staticSecret ephSeed
      let ephPk := C.x25519.publicKey ephSk
      let h := mixHash C h ephPk.toList
      let (ck, _) := mixKey C ck (C.x25519.diffieHellman ephSk eI)
      let (ck, k) := mixKey C ck (C.x25519.diffieHellman ephSk sI)
      let enc ← aeadEncrypt A k h.toList []
      if enc.length ≠ 16 then
        .error (.malformed "noise msg2 enc length")
      else
        .ok ⟨sI, ephPk.toList ++ enc, splitSession C ck (mixHash C h enc)⟩

/-- The session key, once the initiator's static key is the expected one. -/
def NoiseIkResponderState.intoSessionIfPeerMatches (st : NoiseIkResponderState)
    (expectedInitiatorPk : Bytes 32) : Except CryptoError LinkKey :=
  if st.initiatorStaticPk ≠ expectedInitiatorPk then .error .integrityFailure
  else .ok st.session

/-! ## Transcripts -/

theorem keyOf_append (key : Bytes 32) (rest : List UInt8) : keyOf (key.toList ++ rest) = key := by
  apply List.Vector.toList_injective
  show ((key.toList ++ rest) ++ List.replicate 32 0).take 32 = key.toList
  rw [List.append_assoc, List.take_left' key.toList_length]

theorem drop_append (key : Bytes 32) (rest : List UInt8) : (key.toList ++ rest).drop 32 = rest :=
  List.drop_left' key.toList_length

/-- A message is its key and the rest of it. -/
theorem keyOf_append_drop {msg : List UInt8} (h : 32 ≤ msg.length) :
    (keyOf msg).toList ++ msg.drop 32 = msg := by
  have htake : (keyOf msg).toList = msg.take 32 := by
    show (msg ++ List.replicate 32 0).take 32 = msg.take 32
    rw [List.take_append_of_le_length h]
  rw [htake, List.take_append_drop]

/-- What both sides mix into the running hash. -/
def transcript (responderPk : Bytes 32) (msg1 msg2 : List UInt8) : List (List UInt8) :=
  [responderPk.toList, (keyOf msg1).toList, msg1.drop 32, (keyOf msg2).toList, msg2.drop 32]

/-- The running hash after both messages. -/
def transcriptHash (responderPk : Bytes 32) (msg1 msg2 : List UInt8) : Bytes 32 :=
  (transcript responderPk msg1 msg2).foldl (mixHash C) (C.sha3 protocolName)

/-- The chaining key after these agreements. -/
def chainingKey (secrets : List (Bytes 32)) : Bytes 32 :=
  secrets.foldl (fun ck dhOut => (mixKey C ck dhOut).1) (C.sha3 protocolName)

/-- What the initiator agrees on with the responder: `es`, `ss`, `ee` and `se`. -/
def initiatorSecrets (localStatic remotePk : Bytes 32) (rng : ρ) (msg2 : List UInt8) :
    List (Bytes 32) :=
  let ephSk := staticSecret (C.fillBytes 32 rng).1
  [C.x25519.diffieHellman ephSk remotePk,
    C.x25519.diffieHellman (staticSecret localStatic) remotePk,
    C.x25519.diffieHellman ephSk (keyOf msg2),
    C.x25519.diffieHellman (staticSecret localStatic) (keyOf msg2)]

/-- What the responder agrees on with the initiator. -/
def responderSecrets (localStatic initiatorPk : Bytes 32) (rng : ρ) (msg1 : List UInt8) :
    List (Bytes 32) :=
  let ephSk := staticSecret (C.fillBytes 32 rng).1
  [C.x25519.diffieHellman (staticSecret localStatic) (keyOf msg1),
    C.x25519.diffieHellman (staticSecret localStatic) initiatorPk,
    C.x25519.diffieHellman ephSk (keyOf msg1),
    C.x25519.diffieHellman ephSk initiatorPk]

variable {C A staticSecret}

/-! ## What a side has done -/

theorem aeadEncrypt_eq_ok {key : Bytes 32} {aad plaintext ct : List UInt8} :
    aeadEncrypt A key aad plaintext = .ok ct ↔ A.encrypt key aeadNonce plaintext aad = some ct := by
  unfold aeadEncrypt
  cases A.encrypt key aeadNonce plaintext aad <;> simp

theorem aeadDecrypt_eq_ok {key : Bytes 32} {aad ciphertext pt : List UInt8} :
    aeadDecrypt A key aad ciphertext = .ok pt ↔
      A.decrypt key aeadNonce ciphertext aad = some pt := by
  unfold aeadDecrypt
  cases A.decrypt key aeadNonce ciphertext aad <;> simp

/-- What the first message is, and what the initiator remembers of it. -/
theorem of_writeMsg1 {localStatic remotePk : Bytes 32} {rng : ρ} {state : NoiseIkInitiatorState}
    {msg1 : List UInt8}
    (h : noiseIkInitiatorWriteMsg1 C A staticSecret localStatic remotePk rng =
      .ok (state, msg1)) :
    ∃ encS, encS.length = 48 ∧
      A.encrypt (mixKey C (C.sha3 protocolName) (C.x25519.diffieHellman
          (staticSecret (C.fillBytes 32 rng).1) remotePk)).2 aeadNonce
        (C.x25519.publicKey (staticSecret localStatic)).toList
        (mixHash C (mixHash C (C.sha3 protocolName) remotePk.toList)
          (C.x25519.publicKey (staticSecret (C.fillBytes 32 rng).1)).toList).toList = some encS ∧
      msg1 = (C.x25519.publicKey (staticSecret (C.fillBytes 32 rng).1)).toList ++ encS ∧
      state = ⟨chainingKey C ((initiatorSecrets C staticSecret localStatic remotePk rng
          []).take 2),
        ([remotePk.toList, (keyOf msg1).toList, msg1.drop 32]).foldl (mixHash C)
          (C.sha3 protocolName),
        (C.fillBytes 32 rng).1, localStatic⟩ := by
  unfold noiseIkInitiatorWriteMsg1 at h
  obtain ⟨encS, henc, h⟩ := bind_eq_ok.mp h
  rw [aeadEncrypt_eq_ok] at henc
  split_ifs at h with hlength
  · obtain ⟨rfl, rfl⟩ := Prod.mk.inj (Except.ok.inj h)
    refine ⟨encS, not_not.mp hlength, henc, rfl, ?_⟩
    rw [keyOf_append, drop_append]
    rfl

/-- The initiator's session key. -/
theorem of_readMsg2 {state : NoiseIkInitiatorState} {msg2 : List UInt8} {key : LinkKey}
    (h : noiseIkInitiatorReadMsg2 C A staticSecret state msg2 = .ok key) :
    msg2.length = noiseIkMsg2Len ∧
      key = splitSession C
        ([C.x25519.diffieHellman (staticSecret state.ephSeed) (keyOf msg2),
          C.x25519.diffieHellman (staticSecret state.localStatic) (keyOf msg2)].foldl
            (fun ck dhOut => (mixKey C ck dhOut).1) state.ck)
        ([(keyOf msg2).toList, msg2.drop 32].foldl (mixHash C) state.h) := by
  unfold noiseIkInitiatorReadMsg2 at h
  split_ifs at h with hlength
  obtain ⟨pt, -, h⟩ := bind_eq_ok.mp h
  split_ifs at h
  obtain rfl := Except.ok.inj h
  exact ⟨not_not.mp hlength, rfl⟩

/-- The initiator's session key, of the two messages it has seen. -/
theorem initiator_session {localStatic remotePk : Bytes 32} {rng : ρ}
    {state : NoiseIkInitiatorState} {msg1 msg2 : List UInt8} {key : LinkKey}
    (hwrite : noiseIkInitiatorWriteMsg1 C A staticSecret localStatic remotePk rng =
      .ok (state, msg1))
    (hread : noiseIkInitiatorReadMsg2 C A staticSecret state msg2 = .ok key) :
    key = splitSession C (chainingKey C (initiatorSecrets C staticSecret localStatic remotePk rng
      msg2)) (transcriptHash C remotePk msg1 msg2) := by
  obtain ⟨encS, -, -, -, rfl⟩ := of_writeMsg1 hwrite
  obtain ⟨-, rfl⟩ := of_readMsg2 hread
  rfl

/-- What a responder that accepts a first message has found in it, and its session key. -/
theorem of_readMsg1 {localStatic : Bytes 32} {msg1 : List UInt8} {rng : ρ}
    {st : NoiseIkResponderState}
    (h : noiseIkResponderReadMsg1 C A staticSecret localStatic msg1 rng = .ok st) :
    msg1.length = noiseIkMsg1Len ∧
      A.decrypt (mixKey C (C.sha3 protocolName)
          (C.x25519.diffieHellman (staticSecret localStatic) (keyOf msg1))).2 aeadNonce
        (msg1.drop 32)
        (mixHash C (mixHash C (C.sha3 protocolName)
          (C.x25519.publicKey (staticSecret localStatic)).toList) (keyOf msg1).toList).toList =
            some st.initiatorStaticPk.toList ∧
      ∃ enc, enc.length = 16 ∧
        A.encrypt (mixKey C (chainingKey C ((responderSecrets C staticSecret localStatic
              st.initiatorStaticPk rng msg1).take 3))
            (C.x25519.diffieHellman (staticSecret (C.fillBytes 32 rng).1)
              st.initiatorStaticPk)).2 aeadNonce []
          ([(C.x25519.publicKey (staticSecret localStatic)).toList, (keyOf msg1).toList,
            msg1.drop 32, (C.x25519.publicKey (staticSecret (C.fillBytes 32 rng).1)).toList].foldl
              (mixHash C) (C.sha3 protocolName)).toList = some enc ∧
        st.msg2 = (C.x25519.publicKey (staticSecret (C.fillBytes 32 rng).1)).toList ++ enc ∧
        st.session = splitSession C (chainingKey C (responderSecrets C staticSecret localStatic
            st.initiatorStaticPk rng msg1))
          (transcriptHash C (C.x25519.publicKey (staticSecret localStatic)) msg1 st.msg2) := by
  unfold noiseIkResponderReadMsg1 at h
  split_ifs at h with hlength
  obtain ⟨sIBytes, hdec, h⟩ := bind_eq_ok.mp h
  rw [aeadDecrypt_eq_ok] at hdec
  split_ifs at h with hsI
  obtain ⟨enc, henc, h⟩ := bind_eq_ok.mp h
  rw [aeadEncrypt_eq_ok] at henc
  split_ifs at h with hencLength
  obtain rfl := Except.ok.inj h
  have hbytes : (keyOf sIBytes).toList = sIBytes := by
    have hrest : sIBytes.drop 32 = [] := List.drop_eq_nil_of_le (not_not.mp hsI).le
    have hwhole : (keyOf sIBytes).toList ++ sIBytes.drop 32 = sIBytes :=
      keyOf_append_drop (not_not.mp hsI).ge
    rwa [hrest, List.append_nil] at hwhole
  refine ⟨not_not.mp hlength, hdec.trans (congrArg some hbytes.symm), enc, not_not.mp hencLength,
    henc, rfl, ?_⟩
  unfold transcriptHash transcript
  rw [keyOf_append, drop_append]
  rfl

/-! ## Delivery -/

section Delivery

variable (hdh : ∀ a b, C.x25519.diffieHellman a (C.x25519.publicKey b) =
  C.x25519.diffieHellman b (C.x25519.publicKey a))
include hdh

variable (staticSecret) in
/-- Both sides agree on the same secrets. -/
theorem initiatorSecrets_eq (localStatic responderStatic : Bytes 32) (rng rng' : ρ)
    (rest rest' : List UInt8) :
    initiatorSecrets C staticSecret localStatic
        (C.x25519.publicKey (staticSecret responderStatic)) rng
        ((C.x25519.publicKey (staticSecret (C.fillBytes 32 rng').1)).toList ++ rest') =
      responderSecrets C staticSecret responderStatic
        (C.x25519.publicKey (staticSecret localStatic)) rng'
        ((C.x25519.publicKey (staticSecret (C.fillBytes 32 rng).1)).toList ++ rest) := by
  unfold initiatorSecrets responderSecrets
  simp only [keyOf_append]
  rw [hdh (staticSecret (C.fillBytes 32 rng).1) (staticSecret responderStatic),
    hdh (staticSecret localStatic) (staticSecret responderStatic),
    hdh (staticSecret (C.fillBytes 32 rng).1) (staticSecret (C.fillBytes 32 rng').1),
    hdh (staticSecret localStatic) (staticSecret (C.fillBytes 32 rng').1)]

/-- The responder finds the initiator's key in the first message. -/
theorem decrypt_delivered (hA : A.Correct) {localStatic responderStatic : Bytes 32} {rng : ρ}
    {state : NoiseIkInitiatorState} {msg1 : List UInt8}
    (hwrite : noiseIkInitiatorWriteMsg1 C A staticSecret localStatic
      (C.x25519.publicKey (staticSecret responderStatic)) rng = .ok (state, msg1)) :
    A.decrypt (mixKey C (C.sha3 protocolName)
        (C.x25519.diffieHellman (staticSecret responderStatic) (keyOf msg1))).2 aeadNonce
      (msg1.drop 32)
      (mixHash C (mixHash C (C.sha3 protocolName)
        (C.x25519.publicKey (staticSecret responderStatic)).toList) (keyOf msg1).toList).toList =
          some (C.x25519.publicKey (staticSecret localStatic)).toList := by
  obtain ⟨encS, -, henc, rfl, -⟩ := of_writeMsg1 hwrite
  rw [keyOf_append, drop_append,
    hdh (staticSecret responderStatic) (staticSecret (C.fillBytes 32 rng).1)]
  exact hA.decrypts _ _ _ _ _ henc

/-- **A first message that is delivered is accepted.** -/
theorem accepts_delivered (hA : A.Correct)
    (hempty : ∀ key nonce aad, ∃ ct, A.encrypt key nonce [] aad = some ct)
    {localStatic responderStatic : Bytes 32} {rng : ρ} {state : NoiseIkInitiatorState}
    {msg1 : List UInt8}
    (hwrite : noiseIkInitiatorWriteMsg1 C A staticSecret localStatic
      (C.x25519.publicKey (staticSecret responderStatic)) rng = .ok (state, msg1)) (rng' : ρ) :
    ∃ st, noiseIkResponderReadMsg1 C A staticSecret responderStatic msg1 rng' = .ok st := by
  have hdec := decrypt_delivered hdh hA hwrite
  obtain ⟨encS, hlength, -, hmsg1, -⟩ := of_writeMsg1 hwrite
  have hmsg1Length : msg1.length = noiseIkMsg1Len := by
    rw [hmsg1, List.length_append, List.Vector.toList_length, hlength]
    rfl
  unfold noiseIkResponderReadMsg1
  rw [if_neg (not_not.mpr hmsg1Length)]
  refine exists_bind_eq_ok.mpr ⟨_, aeadDecrypt_eq_ok.mpr hdec, ?_⟩
  rw [if_neg (not_not.mpr (List.Vector.toList_length _))]
  obtain ⟨enc, henc⟩ := hempty
    (mixKey C (chainingKey C ((responderSecrets C staticSecret responderStatic
        (keyOf (C.x25519.publicKey (staticSecret localStatic)).toList) rng' msg1).take 3))
      (C.x25519.diffieHellman (staticSecret (C.fillBytes 32 rng').1)
        (keyOf (C.x25519.publicKey (staticSecret localStatic)).toList))).2 aeadNonce
    ([(C.x25519.publicKey (staticSecret responderStatic)).toList, (keyOf msg1).toList,
      msg1.drop 32, (C.x25519.publicKey (staticSecret (C.fillBytes 32 rng').1)).toList].foldl
        (mixHash C) (C.sha3 protocolName)).toList
  have hencLength : enc.length = 16 := (hA.length _ _ _ _ _ henc).trans rfl
  refine exists_bind_eq_ok.mpr ⟨enc, aeadEncrypt_eq_ok.mpr henc, ?_⟩
  rw [if_neg (not_not.mpr hencLength)]
  exact ⟨_, rfl⟩

/-- **Messages that are delivered as they were sent give both sides one key**, and the responder the
initiator's. -/
theorem session_of_delivered (hA : A.Correct) {localStatic responderStatic : Bytes 32}
    {rng rng' : ρ}
    {state : NoiseIkInitiatorState} {msg1 : List UInt8} {st : NoiseIkResponderState}
    (hwrite : noiseIkInitiatorWriteMsg1 C A staticSecret localStatic
      (C.x25519.publicKey (staticSecret responderStatic)) rng = .ok (state, msg1))
    (haccept : noiseIkResponderReadMsg1 C A staticSecret responderStatic msg1 rng' = .ok st) :
    st.initiatorStaticPk = C.x25519.publicKey (staticSecret localStatic) ∧
      noiseIkInitiatorReadMsg2 C A staticSecret state st.msg2 = .ok st.session := by
  have hdec := decrypt_delivered hdh hA hwrite
  obtain ⟨-, hdec', enc, hlength, henc, hmsg2, hsession⟩ := of_readMsg1 haccept
  have hpk : st.initiatorStaticPk = C.x25519.publicKey (staticSecret localStatic) :=
    List.Vector.toList_injective (Option.some.inj (hdec'.symm.trans hdec))
  refine ⟨hpk, ?_⟩
  obtain ⟨encS, -, -, hmsg1, hstate⟩ := of_writeMsg1 hwrite
  have hsecrets := initiatorSecrets_eq staticSecret hdh localStatic responderStatic rng rng'
    encS enc
  rw [← hmsg1, ← hmsg2, ← hpk] at hsecrets
  rw [hsession, ← hsecrets]
  rw [← hsecrets] at henc
  have hdecrypt := hA.decrypts _ _ _ _ _ henc
  have hse : C.x25519.diffieHellman (staticSecret (C.fillBytes 32 rng').1) st.initiatorStaticPk =
      C.x25519.diffieHellman (staticSecret localStatic) (keyOf st.msg2) := by
    rw [hmsg2, keyOf_append, hpk, hdh]
  have hf : C.x25519.publicKey (staticSecret (C.fillBytes 32 rng').1) = keyOf st.msg2 := by
    rw [hmsg2, keyOf_append]
  have hdrop : enc = st.msg2.drop 32 := by rw [hmsg2, drop_append]
  rw [hse, hf, hdrop] at hdecrypt
  have hmsg2Length : st.msg2.length = noiseIkMsg2Len := by
    rw [hmsg2, List.length_append, List.Vector.toList_length, hlength]
    rfl
  subst hstate
  unfold noiseIkInitiatorReadMsg2
  rw [if_neg (not_not.mpr hmsg2Length)]
  exact bind_eq_ok.mpr ⟨[], aeadDecrypt_eq_ok.mpr hdecrypt, rfl⟩

end Delivery

/-! ## Agreement -/

variable (C) in
/-- What a side hashes into its running hash and, last, its session key. -/
def hashedInputs (secrets : List (Bytes 32)) (responderPk : Bytes 32) (msg1 msg2 : List UInt8) :
    List (List UInt8) :=
  (HashChain.inputs (mixHash C) (C.sha3 protocolName) (transcript responderPk msg1 msg2)).map
      (fun x => x.1.toList ++ x.2) ++
    [sessionDomain ++ (chainingKey C secrets).toList ++
      (transcriptHash C responderPk msg1 msg2).toList]

/-- No two of these inputs have one digest. -/
def CollisionFree (C : Suite ρ) (xs : List (List UInt8)) : Prop :=
  ∀ x ∈ xs, ∀ y ∈ xs, C.sha3 x = C.sha3 y → x = y

instance (xs : List (List UInt8)) : Decidable (CollisionFree C xs) :=
  inferInstanceAs (Decidable (∀ x ∈ xs, ∀ y ∈ xs, C.sha3 x = C.sha3 y → x = y))

theorem sessionInput_mem (secrets : List (Bytes 32)) (responderPk : Bytes 32)
    (msg1 msg2 : List UInt8) :
    sessionDomain ++ (chainingKey C secrets).toList ++
        (transcriptHash C responderPk msg1 msg2).toList ∈
      hashedInputs C secrets responderPk msg1 msg2 := by
  simp [hashedInputs]

/-- A running hash and what is mixed into it are known from the input. -/
theorem mixed_injective {h h' : Bytes 32} {data data' : List UInt8}
    (heq : h.toList ++ data = h'.toList ++ data') : h = h' ∧ data = data' := by
  obtain ⟨hh, hdata⟩ := List.append_inj heq (by simp)
  exact ⟨List.Vector.toList_injective hh, hdata⟩

/-- A chain has no collision if its inputs have none. -/
theorem CollisionFree.chain {secrets secrets' : List (Bytes 32)}
    {responderPk responderPk' : Bytes 32} {msg1 msg2 msg1' msg2' : List UInt8}
    (hfree : CollisionFree C (hashedInputs C secrets responderPk msg1 msg2 ++
      hashedInputs C secrets' responderPk' msg1' msg2')) :
    HashChain.CollisionFree (mixHash C)
      (HashChain.inputs (mixHash C) (C.sha3 protocolName) (transcript responderPk msg1 msg2) ++
        HashChain.inputs (mixHash C) (C.sha3 protocolName)
          (transcript responderPk' msg1' msg2')) := by
  have hmem : ∀ x ∈ HashChain.inputs (mixHash C) (C.sha3 protocolName)
        (transcript responderPk msg1 msg2) ++
        HashChain.inputs (mixHash C) (C.sha3 protocolName) (transcript responderPk' msg1' msg2'),
      x.1.toList ++ x.2 ∈ hashedInputs C secrets responderPk msg1 msg2 ++
        hashedInputs C secrets' responderPk' msg1' msg2' := by
    intro x hx
    rcases List.mem_append.mp hx with hx | hx
    · exact List.mem_append_left _ (List.mem_append_left _ (List.mem_map_of_mem hx))
    · exact List.mem_append_right _ (List.mem_append_left _ (List.mem_map_of_mem hx))
  intro x hx y hy hmix
  obtain ⟨hh, hdata⟩ := mixed_injective (hfree _ (hmem x hx) _ (hmem y hy) hmix)
  exact Prod.ext hh hdata

/-- **One key, one transcript**: sides with the same session key have mixed the same messages. -/
theorem transcript_of_splitSession_eq {secrets secrets' : List (Bytes 32)}
    {responderPk responderPk' : Bytes 32} {msg1 msg2 msg1' msg2' : List UInt8}
    (hfree : CollisionFree C (hashedInputs C secrets responderPk msg1 msg2 ++
      hashedInputs C secrets' responderPk' msg1' msg2'))
    (hsession : splitSession C (chainingKey C secrets) (transcriptHash C responderPk msg1 msg2) =
      splitSession C (chainingKey C secrets') (transcriptHash C responderPk' msg1' msg2')) :
    transcript responderPk msg1 msg2 = transcript responderPk' msg1' msg2' := by
  have hinput := hfree _ (List.mem_append_left _ (sessionInput_mem secrets responderPk msg1 msg2)) _
    (List.mem_append_right _ (sessionInput_mem secrets' responderPk' msg1' msg2')) hsession
  rw [List.append_assoc, List.append_assoc] at hinput
  obtain ⟨-, hhash⟩ := mixed_injective (List.append_cancel_left hinput)
  exact HashChain.foldl_injOn rfl hfree.chain (List.Vector.toList_injective hhash)

/-- A transcript tells the messages. -/
theorem transcript_injective {responderPk responderPk' : Bytes 32}
    {msg1 msg2 msg1' msg2' : List UInt8}
    (h : transcript responderPk msg1 msg2 = transcript responderPk' msg1' msg2')
    (hmsg1 : 32 ≤ msg1.length) (hmsg1' : 32 ≤ msg1'.length) (hmsg2 : 32 ≤ msg2.length)
    (hmsg2' : 32 ≤ msg2'.length) : responderPk = responderPk' ∧ msg1 = msg1' ∧ msg2 = msg2' := by
  simp only [transcript, List.cons.injEq, and_true] at h
  obtain ⟨hpk, he, hs, he', henc⟩ := h
  refine ⟨List.Vector.toList_injective hpk, ?_, ?_⟩
  · rw [← keyOf_append_drop hmsg1, ← keyOf_append_drop hmsg1', he, hs]
  · rw [← keyOf_append_drop hmsg2, ← keyOf_append_drop hmsg2', he', henc]

theorem length_msg1 {localStatic remotePk : Bytes 32} {rng : ρ} {state : NoiseIkInitiatorState}
    {msg1 : List UInt8}
    (h : noiseIkInitiatorWriteMsg1 C A staticSecret localStatic remotePk rng =
      .ok (state, msg1)) : msg1.length = noiseIkMsg1Len := by
  obtain ⟨encS, hlength, -, rfl, -⟩ := of_writeMsg1 h
  rw [List.length_append, List.Vector.toList_length, hlength]
  rfl

theorem length_msg2 {localStatic : Bytes 32} {msg1 : List UInt8} {rng : ρ}
    {st : NoiseIkResponderState}
    (h : noiseIkResponderReadMsg1 C A staticSecret localStatic msg1 rng = .ok st) :
    st.msg2.length = noiseIkMsg2Len := by
  obtain ⟨-, -, enc, hlength, -, hmsg2, -⟩ := of_readMsg1 h
  rw [hmsg2, List.length_append, List.Vector.toList_length, hlength]
  rfl

/-- **Sides with one key have seen the same messages**, under the key of that responder. -/
theorem messages_of_session_eq {localStatic remotePk responderStatic : Bytes 32} {rng rng' : ρ}
    {state : NoiseIkInitiatorState} {msg1 msg1' msg2' : List UInt8} {st : NoiseIkResponderState}
    {key : LinkKey}
    (hwrite : noiseIkInitiatorWriteMsg1 C A staticSecret localStatic remotePk rng =
      .ok (state, msg1))
    (haccept : noiseIkResponderReadMsg1 C A staticSecret responderStatic msg1' rng' = .ok st)
    (hread : noiseIkInitiatorReadMsg2 C A staticSecret state msg2' = .ok key)
    (hfree : CollisionFree C
      (hashedInputs C (initiatorSecrets C staticSecret localStatic remotePk rng msg2') remotePk
          msg1 msg2' ++
        hashedInputs C (responderSecrets C staticSecret responderStatic st.initiatorStaticPk rng'
          msg1') (C.x25519.publicKey (staticSecret responderStatic)) msg1' st.msg2))
    (hkey : key = st.session) :
    remotePk = C.x25519.publicKey (staticSecret responderStatic) ∧ msg1 = msg1' ∧
      msg2' = st.msg2 := by
  have hlength1 := length_msg1 hwrite
  have hlength2 := length_msg2 haccept
  obtain ⟨hlength1', -, -, -, -, -, hsession⟩ := of_readMsg1 haccept
  have hlength2' := (of_readMsg2 hread).1
  rw [initiator_session hwrite hread, hsession] at hkey
  refine transcript_injective (transcript_of_splitSession_eq hfree hkey) ?_ ?_ ?_ ?_
  · rw [hlength1]; decide
  · rw [hlength1']; decide
  · rw [hlength2']; decide
  · rw [hlength2]; decide

variable (staticSecret) in
/-- **Both sides have one key exactly if each has received what the other has sent**, to the
responder that the initiator meant; the responder then knows who the initiator is.  Messages that
are delivered do get there. -/
theorem session_eq_iff
    (hdh : ∀ a b, C.x25519.diffieHellman a (C.x25519.publicKey b) =
      C.x25519.diffieHellman b (C.x25519.publicKey a))
    (hA : A.Correct) (hempty : ∀ key nonce aad, ∃ ct, A.encrypt key nonce [] aad = some ct)
    (localStatic responderStatic remotePk : Bytes 32) (rng rng' : ρ)
    {state : NoiseIkInitiatorState} {msg1 : List UInt8}
    (hwrite : noiseIkInitiatorWriteMsg1 C A staticSecret localStatic remotePk rng =
      .ok (state, msg1)) :
    (remotePk = C.x25519.publicKey (staticSecret responderStatic) →
      ∃ st, noiseIkResponderReadMsg1 C A staticSecret responderStatic msg1 rng' = .ok st ∧
        st.intoSessionIfPeerMatches (C.x25519.publicKey (staticSecret localStatic)) =
          .ok st.session ∧
        noiseIkInitiatorReadMsg2 C A staticSecret state st.msg2 = .ok st.session) ∧
    ∀ msg1' st msg2' key,
      noiseIkResponderReadMsg1 C A staticSecret responderStatic msg1' rng' = .ok st →
      noiseIkInitiatorReadMsg2 C A staticSecret state msg2' = .ok key →
      CollisionFree C
        (hashedInputs C (initiatorSecrets C staticSecret localStatic remotePk rng msg2') remotePk
            msg1 msg2' ++
          hashedInputs C (responderSecrets C staticSecret responderStatic st.initiatorStaticPk rng'
            msg1') (C.x25519.publicKey (staticSecret responderStatic)) msg1' st.msg2) →
      (key = st.session ↔
        remotePk = C.x25519.publicKey (staticSecret responderStatic) ∧ msg1' = msg1 ∧
          msg2' = st.msg2) ∧
      (key = st.session →
        st.initiatorStaticPk = C.x25519.publicKey (staticSecret localStatic)) := by
  refine ⟨fun hpk => ?_, fun msg1' st msg2' key haccept hread hfree => ?_⟩
  · subst hpk
    obtain ⟨st, haccept⟩ := accepts_delivered hdh hA hempty hwrite rng'
    obtain ⟨hpeer, hread⟩ := session_of_delivered hdh hA hwrite haccept
    refine ⟨st, haccept, ?_, hread⟩
    rw [NoiseIkResponderState.intoSessionIfPeerMatches, if_neg (not_not.mpr hpeer)]
  · have hmessages := messages_of_session_eq hwrite haccept hread hfree
    refine ⟨⟨fun hkey => ?_, ?_⟩, fun hkey => ?_⟩
    · obtain ⟨hpk, hmsg1, hmsg2⟩ := hmessages hkey
      exact ⟨hpk, hmsg1.symm, hmsg2⟩
    · rintro ⟨rfl, rfl, rfl⟩
      obtain ⟨-, hdelivered⟩ := session_of_delivered hdh hA hwrite haccept
      exact Except.ok.inj (hread.symm.trans hdelivered)
    · obtain ⟨rfl, rfl, rfl⟩ := hmessages hkey
      exact (session_of_delivered hdh hA hwrite haccept).1

end Handshake

section Checksum

/-- The secret of 32 bytes is the first of them. -/
def checksumStatic (bytes : Bytes 32) : UInt8 := bytes.head

/-- `checksumSuite` with a digest that tells apart where a byte stands. -/
def positionalSuite : Suite UInt8 :=
  { checksumSuite with
    sha3 := fun m =>
      ⟨leBytes 32 (m.foldl (fun n b => (n * 257 + b.toNat + 1) % (2 ^ 255 - 19)) 0),
        length_leBytes 32 _⟩ }

theorem positional_dh (a b : UInt8) :
    positionalSuite.x25519.diffieHellman a (positionalSuite.x25519.publicKey b) =
      positionalSuite.x25519.diffieHellman b (positionalSuite.x25519.publicKey a) := by
  change List.Vector.replicate 32 (a * b) = List.Vector.replicate 32 (b * a)
  rw [UInt8.mul_comm]

/-- What an initiator with the secret `s` and the ephemeral seed `e` writes to the responder `7`. -/
def written (s e : UInt8) : Except CryptoError (NoiseIkInitiatorState × List UInt8) :=
  noiseIkInitiatorWriteMsg1 positionalSuite checksumAead checksumStatic (.replicate 32 s)
    (.replicate 32 7) e

/-- What the responder `7` makes of a first message, with the ephemeral seed `e`. -/
def answered (msg1 : List UInt8) (e : UInt8) : Except CryptoError NoiseIkResponderState :=
  noiseIkResponderReadMsg1 positionalSuite checksumAead checksumStatic (.replicate 32 7) msg1 e

/-- The initiator `9`, once it has written. -/
def firstWritten : NoiseIkInitiatorState × List UInt8 :=
  (written 9 2).toOption.get (by decide +kernel)

/-- The initiator `8`, once it has written. -/
def otherWritten : NoiseIkInitiatorState × List UInt8 :=
  (written 8 3).toOption.get (by decide +kernel)

/-- The responder's answer to the initiator `9`. -/
def firstAnswered : NoiseIkResponderState :=
  (answered firstWritten.2 5).toOption.get (by decide +kernel)

/-- The responder's answer to the same message, when it comes again. -/
def secondAnswered : NoiseIkResponderState :=
  (answered firstWritten.2 6).toOption.get (by decide +kernel)

/-- The responder's answer to the initiator `8`. -/
def otherAnswered : NoiseIkResponderState :=
  (answered otherWritten.2 5).toOption.get (by decide +kernel)

/-- The initiator `9` reads the first answer and has its session.  It has not the session of the
answer to the message that came again, and not that of the answer to the initiator `8`. -/
theorem session_eq_iff_replaced :
    ∃ key, noiseIkInitiatorReadMsg2 positionalSuite checksumAead checksumStatic firstWritten.1
        firstAnswered.msg2 = .ok key ∧
      key = firstAnswered.session ∧ key ≠ secondAnswered.session ∧ key ≠ otherAnswered.session := by
  obtain ⟨-, hagree⟩ := @session_eq_iff UInt8 positionalSuite checksumAead
    checksumStatic positional_dh checksumAead_correct (fun key nonce aad => ⟨_, rfl⟩)
    (.replicate 32 9) (.replicate 32 7) (.replicate 32 7) 2 5
    firstWritten.1 firstWritten.2 (by decide +kernel)
  obtain ⟨-, hagain⟩ := @session_eq_iff UInt8 positionalSuite checksumAead
    checksumStatic positional_dh checksumAead_correct (fun key nonce aad => ⟨_, rfl⟩)
    (.replicate 32 9) (.replicate 32 7) (.replicate 32 7) 2 6
    firstWritten.1 firstWritten.2 (by decide +kernel)
  have hread : noiseIkInitiatorReadMsg2 positionalSuite checksumAead checksumStatic firstWritten.1
      firstAnswered.msg2 = .ok firstAnswered.session := by decide +kernel
  refine ⟨_, hread, rfl, fun hkey => ?_, fun hkey => ?_⟩
  · have hmessages := ((hagain firstWritten.2 secondAnswered firstAnswered.msg2 _
      (by decide +kernel) hread (by decide +kernel)).1.mp hkey).2.2
    exact absurd hmessages (by decide +kernel)
  · have hmessages := ((hagree otherWritten.2 otherAnswered firstAnswered.msg2 _
      (by decide +kernel) hread (by decide +kernel)).1.mp hkey).2.1
    exact absurd hmessages (by decide +kernel)

end Checksum

end NoiseLegacy

end Aegis
