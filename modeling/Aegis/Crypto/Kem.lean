import Aegis.Crypto.Suite

/-!
# The hybrid onion KEM (`kem.rs`)

Each hop's secret is `SHA3-256(ss_x25519 ‖ ss_mlkem)`; the header a hop needs to
recompute it is the ephemeral X25519 element followed by the ML-KEM ciphertext.

* `readFrom_toBytes`, `toBytes_of_readFrom` — a header survives its fixed-width
  serialisation, and a header that was read serialises back to the bytes it was
  read from.
* `decapsulate_of_encapsulate` — the hybrid KEM is correct if both its parts are.
-/

namespace Aegis

open Buffer

/-- Serialised hybrid header: X25519 element, then ML-KEM ciphertext. -/
def kemHeaderLen : ℕ := 32 + mlkem768CtLen

/-- A derived per-hop symmetric secret. -/
abbrev SharedSecret := Bytes 32

/-- Header material a hop needs to run decapsulation. -/
structure KemHeader where
  x25519Point : Bytes 32
  mlkemCt : Bytes mlkem768CtLen
  deriving DecidableEq, Inhabited

namespace KemHeader

/-- `KemHeader::write_to` into a slice of exactly `kemHeaderLen` bytes. -/
def toBytes (h : KemHeader) : List UInt8 := h.x25519Point.toList ++ h.mlkemCt.toList

@[simp] theorem length_toBytes (h : KemHeader) : h.toBytes.length = kemHeaderLen := by
  simp [toBytes, kemHeaderLen]

theorem ext_toList {g h : KemHeader} (hx : g.x25519Point.toList = h.x25519Point.toList)
    (hc : g.mlkemCt.toList = h.mlkemCt.toList) : g = h := by
  cases g
  cases h
  rw [mk.injEq]
  exact ⟨Bytes.ext_toList hx, Bytes.ext_toList hc⟩

theorem toBytes_injective {g h : KemHeader} (heq : g.toBytes = h.toBytes) : g = h := by
  obtain ⟨hx, hc⟩ := List.append_inj heq (by simp)
  exact ext_toList hx hc

/-- `KemHeader::read_from`. -/
def readFrom (bytes : List UInt8) : Except CryptoError KemHeader :=
  if h : bytes.length < kemHeaderLen then
    .error (.malformed "kem header too short")
  else
    .ok
      { x25519Point := ⟨slice 0 32 bytes, length_slice_of_le (by
          rw [kemHeaderLen] at h; omega)⟩
        mlkemCt := ⟨slice 32 mlkem768CtLen bytes, length_slice_of_le (by
          rw [kemHeaderLen] at h; omega)⟩ }

/-- A header survives its serialisation. -/
theorem readFrom_toBytes (h : KemHeader) : readFrom h.toBytes = .ok h := by
  have hx : slice 0 32 h.toBytes = h.x25519Point.toList := by
    rw [toBytes, slice_append_left (by simp), slice_zero_of_length (by simp)]
  have hc : slice 32 mlkem768CtLen h.toBytes = h.mlkemCt.toList := by
    rw [toBytes, slice_append_right (by simp), List.Vector.toList_length, Nat.sub_self,
      slice_zero_of_length (by simp)]
  rw [readFrom, dif_neg (by simp)]
  exact congrArg Except.ok (ext_toList hx hc)

/-- Reading a slice of the right width always succeeds, and the header it gives
serialises back to that slice. -/
theorem toBytes_of_readFrom {bytes : List UInt8} (hlen : bytes.length = kemHeaderLen) :
    ∃ h, readFrom bytes = .ok h ∧ h.toBytes = bytes := by
  rw [readFrom, dif_neg (by omega)]
  refine ⟨_, rfl, ?_⟩
  change slice 0 32 bytes ++ slice 32 mlkem768CtLen bytes = bytes
  have hjoin := slice_append_slice 0 32 mlkem768CtLen bytes
  rw [Nat.zero_add] at hjoin
  rw [hjoin, ← kemHeaderLen, slice_zero_of_length hlen]

end KemHeader

variable {ρ : Type} (C : Suite ρ)

/-- A relay's advertised KEM public key. -/
structure RelayKemPublic where
  x25519 : Bytes 32
  mlkem : C.mlkem.EncapsulationKey

/-- A relay's long-term KEM secret. -/
structure RelayKemSecret where
  x25519 : C.x25519.Secret
  mlkem : C.mlkem.DecapsulationKey

/-- `hybrid_kdf`. -/
def hybridKdf (ssX ssPq : Bytes 32) : SharedSecret := C.sha3 (ssX.toList ++ ssPq.toList)

/-- Client side: encapsulate to a relay's public key. -/
def encapsulate (pk : RelayKemPublic C) (rng : ρ) :
    Except CryptoError ((KemHeader × SharedSecret) × ρ) :=
  let (ephemeral, rng) := C.x25519.randomFromRng rng
  let ephPub := C.x25519.publicKey ephemeral
  let ssX := C.x25519.diffieHellman ephemeral pk.x25519
  match C.mlkem.encapsulate pk.mlkem rng with
  | none => .error .kem
  | some ((ct, ssPq), rng) => .ok ((⟨ephPub, ct⟩, hybridKdf C ssX ssPq), rng)

/-- Relay side: recompute the shared secret from the header. -/
def RelayKemSecret.decapsulate (sk : RelayKemSecret C) (header : KemHeader) :
    Except CryptoError SharedSecret :=
  let ssX := C.x25519.diffieHellman sk.x25519 header.x25519Point
  match C.mlkem.decapsulate sk.mlkem header.mlkemCt with
  | none => .error .kem
  | some ssPq => .ok (hybridKdf C ssX ssPq)

/-- A public key and a secret that belong together: Diffie–Hellman gives both sides
the same element, and ML-KEM decapsulation undoes encapsulation. -/
structure KeyPair (pk : RelayKemPublic C) (sk : RelayKemSecret C) : Prop where
  x25519 : ∀ e, C.x25519.diffieHellman e pk.x25519 =
    C.x25519.diffieHellman sk.x25519 (C.x25519.publicKey e)
  mlkem : ∀ rng ct ss rng', C.mlkem.encapsulate pk.mlkem rng = some ((ct, ss), rng') →
    C.mlkem.decapsulate sk.mlkem ct = some ss

/-- **The hybrid KEM is correct** if both its parts are. -/
theorem decapsulate_of_encapsulate {pk : RelayKemPublic C} {sk : RelayKemSecret C}
    (hkeys : KeyPair C pk sk) {rng rng' : ρ} {header : KemHeader} {secret : SharedSecret}
    (h : encapsulate C pk rng = .ok ((header, secret), rng')) :
    sk.decapsulate C header = .ok secret := by
  rcases hrand : C.x25519.randomFromRng rng with ⟨e, rng₁⟩
  rw [encapsulate, hrand] at h
  simp only at h
  cases hct : C.mlkem.encapsulate pk.mlkem rng₁ with
  | none => simp [hct] at h
  | some r =>
    obtain ⟨⟨ct, ss⟩, rng₂⟩ := r
    simp only [hct, Except.ok.injEq, Prod.mk.injEq] at h
    obtain ⟨⟨rfl, rfl⟩, -⟩ := h
    simp only [RelayKemSecret.decapsulate, hkeys.mlkem _ _ _ _ hct, hkeys.x25519]

/-- A relay of the checksum suite: its secret scalar and its ML-KEM key. -/
def checksumSecret (x m : UInt8) : RelayKemSecret checksumSuite := ⟨x, m⟩

/-- The public key of `checksumSecret x m`. -/
def checksumPublic (x m : UInt8) : RelayKemPublic checksumSuite := ⟨.replicate 32 x, m⟩

theorem keyPair_checksum (x m : UInt8) :
    KeyPair checksumSuite (checksumPublic x m) (checksumSecret x m) := by
  refine ⟨fun (e : UInt8) => ?_, ?_⟩
  · change List.Vector.replicate 32 (e * x) = List.Vector.replicate 32 (x * e)
    rw [UInt8.mul_comm]
  · intro rng ct ss rng' h
    simp only [checksumSuite, Option.some.injEq, Prod.mk.injEq] at h
    obtain ⟨⟨rfl, rfl⟩, -⟩ := h
    rfl

end Aegis
