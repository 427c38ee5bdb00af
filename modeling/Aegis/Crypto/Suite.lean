import Aegis.Lib.Buffer

/-!
# The primitives the crypto crate is built on

`aegis-crypto` calls SHA3-256, X25519, ML-KEM-768 and a random generator from
other crates.  A `Suite` is a choice of all four; every function of the model
takes one, so a result about the model holds whatever the primitives compute.
What a result needs of a primitive (that Diffie–Hellman commutes, that
decapsulation undoes encapsulation) is a hypothesis of that result.
-/

namespace Aegis

open Buffer

/-- `CryptoError` of `lib.rs`. -/
inductive CryptoError where
  | integrityFailure
  | replay
  | malformed (what : String)
  | kem
  deriving DecidableEq, Repr

/-- The bytes of a domain-separation string. -/
def ascii (s : String) : List UInt8 := s.toUTF8.data.toList

/-- X25519 over 32-byte public elements. -/
structure X25519 (ρ : Type) where
  /-- Secret scalars, long-term and ephemeral alike. -/
  Secret : Type
  /-- `EphemeralSecret::random_from_rng`. -/
  randomFromRng : ρ → Secret × ρ
  /-- `PublicKey::from`. -/
  publicKey : Secret → Bytes 32
  /-- `diffie_hellman`. -/
  diffieHellman : Secret → Bytes 32 → Bytes 32

/-- Length of an ML-KEM-768 ciphertext. -/
def mlkem768CtLen : ℕ := 1088

/-- ML-KEM-768. -/
structure MlKem768 (ρ : Type) where
  EncapsulationKey : Type
  DecapsulationKey : Type
  /-- The ciphertext and the shared secret, or a failure. -/
  encapsulate : EncapsulationKey → ρ → Option ((Bytes mlkem768CtLen × Bytes 32) × ρ)
  decapsulate : DecapsulationKey → Bytes mlkem768CtLen → Option (Bytes 32)

/-- The primitives, over the states `ρ` of a random generator. -/
structure Suite (ρ : Type) where
  /-- `RngCore::fill_bytes` on a buffer of `n` bytes. -/
  fillBytes : (n : ℕ) → ρ → Bytes n × ρ
  /-- SHA3-256 of a whole message. -/
  sha3 : List UInt8 → Bytes 32
  x25519 : X25519 ρ
  mlkem : MlKem768 ρ

/-- A suite simple enough to compute with: the generator repeats one byte, the
digest is a checksum, the group is multiplication of bytes and the ML-KEM secret
is a sum.  Diffie–Hellman commutes and decapsulation undoes encapsulation, as in
the real one. -/
def checksumSuite : Suite UInt8 where
  fillBytes n r := (List.Vector.replicate n r, r)
  sha3 m := List.Vector.replicate 32 (m.foldl (· + ·) 0)
  x25519 :=
    { Secret := UInt8
      randomFromRng := fun r => (r, r)
      publicKey := fun s => List.Vector.replicate 32 s
      diffieHellman := fun s p => List.Vector.replicate 32 (s * p.head) }
  mlkem :=
    { EncapsulationKey := UInt8
      DecapsulationKey := UInt8
      encapsulate := fun k r =>
        some ((List.Vector.replicate mlkem768CtLen r, List.Vector.replicate 32 (k + r)), r)
      decapsulate := fun k ct => some (List.Vector.replicate 32 (k + ct.head)) }

end Aegis
