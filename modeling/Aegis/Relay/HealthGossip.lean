import Aegis.Crypto.Cell
import Aegis.Relay.Handshake

/-!
# Health gossip adverts (`health_gossip.rs`)

A relay reports how often it reached a peer in a signed advert, which travels as one
cell.

* `fromCell_toCell` — an advert is read back from its cell.
-/

namespace Aegis

open Buffer

/-- How long the signed part of an advert is. -/
def advertBodyLen : ℕ := 88

/-- How long its signature is. -/
def advertSigLen : ℕ := 64

/-- What an advert is refused for. -/
inductive HealthGossipError where
  | malformed
  | badSignature
  | unknownReporter
  | reporterMismatch
  | staleTimestamp
  | missingVerifyingKey
  | equivocation
  deriving DecidableEq, Repr

/-- `reporter` observed `successes` and `failures` toward `subject`. -/
structure PeerHealthAdvert where
  reporter : RelayId
  subject : RelayId
  successes : UInt64
  failures : UInt64
  timestampSecs : UInt64
  signature : Bytes advertSigLen
  deriving DecidableEq

/-- Ed25519, as far as the code relies on it: keys and what signing and verifying compute. -/
structure Ed25519 (SigningKey VerifyingKey : Type) where
  verifyingKey : SigningKey → VerifyingKey
  toBytes : VerifyingKey → Bytes 32
  sign : SigningKey → List UInt8 → Bytes advertSigLen
  verify : VerifyingKey → List UInt8 → Bytes advertSigLen → Bool

/-- `u64::to_le_bytes`. -/
def u64Bytes (n : UInt64) : List UInt8 := leBytes 8 n.toNat

/-- `u64::from_le_bytes`. -/
def u64Value (b : Bytes 8) : UInt64 := UInt64.ofNat (leValue b.toList)

@[simp] theorem length_u64Bytes (n : UInt64) : (u64Bytes n).length = 8 := length_leBytes 8 _

theorem u64Value_of_toList {b : Bytes 8} {n : UInt64} (h : b.toList = u64Bytes n) :
    u64Value b = n := by
  rw [u64Value, h, u64Bytes, leValue_leBytes, Nat.mod_eq_of_lt (by simpa using n.toNat_lt),
    UInt64.ofNat_toNat]

namespace PeerHealthAdvert

/-- What the signature covers. -/
def signableBytes (a : PeerHealthAdvert) : Bytes advertBodyLen :=
  ((((((Bytes.zero advertBodyLen).put 0 a.reporter.toList).put 32 a.subject.toList).put 64
    (u64Bytes a.successes)).put 72 (u64Bytes a.failures)).put 80 (u64Bytes a.timestampSecs))

/-- Build and sign an advert. -/
def sign {SK VK : Type} (E : Ed25519 SK VK) (signingKey : SK) (reporter subject : RelayId)
    (successes failures timestampSecs : UInt64) : PeerHealthAdvert :=
  let advert : PeerHealthAdvert :=
    ⟨reporter, subject, successes, failures, timestampSecs, Bytes.zero advertSigLen⟩
  { advert with signature := E.sign signingKey advert.signableBytes.toList }

/-- The signature is the reporter's. -/
def verify {SK VK : Type} (E : Ed25519 SK VK) (a : PeerHealthAdvert) (verifyingKey : VK) :
    Except HealthGossipError Unit :=
  if E.verify verifyingKey a.signableBytes.toList a.signature then .ok () else .error .badSignature

/-- The advert in a gossip cell. -/
def toCell (a : PeerHealthAdvert) : Cell :=
  let buf : Cell := Bytes.zero cellLen
  let buf := buf.put 0 [Command.peerHealthAdvert.toU8]
  let buf := buf.put 1 a.signableBytes.toList
  buf.put (1 + advertBodyLen) a.signature.toList

/-- The advert of a gossip cell. -/
def fromCell (cell : Cell) : Except HealthGossipError PeerHealthAdvert :=
  if Command.fromU8 (cell.byte 0 zero_lt_cellLen) ≠ some .peerHealthAdvert then .error .malformed
  else
    .ok
      { reporter := cell.window 1 32 (by decide)
        subject := cell.window 33 32 (by decide)
        successes := u64Value (cell.window 65 8 (by decide))
        failures := u64Value (cell.window 73 8 (by decide))
        timestampSecs := u64Value (cell.window 81 8 (by decide))
        signature := cell.window 89 advertSigLen (by decide) }

/-- The fields, where the signature covers them. -/
theorem slice_signableBytes (a : PeerHealthAdvert) :
    slice 0 32 a.signableBytes.toList = a.reporter.toList ∧
      slice 32 32 a.signableBytes.toList = a.subject.toList ∧
      slice 64 8 a.signableBytes.toList = u64Bytes a.successes ∧
      slice 72 8 a.signableBytes.toList = u64Bytes a.failures ∧
      slice 80 8 a.signableBytes.toList = u64Bytes a.timestampSecs := by
  have hlen : ∀ b : Bytes advertBodyLen, b.toList.length = 88 := fun b => b.toList_length
  simp only [signableBytes]
  refine ⟨?_, ?_, ?_, ?_, ?_⟩
  · rw [Bytes.toList_put, slice_writeAt_of_disjoint (Or.inl (by decide)), Bytes.toList_put,
      slice_writeAt_of_disjoint (Or.inl (by decide)), Bytes.toList_put,
      slice_writeAt_of_disjoint (Or.inl (by decide)), Bytes.toList_put,
      slice_writeAt_of_disjoint (Or.inl (by decide)), Bytes.toList_put,
      slice_writeAt a.reporter.toList_length (by rw [hlen]; decide)]
  · rw [Bytes.toList_put, slice_writeAt_of_disjoint (Or.inl (by decide)), Bytes.toList_put,
      slice_writeAt_of_disjoint (Or.inl (by decide)), Bytes.toList_put,
      slice_writeAt_of_disjoint (Or.inl (by decide)), Bytes.toList_put,
      slice_writeAt a.subject.toList_length (by rw [hlen]; decide)]
  · rw [Bytes.toList_put, slice_writeAt_of_disjoint (Or.inl (by decide)), Bytes.toList_put,
      slice_writeAt_of_disjoint (Or.inl (by decide)), Bytes.toList_put,
      slice_writeAt (length_u64Bytes _) (by rw [hlen]; decide)]
  · rw [Bytes.toList_put, slice_writeAt_of_disjoint (Or.inl (by decide)), Bytes.toList_put,
      slice_writeAt (length_u64Bytes _) (by rw [hlen]; decide)]
  · rw [Bytes.toList_put, slice_writeAt (length_u64Bytes _) (by rw [hlen])]

/-- The body of the cell is what is signed. -/
theorem slice_toCell (a : PeerHealthAdvert) {off n : ℕ} (h : off + n ≤ advertBodyLen) :
    slice (1 + off) n a.toCell.toList = slice off n a.signableBytes.toList := by
  have hbody : a.signableBytes.toList.length = advertBodyLen := a.signableBytes.toList_length
  rw [toCell, Bytes.toList_put, slice_writeAt_of_disjoint (Or.inl (by omega)), Bytes.toList_put,
    slice_writeAt_of_subset (by omega) (by omega)
      (by rw [hbody, List.Vector.toList_length]; decide),
    Nat.add_sub_cancel_left]

theorem byte_toCell (a : PeerHealthAdvert) :
    a.toCell.byte 0 (by decide) = Command.peerHealthAdvert.toU8 := by
  rw [toCell, Bytes.byte_put_of_not_mem _ _ _ (Or.inl (by decide)),
    Bytes.byte_put_of_not_mem _ _ _ (Or.inl (by decide)),
    Bytes.byte_put_of_mem _ _ _ (by decide) (by decide)]
  rfl

/-- **An advert is read back from its cell.** -/
theorem fromCell_toCell (a : PeerHealthAdvert) : fromCell a.toCell = .ok a := by
  obtain ⟨hrep, hsub, hsucc, hfail, htime⟩ := a.slice_signableBytes
  have hsig : slice 89 advertSigLen a.toCell.toList = a.signature.toList := by
    rw [toCell, Bytes.toList_put]
    exact slice_writeAt a.signature.toList_length (by rw [List.Vector.toList_length]; decide)
  rw [fromCell, byte_toCell, Command.fromU8_toU8, if_neg (not_not.mpr rfl)]
  have h1 : a.toCell.window 1 32 (by decide) = a.reporter := by
    apply Bytes.ext_toList
    rw [Bytes.toList_window, ← hrep, ← slice_toCell a (by decide)]
  have h2 : a.toCell.window 33 32 (by decide) = a.subject := by
    apply Bytes.ext_toList
    rw [Bytes.toList_window, ← hsub, ← slice_toCell a (by decide)]
  have h3 : u64Value (a.toCell.window 65 8 (by decide)) = a.successes := by
    apply u64Value_of_toList
    rw [Bytes.toList_window, ← hsucc, ← slice_toCell a (by decide)]
  have h4 : u64Value (a.toCell.window 73 8 (by decide)) = a.failures := by
    apply u64Value_of_toList
    rw [Bytes.toList_window, ← hfail, ← slice_toCell a (by decide)]
  have h5 : u64Value (a.toCell.window 81 8 (by decide)) = a.timestampSecs := by
    apply u64Value_of_toList
    rw [Bytes.toList_window, ← htime, ← slice_toCell a (by decide)]
  have h6 : a.toCell.window 89 advertSigLen (by decide) = a.signature := by
    apply Bytes.ext_toList
    rw [Bytes.toList_window, hsig]
  rw [h1, h2, h3, h4, h5, h6]

end PeerHealthAdvert

end Aegis
