import Aegis.Lib.HashMap
import Aegis.Lib.Run
import Aegis.Relay.HealthGossip
import Aegis.Relay.PeerHealth

/-!
# The relay roster (`roster.rs`)

A relay is admitted by a record that authorities of a consortium have signed.  The roster is
kept in a JSON file, whose entries hold a record and its admission, which holds the record once
more.  A verified load checks every admission again, and keeps the record beside it.

* `thresholdSigned_of_verifyThreshold` — an admission that verifies is signed by enough
  authorities.
-/

namespace Aegis

open Buffer

/-! ## Records (`types.rs`) -/

/-- A relay, its jurisdiction and the commitment to its KEM key. -/
structure RelayRecord where
  id : RelayId
  jurisdiction : String
  kemPublicCommitment : Bytes 32
  deriving DecidableEq

/-- What the authorities sign. -/
def canonicalRecordBytes (record : RelayRecord) : List UInt8 :=
  record.id.toList ++ ascii record.jurisdiction ++ record.kemPublicCommitment.toList

/-! ## Errors (`error.rs`) -/

/-- `std::io::Error`, by its kind and its message. -/
structure IoError where
  invalidData : Bool
  message : String
  deriving DecidableEq, Repr

/-- What a roster fails with. -/
inductive RosterError where
  | invalidSignature (relay : RelayId)
  | authorityMismatch
  | io (e : IoError)
  | admissionRateLimitExceeded (attempted maxPerWindow : ℕ) (windowSecs : UInt64)
  | insufficientSignatures (got need : ℕ)
  | duplicateAuthority
  | unknownAuthority
  | anomalyBlockedAdmission (relay : RelayId)
  | relayIdCommitmentMismatch (relay : RelayId)
  | unverifiedRosterNotAllowed
  | invalidAuthorityPubkey
  deriving DecidableEq

/-- `{:?}` of a relay id: its first two bytes. -/
def debugRelayId (id : RelayId) : String :=
  "RelayId(" ++ String.ofList ((hex32 id).take 4) ++ "…)"

/-- The text of the error. -/
def RosterError.display : RosterError → String
  | .invalidSignature relay => "invalid admission signature for relay " ++ debugRelayId relay
  | .authorityMismatch => "admission authority public key mismatch"
  | .io e => "io error: " ++ e.message
  | .admissionRateLimitExceeded attempted maxPerWindow windowSecs =>
    "admission rate limit exceeded: " ++ toString attempted ++ " admissions in window (max " ++
      toString maxPerWindow ++ " per " ++ toString windowSecs ++ "s)"
  | .insufficientSignatures got need =>
    "insufficient consortium signatures: got " ++ toString got ++ ", need " ++ toString need
  | .duplicateAuthority => "duplicate admission signature from the same consortium authority"
  | .unknownAuthority => "admission signature from unknown consortium authority"
  | .anomalyBlockedAdmission relay =>
    "relay " ++ debugRelayId relay ++
      " blocked from admission: anomaly demotion below reputation floor"
  | .relayIdCommitmentMismatch _ =>
    "relay id does not match KEM-derived id for commitment " ++
      "(expected RelayId::from_kem_commitment)"
  | .unverifiedRosterNotAllowed =>
    "roster load requires consortium authority keys for signature re-verify, " ++
      "or allow_unverified_roster=true (lab/test only)"
  | .invalidAuthorityPubkey => "invalid consortium authority public key bytes"

/-! ## Admissions -/

/-- The signature of one authority over a record. -/
structure AuthorityAdmissionSignature where
  authorityPubkey : Bytes 32
  signature : List UInt8
  deriving DecidableEq

/-- A record with the signatures of any number of authorities. -/
structure ThresholdSignedRelayRecord where
  record : RelayRecord
  signatures : List AuthorityAdmissionSignature
  deriving DecidableEq

/-- A record with the signature of one authority. -/
structure SignedRelayRecord where
  record : RelayRecord
  signature : List UInt8
  authorityPubkey : Bytes 32
  deriving DecidableEq

/-- One signature as one of several. -/
def SignedRelayRecord.intoThreshold (single : SignedRelayRecord) : ThresholdSignedRelayRecord :=
  ⟨single.record, [⟨single.authorityPubkey, single.signature⟩]⟩

section Scheme

variable {SK VK : Type} (E : Ed25519 SK VK)

/-- `ConsortiumKey::sign_authority`. -/
def signAuthority (key : SK) (record : RelayRecord) : AuthorityAdmissionSignature :=
  ⟨E.toBytes (E.verifyingKey key), (E.sign key (canonicalRecordBytes record)).toList⟩

/-- `ConsortiumKey::sign_record`. -/
def signRecord (key : SK) (record : RelayRecord) : SignedRelayRecord :=
  ⟨record, (signAuthority E key record).signature, (signAuthority E key record).authorityPubkey⟩

namespace AuthorityAdmissionSignature

/-- The signature of these bytes is one of the record by the authority. -/
def Verifies (s : AuthorityAdmissionSignature) (record : RelayRecord) (authority : VK) : Prop :=
  ∃ h : s.signature.length = advertSigLen,
    E.verify authority (canonicalRecordBytes record) ⟨s.signature, h⟩ = true

instance (s : AuthorityAdmissionSignature) (record : RelayRecord) (authority : VK) :
    Decidable (s.Verifies E record authority) :=
  inferInstanceAs (Decidable (∃ _ : _, _))

/-- The authority has signed the record. -/
def verify (s : AuthorityAdmissionSignature) (record : RelayRecord) (authority : VK) :
    Except RosterError Unit :=
  if s.authorityPubkey ≠ E.toBytes authority then .error .authorityMismatch
  else if s.Verifies E record authority then .ok ()
  else .error (.invalidSignature record.id)

end AuthorityAdmissionSignature

/-- The authorities, and how many of them it takes. -/
structure ThresholdConsortium where
  threshold : ℕ
  authorities : List VK
  byPubkey : HashMap (Bytes 32) VK
  /-- Every key on file is an authority's, under its bytes. -/
  byPubkey_spec : ∀ pk vk, byPubkey.lookup pk = some vk → vk ∈ authorities ∧ E.toBytes vk = pk

namespace ThresholdConsortium

/-- The authorities by their bytes. -/
def index (authorities : List VK) : HashMap (Bytes 32) VK :=
  authorities.foldl (fun m pk => m.insert (E.toBytes pk) pk) ∅

variable {E} in
theorem index_spec (authorities : List VK) (pk : Bytes 32) (vk : VK)
    (h : (index E authorities).lookup pk = some vk) : vk ∈ authorities ∧ E.toBytes vk = pk := by
  induction authorities using List.reverseRecOn with
  | nil => cases h
  | append_singleton authorities a ih =>
    unfold index at h ih
    rw [List.foldl_append] at h
    by_cases hpk : pk = E.toBytes a
    · subst hpk
      have hself : some a = some vk := (AList.lookup_insert _).symm.trans h
      obtain rfl := Option.some.inj hself
      exact ⟨List.mem_append_right _ (List.mem_singleton_self _), rfl⟩
    · obtain ⟨hmem, hbytes⟩ := ih ((AList.lookup_insert_ne hpk).symm.trans h)
      exact ⟨List.mem_append_left _ hmem, hbytes⟩

/-- A consortium: some authorities, no two alike, of whom so many must sign. -/
def new (threshold : ℕ) (authorities : List VK) : Except RosterError (ThresholdConsortium E) :=
  if authorities.isEmpty then .error (.insufficientSignatures 0 (max threshold 1))
  else if threshold = 0 ∨ authorities.length < threshold then
    .error (.insufficientSignatures authorities.length threshold)
  else if (index E authorities).entries.length ≠ authorities.length then .error .duplicateAuthority
  else .ok ⟨threshold, authorities, index E authorities, index_spec authorities⟩

variable {E} in
/-- The authority with this key. -/
def authorityForPubkey (c : ThresholdConsortium E) (pubkey : Bytes 32) : Option VK :=
  c.byPubkey.lookup pubkey

end ThresholdConsortium

namespace ThresholdSignedRelayRecord

variable {E}

/-- One round of `verify_threshold`: a signature of a key that counts already is skipped. -/
def countSignature (consortium : ThresholdConsortium E) (record : RelayRecord)
    (distinctValid : Finset (Bytes 32)) (sig : AuthorityAdmissionSignature) :
    Except RosterError (Finset (Bytes 32)) :=
  if sig.authorityPubkey ∈ distinctValid then .ok distinctValid
  else
    match consortium.authorityForPubkey sig.authorityPubkey with
    | none => .error .unknownAuthority
    | some authority =>
      match sig.verify E record authority with
      | .error e => .error e
      | .ok () => .ok (insert sig.authorityPubkey distinctValid)

/-- As many authorities as the threshold asks for have signed the record. -/
def verifyThreshold (a : ThresholdSignedRelayRecord) (consortium : ThresholdConsortium E) :
    Except RosterError Unit :=
  match a.signatures.foldlM (countSignature consortium a.record) ∅ with
  | .error e => .error e
  | .ok distinctValid =>
    if distinctValid.card < consortium.threshold then
      .error (.insufficientSignatures distinctValid.card consortium.threshold)
    else .ok ()

end ThresholdSignedRelayRecord

end Scheme

/-! ## The roster -/

/-- How many relays a roster admits in a window, and which ids it takes. -/
structure RosterAdmissionPolicy where
  maxAdmissionsPerWindow : ℕ
  windowSecs : UInt64
  requireKemDerivedId : Bool
  deriving DecidableEq

/-- `RosterAdmissionPolicy::default`. -/
def RosterAdmissionPolicy.default : RosterAdmissionPolicy := ⟨5, 24 * 60 * 60, true⟩

/-- An entry of the roster and of its file: the record, and the admission with its own copy. -/
structure RosterEntry where
  record : RelayRecord
  signedAdmission : Option SignedRelayRecord
  thresholdAdmission : Option ThresholdSignedRelayRecord
  deriving DecidableEq

namespace RosterEntry

/-- The admission of an entry, whichever way it was signed. -/
def admission (e : RosterEntry) : Option ThresholdSignedRelayRecord :=
  match e.thresholdAdmission with
  | some threshold => some threshold
  | none => e.signedAdmission.map SignedRelayRecord.intoThreshold

/-- The entry is admitted anew. -/
def setAdmission (e : RosterEntry) (admission : ThresholdSignedRelayRecord) : RosterEntry :=
  { e with thresholdAdmission := some admission, signedAdmission := none }

end RosterEntry

/-- A roster as it is saved. -/
structure PersistedRoster where
  version : UInt32
  entries : List RosterEntry

/-- The relays that have been admitted, and when, as far as the rate limit asks. -/
structure RelayRoster where
  relays : HashMap RelayId RosterEntry
  admissionPolicy : RosterAdmissionPolicy
  admissionTimestamps : List UInt64

/-- Ids are sorted by their bytes. -/
def idKey (id : RelayId) : List ℕ := id.toList.map UInt8.toNat

namespace RelayRoster

/-- Nobody has been admitted, and the policy is the default one. -/
def new : RelayRoster := ⟨∅, .default, []⟩

/-- Nobody has been admitted under this policy. -/
def withAdmissionPolicy (policy : RosterAdmissionPolicy) : RelayRoster :=
  { new with admissionPolicy := policy }

/-- The policy is replaced; who was admitted stays. -/
def setAdmissionPolicy (roster : RelayRoster) (policy : RosterAdmissionPolicy) : RelayRoster :=
  { roster with admissionPolicy := policy }

/-- The admissions so far do not count for the rate limit any more. -/
def resetAdmissionRateLimit (roster : RelayRoster) : RelayRoster :=
  { roster with admissionTimestamps := [] }

/-- `roster.relays.insert(entry.record.id, entry)`. -/
def insertEntry (roster : RelayRoster) (entry : RosterEntry) : RelayRoster :=
  { roster with relays := roster.relays.insert entry.record.id entry }

/-- The relay is taken off, if it was there. -/
def remove (roster : RelayRoster) (id : RelayId) : RelayRoster × Bool :=
  ({ roster with relays := roster.relays.erase id }, (roster.relays.lookup id).isSome)

/-- The relay is on the roster. -/
def isAdmitted (roster : RelayRoster) (id : RelayId) : Bool := (roster.relays.lookup id).isSome

/-- The record of a relay. -/
def get (roster : RelayRoster) (id : RelayId) : Option RelayRecord :=
  (roster.relays.lookup id).map RosterEntry.record

/-- The admission of a relay. -/
def getThresholdSigned (roster : RelayRoster) (id : RelayId) : Option ThresholdSignedRelayRecord :=
  (roster.relays.lookup id).bind RosterEntry.admission

/-- The records, by their ids. -/
def admittedSorted (roster : RelayRoster) (o : IterOrder RelayId RosterEntry) : List RelayRecord :=
  ((o.values roster.relays).map RosterEntry.record).insertionSort fun a b => idKey a.id ≤ idKey b.id

/-! ## Loading -/

section Load

variable {SK VK : Type} {E : Ed25519 SK VK}

/-- One entry of the file. -/
def loadEntry (consortium : Option (ThresholdConsortium E)) (roster : RelayRoster)
    (entry : RosterEntry) : Except IoError RelayRoster :=
  match consortium with
  | none => .ok (roster.insertEntry entry)
  | some consortium =>
    match entry.admission with
    | none => .error ⟨true, "unsigned roster entry in verified load"⟩
    | some admission =>
      match admission.verifyThreshold consortium with
      | .error e => .error ⟨true, e.display⟩
      | .ok () => .ok (roster.insertEntry (entry.setAdmission admission))

/-- `load_persisted`, on what `fs::read` gives; `fromSlice` is the JSON reader. -/
def loadPersisted (fromSlice : List UInt8 → Except String PersistedRoster)
    (file : Except IoError (List UInt8)) (consortium : Option (ThresholdConsortium E)) :
    Except IoError RelayRoster :=
  match file with
  | .error e => .error e
  | .ok bytes =>
    match fromSlice bytes with
    | .error message => .error ⟨true, message⟩
    | .ok persisted => persisted.entries.foldlM (loadEntry consortium) new

/-- A saved roster, with every admission checked against the consortium. -/
def loadFromFileWithConsortium (fromSlice : List UInt8 → Except String PersistedRoster)
    (file : Except IoError (List UInt8)) (consortium : ThresholdConsortium E) :
    Except IoError RelayRoster :=
  loadPersisted fromSlice file (some consortium)

/-- The same if there is a consortium; without one only if that is allowed. -/
def loadFromFileWithPolicy (fromSlice : List UInt8 → Except String PersistedRoster)
    (file : Except IoError (List UInt8)) (consortium : Option (ThresholdConsortium E))
    (allowUnverified : Bool) : Except RosterError RelayRoster :=
  match consortium with
  | some c => (loadFromFileWithConsortium fromSlice file c).mapError .io
  | none =>
    if allowUnverified then
      (loadPersisted fromSlice file (none : Option (ThresholdConsortium E))).mapError .io
    else .error .unverifiedRosterNotAllowed

end Load

end RelayRoster

/-! ## What verification shows -/

section Verified

variable {SK VK : Type} {E : Ed25519 SK VK}

/-- Authority `vk` has signed the admission's record. -/
def SignedBy (E : Ed25519 SK VK) (a : ThresholdSignedRelayRecord) (vk : VK) : Prop :=
  ∃ sig ∈ a.signatures, sig.authorityPubkey = E.toBytes vk ∧ sig.Verifies E a.record vk

/-- At least `threshold` distinct authorities of the consortium have signed the record. -/
def ThresholdSigned (consortium : ThresholdConsortium E) (a : ThresholdSignedRelayRecord) : Prop :=
  ∃ signers : Finset (Bytes 32), consortium.threshold ≤ signers.card ∧
    ∀ pk ∈ signers, ∃ vk ∈ consortium.authorities, E.toBytes vk = pk ∧ SignedBy E a vk

theorem AuthorityAdmissionSignature.of_verify {s : AuthorityAdmissionSignature}
    {record : RelayRecord} {authority : VK} (h : s.verify E record authority = .ok ()) :
    s.authorityPubkey = E.toBytes authority ∧ s.Verifies E record authority := by
  unfold AuthorityAdmissionSignature.verify at h
  split_ifs at h with hkey hverify
  exact ⟨not_not.mp hkey, hverify⟩

namespace ThresholdSignedRelayRecord

/-- The keys that count belong to authorities that have signed. -/
def AllSigned (consortium : ThresholdConsortium E) (a : ThresholdSignedRelayRecord)
    (keys : Finset (Bytes 32)) : Prop :=
  ∀ pk ∈ keys, ∃ vk ∈ consortium.authorities, E.toBytes vk = pk ∧ SignedBy E a vk

theorem AllSigned.countSignature {consortium : ThresholdConsortium E}
    {a : ThresholdSignedRelayRecord} {keys keys' : Finset (Bytes 32)}
    {sig : AuthorityAdmissionSignature} (hkeys : AllSigned consortium a keys)
    (hsig : sig ∈ a.signatures) (h : countSignature consortium a.record keys sig = .ok keys') :
    AllSigned consortium a keys' := by
  unfold ThresholdSignedRelayRecord.countSignature at h
  split_ifs at h with hmem
  · obtain rfl := Except.ok.inj h
    exact hkeys
  · split at h
    · cases h
    · rename_i authority hauthority
      split at h
      · cases h
      · rename_i hverify
        obtain rfl := Except.ok.inj h
        obtain ⟨hkey, hvalid⟩ := AuthorityAdmissionSignature.of_verify hverify
        obtain ⟨hin, hbytes⟩ := consortium.byPubkey_spec _ _ hauthority
        intro pk hpk
        rcases Finset.mem_insert.mp hpk with rfl | hpk
        · exact ⟨authority, hin, hbytes, sig, hsig, hkey, hvalid⟩
        · exact hkeys pk hpk

/-- **An admission that verifies is signed** by at least `threshold` authorities. -/
theorem thresholdSigned_of_verifyThreshold {consortium : ThresholdConsortium E}
    {a : ThresholdSignedRelayRecord} (h : a.verifyThreshold consortium = .ok ()) :
    ThresholdSigned consortium a := by
  unfold verifyThreshold at h
  split at h
  · cases h
  · rename_i keys hkeys
    split_ifs at h with hcard
    refine ⟨keys, not_lt.mp hcard, ?_⟩
    exact Run.foldlM_preserves (AllSigned consortium a)
      (fun keys sig keys' hsig hall hround => hall.countSignature hsig hround)
      (fun pk hpk => absurd hpk (Finset.notMem_empty pk)) hkeys

end ThresholdSignedRelayRecord

end Verified

end Aegis
