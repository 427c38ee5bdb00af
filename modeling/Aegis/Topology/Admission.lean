import Aegis.Topology.Consortium
import Aegis.Trust.Reputation

/-!
# Admitting relays (`roster.rs`)

A signed record is admitted when its signatures verify, its id is the one its KEM key gives, and,
if it is new on the roster, there is room in the window of the rate limit.  A new relay is put on
the reputation ledger.  The pruned forms also ask the policy whether a new relay is eligible.

* `admitVerifiedInner_cases` — what an admission can do.
* `admit_cases` — the same for all four entry points.
-/

namespace Aegis

open Buffer

/-! ## Ids (`types.rs`) -/

/-- `RELAY_ID_DOMAIN`. -/
def relayIdDomain : List UInt8 := ascii "aegis-relay-id-v1"

/-- `RelayId::from_kem_commitment`; the digest is SHA3-256. -/
def relayIdFromKemCommitment (sha3 : List UInt8 → Bytes 32) (commitment : Bytes 32) : RelayId :=
  sha3 (relayIdDomain ++ commitment.toList)

/-- The id is the one that belongs to the commitment. -/
def RelayRecord.idMatchesKemCommitment (sha3 : List UInt8 → Bytes 32) (record : RelayRecord) :
    Bool :=
  decide (record.id = relayIdFromKemCommitment sha3 record.kemPublicCommitment)

/-! ## One signature -/

/-- `SignedRelayRecord::verify`. -/
def SignedRelayRecord.verify {SK VK : Type} (E : Ed25519 SK VK) (signed : SignedRelayRecord)
    (authorityPubkey : VK) : Except RosterError Unit :=
  if signed.authorityPubkey ≠ E.toBytes authorityPubkey then .error .authorityMismatch
  else if AuthorityAdmissionSignature.Verifies E ⟨signed.authorityPubkey, signed.signature⟩
      signed.record authorityPubkey then .ok ()
  else .error (.invalidSignature signed.record.id)

/-! ## The rate limit -/

namespace RelayRoster

/-- The first second of the window that ends at `nowSecs`. -/
def cutoff (roster : RelayRoster) (nowSecs : UInt64) : UInt64 :=
  saturatingSub nowSecs roster.admissionPolicy.windowSecs

/-- There are no more admissions in one window than the policy allows. -/
def checkAdmissionRateLimit (roster : RelayRoster) (nowSecs : UInt64) : Except RosterError Unit :=
  let recent := (roster.admissionTimestamps.filter fun t => roster.cutoff nowSecs ≤ t).length
  let max := roster.admissionPolicy.maxAdmissionsPerWindow
  if max ≤ recent then
    .error (.admissionRateLimitExceeded (recent + 1) max roster.admissionPolicy.windowSecs)
  else .ok ()

/-- An admission is noted, and those before the window are forgotten. -/
def recordAdmission (roster : RelayRoster) (nowSecs : UInt64) : RelayRoster :=
  { roster with
    admissionTimestamps :=
      (roster.admissionTimestamps.filter fun t => roster.cutoff nowSecs ≤ t) ++ [nowSecs] }

/-! ## Admission -/

/-- The entry of an admitted relay. -/
def admittedEntry (signed : ThresholdSignedRelayRecord) : RosterEntry :=
  ⟨signed.record, none, some signed⟩

variable (sha3 : List UInt8 → Bytes 32)

/-- `admit_verified_inner`, when the clock reads `now`. -/
def admitVerifiedInner (roster : RelayRoster) (signed : ThresholdSignedRelayRecord)
    (ledger : ReputationLedger) (now : UInt64) :
    Except RosterError Unit × RelayRoster × ReputationLedger :=
  let id := signed.record.id
  if roster.admissionPolicy.requireKemDerivedId ∧ ¬signed.record.idMatchesKemCommitment sha3 then
    (.error (.relayIdCommitmentMismatch id), roster, ledger)
  else if roster.isAdmitted id then
    (.ok (), roster.insertEntry (admittedEntry signed), ledger)
  else
    match roster.checkAdmissionRateLimit now with
    | .error e => (.error e, roster, ledger)
    | .ok () =>
      (.ok (), (roster.recordAdmission now).insertEntry (admittedEntry signed),
        ledger.admitNewRelay id)

variable {D : Type}

/-- A record whose signatures were checked is admitted. -/
def admitVerified (roster : RelayRoster) (signed : ThresholdSignedRelayRecord)
    (ledger : ReputationLedger) (now : UInt64) :
    Except RosterError Unit × RelayRoster × ReputationLedger :=
  roster.admitVerifiedInner sha3 signed ledger now

/-- The same, unless the relay is new and below the floor. -/
def admitVerifiedPruned (roster : RelayRoster) (signed : ThresholdSignedRelayRecord)
    (policy : RelayPruningPolicy D) (minReputation : ℚ) (now : UInt64) :
    Except RosterError Unit × RelayRoster × RelayPruningPolicy D :=
  let id := signed.record.id
  if !roster.isAdmitted id && !policy.isEligible id minReputation then
    (.error (.anomalyBlockedAdmission id), roster, policy)
  else
    let (result, roster, ledger) := roster.admitVerifiedInner sha3 signed policy.ledger now
    (result, roster, { policy with ledger })

variable {SK VK : Type} {E : Ed25519 SK VK}

/-- A record that a consortium has signed is admitted. -/
def admitThresholdSigned (roster : RelayRoster) (signed : ThresholdSignedRelayRecord)
    (consortium : ThresholdConsortium E) (ledger : ReputationLedger) (now : UInt64) :
    Except RosterError Unit × RelayRoster × ReputationLedger :=
  match signed.verifyThreshold consortium with
  | .error e => (.error e, roster, ledger)
  | .ok () => roster.admitVerified sha3 signed ledger now

/-- The same, unless the relay is new and below the floor. -/
def admitThresholdSignedPruned (roster : RelayRoster) (signed : ThresholdSignedRelayRecord)
    (consortium : ThresholdConsortium E) (policy : RelayPruningPolicy D) (minReputation : ℚ)
    (now : UInt64) : Except RosterError Unit × RelayRoster × RelayPruningPolicy D :=
  match signed.verifyThreshold consortium with
  | .error e => (.error e, roster, policy)
  | .ok () => roster.admitVerifiedPruned sha3 signed policy minReputation now

variable (E)

/-- A record that one authority has signed is admitted. -/
def admitSigned (roster : RelayRoster) (signed : SignedRelayRecord) (authorityPubkey : VK)
    (ledger : ReputationLedger) (now : UInt64) :
    Except RosterError Unit × RelayRoster × ReputationLedger :=
  match signed.verify E authorityPubkey with
  | .error e => (.error e, roster, ledger)
  | .ok () =>
    let consortium := ThresholdConsortium.single E authorityPubkey
    roster.admitThresholdSigned sha3 signed.intoThreshold consortium ledger now

/-- The same, unless the relay is new and below the floor. -/
def admitSignedPruned (roster : RelayRoster) (signed : SignedRelayRecord) (authorityPubkey : VK)
    (policy : RelayPruningPolicy D) (minReputation : ℚ) (now : UInt64) :
    Except RosterError Unit × RelayRoster × RelayPruningPolicy D :=
  match signed.verify E authorityPubkey with
  | .error e => (.error e, roster, policy)
  | .ok () =>
    let consortium := ThresholdConsortium.single E authorityPubkey
    roster.admitThresholdSignedPruned sha3 signed.intoThreshold consortium policy minReputation now

/-! ## The four entry points -/

variable {E} in
/-- What an entry point is called with. -/
inductive Admission (E : Ed25519 SK VK) where
  | thresholdSigned (signed : ThresholdSignedRelayRecord) (consortium : ThresholdConsortium E)
  | thresholdSignedPruned (signed : ThresholdSignedRelayRecord)
      (consortium : ThresholdConsortium E) (minReputation : ℚ)
  | signed (signed : SignedRelayRecord) (authorityPubkey : VK)
  | signedPruned (signed : SignedRelayRecord) (authorityPubkey : VK) (minReputation : ℚ)

variable {E}

/-- The record that is to be admitted. -/
def Admission.record : Admission E → RelayRecord
  | .thresholdSigned a _ => a.record
  | .thresholdSignedPruned a _ _ => a.record
  | .signed a _ => a.record
  | .signedPruned a _ _ => a.record

/-- The call, with the ledger that a policy shares. -/
def admission (roster : RelayRoster) (policy : RelayPruningPolicy D) (now : UInt64) :
    Admission E → Except RosterError Unit × RelayRoster × RelayPruningPolicy D
  | .thresholdSigned signed consortium =>
    let (result, roster, ledger) :=
      roster.admitThresholdSigned sha3 signed consortium policy.ledger now
    (result, roster, { policy with ledger })
  | .thresholdSignedPruned signed consortium minReputation =>
    roster.admitThresholdSignedPruned sha3 signed consortium policy minReputation now
  | .signed signed authorityPubkey =>
    let (result, roster, ledger) :=
      roster.admitSigned sha3 E signed authorityPubkey policy.ledger now
    (result, roster, { policy with ledger })
  | .signedPruned signed authorityPubkey minReputation =>
    roster.admitSignedPruned sha3 E signed authorityPubkey policy minReputation now

/-! ## What an admission can do -/

/-- A call is refused and changes nothing, takes a record of a relay on the roster, or takes a
new relay within the rate limit; `seeded` is what the trust state is then. -/
inductive Outcome {S : Type} (roster : RelayRoster) (record : RelayRecord) (now : UInt64)
    (kept seeded : S) : Except RosterError Unit × RelayRoster × S → Prop
  | refused (e : RosterError) : Outcome roster record now kept seeded (.error e, roster, kept)
  | again (signed : ThresholdSignedRelayRecord) (hrecord : signed.record = record)
      (hin : roster.isAdmitted record.id = true) :
      Outcome roster record now kept seeded
        (.ok (), roster.insertEntry (admittedEntry signed), kept)
  | new (signed : ThresholdSignedRelayRecord) (hrecord : signed.record = record)
      (hout : roster.isAdmitted record.id = false)
      (hroom : roster.checkAdmissionRateLimit now = .ok ()) :
      Outcome roster record now kept seeded
        (.ok (), (roster.recordAdmission now).insertEntry (admittedEntry signed), seeded)

/-- The policy when a new relay has been put on its ledger. -/
def seed (policy : RelayPruningPolicy D) (id : RelayId) : RelayPruningPolicy D :=
  { policy with ledger := policy.ledger.admitNewRelay id }

theorem Outcome.mapPolicy {roster : RelayRoster} {record : RelayRecord} {now : UInt64}
    {policy : RelayPruningPolicy D} {r : Except RosterError Unit × RelayRoster × ReputationLedger}
    (h : Outcome roster record now policy.ledger (policy.ledger.admitNewRelay record.id) r) :
    Outcome roster record now policy (seed policy record.id)
      (r.1, r.2.1, { policy with ledger := r.2.2 }) := by
  cases h with
  | refused e => exact .refused e
  | again signed hrecord hin => exact .again signed hrecord hin
  | new signed hrecord hout hroom => exact .new signed hrecord hout hroom

section Cases

variable (roster : RelayRoster) (signed : ThresholdSignedRelayRecord) (ledger : ReputationLedger)
  (policy : RelayPruningPolicy D) (now : UInt64)

theorem admitVerifiedInner_cases :
    Outcome roster signed.record now ledger (ledger.admitNewRelay signed.record.id)
      (roster.admitVerifiedInner sha3 signed ledger now) := by
  unfold admitVerifiedInner
  dsimp only
  split_ifs with hmismatch hin
  · exact .refused _
  · exact .again signed rfl hin
  · split
    · exact .refused _
    · rename_i hroom
      exact .new signed rfl (Bool.eq_false_iff.mpr hin) hroom

theorem admitVerifiedPruned_cases (minReputation : ℚ) :
    Outcome roster signed.record now policy (seed policy signed.record.id)
      (roster.admitVerifiedPruned sha3 signed policy minReputation now) := by
  unfold admitVerifiedPruned
  dsimp only
  split_ifs with hblocked
  · exact .refused _
  · exact (admitVerifiedInner_cases sha3 roster signed policy.ledger now).mapPolicy

theorem admitThresholdSigned_cases (consortium : ThresholdConsortium E) :
    Outcome roster signed.record now ledger (ledger.admitNewRelay signed.record.id)
      (roster.admitThresholdSigned sha3 signed consortium ledger now) := by
  unfold admitThresholdSigned
  split
  · exact .refused _
  · exact admitVerifiedInner_cases sha3 roster signed ledger now

theorem admitThresholdSignedPruned_cases (consortium : ThresholdConsortium E) (minReputation : ℚ) :
    Outcome roster signed.record now policy (seed policy signed.record.id)
      (roster.admitThresholdSignedPruned sha3 signed consortium policy minReputation now) := by
  unfold admitThresholdSignedPruned
  split
  · exact .refused _
  · exact admitVerifiedPruned_cases sha3 roster signed policy now minReputation

/-- **What an admission can do**, by any entry point. -/
theorem admit_cases (call : Admission E) :
    Outcome roster call.record now policy (seed policy call.record.id)
      (roster.admission sha3 policy now call) := by
  cases call with
  | thresholdSigned signed consortium =>
    exact (admitThresholdSigned_cases sha3 roster signed policy.ledger now consortium).mapPolicy
  | thresholdSignedPruned signed consortium minReputation =>
    exact admitThresholdSignedPruned_cases sha3 roster signed policy now consortium minReputation
  | signed signed authorityPubkey =>
    refine Outcome.mapPolicy (r := roster.admitSigned sha3 E signed authorityPubkey policy.ledger
      now) ?_
    unfold admitSigned
    split
    · exact .refused _
    · exact admitThresholdSigned_cases sha3 roster signed.intoThreshold policy.ledger now _
  | signedPruned signed authorityPubkey minReputation =>
    show Outcome _ _ _ _ _ (roster.admitSignedPruned sha3 E signed authorityPubkey policy
      minReputation now)
    unfold admitSignedPruned
    split
    · exact .refused _
    · exact admitThresholdSignedPruned_cases sha3 roster signed.intoThreshold policy now _ _

end Cases

end RelayRoster

end Aegis
