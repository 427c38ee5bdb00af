import Aegis.Lib.Binary64
import Aegis.Lib.Fallible
import Aegis.Relay.HealthQuorumLog
import Aegis.Trust.NullifierRegistry

/-!
# Anonymous credentials (`zk.rs`, `anon_issuer.rs`)

A credential bundles an epoch, a threshold, a range proof that a score meets it, and a
nullifier, and is signed by its issuer.  A verifier checks the signature and the proof, and
then registers the nullifier for the epoch.

* `issueFromBlindedRequest_buildBlindedRequest` — the blinded way issues what the open one does.
* `issueFromBlindedRequest_iff`, `verifyCredential_issue` — what is issued verifies.
* `verifyAndSpend_cases` — a credential is accepted if it verifies and is not spent, and is
  spent from then on.
-/

namespace Aegis

open Buffer

/-! ## Range proofs (`zk.rs`) -/

/-- Scores are counted in ten-thousandths. -/
def scoreScale : ℕ := 10000

/-- `scale_reputation`, on the number a double stands for. -/
def scaleReputation (value : ℚ) : UInt64 :=
  asU64 (roundNonneg (Binary64.mul (max 0 (min value 1)) scoreScale))

theorem scaleReputation_mono {q r : ℚ} (h : q ≤ r) : scaleReputation q ≤ scaleReputation r := by
  have hclamp : max 0 (min q 1) ≤ max 0 (min r 1) := max_le_max_left 0 (min_le_min_right 1 h)
  have hscaled : Binary64.mul (max 0 (min q 1)) scoreScale ≤
      Binary64.mul (max 0 (min r 1)) scoreScale :=
    Binary64.round_mono (mul_nonneg (le_max_left 0 _) (Nat.cast_nonneg _))
      (mul_le_mul_of_nonneg_right hclamp (Nat.cast_nonneg _))
  exact asU64_mono (Nat.floor_mono (add_le_add_left hscaled _))

/-- A range proof: the commitment, and the proof. -/
structure BulletproofsProof where
  commitment : Bytes 32
  rangeProof : List UInt8
  deriving DecidableEq

/-- What a client shows of its score: a proof, and the commitment in it once more. -/
structure AnonymousReputationPresentation where
  proof : BulletproofsProof
  scoreCommitment : Bytes 32
  deriving DecidableEq

/-- The primitives under a credential: Ed25519 and its key reader, the range proofs under a
transcript that starts with the threshold, and SHA3-256. -/
structure CredentialSuite (SK VK : Type) extends Ed25519 SK VK where
  fromBytes : Bytes 32 → Option VK
  /-- `RangeProof::prove_single` of `delta`, with the bytes its blinding is drawn from. -/
  proveSingle : (thresholdScaled delta : UInt64) → (blinding : Bytes 32) → BulletproofsProof
  /-- `RangeProof::from_bytes` and `verify_single`. -/
  verifySingle : (thresholdScaled : UInt64) → BulletproofsProof → Bool
  sha3 : List UInt8 → Bytes 32

namespace CredentialSuite

variable {SK VK : Type} (C : CredentialSuite SK VK)

/-- `BulletproofsReputationProof::prove`. -/
def prove (score threshold : ℚ) (blinding : Bytes 32) : BulletproofsProof :=
  let scoreScaled := scaleReputation score
  let thresholdScaled := scaleReputation threshold
  if scoreScaled < thresholdScaled then ⟨Bytes.zero 32, []⟩
  else C.proveSingle thresholdScaled (scoreScaled - thresholdScaled) blinding

/-- The presentation of a score; below the threshold its proof is an empty one. -/
def presentAnonymous (score threshold : ℚ) (blinding : Bytes 32) :
    AnonymousReputationPresentation :=
  ⟨C.prove score threshold blinding, (C.prove score threshold blinding).commitment⟩

/-- The commitments agree, and the proof is right for this threshold. -/
def verifyAnonymous (presentation : AnonymousReputationPresentation) (threshold : ℚ) : Bool :=
  decide (presentation.scoreCommitment = presentation.proof.commitment) &&
    C.verifySingle (scaleReputation threshold) presentation.proof

/-- What sets a nullifier apart. -/
def nullifierDomain : List UInt8 := ascii "aegis-anon-rep-nullifier-v1"

/-- The nullifier of a relay in an epoch. -/
def deriveReputationNullifier (relayId : RelayId) (epoch : UInt64) (blinding : Bytes 32) :
    ReputationNullifier :=
  C.sha3 (nullifierDomain ++ relayId.toList ++ u64Bytes epoch ++ blinding.toList)

/-- `verify_anonymous_and_spend`. -/
def verifyAnonymousAndSpend (registry : NullifierRegistry)
    (presentation : AnonymousReputationPresentation) (threshold : ℚ) (epoch : UInt64)
    (nullifier : ReputationNullifier) : Except NullifierError Bool × NullifierRegistry :=
  if C.verifyAnonymous presentation threshold then
    match registry.tryRegister epoch nullifier with
    | (.error e, registry') => (.error e, registry')
    | (.ok (), registry') => (.ok true, registry')
  else (.ok false, registry)

end CredentialSuite

/-! ## The issuer (`anon_issuer.rs`) -/

/-- What an issuer or a verifier fails with. -/
inductive IssuerError where
  | scoreBelowBand (score floor : ℚ)
  | invalidSignature
  | signerMismatch
  | commitmentMismatch
  | presentationInvalid
  | malformedKey
  | nullifier (e : NullifierError)
  deriving DecidableEq

/-- The issuer's key, as verifiers keep it. -/
structure AnonymousCredentialIssuerParams where
  version : UInt32
  provider : String
  verifyingKey : Bytes 32
  deriving DecidableEq

/-- A presentation and a nullifier, for an epoch and a score band, under the issuer's signature. -/
structure IssuedAnonymousCredential where
  epoch : UInt64
  scoreBandThreshold : ℚ
  presentation : AnonymousReputationPresentation
  nullifier : ReputationNullifier
  issuerPubkey : Bytes 32
  issuerSignature : List UInt8
  deriving DecidableEq

/-- What a client asks for, with neither its relay nor its score. -/
structure BlindedIssueRequest where
  epoch : UInt64
  scoreBandThreshold : ℚ
  presentation : AnonymousReputationPresentation
  nullifier : ReputationNullifier
  deriving DecidableEq

/-- What sets the issuer's signature apart. -/
def issuerSigDomain : List UInt8 := ascii "aegis-anon-cred-issuer-v1"

/-- What the issuer signs. -/
def canonicalBinding (epoch : UInt64) (scoreBandThreshold : ℚ) (scoreCommitment : Bytes 32)
    (nullifier : ReputationNullifier) : List UInt8 :=
  issuerSigDomain ++ u64Bytes epoch ++ u64Bytes (scaleReputation scoreBandThreshold) ++
    scoreCommitment.toList ++ nullifier.toList

namespace CredentialSuite

variable {SK VK : Type} (C : CredentialSuite SK VK)

/-- What everybody may know of an issuer. -/
def publicParams (key : SK) : AnonymousCredentialIssuerParams :=
  ⟨1, "software-v1", C.toBytes (C.verifyingKey key)⟩

/-- The issuer's signature over what a credential binds. -/
def signBinding (key : SK) (epoch : UInt64) (scoreBandThreshold : ℚ) (scoreCommitment : Bytes 32)
    (nullifier : ReputationNullifier) : List UInt8 :=
  (C.sign key (canonicalBinding epoch scoreBandThreshold scoreCommitment nullifier)).toList

/-- `AnonymousCredentialIssuer::issue`; `blinding` is the relay's, `opening` the proof's. -/
def issue (key : SK) (score scoreBandThreshold : ℚ) (relayId : RelayId) (epoch : UInt64)
    (blinding opening : Bytes 32) : Except IssuerError IssuedAnonymousCredential :=
  if score < scoreBandThreshold then .error (.scoreBelowBand score scoreBandThreshold)
  else
    let presentation := C.presentAnonymous score scoreBandThreshold opening
    let nullifier := C.deriveReputationNullifier relayId epoch blinding
    .ok ⟨epoch, scoreBandThreshold, presentation, nullifier, C.toBytes (C.verifyingKey key),
      C.signBinding key epoch scoreBandThreshold presentation.scoreCommitment nullifier⟩

/-- `AnonymousCredentialIssuer::build_blinded_request`. -/
def buildBlindedRequest (score scoreBandThreshold : ℚ) (relayId : RelayId) (epoch : UInt64)
    (blinding opening : Bytes 32) : Except IssuerError BlindedIssueRequest :=
  if score < scoreBandThreshold then .error (.scoreBelowBand score scoreBandThreshold)
  else .ok ⟨epoch, scoreBandThreshold, C.presentAnonymous score scoreBandThreshold opening,
    C.deriveReputationNullifier relayId epoch blinding⟩

/-- `AnonymousCredentialIssuer::issue_from_blinded_request`. -/
def issueFromBlindedRequest (key : SK) (request : BlindedIssueRequest) :
    Except IssuerError IssuedAnonymousCredential :=
  if request.presentation.scoreCommitment ≠ request.presentation.proof.commitment then
    .error .commitmentMismatch
  else if ¬C.verifyAnonymous request.presentation request.scoreBandThreshold then
    .error .presentationInvalid
  else .ok ⟨request.epoch, request.scoreBandThreshold, request.presentation, request.nullifier,
    C.toBytes (C.verifyingKey key), C.signBinding key request.epoch request.scoreBandThreshold
      request.presentation.scoreCommitment request.nullifier⟩

/-- The issuer has signed the credential. -/
def verifyIssuerBinding (params : AnonymousCredentialIssuerParams)
    (credential : IssuedAnonymousCredential) : Except IssuerError Bool :=
  if credential.issuerPubkey ≠ params.verifyingKey then .error .signerMismatch
  else
    match C.fromBytes params.verifyingKey with
    | none => .error .malformedKey
    | some vk =>
      if h : credential.issuerSignature.length = advertSigLen then
        .ok (C.verify vk (canonicalBinding credential.epoch credential.scoreBandThreshold
          credential.presentation.scoreCommitment credential.nullifier)
          ⟨credential.issuerSignature, h⟩)
      else .error .invalidSignature

/-- The credential is the issuer's, and its proof is right. -/
def verifyCredential (params : AnonymousCredentialIssuerParams)
    (credential : IssuedAnonymousCredential) : Except IssuerError Bool :=
  match C.verifyIssuerBinding params credential with
  | .error e => .error e
  | .ok false => .ok false
  | .ok true =>
    if credential.presentation.scoreCommitment ≠ credential.presentation.proof.commitment then
      .error .commitmentMismatch
    else .ok (C.verifyAnonymous credential.presentation credential.scoreBandThreshold)

/-- The credential is verified, and its nullifier spent. -/
def verifyAndSpend (params : AnonymousCredentialIssuerParams) (registry : NullifierRegistry)
    (credential : IssuedAnonymousCredential) : Except IssuerError Bool × NullifierRegistry :=
  match C.verifyIssuerBinding params credential with
  | .error e => (.error e, registry)
  | .ok false => (.ok false, registry)
  | .ok true =>
    if credential.presentation.scoreCommitment ≠ credential.presentation.proof.commitment then
      (.error .commitmentMismatch, registry)
    else
      match C.verifyAnonymousAndSpend registry credential.presentation
        credential.scoreBandThreshold credential.epoch credential.nullifier with
      | (res, registry') => (res.mapError .nullifier, registry')

/-- `AnonymousCredentialIssuer::rotate_epoch`. -/
def rotateEpoch (registry : NullifierRegistry) (oldEpoch : UInt64) : NullifierRegistry :=
  registry.forgetEpoch oldEpoch

/-! ## What is accepted -/

/-- The primitives do what they are for: keys are read back, and signatures and proofs that were
made verify. -/
structure Complete : Prop where
  fromBytes : ∀ vk, C.fromBytes (C.toBytes vk) = some vk
  verify : ∀ key message, C.verify (C.verifyingKey key) message (C.sign key message) = true
  verifySingle : ∀ threshold delta blinding,
    C.verifySingle threshold (C.proveSingle threshold delta blinding) = true

variable {C}

theorem verifyIssuerBinding_sign (hC : C.Complete) (key : SK)
    {credential : IssuedAnonymousCredential}
    (hpubkey : credential.issuerPubkey = C.toBytes (C.verifyingKey key))
    (hsig : credential.issuerSignature = C.signBinding key credential.epoch
      credential.scoreBandThreshold credential.presentation.scoreCommitment credential.nullifier) :
    C.verifyIssuerBinding (C.publicParams key) credential = .ok true := by
  have hlen : credential.issuerSignature.length = advertSigLen := by
    rw [hsig]
    exact List.Vector.toList_length _
  have hvector : ∀ (b : Bytes advertSigLen) (h : b.toList.length = advertSigLen),
      (⟨b.toList, h⟩ : Bytes advertSigLen) = b := fun b h => rfl
  unfold verifyIssuerBinding
  rw [if_neg (by simp [hpubkey, publicParams])]
  simp only [publicParams, hC.fromBytes]
  rw [dif_pos hlen]
  simp only [hsig, signBinding, hvector, hC.verify]

/-- The proof of a score that meets the threshold verifies. -/
theorem verifyAnonymous_presentAnonymous (hC : C.Complete) {score scoreBandThreshold : ℚ}
    (hscore : ¬score < scoreBandThreshold) (opening : Bytes 32) :
    C.verifyAnonymous (C.presentAnonymous score scoreBandThreshold opening) scoreBandThreshold =
      true := by
  have hproof : C.prove score scoreBandThreshold opening = C.proveSingle
      (scaleReputation scoreBandThreshold)
      (scaleReputation score - scaleReputation scoreBandThreshold) opening := by
    simp only [prove]
    rw [if_neg (UInt64.not_lt.mpr (scaleReputation_mono (not_lt.mp hscore)))]
  simp [verifyAnonymous, presentAnonymous, hproof, hC.verifySingle]

/-- **The blinded way issues what the open one does**, though the issuer sees neither the relay nor
its score. -/
theorem issueFromBlindedRequest_buildBlindedRequest (hC : C.Complete) (key : SK)
    (score scoreBandThreshold : ℚ) (relayId : RelayId) (epoch : UInt64)
    (blinding opening : Bytes 32) :
    (C.buildBlindedRequest score scoreBandThreshold relayId epoch blinding opening >>=
        C.issueFromBlindedRequest key) =
      C.issue key score scoreBandThreshold relayId epoch blinding opening := by
  unfold buildBlindedRequest issue
  split_ifs with hscore
  · rfl
  · have hproof := verifyAnonymous_presentAnonymous hC hscore opening
    have hcommitment : (C.presentAnonymous score scoreBandThreshold opening).scoreCommitment =
        (C.presentAnonymous score scoreBandThreshold opening).proof.commitment := rfl
    show C.issueFromBlindedRequest key _ = _
    unfold issueFromBlindedRequest
    dsimp only
    rw [if_neg (not_not_intro hcommitment), if_neg (not_not_intro hproof)]

/-- **What a request gets**: a credential that verifies, exactly if its proof does. -/
theorem issueFromBlindedRequest_iff (hC : C.Complete) (key : SK) (request : BlindedIssueRequest) :
    ((∃ credential, C.issueFromBlindedRequest key request = .ok credential) ↔
      C.verifyAnonymous request.presentation request.scoreBandThreshold = true) ∧
    ∀ credential, C.issueFromBlindedRequest key request = .ok credential →
      C.verifyCredential (C.publicParams key) credential = .ok true := by
  unfold issueFromBlindedRequest
  split_ifs with hcommitment hverify
  · refine ⟨iff_of_false nofun fun h => hcommitment ?_, nofun⟩
    exact of_decide_eq_true (Bool.and_eq_true_iff.mp h).1
  · refine ⟨iff_of_true ⟨_, rfl⟩ hverify, fun credential h => ?_⟩
    obtain rfl := Except.ok.inj h
    unfold verifyCredential
    rw [verifyIssuerBinding_sign hC key rfl rfl]
    simp only [if_neg hcommitment, hverify]
  · exact ⟨iff_of_false nofun hverify, nofun⟩

/-- **What is issued verifies.** -/
theorem verifyCredential_issue (hC : C.Complete) {key : SK} {score scoreBandThreshold : ℚ}
    {relayId : RelayId} {epoch : UInt64} {blinding opening : Bytes 32}
    {credential : IssuedAnonymousCredential}
    (h : C.issue key score scoreBandThreshold relayId epoch blinding opening = .ok credential) :
    C.verifyCredential (C.publicParams key) credential = .ok true := by
  rw [← issueFromBlindedRequest_buildBlindedRequest hC] at h
  obtain ⟨request, -, hrequest⟩ := Fallible.bind_eq_ok.mp h
  exact (issueFromBlindedRequest_iff hC key request).2 credential hrequest

/-- **A credential is accepted** if it verifies and is not spent, and is spent from then on. -/
theorem verifyAndSpend_cases (params : AnonymousCredentialIssuerParams)
    (registry : NullifierRegistry) (credential : IssuedAnonymousCredential) :
    (C.verifyCredential params credential ≠ .ok true ∧
        (C.verifyAndSpend params registry credential).1 ≠ .ok true ∧
        (C.verifyAndSpend params registry credential).2 = registry) ∨
      (C.verifyCredential params credential = .ok true ∧
        registry.isSpent credential.epoch credential.nullifier = true ∧
        (C.verifyAndSpend params registry credential).1 =
          .error (.nullifier (.alreadyUsed credential.epoch)) ∧
        ∀ e n, (C.verifyAndSpend params registry credential).2.isSpent e n =
          registry.isSpent e n) ∨
      (C.verifyCredential params credential = .ok true ∧
        registry.isSpent credential.epoch credential.nullifier = false ∧
        (C.verifyAndSpend params registry credential).1 = .ok true ∧
        ∀ e n, (C.verifyAndSpend params registry credential).2.isSpent e n = true ↔
          registry.isSpent e n = true ∨ (e = credential.epoch ∧ n = credential.nullifier)) := by
  unfold verifyCredential verifyAndSpend
  rcases C.verifyIssuerBinding params credential with e | bound
  · exact Or.inl ⟨by simp, by simp, rfl⟩
  cases bound with
  | false => exact Or.inl ⟨by simp, by simp, rfl⟩
  | true =>
    simp only
    split_ifs with hcommit
    · exact Or.inl ⟨by simp, by simp, rfl⟩
    unfold verifyAnonymousAndSpend
    cases hzk : C.verifyAnonymous credential.presentation credential.scoreBandThreshold with
    | false => exact Or.inl ⟨by simp, by simp [Except.mapError], rfl⟩
    | true =>
      rw [if_pos rfl]
      rcases registry.isSpent_tryRegister credential.epoch credential.nullifier with
        ⟨hspent, hres, hafter⟩ | ⟨hspent, hres, hafter⟩
      all_goals
        rcases htry : registry.tryRegister credential.epoch credential.nullifier with ⟨res, registry'⟩
        rw [htry] at hres hafter
        subst hres
      · exact Or.inr (Or.inl ⟨rfl, hspent, rfl, hafter⟩)
      · exact Or.inr (Or.inr ⟨rfl, hspent, rfl, hafter⟩)

end CredentialSuite

end Aegis
