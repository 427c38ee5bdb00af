import Aegis.Topology.RosterLoad

/-!
# Admission needs a threshold of authorities (`roster.rs`)

A consortium is built from the keys of its authorities.  Under an ideal signature scheme a
signature that verifies is one that its authority made, over a record; and the bytes that are
signed determine the record.

* `canonicalRecordBytes_injective` — no two records have the same bytes.
* `ThresholdConsortium.signed_of_verifyThreshold` — enough authorities have signed this record.
-/

namespace Aegis

open Buffer

/-! ## The bytes of a record -/

theorem ascii_injective : Function.Injective ascii := by
  intro s s' h
  unfold ascii at h
  have hbytes : s.toUTF8 = s'.toUTF8 := ByteArray.ext (Array.toList_inj.mp h)
  exact String.toByteArray_inj.mp hbytes

/-- **The encoding is injective**: the two fields around the jurisdiction have a fixed length. -/
theorem canonicalRecordBytes_injective : Function.Injective canonicalRecordBytes := by
  intro record record' h
  obtain ⟨id, jurisdiction, commitment⟩ := record
  obtain ⟨id', jurisdiction', commitment'⟩ := record'
  unfold canonicalRecordBytes at h
  have hlast : commitment.toList.length = commitment'.toList.length := by simp
  obtain ⟨hfront, hcommitment⟩ := List.append_inj' h hlast
  have hfirst : id.toList.length = id'.toList.length := by simp
  obtain ⟨hid, hjurisdiction⟩ := List.append_inj hfront hfirst
  obtain rfl : id = id' := Subtype.ext hid
  obtain rfl : commitment = commitment' := Subtype.ext hcommitment
  obtain rfl := ascii_injective hjurisdiction
  rfl

/-! ## Building a consortium -/

namespace ThresholdConsortium

section Build

variable {SK VK : Type} (E : Ed25519 SK VK)

/-- `ThresholdConsortium::from_raw_pubkeys`; `fromBytes` is `VerifyingKey::from_bytes`. -/
def fromRawPubkeys (fromBytes : Bytes 32 → Option VK) (threshold : ℕ)
    (pubkeys : List (Bytes 32)) : Except RosterError (ThresholdConsortium E) :=
  match pubkeys.mapM fromBytes with
  | none => .error .invalidAuthorityPubkey
  | some authorities => new E threshold authorities

/-- `ThresholdConsortium::single`; see `new_single`. -/
def single (authority : VK) : ThresholdConsortium E :=
  ⟨1, [authority], index E [authority], index_spec [authority]⟩

/-- A single authority is a valid consortium. -/
theorem new_single (authority : VK) : new E 1 [authority] = .ok (single E authority) := by
  have hlength : (index E [authority]).entries.length = 1 := by
    unfold index
    rw [List.foldl_cons, List.foldl_nil, AList.entries_insert_of_notMem (AList.notMem_empty _)]
    rfl
  simp [new, hlength, single]

variable {E}

/-- What is accepted keeps the authorities and the threshold. -/
theorem of_new {threshold : ℕ} {authorities : List VK} {c : ThresholdConsortium E}
    (h : new E threshold authorities = .ok c) :
    c.threshold = threshold ∧ c.authorities = authorities := by
  unfold new at h
  split_ifs at h
  obtain rfl := Except.ok.inj h
  exact ⟨rfl, rfl⟩

/-- Raw keys are accepted as their verifying keys are. -/
theorem of_fromRawPubkeys {fromBytes : Bytes 32 → Option VK} {threshold : ℕ}
    {pubkeys : List (Bytes 32)} {c : ThresholdConsortium E}
    (h : fromRawPubkeys E fromBytes threshold pubkeys = .ok c) :
    ∃ authorities, pubkeys.mapM fromBytes = some authorities ∧
      new E threshold authorities = .ok c := by
  unfold fromRawPubkeys at h
  split at h
  · cases h
  · rename_i authorities hauthorities
    exact ⟨authorities, hauthorities, h⟩

end Build

/-! ## What a verified admission shows -/

section Ideal

variable {SK VK : Type} {E : Ed25519 SK VK}

/-- An ideal scheme: what verifies under an authority's key is a record that it has signed. -/
def Ideal (E : Ed25519 SK VK) (authorities : List VK) (made : VK → RelayRecord → Prop) : Prop :=
  ∀ vk ∈ authorities, ∀ m sig, E.verify vk m sig = true →
    ∃ record, made vk record ∧ m = canonicalRecordBytes record

/-- Under an ideal scheme a signature over a record's bytes is one of this record. -/
theorem made_of_verifies {authorities : List VK} {made : VK → RelayRecord → Prop}
    (hideal : Ideal E authorities made) {s : AuthorityAdmissionSignature} {record : RelayRecord}
    {vk : VK} (hvk : vk ∈ authorities) (h : s.Verifies E record vk) : made vk record := by
  obtain ⟨hlength, hverify⟩ := h
  obtain ⟨record', hmade, hbytes⟩ := hideal vk hvk _ _ hverify
  rw [canonicalRecordBytes_injective hbytes]
  exact hmade

/-- The signers of an admission, one for each key that counts. -/
theorem exists_signers {c : ThresholdConsortium E} {a : ThresholdSignedRelayRecord}
    (h : ThresholdSigned c a) :
    ∃ signers : List VK, c.threshold ≤ signers.length ∧ (signers.map E.toBytes).Nodup ∧
      ∀ vk ∈ signers, vk ∈ c.authorities ∧ SignedBy E a vk := by
  obtain ⟨keys, hcard, hkeys⟩ := h
  have hsigner : ∀ pk : keys, ∃ vk ∈ c.authorities, E.toBytes vk = pk ∧ SignedBy E a vk :=
    fun pk => hkeys pk pk.2
  choose signer hmem hbytes hsigned using hsigner
  refine ⟨keys.attach.toList.map signer, ?_, ?_, ?_⟩
  · rw [List.length_map, Finset.length_toList, Finset.card_attach]
    exact hcard
  · have hmap : (keys.attach.toList.map signer).map E.toBytes =
        keys.attach.toList.map Subtype.val := by
      rw [List.map_map]
      exact List.map_congr_left fun pk _ => hbytes pk
    rw [hmap]
    exact keys.attach.nodup_toList.map Subtype.val_injective
  · intro vk hvk
    obtain ⟨pk, -, rfl⟩ := List.mem_map.mp hvk
    exact ⟨hmem pk, hsigned pk⟩

/-- **Admission threshold soundness.**  When a record's signatures verify against a consortium
that was built from `authorities`, at least `threshold` of these, no two with the same key, have
signed this record; and no two records have the same bytes. -/
theorem signed_of_verifyThreshold (E : Ed25519 SK VK) (fromBytes : Bytes 32 → Option VK)
    (threshold : ℕ) (authorities : List VK) (c : ThresholdConsortium E)
    (hc : new E threshold authorities = .ok c ∨
      ∃ pubkeys : List (Bytes 32), pubkeys.mapM fromBytes = some authorities ∧
        fromRawPubkeys E fromBytes threshold pubkeys = .ok c)
    (made : VK → RelayRecord → Prop) (hideal : Ideal E authorities made)
    (a : ThresholdSignedRelayRecord) (hverify : a.verifyThreshold c = .ok ()) :
    (∃ signers : List VK, threshold ≤ signers.length ∧ (signers.map E.toBytes).Nodup ∧
        ∀ vk ∈ signers, vk ∈ authorities ∧ made vk a.record) ∧
      Function.Injective canonicalRecordBytes := by
  have hnew : new E threshold authorities = .ok c := by
    rcases hc with hc | ⟨pubkeys, hpubkeys, hc⟩
    · exact hc
    · obtain ⟨authorities', hauthorities', hc'⟩ := of_fromRawPubkeys hc
      obtain rfl := Option.some.inj (hpubkeys.symm.trans hauthorities')
      exact hc'
  obtain ⟨rfl, rfl⟩ := of_new hnew
  refine ⟨?_, canonicalRecordBytes_injective⟩
  obtain ⟨signers, hlength, hnodup, hsigners⟩ :=
    exists_signers (ThresholdSignedRelayRecord.thresholdSigned_of_verifyThreshold hverify)
  refine ⟨signers, hlength, hnodup, fun vk hvk => ?_⟩
  obtain ⟨hmem, sig, -, -, hverifies⟩ := hsigners vk hvk
  exact ⟨hmem, made_of_verifies hideal hmem hverifies⟩

open RelayRoster in
/-- A scheme under which the keys 1 and 2 have signed `checksumRecord`, and nothing else. -/
def recordEd25519 : Ed25519 UInt8 UInt8 :=
  { HealthQuorumLog.checksumEd25519 with
    verify := fun key m signature =>
      decide (key ∈ [1, 2] ∧ m = canonicalRecordBytes checksumRecord ∧
        signature = List.Vector.replicate advertSigLen key) }

open RelayRoster in
theorem signed_of_verifyThreshold_checksum :
    ∃ signers : List UInt8, 2 ≤ signers.length ∧ (signers.map recordEd25519.toBytes).Nodup ∧
      ∀ vk ∈ signers, vk ∈ [1, 2, 3] ∧ vk ∈ [1, 2] := by
  have hlength : (index recordEd25519 [1, 2, 3]).entries.length = 3 := by decide +kernel
  have hnew : new recordEd25519 2 [1, 2, 3] =
      .ok ⟨2, [1, 2, 3], index _ [1, 2, 3], index_spec [1, 2, 3]⟩ := by
    simp [new, hlength]
  have hideal : Ideal recordEd25519 [1, 2, 3]
      fun vk record => vk ∈ [1, 2] ∧ record = checksumRecord := by
    intro vk _ m sig h
    obtain ⟨hvk, rfl, -⟩ := of_decide_eq_true h
    exact ⟨checksumRecord, ⟨hvk, rfl⟩, rfl⟩
  -- the second signature repeats the first
  obtain ⟨⟨signers, hlength, hnodup, hsigners⟩, -⟩ := signed_of_verifyThreshold recordEd25519
    (fun _ => none) 2 [1, 2, 3] _ (.inl hnew) _ hideal
    ⟨checksumRecord, [2, 2, 1].map fun key => signAuthority recordEd25519 key checksumRecord⟩
    (by decide +kernel)
  exact ⟨signers, hlength, hnodup, fun vk hvk => ⟨(hsigners vk hvk).1, (hsigners vk hvk).2.1⟩⟩

end Ideal

end ThresholdConsortium

end Aegis
