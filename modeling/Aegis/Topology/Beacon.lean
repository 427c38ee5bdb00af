import Aegis.Lib.OrderedMap
import Aegis.Lib.Sampling
import Aegis.Topology.Roster

/-!
# The beacon (`beacon.rs`)

Every round has its public randomness, from which the committee of the round is drawn.  The
randomness is a threshold signature of the round: the shares are collected as they arrive, and
verified when they are combined.

* `committee_of_committeeFromRandomness` — **a committee is as many members of the pool as there
  are, and a larger one begins with it**.
* `available_iff_lastVerify` — **the randomness is available if and only if the last share for each
  index is valid**, once enough valid shares have been submitted.
-/

namespace Aegis

open Buffer Sampling

/-! ## Committees -/

/-- Where the committee swaps its place `i` with, in a pool of `n`. -/
def committeeIndex (sha3 : List UInt8 → Bytes 32) (randomness : Bytes 32) (n i : ℕ) : ℕ :=
  let digest := sha3 (randomness.toList ++ leBytes 8 i)
  let raw := leValue ((getRange 0 8 digest.toList).getD (List.replicate 8 0))
  i + raw % (n - i)

/-- The committee that a random value draws from a pool. -/
def committeeFromRandomness (sha3 : List UInt8 → Bytes 32) (randomness : Bytes 32)
    (pool : List RelayId) (committeeSize : ℕ) : List RelayId :=
  if pool = [] ∨ committeeSize = 0 then []
  else
    let n := pool.length
    let take := min committeeSize n
    (swapTo (committeeIndex sha3 randomness n) (List.range take) pool).take take

/-- The committee of a round, of a beacon's randomness. -/
def committeeForRound (sha3 : List UInt8 → Bytes 32) (randomness : UInt64 → Bytes 32)
    (pool : List RelayId) (round : UInt64) (committeeSize : ℕ) : List RelayId :=
  committeeFromRandomness sha3 (randomness round) pool committeeSize

section Committees

variable (sha3 : List UInt8 → Bytes 32) (randomness : Bytes 32)

theorem le_committeeIndex (n i : ℕ) : i ≤ committeeIndex sha3 randomness n i :=
  Nat.le_add_right i _

/-- An empty committee, or one of an empty pool, is no exception. -/
theorem committeeFromRandomness_eq (pool : List RelayId) (k : ℕ) :
    committeeFromRandomness sha3 randomness pool k =
      (swapTo (committeeIndex sha3 randomness pool.length) (List.range (min k pool.length))
        pool).take (min k pool.length) := by
  unfold committeeFromRandomness
  split_ifs with h
  · have hzero : min k pool.length = 0 := by
      rcases h with rfl | rfl
      · exact Nat.min_zero k
      · exact Nat.zero_min _
    rw [hzero, List.take_zero]
  · rfl

/-- **A committee is as many members of the pool as there are, and a larger one begins with
it.** -/
theorem committee_of_committeeFromRandomness {pool : List RelayId} (h : pool.Nodup) (k : ℕ) :
    (committeeFromRandomness sha3 randomness pool k).length = min k pool.length ∧
      (committeeFromRandomness sha3 randomness pool k).Nodup ∧
      (∀ id ∈ committeeFromRandomness sha3 randomness pool k, id ∈ pool) ∧
      ∀ k', k ≤ k' →
        committeeFromRandomness sha3 randomness pool k <+:
          committeeFromRandomness sha3 randomness pool k' := by
  have hperm := swapTo_perm (committeeIndex sha3 randomness pool.length)
    (List.range (min k pool.length)) pool
  rw [committeeFromRandomness_eq]
  refine ⟨?_, ?_, ?_, ?_⟩
  · rw [List.length_take, hperm.length_eq, Nat.min_assoc, Nat.min_self]
  · exact (hperm.nodup_iff.mpr h).sublist (List.take_sublist _ _)
  · intro id hid
    exact hperm.mem_iff.mp (List.mem_of_mem_take hid)
  · intro k' hk
    have hmin : min k pool.length ≤ min k' pool.length := min_le_min_right _ hk
    rw [committeeFromRandomness_eq,
      ← take_swapTo_range (le_committeeIndex sha3 randomness pool.length) hmin pool]
    exact List.take_prefix_take_left hmin

/-- Three relays, of which the committee of two is the third and the first. -/
theorem committee_of_committeeFromRandomness_threeRelays :
    [.replicate 32 3, .replicate 32 1] <+:
      committeeFromRandomness (fun _ => .replicate 32 1) (.replicate 32 0)
        [.replicate 32 1, .replicate 32 2, .replicate 32 3] 3 := by
  have htwo : committeeFromRandomness (fun _ => .replicate 32 1) (.replicate 32 0)
      [.replicate 32 1, .replicate 32 2, .replicate 32 3] 2 =
        [.replicate 32 3, .replicate 32 1] := by decide +kernel
  rw [← htwo]
  exact (committee_of_committeeFromRandomness (fun _ => .replicate 32 1) (.replicate 32 0)
    (by decide) 2).2.2.2 3 (by decide)

end Committees

/-! ## Signatures -/

/-- A threshold signature scheme: shares of a message are combined to its signature. -/
structure ThresholdSignatures (PublicKeySet SignatureShare Signature : Type) where
  threshold : PublicKeySet → ℕ
  /-- `pk_set.public_key_share(i).verify(share, msg)`. -/
  verifyShare : PublicKeySet → UInt64 → SignatureShare → List UInt8 → Bool
  combineSignatures : PublicKeySet → List (UInt64 × SignatureShare) → Option Signature
  /-- `pk_set.public_key().verify(sig, msg)`. -/
  verify : PublicKeySet → Signature → List UInt8 → Bool
  toBytes : Signature → List UInt8

section Beacons

variable {PublicKeySet SignatureShare Signature : Type}

/-- There is one signature of a message, and it is valid: more valid shares than the threshold are
combined to it. -/
def ThresholdSignatures.Unique
    (T : ThresholdSignatures PublicKeySet SignatureShare Signature) : Prop :=
  ∀ pkSet msg, ∃ sig, T.verify pkSet sig msg = true ∧
    ∀ shares : List (UInt64 × SignatureShare), (shares.map Prod.fst).Nodup →
      T.threshold pkSet < shares.length →
      (∀ e ∈ shares, T.verifyShare pkSet e.1 e.2 msg = true) →
      T.combineSignatures pkSet shares = some sig

/-! ## The beacon -/

/-- What a round of the beacon fails with. -/
inductive BeaconError where
  | noSharesForRound (round : UInt64)
  | insufficientShares
  | invalidShare (index : UInt64)
  | invalidCombinedSignature
  | participantOutOfRange (index : UInt64)
  deriving DecidableEq

/-- What the members of the committee sign. -/
def beaconRoundMessage (round : UInt64) : List UInt8 := ascii "aegis-beacon-v1" ++ u64Bytes round

/-- The shares that were collected, of every round, by the index of their participant. -/
structure ThresholdBeacon (PublicKeySet SignatureShare : Type) where
  pkSet : PublicKeySet
  sharesByRound : OrderedMap UInt64 (OrderedMap UInt64 SignatureShare)

namespace ThresholdBeacon

/-- A beacon without rounds. -/
def new (pkSet : PublicKeySet) : ThresholdBeacon PublicKeySet SignatureShare := ⟨pkSet, .empty⟩

/-- The shares are recorded as they arrive. -/
def addShares (b : ThresholdBeacon PublicKeySet SignatureShare) (round : UInt64)
    (shares : List (UInt64 × SignatureShare)) : ThresholdBeacon PublicKeySet SignatureShare :=
  let entry := (b.sharesByRound.get round).getD .empty
  { b with sharesByRound := b.sharesByRound.insert round (entry.insertAll shares) }

/-- A beacon with the shares of one round. -/
def fromQuorum (pkSet : PublicKeySet) (round : UInt64) (shares : OrderedMap UInt64 SignatureShare) :
    ThresholdBeacon PublicKeySet SignatureShare :=
  (new pkSet).addShares round shares.entries

variable (T : ThresholdSignatures PublicKeySet SignatureShare Signature)
  (sha3 : List UInt8 → Bytes 32)

/-- The shares are verified, combined and hashed. -/
def randomnessResult (b : ThresholdBeacon PublicKeySet SignatureShare) (round : UInt64) :
    Except BeaconError (Bytes 32) :=
  match b.sharesByRound.get round with
  | none => .error (.noSharesForRound round)
  | some shares =>
    let msg := beaconRoundMessage round
    match shares.entries.find? fun e => !T.verifyShare b.pkSet e.1 e.2 msg with
    | some e => .error (.invalidShare e.1)
    | none =>
      match T.combineSignatures b.pkSet shares.entries with
      | none => .error .insufficientShares
      | some combined =>
        if T.verify b.pkSet combined msg then .ok (sha3 (T.toBytes combined))
        else .error .invalidCombinedSignature

/-- A round without randomness has a sentinel. -/
def randomness (b : ThresholdBeacon PublicKeySet SignatureShare) (round : UInt64) : Bytes 32 :=
  match b.randomnessResult T sha3 round with
  | .ok r => r
  | .error _ => sha3 (ascii "aegis-beacon-missing-quorum" ++ u64Bytes round)

/-! ## Submissions -/

/-- The beacon after these calls of `add_shares`, of a round and its shares each. -/
def collected (pkSet : PublicKeySet) (calls : List (UInt64 × List (UInt64 × SignatureShare))) :
    ThresholdBeacon PublicKeySet SignatureShare :=
  calls.foldl (fun b call => b.addShares call.1 call.2) (new pkSet)

/-- What was submitted for the round, whatever the index claimed. -/
def submitted (calls : List (UInt64 × List (UInt64 × SignatureShare))) (round : UInt64) :
    List (UInt64 × SignatureShare) :=
  calls.flatMap fun call => if call.1 = round then call.2 else []

/-- More participants than the threshold have submitted a valid share for the round. -/
def Enough (pkSet : PublicKeySet) (round : UInt64)
    (calls : List (UInt64 × List (UInt64 × SignatureShare))) : Prop :=
  ∃ indices : List UInt64, indices.Nodup ∧ T.threshold pkSet < indices.length ∧
    ∀ i ∈ indices, ∃ share, (i, share) ∈ submitted calls round ∧
      T.verifyShare pkSet i share (beaconRoundMessage round) = true

/-- The round has its randomness, the one that every other collection of enough shares has. -/
def Available (pkSet : PublicKeySet) (round : UInt64)
    (calls : List (UInt64 × List (UInt64 × SignatureShare))) : Prop :=
  ∃ r, (collected pkSet calls).randomnessResult T sha3 round = .ok r ∧
    ∀ calls', Enough T pkSet round calls' →
      ∀ r', (collected pkSet calls').randomnessResult T sha3 round = .ok r' → r' = r

/-- The last share that was submitted for the round by each index is valid. -/
def LastVerify (pkSet : PublicKeySet) (round : UInt64)
    (calls : List (UInt64 × List (UInt64 × SignatureShare))) : Prop :=
  ∀ i share, (submitted calls round).reverse.lookup i = some share →
    T.verifyShare pkSet i share (beaconRoundMessage round) = true

/-- A quorum is one call. -/
theorem fromQuorum_eq (pkSet : PublicKeySet) (round : UInt64)
    (shares : OrderedMap UInt64 SignatureShare) :
    fromQuorum pkSet round shares = collected pkSet [(round, shares.entries)] := rfl

section Runs

variable {T sha3} {pkSet : PublicKeySet} {round : UInt64}
  {calls : List (UInt64 × List (UInt64 × SignatureShare))}

theorem pkSet_collected : (collected pkSet calls).pkSet = pkSet := by
  refine Run.foldl_preserves
    (fun b : ThresholdBeacon PublicKeySet SignatureShare => b.pkSet = pkSet) ?_ rfl
  intro b call _ h
  exact h

/-- The shares of a round are what was submitted for it, one call after another. -/
theorem shares_foldl (b : ThresholdBeacon PublicKeySet SignatureShare) :
    ((calls.foldl (fun b call => b.addShares call.1 call.2) b).sharesByRound.get round).getD
        .empty =
      ((b.sharesByRound.get round).getD .empty).insertAll (submitted calls round) := by
  induction calls generalizing b with
  | nil => rfl
  | cons call calls ih =>
    rw [List.foldl_cons, ih]
    unfold submitted
    rw [List.flatMap_cons, OrderedMap.insertAll_append]
    unfold addShares
    simp only [OrderedMap.get_insert]
    by_cases hround : call.1 = round
    · rw [if_pos hround.symm, if_pos hround, hround, Option.getD_some]
    · rw [if_neg (Ne.symm hround), if_neg hround]
      rfl

/-- The shares that are verified and combined. -/
def sharesOf (calls : List (UInt64 × List (UInt64 × SignatureShare))) (round : UInt64) :
    OrderedMap UInt64 SignatureShare :=
  OrderedMap.empty.insertAll (submitted calls round)

theorem get_sharesOf (i : UInt64) :
    (sharesOf calls round).get i = (submitted calls round).reverse.lookup i := by
  rw [sharesOf, OrderedMap.get_insertAll, OrderedMap.get_empty, Option.or_none]

/-- Where a share was submitted, there are shares. -/
theorem sharesByRound_collected {e : UInt64 × SignatureShare}
    (he : e ∈ (sharesOf calls round).entries) :
    (collected pkSet calls).sharesByRound.get round = some (sharesOf calls round) := by
  have hshares : ((collected pkSet calls).sharesByRound.get round).getD .empty =
      sharesOf calls round := shares_foldl (new pkSet)
  cases hget : (collected pkSet calls).sharesByRound.get round with
  | none =>
    rw [hget, Option.getD_none] at hshares
    rw [← hshares] at he
    exact absurd he List.not_mem_nil
  | some shares =>
    rw [hget, Option.getD_some] at hshares
    rw [hshares]

/-- Enough valid shares leave enough to combine, valid or not. -/
theorem threshold_lt_of_enough (h : Enough T pkSet round calls) :
    T.threshold pkSet < (sharesOf calls round).entries.length := by
  obtain ⟨indices, hnodup, hthreshold, hvalid⟩ := h
  refine hthreshold.trans_le ?_
  have hsubset : indices ⊆ (sharesOf calls round).entries.map Prod.fst := by
    intro i hi
    obtain ⟨share, hmem, -⟩ := hvalid i hi
    have hkey : i ∈ (submitted calls round).reverse.map Prod.fst :=
      List.mem_map_of_mem (List.mem_reverse.mpr hmem)
    obtain ⟨last, hlast⟩ := OrderedMap.exists_lookup_of_mem hkey
    exact List.mem_map_of_mem (OrderedMap.mem_entries_iff.mpr ((get_sharesOf i).trans hlast))
  rw [← List.length_map Prod.fst]
  exact (hnodup.subperm hsubset).length_le

theorem verify_of_mem (h : LastVerify T pkSet round calls) {e : UInt64 × SignatureShare}
    (he : e ∈ (sharesOf calls round).entries) :
    T.verifyShare pkSet e.1 e.2 (beaconRoundMessage round) = true :=
  h e.1 e.2 ((get_sharesOf e.1).symm.trans (OrderedMap.mem_entries_iff.mp he))

/-- Valid shares are combined to the signature. -/
theorem randomnessResult_of_lastVerify {sig : Signature}
    (hverify : T.verify pkSet sig (beaconRoundMessage round) = true)
    (hcombine : ∀ shares : List (UInt64 × SignatureShare), (shares.map Prod.fst).Nodup →
      T.threshold pkSet < shares.length →
      (∀ e ∈ shares, T.verifyShare pkSet e.1 e.2 (beaconRoundMessage round) = true) →
      T.combineSignatures pkSet shares = some sig)
    (henough : Enough T pkSet round calls) (hlast : LastVerify T pkSet round calls) :
    (collected pkSet calls).randomnessResult T sha3 round = .ok (sha3 (T.toBytes sig)) := by
  have hthreshold := threshold_lt_of_enough henough
  obtain ⟨e, he⟩ := List.exists_mem_of_length_pos (Nat.zero_lt_of_lt hthreshold)
  have hnone : (sharesOf calls round).entries.find?
      (fun e => !T.verifyShare pkSet e.1 e.2 (beaconRoundMessage round)) = none := by
    rw [List.find?_eq_none]
    intro e' he'
    rw [verify_of_mem hlast he']
    decide
  unfold randomnessResult
  rw [sharesByRound_collected he, pkSet_collected]
  simp only [hnone, hcombine _ (OrderedMap.nodup_keys _) hthreshold
    (fun e' he' => verify_of_mem hlast he'), hverify, if_true]

/-- A share that is not valid leaves the round without randomness. -/
theorem lastVerify_of_randomnessResult {r : Bytes 32}
    (h : (collected pkSet calls).randomnessResult T sha3 round = .ok r) :
    LastVerify T pkSet round calls := by
  intro i share hlast
  have he : (i, share) ∈ (sharesOf calls round).entries :=
    OrderedMap.mem_entries_iff.mpr ((get_sharesOf i).trans hlast)
  unfold randomnessResult at h
  rw [sharesByRound_collected he, pkSet_collected] at h
  simp only at h
  split at h
  · cases h
  · rename_i hnone
    have hvalid := List.find?_eq_none.mp hnone (i, share) he
    simpa using hvalid

/-- **The randomness is available if and only if the last share for each index is valid**, once
enough valid shares have been submitted. -/
theorem available_iff_lastVerify (hunique : T.Unique) (henough : Enough T pkSet round calls) :
    Available T sha3 pkSet round calls ↔ LastVerify T pkSet round calls := by
  obtain ⟨sig, hverify, hcombine⟩ := hunique pkSet (beaconRoundMessage round)
  constructor
  · rintro ⟨r, hr, -⟩
    exact lastVerify_of_randomnessResult hr
  · intro hlast
    refine ⟨_, randomnessResult_of_lastVerify hverify hcombine henough hlast, ?_⟩
    intro calls' henough' r' hr'
    have hlast' := lastVerify_of_randomnessResult hr'
    rw [randomnessResult_of_lastVerify hverify hcombine henough' hlast'] at hr'
    exact (Except.ok.inj hr').symm

/-- So whoever has collected enough shares draws the same committee, if the last ones are valid. -/
theorem committeeForRound_eq (hunique : T.Unique)
    {calls' : List (UInt64 × List (UInt64 × SignatureShare))}
    (henough : Enough T pkSet round calls) (hlast : LastVerify T pkSet round calls)
    (henough' : Enough T pkSet round calls') (hlast' : LastVerify T pkSet round calls')
    (pool : List RelayId) (committeeSize : ℕ) :
    committeeForRound sha3 ((collected pkSet calls).randomness T sha3) pool round committeeSize =
      committeeForRound sha3 ((collected pkSet calls').randomness T sha3) pool round
        committeeSize := by
  obtain ⟨sig, hverify, hcombine⟩ := hunique pkSet (beaconRoundMessage round)
  unfold committeeForRound randomness
  rw [randomnessResult_of_lastVerify hverify hcombine henough hlast,
    randomnessResult_of_lastVerify hverify hcombine henough' hlast']

end Runs

/-- Signatures that hide nothing: a message signs itself, and a share of it names its index. -/
def plainSignatures : ThresholdSignatures ℕ (List UInt8) (List UInt8) where
  threshold := id
  verifyShare _ i share msg := share = u64Bytes i ++ msg
  combineSignatures threshold shares :=
    if threshold < shares.length then shares.head?.map fun e => e.2.drop 8 else none
  verify _ sig msg := sig = msg
  toBytes := id

theorem unique_plainSignatures : plainSignatures.Unique := by
  intro threshold msg
  refine ⟨msg, decide_eq_true rfl, ?_⟩
  intro shares _ hlength hvalid
  have hlong : threshold < shares.length := hlength
  change (if threshold < shares.length then shares.head?.map fun e => e.2.drop 8 else none) = _
  rw [if_pos hlong]
  cases shares with
  | nil => exact absurd hlength (Nat.not_lt_zero _)
  | cons e shares =>
    have hshare : e.2 = u64Bytes e.1 ++ msg := of_decide_eq_true (hvalid e List.mem_cons_self)
    rw [List.head?_cons, Option.map_some, hshare, List.drop_left' (length_u64Bytes e.1)]

/-- The share of a participant. -/
def plainShare (i round : UInt64) : UInt64 × List UInt8 :=
  (i, u64Bytes i ++ beaconRoundMessage round)

theorem enough_plainShares (calls : List (UInt64 × List (UInt64 × List UInt8)))
    (h : plainShare 0 7 ∈ submitted calls 7 ∧ plainShare 1 7 ∈ submitted calls 7) :
    Enough plainSignatures 1 7 calls := by
  refine ⟨[0, 1], by decide, by decide, ?_⟩
  intro i hi
  rcases List.mem_cons.mp hi with rfl | hi
  · exact ⟨_, h.1, by decide⟩
  · obtain rfl := List.mem_singleton.mp hi
    exact ⟨_, h.2, by decide⟩

/-- Two of two participants have submitted their shares, and one of them a second time after a
share that was not valid. -/
theorem available_iff_lastVerify_plainShares :
    Available plainSignatures (fun _ => .replicate 32 0) 1 7
        [(7, [plainShare 0 7, (1, [])]), (7, [plainShare 1 7])] ↔
      LastVerify plainSignatures 1 7 [(7, [plainShare 0 7, (1, [])]), (7, [plainShare 1 7])] :=
  available_iff_lastVerify unique_plainSignatures (enough_plainShares _ (by decide))

/-- **A third participant keeps the beacon from its randomness**, by a share that is not valid. -/
theorem not_available_of_invalid_share :
    plainSignatures.Unique ∧
      Enough plainSignatures 1 7 [(7, [plainShare 0 7, plainShare 1 7]), (7, [(2, [])])] ∧
      (collected (1 : ℕ) [(7, [plainShare 0 7, plainShare 1 7]), (7, [(2, [])])]).randomnessResult
        plainSignatures (fun _ => .replicate 32 0) 7 = .error (.invalidShare 2) ∧
      ¬Available plainSignatures (fun _ => .replicate 32 0) 1 7
        [(7, [plainShare 0 7, plainShare 1 7]), (7, [(2, [])])] := by
  have herror : (collected (1 : ℕ)
      [(7, [plainShare 0 7, plainShare 1 7]), (7, [(2, [])])]).randomnessResult plainSignatures
        (fun _ => .replicate 32 0) 7 = .error (.invalidShare 2) := by decide +kernel
  refine ⟨unique_plainSignatures, enough_plainShares _ (by decide), herror, ?_⟩
  rintro ⟨r, hr, -⟩
  rw [herror] at hr
  cases hr

end ThresholdBeacon

end Beacons

end Aegis
