import Aegis.Relay.HealthGossip
import Aegis.Relay.PeerHealth

/-!
# Inbound gossip without a quorum log (`peer_health.rs`, `health_gossip.rs`)

A verified advert is buffered under its subject and reporter, in the place of the one that was there.
When enough reporters and organisations have reported on a subject, their observations are merged
and forgotten.

* `PeerHealthTracker.ingestGossipObservation_of_quorum`, `…_of_not_quorum` — **an observation is
  merged with what is buffered, or buffered.**
* `acceptAdvert_of_acceptable`, `acceptAdvert_cases` — a refused advert leaves the tracker as it is.
-/

namespace Aegis

open Buffer

/-! ## The buffer -/

/-- The buffered observations have been merged, or quarantined, and are gone. -/
def GossipMergeOutcome.isMerge : GossipMergeOutcome → Bool
  | .buffered _ _ => false
  | .waitingDiversity _ _ _ => false
  | .applied _ _ => true
  | .quarantined _ _ => true

namespace PeerHealthTracker

section Ingest

variable (fl : ℚ → ℚ)

/-- What is buffered about a subject, by reporter. -/
def pendingOf (t : PeerHealthTracker) (subject : RelayId) :
    HashMap RelayId (Observation × List Char) :=
  (t.gossipPending.lookup subject).getD ∅

/-- `*pending.entry(subject).or_default() = by_reporter`. -/
def setPending (t : PeerHealthTracker) (subject : RelayId)
    (byReporter : HashMap RelayId (Observation × List Char)) : PeerHealthTracker :=
  { t with gossipPending := t.gossipPending.insert subject byReporter }

/-- What is buffered about the subject with this observation. -/
def buffered (t : PeerHealthTracker) (reporter subject : RelayId) (successes failures : UInt64)
    (diversityKey : List Char) : HashMap RelayId (Observation × List Char) :=
  (t.pendingOf subject).insert reporter
    ((successes, failures), normalizeDiversityKey diversityKey reporter)

/-- The observations of a buffer. -/
def observations (byReporter : HashMap RelayId (Observation × List Char)) : List Observation :=
  byReporter.entries.map fun e => e.2.1

/-- The diversity keys of a buffer. -/
def diversityKeys (byReporter : HashMap RelayId (Observation × List Char)) : List (List Char) :=
  byReporter.entries.map fun e => e.2.2

/-- Enough reporters and organisations for a merge. -/
def IsQuorum (policy : GossipMergePolicy)
    (byReporter : HashMap RelayId (Observation × List Char)) : Prop :=
  policy.majorityK ≤ byReporter.entries.length ∧
    policy.minOrgs ≤ distinctDiversityCount (diversityKeys byReporter)

/-- Buffer an observation, and merge the buffer if it is a quorum. -/
def ingestGossipObservation (t : PeerHealthTracker) (reporter subject : RelayId)
    (successes failures : UInt64) (diversityKey : List Char) :
    PeerHealthTracker × GossipMergeOutcome :=
  let k := t.policy.majorityK
  let minOrgs := t.policy.minOrgs
  let byReporter := t.buffered reporter subject successes failures diversityKey
  let have_ := byReporter.entries.length
  let distinctOrgs := distinctDiversityCount (diversityKeys byReporter)
  if have_ < k then (t.setPending subject byReporter, .buffered have_ k)
  else if distinctOrgs < minOrgs then
    (t.setPending subject byReporter, .waitingDiversity have_ distinctOrgs minOrgs)
  else
    (t.setPending subject ∅).finishMedianMerge fl subject (observations byReporter) have_
      distinctOrgs

variable {fl}

@[simp] theorem pendingOf_setPending (t : PeerHealthTracker) (subject : RelayId)
    (byReporter : HashMap RelayId (Observation × List Char)) :
    (t.setPending subject byReporter).pendingOf subject = byReporter := by
  simp [pendingOf, setPending]

theorem pendingOf_setPending_of_ne (t : PeerHealthTracker) {subject other : RelayId}
    (byReporter : HashMap RelayId (Observation × List Char)) (h : other ≠ subject) :
    (t.setPending subject byReporter).pendingOf other = t.pendingOf other := by
  simp [pendingOf, setPending, AList.lookup_insert_ne h]

/-- A merge changes the windows only. -/
theorem gossipPending_finishMedianMerge (t : PeerHealthTracker) (subject : RelayId)
    (obs : List Observation) (reporters distinctOrgs : ℕ) :
    (t.finishMedianMerge fl subject obs reporters distinctOrgs).1.gossipPending =
      t.gossipPending := by
  unfold finishMedianMerge applyGossipOutcomes
  split
  · rfl
  · dsimp only
    split_ifs <;> rfl

@[simp] theorem policy_finishMedianMerge (t : PeerHealthTracker) (subject : RelayId)
    (obs : List Observation) (reporters distinctOrgs : ℕ) :
    (t.finishMedianMerge fl subject obs reporters distinctOrgs).1.policy = t.policy := by
  unfold finishMedianMerge applyGossipOutcomes
  split
  · rfl
  · dsimp only
    split_ifs <;> rfl

theorem inner_applyGossipOutcomes {t t' : PeerHealthTracker} (hinner : t.inner = t'.inner)
    (peer : RelayId) (successes failures weightNum weightDen : UInt64) :
    (t.applyGossipOutcomes peer successes failures weightNum weightDen).inner =
      (t'.applyGossipOutcomes peer successes failures weightNum weightDen).inner := by
  unfold applyGossipOutcomes window
  dsimp only
  split_ifs
  · exact hinner
  · exact hinner
  · rw [hinner]

/-- What a merge makes of the windows depends on the windows and the policy. -/
theorem inner_finishMedianMerge {t t' : PeerHealthTracker} (hinner : t.inner = t'.inner)
    (hpolicy : t.policy = t'.policy) (subject : RelayId) (obs : List Observation)
    (reporters reporters' distinctOrgs distinctOrgs' : ℕ) :
    (t.finishMedianMerge fl subject obs reporters distinctOrgs).1.inner =
      (t'.finishMedianMerge fl subject obs reporters' distinctOrgs').1.inner := by
  unfold finishMedianMerge
  cases medianOutcomeCounts fl obs with
  | none => exact hinner
  | some counts =>
    have hquarantine : ∀ rate, t.eclipseHeuristicQuarantine fl subject rate =
        t'.eclipseHeuristicQuarantine fl subject rate := by
      intro rate
      unfold eclipseHeuristicQuarantine localRate
      rw [hinner, hpolicy]
    dsimp only
    rw [hquarantine, hpolicy]
    split_ifs
    · exact hinner
    · exact inner_applyGossipOutcomes hinner subject _ _ _ _

variable (fl) in
/-- **A quorum is merged and forgotten.** -/
theorem ingestGossipObservation_of_quorum {t : PeerHealthTracker} {reporter subject : RelayId}
    {successes failures : UInt64} {diversityKey : List Char}
    {byReporter : HashMap RelayId (Observation × List Char)}
    (hbuffered : t.buffered reporter subject successes failures diversityKey = byReporter)
    (h : IsQuorum t.policy byReporter) :
    t.ingestGossipObservation fl reporter subject successes failures diversityKey =
      (t.setPending subject ∅).finishMedianMerge fl subject (observations byReporter)
        byReporter.entries.length (distinctDiversityCount (diversityKeys byReporter)) := by
  unfold ingestGossipObservation
  dsimp only
  rw [hbuffered, if_neg (not_lt.mpr h.1), if_neg (not_lt.mpr h.2)]

/-- The outcome of a merge: `applied` or `quarantined`. -/
theorem isMerge_finishMedianMerge (t : PeerHealthTracker) (subject : RelayId)
    (obs : List Observation) (reporters distinctOrgs : ℕ) :
    (t.finishMedianMerge fl subject obs reporters distinctOrgs).2.isMerge = true := by
  rcases t.finishMedianMerge_cases fl subject obs reporters distinctOrgs with
    heq | ⟨t', heq⟩ <;> rw [heq] <;> rfl

variable (fl) in
/-- **Anything less is buffered.** -/
theorem ingestGossipObservation_of_not_quorum {t : PeerHealthTracker} {reporter subject : RelayId}
    {successes failures : UInt64} {diversityKey : List Char}
    {byReporter : HashMap RelayId (Observation × List Char)}
    (hbuffered : t.buffered reporter subject successes failures diversityKey = byReporter)
    (h : ¬IsQuorum t.policy byReporter) :
    ∃ outcome, t.ingestGossipObservation fl reporter subject successes failures diversityKey =
      (t.setPending subject byReporter, outcome) ∧ outcome.isMerge = false := by
  unfold ingestGossipObservation
  dsimp only
  rw [hbuffered]
  split_ifs with hfew hsame
  · exact ⟨_, rfl, rfl⟩
  · exact ⟨_, rfl, rfl⟩
  · exact absurd ⟨not_lt.mp hfew, not_lt.mp hsame⟩ h

end Ingest

end PeerHealthTracker

/-! ## Adverts -/

/-- What gossip uses of a `PeerInfo`. -/
structure GossipPeer where
  gossipVerifyingKey : Option (Bytes 32)
  orgId : Option (List Char)
  jurisdiction : Option (List Char)

/-- The bytes that are a verifying key: `VerifyingKey::from_bytes`. -/
abbrev DecodeKey (VK : Type) := Bytes 32 → Option VK

/-- Neither older than the limit nor more than two minutes ahead. -/
def skewOk (timestampSecs nowSecs maxAgeSecs : UInt64) : Bool :=
  if timestampSecs ≤ nowSecs then decide (nowSecs - timestampSecs ≤ maxAgeSecs)
  else decide (timestampSecs - nowSecs ≤ 120)

section Accept

variable {SK VK : Type} (E : Ed25519 SK VK) (decodeKey : DecodeKey VK) (fl : ℚ → ℚ)

/-- `accept_advert`: verify an advert of an admitted neighbour and buffer what it reports. -/
def acceptAdvert (advert : PeerHealthAdvert) (linkPeer : RelayId)
    (peerTable : HashMap RelayId GossipPeer) (nowSecs maxAgeSecs : UInt64)
    (t : PeerHealthTracker) :
    PeerHealthTracker × Except HealthGossipError GossipMergeOutcome :=
  if linkPeer ≠ advert.reporter then (t, .error .reporterMismatch)
  else
    match peerTable.lookup linkPeer with
    | none => (t, .error .unknownReporter)
    | some peer =>
      match peer.gossipVerifyingKey with
      | none => (t, .error .missingVerifyingKey)
      | some vkBytes =>
        match decodeKey vkBytes with
        | none => (t, .error .missingVerifyingKey)
        | some vk =>
          match advert.verify E vk with
          | .error e => (t, .error e)
          | .ok () =>
            if !skewOk advert.timestampSecs nowSecs maxAgeSecs then (t, .error .staleTimestamp)
            else
              let diver := gossipDiversityKey peer.orgId peer.jurisdiction advert.reporter
              let r := t.ingestGossipObservation fl advert.reporter advert.subject
                advert.successes advert.failures diver
              (r.1, .ok r.2)

/-- An advert that comes from its reporter, an admitted neighbour, is signed with its key and is
fresh. -/
structure Acceptable (advert : PeerHealthAdvert) (linkPeer : RelayId)
    (peerTable : HashMap RelayId GossipPeer) (nowSecs maxAgeSecs : UInt64) (peer : GossipPeer) :
    Prop where
  linkPeer_eq : linkPeer = advert.reporter
  admitted : peerTable.lookup linkPeer = some peer
  signed : ∃ vk, peer.gossipVerifyingKey.bind decodeKey = some vk ∧ advert.verify E vk = .ok ()
  fresh : skewOk advert.timestampSecs nowSecs maxAgeSecs = true

variable {E decodeKey fl}

/-- An acceptable advert is accepted, whatever the tracker. -/
theorem acceptAdvert_of_acceptable {advert : PeerHealthAdvert} {linkPeer : RelayId}
    {peerTable : HashMap RelayId GossipPeer} {nowSecs maxAgeSecs : UInt64} {peer : GossipPeer}
    (h : Acceptable E decodeKey advert linkPeer peerTable nowSecs maxAgeSecs peer)
    (t : PeerHealthTracker) :
    acceptAdvert E decodeKey fl advert linkPeer peerTable nowSecs maxAgeSecs t =
      ((t.ingestGossipObservation fl advert.reporter advert.subject advert.successes
          advert.failures (gossipDiversityKey peer.orgId peer.jurisdiction advert.reporter)).1,
        .ok (t.ingestGossipObservation fl advert.reporter advert.subject advert.successes
          advert.failures (gossipDiversityKey peer.orgId peer.jurisdiction advert.reporter)).2) := by
  obtain ⟨hlink, hpeer, ⟨vk, hbind, hverify⟩, hfresh⟩ := h
  obtain ⟨vkBytes, hkey, hvk⟩ := Option.bind_eq_some_iff.mp hbind
  unfold acceptAdvert
  rw [if_neg (not_not.mpr hlink), hpeer]
  dsimp only
  rw [hkey]
  dsimp only
  rw [hvk]
  dsimp only
  rw [hverify]
  dsimp only
  rw [if_neg (by simp [hfresh])]

variable (E decodeKey fl) in
/-- **An advert that is refused changes nothing**; any other is acceptable. -/
theorem acceptAdvert_cases (advert : PeerHealthAdvert) (linkPeer : RelayId)
    (peerTable : HashMap RelayId GossipPeer) (nowSecs maxAgeSecs : UInt64)
    (t : PeerHealthTracker) :
    (∃ e, acceptAdvert E decodeKey fl advert linkPeer peerTable nowSecs maxAgeSecs t =
        (t, .error e)) ∨
      ∃ peer, Acceptable E decodeKey advert linkPeer peerTable nowSecs maxAgeSecs peer := by
  unfold acceptAdvert
  by_cases hlink : linkPeer = advert.reporter
  · rw [if_neg (not_not.mpr hlink)]
    cases hpeer : peerTable.lookup linkPeer with
    | none => exact Or.inl ⟨_, rfl⟩
    | some peer =>
      dsimp only
      cases hkey : peer.gossipVerifyingKey with
      | none => exact Or.inl ⟨_, rfl⟩
      | some vkBytes =>
        dsimp only
        cases hvk : decodeKey vkBytes with
        | none => exact Or.inl ⟨_, rfl⟩
        | some vk =>
          dsimp only
          cases hverify : advert.verify E vk with
          | error e => exact Or.inl ⟨_, rfl⟩
          | ok _ =>
            dsimp only
            by_cases hfresh : skewOk advert.timestampSecs nowSecs maxAgeSecs = true
            · refine Or.inr ⟨peer, hlink, hpeer, ⟨vk, ?_, hverify⟩, hfresh⟩
              rw [hkey]
              exact hvk
            · rw [if_pos (by simp [hfresh])]
              exact Or.inl ⟨_, rfl⟩
  · rw [if_pos hlink]
    exact Or.inl ⟨_, rfl⟩

end Accept

end Aegis
