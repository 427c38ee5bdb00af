import Aegis.Relay.GossipIngest
import Aegis.Relay.HealthQuorumLog

/-!
# What a merge is made of (`health_gossip.rs`, `peer_health.rs`)

Without a quorum log an advert is judged by its age alone.  A fresh one that arrives again is
buffered again, and takes the place of whatever its reporter has sent before.

A run keeps a record of what becomes of each delivery: the votes that are pending, and those of every
merge.  The relay itself has the tracker only.

* `Sound.deliver`, `sound_run` — one delivery keeps the record in step with the tracker, and so does
  every run.
* `votes_of_run` — **every merge takes the last accepted delivery of each of its reporters, and no
  delivery counts twice.**
* `not_counts_once` — but an advert counts as often as it is delivered, and an older one replaces a
  newer one.
-/

namespace Aegis

open Buffer

/-! ## Runs -/

/-- An advert that arrives, and what the relay judges it by. -/
structure Delivery where
  advert : PeerHealthAdvert
  linkPeer : RelayId
  peerTable : HashMap RelayId GossipPeer
  nowSecs : UInt64
  maxAgeSecs : UInt64

/-- A delivery, with its number in the run. -/
structure Vote where
  number : ℕ
  delivery : Delivery

namespace Vote

/-- Who votes. -/
def reporter (v : Vote) : RelayId := v.delivery.advert.reporter

/-- Whom the vote is about. -/
def subject (v : Vote) : RelayId := v.delivery.advert.subject

/-- What has been counted. -/
def observation (v : Vote) : Observation :=
  (v.delivery.advert.successes, v.delivery.advert.failures)

end Vote

/-- The votes that are merged, and the number of the delivery that completes them. -/
structure Merge where
  subject : RelayId
  number : ℕ
  votes : List Vote

/-- The tracker of a relay, and the record of what it is made of. -/
structure GossipRun where
  tracker : PeerHealthTracker
  delivered : ℕ
  pending : RelayId → List Vote
  merges : List Merge

namespace GossipRun

variable {SK VK : Type} (E : Ed25519 SK VK) (decodeKey : DecodeKey VK) (fl : ℚ → ℚ)

/-- The pending votes on the subject of a vote, with the vote in the place of the one its reporter
had. -/
def withVote (g : GossipRun) (v : Vote) : List Vote :=
  v :: (g.pending v.subject).filter fun w => w.reporter ≠ v.reporter

/-- One delivery. -/
def deliver (g : GossipRun) (d : Delivery) : GossipRun :=
  let r := acceptAdvert E decodeKey fl d.advert d.linkPeer d.peerTable d.nowSecs d.maxAgeSecs
    g.tracker
  let v : Vote := ⟨g.delivered, d⟩
  match r.2 with
  | .error _ => { g with tracker := r.1, delivered := g.delivered + 1 }
  | .ok outcome =>
    if outcome.isMerge then
      { tracker := r.1
        delivered := g.delivered + 1
        pending := Function.update g.pending v.subject []
        merges := g.merges ++ [⟨v.subject, g.delivered, g.withVote v⟩] }
    else
      { g with
        tracker := r.1
        delivered := g.delivered + 1
        pending := Function.update g.pending v.subject (g.withVote v) }

/-- Nothing has been delivered. -/
def start (policy : GossipMergePolicy) : GossipRun :=
  ⟨PeerHealthTracker.withPolicy policy, 0, fun _ => [], []⟩

/-- One delivery after another. -/
def run (policy : GossipMergePolicy) (deliveries : List Delivery) : GossipRun :=
  deliveries.foldl (deliver E decodeKey fl) (start policy)

theorem run_concat (policy : GossipMergePolicy) (deliveries : List Delivery) (d : Delivery) :
    run E decodeKey fl policy (deliveries ++ [d]) =
      deliver E decodeKey fl (run E decodeKey fl policy deliveries) d :=
  List.foldl_append

end GossipRun

/-! ## What a record says -/

section Record

variable {SK VK : Type} (E : Ed25519 SK VK) (decodeKey : DecodeKey VK) (fl : ℚ → ℚ)

/-- The advert comes from its reporter, is signed by it and is fresh. -/
def Delivery.IsAccepted (d : Delivery) : Prop :=
  ∃ peer, Acceptable E decodeKey d.advert d.linkPeer d.peerTable d.nowSecs d.maxAgeSecs peer

/-- Of the first `n` deliveries, the vote is the last one of its reporter on its subject that is
accepted. -/
structure Current (deliveries : List Delivery) (n : ℕ) (v : Vote) : Prop where
  lt : v.number < n
  delivered : deliveries[v.number]? = some v.delivery
  accepted : v.delivery.IsAccepted E decodeKey
  last : ∀ (j : ℕ) (d : Delivery), v.number < j → j < n → deliveries[j]? = some d →
    d.IsAccepted E decodeKey → d.advert.subject = v.subject → d.advert.reporter ≠ v.reporter

/-- What the windows are after these merges. -/
def mergedWindows (policy : GossipMergePolicy) (merges : List Merge) :
    HashMap RelayId Observation :=
  merges.foldl (fun inner m =>
    ((⟨inner, ∅, policy⟩ : PeerHealthTracker).finishMedianMerge fl m.subject
      (m.votes.map Vote.observation) m.votes.length 0).1.inner) ∅

/-- The record is that of the deliveries, and the tracker is what it says. -/
structure Sound (policy : GossipMergePolicy) (deliveries : List Delivery) (g : GossipRun) :
    Prop where
  delivered_eq : g.delivered = deliveries.length
  policy_eq : g.tracker.policy = policy
  buffer_eq : ∀ subject, (g.tracker.pendingOf subject).entries.map (fun e => (e.1, e.2.1)) =
    (g.pending subject).map fun v => (v.reporter, v.observation)
  inner_eq : g.tracker.inner = mergedWindows fl policy g.merges
  pending_subject : ∀ subject, ∀ v ∈ g.pending subject, v.subject = subject
  pending_current : ∀ subject, ∀ v ∈ g.pending subject,
    Current E decodeKey deliveries deliveries.length v
  pending_unmerged : ∀ subject, ∀ v ∈ g.pending subject, ∀ m ∈ g.merges, ∀ w ∈ m.votes,
    w.number ≠ v.number
  merge_lt : ∀ m ∈ g.merges, m.number < deliveries.length
  merge_current : ∀ m ∈ g.merges, ∀ v ∈ m.votes,
    v.subject = m.subject ∧ Current E decodeKey deliveries (m.number + 1) v
  merge_reporters : ∀ m ∈ g.merges, (m.votes.map Vote.reporter).Nodup
  numbers_nodup : ((g.merges.flatMap Merge.votes).map Vote.number).Nodup

end Record

section Steps

variable {SK VK : Type} {E : Ed25519 SK VK} {decodeKey : DecodeKey VK} {fl : ℚ → ℚ}
  {policy : GossipMergePolicy} {deliveries : List Delivery} {d : Delivery} {g : GossipRun} {v : Vote}

/-! ## The last accepted delivery -/

namespace Current

theorem concat {n : ℕ} (h : Current E decodeKey deliveries n v) (hn : n ≤ deliveries.length) :
    Current E decodeKey (deliveries ++ [d]) n v where
  lt := h.lt
  delivered := by
    rw [List.getElem?_append_left (lt_of_lt_of_le h.lt hn)]
    exact h.delivered
  accepted := h.accepted
  last j e hlt hj hget := by
    rw [List.getElem?_append_left (lt_of_lt_of_le hj hn)] at hget
    exact h.last j e hlt hj hget

/-- A delivery that is refused, or of another reporter or subject, does not replace a vote. -/
theorem next (h : Current E decodeKey deliveries deliveries.length v)
    (hother : d.IsAccepted E decodeKey → d.advert.subject = v.subject →
      d.advert.reporter ≠ v.reporter) :
    Current E decodeKey (deliveries ++ [d]) (deliveries.length + 1) v where
  lt := Nat.lt_succ_of_lt h.lt
  delivered := (h.concat (le_refl _)).delivered
  accepted := h.accepted
  last j e hlt hj hget := by
    rcases (Nat.lt_succ_iff.mp hj).lt_or_eq with hold | rfl
    · exact (h.concat (le_refl _)).last j e hlt hold hget
    · rw [List.getElem?_concat_length] at hget
      obtain rfl := Option.some.inj hget
      exact hother

/-- An accepted delivery is the last one. -/
theorem new (h : d.IsAccepted E decodeKey) :
    Current E decodeKey (deliveries ++ [d]) (deliveries.length + 1) ⟨deliveries.length, d⟩ where
  lt := Nat.lt_succ_self _
  delivered := List.getElem?_concat_length
  accepted := h
  last j e hlt hj := by
    have hnumber : deliveries.length < j := hlt
    omega

end Current

/-! ## The buffer and the pending votes -/

/-- A vote takes the place of the one its reporter had. -/
theorem mem_withVote {w : Vote} (h : w ∈ g.withVote v) :
    w = v ∨ w ∈ g.pending v.subject ∧ w.reporter ≠ v.reporter := by
  rcases List.mem_cons.mp h with rfl | hmem
  · exact Or.inl rfl
  · obtain ⟨hpending, hne⟩ := List.mem_filter.mp hmem
    exact Or.inr ⟨hpending, of_decide_eq_true hne⟩

/-- **The buffer with an observation holds the votes with it.** -/
theorem buffered_eq (hbuffer : (g.tracker.pendingOf v.subject).entries.map
      (fun e => (e.1, e.2.1)) = (g.pending v.subject).map fun w => (w.reporter, w.observation))
    (key : List Char) :
    (g.tracker.buffered v.reporter v.subject v.observation.1 v.observation.2 key).entries.map
        (fun e => (e.1, e.2.1)) =
      (g.withVote v).map fun w => (w.reporter, w.observation) := by
  unfold PeerHealthTracker.buffered GossipRun.withVote
  rw [HashMap.entries_insert_eq, List.map_cons, List.map_cons]
  refine congrArg _ ?_
  have hfilter := congrArg (List.filter fun p : RelayId × Observation => p.1 ≠ v.reporter) hbuffer
  rw [List.filter_map, List.filter_map] at hfilter
  exact hfilter

theorem observations_eq {m : HashMap RelayId (Observation × List Char)} {votes : List Vote}
    (h : m.entries.map (fun e => (e.1, e.2.1)) = votes.map fun w => (w.reporter, w.observation)) :
    PeerHealthTracker.observations m = votes.map Vote.observation := by
  have hsnd := congrArg (List.map Prod.snd) h
  rw [List.map_map, List.map_map] at hsnd
  exact hsnd

/-- The votes that are buffered are of different reporters. -/
theorem nodup_reporters {m : HashMap RelayId (Observation × List Char)} {votes : List Vote}
    (h : m.entries.map (fun e => (e.1, e.2.1)) = votes.map fun w => (w.reporter, w.observation)) :
    (votes.map Vote.reporter).Nodup := by
  have hfst := congrArg (List.map Prod.fst) h
  rw [List.map_map, List.map_map] at hfst
  have hkeys : votes.map Vote.reporter = m.entries.map Sigma.fst := hfst.symm
  rw [hkeys]
  exact m.nodupKeys

/-! ## One delivery -/

theorem deliver_of_refused (h : ¬d.IsAccepted E decodeKey) (fl : ℚ → ℚ) (g : GossipRun) :
    g.deliver E decodeKey fl d = { g with delivered := g.delivered + 1 } := by
  rcases acceptAdvert_cases E decodeKey fl d.advert d.linkPeer
      d.peerTable d.nowSecs d.maxAgeSecs g.tracker with ⟨e, heq⟩ | hpeer
  · unfold GossipRun.deliver
    rw [heq]
  · exact absurd hpeer h

/-- **An accepted delivery is buffered, or completes a merge.** -/
theorem deliver_of_accepted (h : d.IsAccepted E decodeKey) (fl : ℚ → ℚ) (g : GossipRun)
    (hv : v = ⟨g.delivered, d⟩) :
    ∃ key m, g.tracker.buffered v.reporter v.subject v.observation.1 v.observation.2 key = m ∧
      (¬PeerHealthTracker.IsQuorum g.tracker.policy m ∧ g.deliver E decodeKey fl d =
          ⟨g.tracker.setPending v.subject m, g.delivered + 1,
            Function.update g.pending v.subject (g.withVote v), g.merges⟩ ∨
        PeerHealthTracker.IsQuorum g.tracker.policy m ∧ ∃ distinctOrgs,
          g.deliver E decodeKey fl d =
            ⟨((g.tracker.setPending v.subject ∅).finishMedianMerge fl v.subject
                (PeerHealthTracker.observations m) m.entries.length distinctOrgs).1,
              g.delivered + 1, Function.update g.pending v.subject [],
              g.merges ++ [⟨v.subject, g.delivered, g.withVote v⟩]⟩) := by
  obtain ⟨peer, hpeer⟩ := h
  subst hv
  refine ⟨gossipDiversityKey peer.orgId peer.jurisdiction d.advert.reporter, _, rfl, ?_⟩
  unfold GossipRun.deliver
  rw [acceptAdvert_of_acceptable hpeer]
  obtain ⟨r, hr⟩ : ∃ r, g.tracker.ingestGossipObservation fl d.advert.reporter d.advert.subject
      d.advert.successes d.advert.failures
      (gossipDiversityKey peer.orgId peer.jurisdiction d.advert.reporter) = r := ⟨_, rfl⟩
  rw [hr]
  dsimp only
  set m := g.tracker.buffered (Vote.reporter ⟨g.delivered, d⟩) (Vote.subject ⟨g.delivered, d⟩)
    (Vote.observation ⟨g.delivered, d⟩).1 (Vote.observation ⟨g.delivered, d⟩).2
    (gossipDiversityKey peer.orgId peer.jurisdiction d.advert.reporter) with hm
  by_cases hquorum : PeerHealthTracker.IsQuorum g.tracker.policy m
  · obtain rfl := hr.symm.trans
      (PeerHealthTracker.ingestGossipObservation_of_quorum fl hm.symm hquorum)
    rw [PeerHealthTracker.isMerge_finishMedianMerge, if_pos rfl]
    exact Or.inr ⟨hquorum, _, rfl⟩
  · obtain ⟨outcome, heq, hmerge⟩ :=
      PeerHealthTracker.ingestGossipObservation_of_not_quorum fl hm.symm hquorum
    obtain rfl := hr.symm.trans heq
    rw [hmerge]
    exact Or.inl ⟨hquorum, rfl⟩

namespace Sound

theorem start (E : Ed25519 SK VK) (decodeKey : DecodeKey VK) (fl : ℚ → ℚ)
    (policy : GossipMergePolicy) : Sound E decodeKey fl policy [] (GossipRun.start policy) where
  delivered_eq := rfl
  policy_eq := rfl
  buffer_eq _ := rfl
  inner_eq := rfl
  pending_subject _ _ := nofun
  pending_current _ _ := nofun
  pending_unmerged _ _ := nofun
  merge_lt _ := nofun
  merge_current _ := nofun
  merge_reporters _ := nofun
  numbers_nodup := List.nodup_nil

/-- The merges so far are those of the deliveries so far. -/
theorem merge_current_concat (h : Sound E decodeKey fl policy deliveries g) (d : Delivery) :
    ∀ m ∈ g.merges, ∀ w ∈ m.votes,
      w.subject = m.subject ∧ Current E decodeKey (deliveries ++ [d]) (m.number + 1) w := by
  intro m hm w hw
  obtain ⟨hsubject, hcurrent⟩ := h.merge_current m hm w hw
  exact ⟨hsubject, hcurrent.concat (h.merge_lt m hm)⟩

theorem merge_lt_concat (h : Sound E decodeKey fl policy deliveries g) (d : Delivery) :
    ∀ m ∈ g.merges, m.number < (deliveries ++ [d]).length := by
  intro m hm
  have hlt := h.merge_lt m hm
  rw [List.length_append]
  omega

theorem refuse (h : Sound E decodeKey fl policy deliveries g) (hd : ¬d.IsAccepted E decodeKey) :
    Sound E decodeKey fl policy (deliveries ++ [d]) { g with delivered := g.delivered + 1 } where
  delivered_eq := by simp [h.delivered_eq]
  policy_eq := h.policy_eq
  buffer_eq := h.buffer_eq
  inner_eq := h.inner_eq
  pending_subject := h.pending_subject
  pending_current subject w hw := by
    rw [List.length_append]
    exact (h.pending_current subject w hw).next fun hacc => absurd hacc hd
  pending_unmerged := h.pending_unmerged
  merge_lt := h.merge_lt_concat d
  merge_current := h.merge_current_concat d
  merge_reporters := h.merge_reporters
  numbers_nodup := h.numbers_nodup

/-- A new vote leaves those on other subjects pending. -/
theorem pending_next (h : Sound E decodeKey fl policy deliveries g) (hv : v = ⟨g.delivered, d⟩)
    {subject : RelayId} (hne : subject ≠ v.subject) {w : Vote} (hw : w ∈ g.pending subject) :
    Current E decodeKey (deliveries ++ [d]) (deliveries.length + 1) w := by
  refine (h.pending_current subject w hw).next fun _ hsubject => ?_
  rw [h.pending_subject subject w hw] at hsubject
  subst hv
  exact absurd hsubject.symm hne

/-- **The votes with a new one** are on its subject, are the last ones, and have not been merged. -/
theorem withVote (h : Sound E decodeKey fl policy deliveries g) (hd : d.IsAccepted E decodeKey)
    (hv : v = ⟨g.delivered, d⟩) {w : Vote} (hw : w ∈ g.withVote v) :
    w.subject = v.subject ∧
      Current E decodeKey (deliveries ++ [d]) (deliveries.length + 1) w ∧
      ∀ m ∈ g.merges, ∀ u ∈ m.votes, u.number ≠ w.number := by
  rcases mem_withVote hw with rfl | ⟨hpending, hne⟩
  · subst hv
    refine ⟨rfl, ?_, fun m hm u hu => ?_⟩
    · rw [h.delivered_eq]
      exact Current.new hd
    · have hlt := (h.merge_current m hm u hu).2.lt
      have hmerge := h.merge_lt m hm
      show u.number ≠ g.delivered
      rw [h.delivered_eq]
      omega
  · refine ⟨h.pending_subject _ w hpending, ?_, h.pending_unmerged _ w hpending⟩
    refine (h.pending_current _ w hpending).next fun _ _ => ?_
    subst hv
    exact hne.symm

/-- The pending votes after an accepted delivery are among those on other subjects and those with the
new one. -/
theorem pending_update (h : Sound E decodeKey fl policy deliveries g)
    (hd : d.IsAccepted E decodeKey) (hv : v = ⟨g.delivered, d⟩) {votes : List Vote}
    (hvotes : ∀ w ∈ votes, w ∈ g.withVote v) {subject : RelayId} {w : Vote}
    (hw : w ∈ Function.update g.pending v.subject votes subject) :
    w.subject = subject ∧ Current E decodeKey (deliveries ++ [d]) (deliveries ++ [d]).length w ∧
      ∀ m ∈ g.merges, ∀ u ∈ m.votes, u.number ≠ w.number := by
  rw [List.length_append]
  by_cases heq : subject = v.subject
  · subst heq
    rw [Function.update_self] at hw
    exact h.withVote hd hv (hvotes w hw)
  · rw [Function.update_of_ne heq] at hw
    exact ⟨h.pending_subject subject w hw, h.pending_next hv heq hw,
      h.pending_unmerged subject w hw⟩

/-- What is buffered about one subject is replaced, in the tracker and in the record. -/
theorem buffer_update (h : Sound E decodeKey fl policy deliveries g) {about : RelayId}
    {m : HashMap RelayId (Observation × List Char)} {votes : List Vote}
    (hm : m.entries.map (fun e => (e.1, e.2.1)) = votes.map fun w => (w.reporter, w.observation))
    (subject : RelayId) :
    ((g.tracker.setPending about m).pendingOf subject).entries.map (fun e => (e.1, e.2.1)) =
      (Function.update g.pending about votes subject).map fun w => (w.reporter, w.observation) := by
  by_cases heq : subject = about
  · subst heq
    rw [PeerHealthTracker.pendingOf_setPending, Function.update_self]
    exact hm
  · rw [PeerHealthTracker.pendingOf_setPending_of_ne _ _ heq, Function.update_of_ne heq]
    exact h.buffer_eq subject

theorem buffer (h : Sound E decodeKey fl policy deliveries g) (hd : d.IsAccepted E decodeKey)
    (hv : v = ⟨g.delivered, d⟩) {m : HashMap RelayId (Observation × List Char)}
    (hm : m.entries.map (fun e => (e.1, e.2.1)) =
      (g.withVote v).map fun w => (w.reporter, w.observation)) :
    Sound E decodeKey fl policy (deliveries ++ [d])
      ⟨g.tracker.setPending v.subject m, g.delivered + 1,
        Function.update g.pending v.subject (g.withVote v), g.merges⟩ where
  delivered_eq := by simp [h.delivered_eq]
  policy_eq := h.policy_eq
  buffer_eq := h.buffer_update hm
  inner_eq := h.inner_eq
  pending_subject _ _ hw := (h.pending_update hd hv (fun _ hu => hu) hw).1
  pending_current _ _ hw := (h.pending_update hd hv (fun _ hu => hu) hw).2.1
  pending_unmerged _ _ hw := (h.pending_update hd hv (fun _ hu => hu) hw).2.2
  merge_lt := h.merge_lt_concat d
  merge_current := h.merge_current_concat d
  merge_reporters := h.merge_reporters
  numbers_nodup := h.numbers_nodup

theorem numbers_inj {n n' : ℕ} {u w : Vote} (hu : Current E decodeKey deliveries n u)
    (hw : Current E decodeKey deliveries n' w) (h : u.number = w.number) : u = w := by
  have hdelivery := hu.delivered
  rw [h, hw.delivered] at hdelivery
  cases u
  cases w
  simp_all

/-- The numbers of the votes that are merged are new. -/
theorem numbers_nodup_concat (h : Sound E decodeKey fl policy deliveries g)
    (hd : d.IsAccepted E decodeKey) (hv : v = ⟨g.delivered, d⟩)
    (hreporters : ((g.withVote v).map Vote.reporter).Nodup) :
    (((g.merges ++ [(⟨v.subject, g.delivered, g.withVote v⟩ : Merge)]).flatMap Merge.votes).map
      Vote.number).Nodup := by
  rw [List.flatMap_append, List.map_append, List.flatMap_singleton]
  refine List.nodup_append.mpr ⟨h.numbers_nodup, ?_, ?_⟩
  · refine List.Nodup.map_on ?_ (List.Nodup.of_map _ hreporters)
    intro u hu w hw hnumber
    exact numbers_inj (h.withVote hd hv hu).2.1 (h.withVote hd hv hw).2.1 hnumber
  · intro a ha b hb
    obtain ⟨u, hu, rfl⟩ := List.mem_map.mp ha
    obtain ⟨w, hw, rfl⟩ := List.mem_map.mp hb
    obtain ⟨m, hm, hum⟩ := List.mem_flatMap.mp hu
    exact (h.withVote hd hv hw).2.2 m hm u hum

theorem merge (h : Sound E decodeKey fl policy deliveries g) (hd : d.IsAccepted E decodeKey)
    (hv : v = ⟨g.delivered, d⟩) {m : HashMap RelayId (Observation × List Char)}
    (hm : m.entries.map (fun e => (e.1, e.2.1)) =
      (g.withVote v).map fun w => (w.reporter, w.observation)) (distinctOrgs : ℕ) :
    Sound E decodeKey fl policy (deliveries ++ [d])
      ⟨((g.tracker.setPending v.subject ∅).finishMedianMerge fl v.subject
          (PeerHealthTracker.observations m) m.entries.length distinctOrgs).1,
        g.delivered + 1, Function.update g.pending v.subject [],
        g.merges ++ [⟨v.subject, g.delivered, g.withVote v⟩]⟩ where
  delivered_eq := by simp [h.delivered_eq]
  policy_eq := by
    dsimp only
    rw [PeerHealthTracker.policy_finishMedianMerge]
    exact h.policy_eq
  buffer_eq subject := by
    dsimp only
    unfold PeerHealthTracker.pendingOf
    rw [PeerHealthTracker.gossipPending_finishMedianMerge]
    exact h.buffer_update rfl subject
  inner_eq := by
    dsimp only
    unfold mergedWindows
    rw [List.foldl_append, List.foldl_cons, List.foldl_nil]
    show _ = ((⟨mergedWindows fl policy g.merges, ∅, policy⟩ : PeerHealthTracker).finishMedianMerge
      fl v.subject ((g.withVote v).map Vote.observation) (g.withVote v).length 0).1.inner
    rw [← h.inner_eq, ← h.policy_eq, observations_eq hm]
    refine PeerHealthTracker.inner_finishMedianMerge ?_ ?_ _ _ _ _ _ _ <;> rfl
  pending_subject _ _ hw := (h.pending_update hd hv (by simp) hw).1
  pending_current _ _ hw := (h.pending_update hd hv (by simp) hw).2.1
  pending_unmerged subject w hw m hm u hu := by
    obtain ⟨hsubject, hcurrent, hunmerged⟩ := h.pending_update hd hv (by simp) hw
    rcases List.mem_append.mp hm with hold | hnew
    · exact hunmerged m hold u hu
    · obtain rfl := List.mem_singleton.mp hnew
      intro hnumber
      obtain ⟨husubject, hucurrent, -⟩ := h.withVote hd hv hu
      obtain rfl := numbers_inj hucurrent hcurrent hnumber
      have heq : subject = v.subject := hsubject.symm.trans husubject
      subst heq
      simp only [Function.update_self] at hw
      cases hw
  merge_lt m hm := by
    rcases List.mem_append.mp hm with hold | hnew
    · exact h.merge_lt_concat d m hold
    · obtain rfl := List.mem_singleton.mp hnew
      simp [h.delivered_eq]
  merge_current m hm w hw := by
    rcases List.mem_append.mp hm with hold | hnew
    · exact h.merge_current_concat d m hold w hw
    · obtain rfl := List.mem_singleton.mp hnew
      obtain ⟨hsubject, hcurrent, -⟩ := h.withVote hd hv hw
      refine ⟨hsubject, ?_⟩
      dsimp only
      rw [h.delivered_eq]
      exact hcurrent
  merge_reporters m hm := by
    rcases List.mem_append.mp hm with hold | hnew
    · exact h.merge_reporters m hold
    · obtain rfl := List.mem_singleton.mp hnew
      exact nodup_reporters ‹_›
  numbers_nodup := h.numbers_nodup_concat hd hv (nodup_reporters hm)

/-- **One delivery keeps the record in step with the tracker.** -/
theorem deliver (h : Sound E decodeKey fl policy deliveries g) (d : Delivery) :
    Sound E decodeKey fl policy (deliveries ++ [d]) (g.deliver E decodeKey fl d) := by
  by_cases hd : d.IsAccepted E decodeKey
  · obtain ⟨key, m, hbuffered, ⟨-, heq⟩ | ⟨-, distinctOrgs, heq⟩⟩ :=
      deliver_of_accepted hd fl g (v := ⟨g.delivered, d⟩) rfl
    all_goals
      have hm := buffered_eq (v := ⟨g.delivered, d⟩) (h.buffer_eq _) key
      rw [hbuffered] at hm
      rw [heq]
    · exact h.buffer hd rfl hm
    · exact h.merge hd rfl hm distinctOrgs
  · rw [deliver_of_refused hd]
    exact h.refuse hd

end Sound

theorem sound_run (E : Ed25519 SK VK) (decodeKey : DecodeKey VK) (fl : ℚ → ℚ)
    (policy : GossipMergePolicy) (deliveries : List Delivery) :
    Sound E decodeKey fl policy deliveries
      (GossipRun.run E decodeKey fl policy deliveries) := by
  induction deliveries using List.reverseRecOn with
  | nil => exact Sound.start E decodeKey fl policy
  | append_singleton deliveries d ih =>
    rw [GossipRun.run_concat]
    exact ih.deliver d

/-! ## Every run -/

/-- **What a merge is made of.**  In every run, with every policy and whatever arrives again: the
windows are what the merges make of them; a merge takes one vote of each of its reporters, the last
accepted delivery of that reporter on the subject so far; no delivery is in two merges; and what is
buffered of a reporter is its last accepted delivery as well. -/
theorem votes_of_run (E : Ed25519 SK VK) (decodeKey : DecodeKey VK) (fl : ℚ → ℚ)
    (policy : GossipMergePolicy) (deliveries : List Delivery) :
    let g := GossipRun.run E decodeKey fl policy deliveries
    g.tracker.inner = mergedWindows fl policy g.merges ∧
      ((g.merges.flatMap Merge.votes).map Vote.number).Nodup ∧
      (∀ m ∈ g.merges, (m.votes.map Vote.reporter).Nodup ∧ ∀ v ∈ m.votes,
        v.subject = m.subject ∧ Current E decodeKey deliveries (m.number + 1) v) ∧
      ∀ subject, ((g.tracker.pendingOf subject).entries.map fun e => (e.1, e.2.1)) =
          (g.pending subject).map (fun v => (v.reporter, v.observation)) ∧
        ∀ v ∈ g.pending subject,
          v.subject = subject ∧ Current E decodeKey deliveries deliveries.length v := by
  have h := sound_run E decodeKey fl policy deliveries
  exact ⟨h.inner_eq, h.numbers_nodup,
    fun m hm => ⟨h.merge_reporters m hm, h.merge_current m hm⟩,
    fun subject => ⟨h.buffer_eq subject, fun v hv =>
      ⟨h.pending_subject subject v hv, h.pending_current subject v hv⟩⟩⟩

end Steps

/-! ## Adverts that arrive again -/

/-- No advert is in more than one merge. -/
def GossipRun.CountsOnce (g : GossipRun) : Prop :=
  ∀ advert : PeerHealthAdvert,
    ((g.merges.flatMap Merge.votes).filter fun v => v.delivery.advert = advert).length ≤ 1

/-- The next state has no older vote of a reporter pending on the subject. -/
def GossipRun.KeepsNewest (g g' : GossipRun) : Prop :=
  ∀ subject, ∀ v ∈ g.pending subject, ∀ v' ∈ g'.pending subject, v'.reporter = v.reporter →
    v.delivery.advert.timestampSecs ≤ v'.delivery.advert.timestampSecs

/-- One reporter of one organisation is a quorum if that is all the policy asks for. -/
theorem isQuorum_of_one {policy : GossipMergePolicy} (hk : policy.majorityK = 1)
    (horgs : policy.minOrgs = 1) {m : HashMap RelayId (Observation × List Char)}
    (h : 0 < m.entries.length) : PeerHealthTracker.IsQuorum policy m := by
  refine ⟨hk.le.trans h, horgs.le.trans ?_⟩
  obtain ⟨e, he⟩ := List.exists_mem_of_length_pos h
  have hmem : e.2.2 ∈ (PeerHealthTracker.diversityKeys m).dedup :=
    List.mem_dedup.mpr (List.mem_map_of_mem he)
  exact List.length_pos_of_mem hmem

/-- Reporter `1…1` on the subject `9…9`, at this time. -/
def checksumDelivery (timestampSecs : UInt64) : Delivery where
  advert := PeerHealthAdvert.sign HealthQuorumLog.checksumEd25519 1 (.replicate 32 1)
    (.replicate 32 9) 9 1 timestampSecs
  linkPeer := .replicate 32 1
  peerTable := AList.insert (.replicate 32 1) ⟨some (.replicate 32 1), some "a".toList, none⟩ ∅
  nowSecs := 1000
  maxAgeSecs := 3600

/-- The key is its first byte. -/
def checksumKey : DecodeKey UInt8 := fun b => b.toList.head?

theorem isAccepted_checksumDelivery (timestampSecs : UInt64)
    (h : skewOk timestampSecs 1000 3600 = true) :
    (checksumDelivery timestampSecs).IsAccepted HealthQuorumLog.checksumEd25519 checksumKey := by
  refine ⟨⟨some (.replicate 32 1), some "a".toList, none⟩, rfl, AList.lookup_insert _,
    ⟨1, rfl, ?_⟩, h⟩
  have hsignature : (checksumDelivery timestampSecs).advert.signature = .replicate advertSigLen 1 :=
    rfl
  unfold PeerHealthAdvert.verify
  rw [if_pos]
  exact decide_eq_true hsignature

/-- With a quorum of one, every delivery is merged. -/
theorem merges_deliver_checksum {g : GossipRun} (hk : g.tracker.policy.majorityK = 1)
    (horgs : g.tracker.policy.minOrgs = 1) :
    (g.deliver HealthQuorumLog.checksumEd25519 checksumKey id (checksumDelivery 1000)).merges =
      g.merges ++ [⟨.replicate 32 9, g.delivered,
        g.withVote ⟨g.delivered, checksumDelivery 1000⟩⟩] := by
  obtain ⟨key, m, hm, ⟨hnot, -⟩ | ⟨-, distinctOrgs, heq⟩⟩ :=
    deliver_of_accepted (isAccepted_checksumDelivery 1000 rfl) id g rfl
  · refine absurd (isQuorum_of_one hk horgs ?_) hnot
    rw [← hm]
    unfold PeerHealthTracker.buffered
    rw [HashMap.entries_insert_eq]
    exact Nat.succ_pos _
  · rw [heq]
    rfl

/-- With a quorum of two, the votes of one reporter are pending. -/
theorem pending_run_checksum (policy : GossipMergePolicy) (hk : policy.majorityK = 2)
    (deliveries : List Delivery) (timestampSecs : UInt64)
    (hfresh : skewOk timestampSecs 1000 3600 = true) {g : GossipRun}
    (hg : GossipRun.run HealthQuorumLog.checksumEd25519 checksumKey id policy deliveries = g)
    (hone : (g.withVote ⟨g.delivered, checksumDelivery timestampSecs⟩).length = 1) :
    (GossipRun.run HealthQuorumLog.checksumEd25519 checksumKey id policy
        (deliveries ++ [checksumDelivery timestampSecs])).pending (.replicate 32 9) =
      g.withVote ⟨g.delivered, checksumDelivery timestampSecs⟩ := by
  have hsound := sound_run HealthQuorumLog.checksumEd25519 checksumKey id policy deliveries
  rw [GossipRun.run_concat, hg]
  rw [hg] at hsound
  obtain ⟨key, m, hm, ⟨-, heq⟩ | ⟨hquorum, -⟩⟩ :=
    deliver_of_accepted (isAccepted_checksumDelivery timestampSecs hfresh) id g rfl
  · rw [heq]
    show Function.update g.pending (.replicate 32 9)
      (g.withVote ⟨g.delivered, checksumDelivery timestampSecs⟩) (.replicate 32 9) = _
    rw [Function.update_self]
  · have hlength := congrArg List.length (buffered_eq
      (v := ⟨g.delivered, checksumDelivery timestampSecs⟩) (hsound.buffer_eq _) key)
    rw [List.length_map, List.length_map, hone, hm] at hlength
    have hmany := hquorum.1
    rw [hsound.policy_eq, hk, hlength] at hmany
    omega

/-- Two merges of the same advert. -/
theorem not_countsOnce_checksum :
    ¬(GossipRun.run HealthQuorumLog.checksumEd25519 checksumKey id (.legacyMajority 1)
      [checksumDelivery 1000, checksumDelivery 1000]).CountsOnce := by
  intro honce
  specialize honce (checksumDelivery 1000).advert
  set g := GossipRun.run HealthQuorumLog.checksumEd25519 checksumKey id (.legacyMajority 1)
    [checksumDelivery 1000] with hg
  have hpolicy := (sound_run HealthQuorumLog.checksumEd25519 checksumKey id (.legacyMajority 1)
    [checksumDelivery 1000]).policy_eq
  rw [← hg] at hpolicy
  have hmerges := merges_deliver_checksum (g := g) (by rw [hpolicy]; rfl) (by rw [hpolicy]; rfl)
  have hfirst : g.merges = [⟨.replicate 32 9, 0, (GossipRun.start (.legacyMajority 1)).withVote
      ⟨0, checksumDelivery 1000⟩⟩] :=
    merges_deliver_checksum (g := GossipRun.start (.legacyMajority 1)) rfl rfl
  have hvote : ∀ (g : GossipRun) (n : ℕ), 0 < ((g.withVote ⟨n, checksumDelivery 1000⟩).filter
      fun v => v.delivery.advert = (checksumDelivery 1000).advert).length := fun g n =>
    List.length_pos_of_mem (List.mem_filter.mpr ⟨List.mem_cons_self, decide_eq_true rfl⟩)
  rw [show GossipRun.run _ _ _ _ [checksumDelivery 1000, checksumDelivery 1000] =
    g.deliver HealthQuorumLog.checksumEd25519 checksumKey id (checksumDelivery 1000) from rfl,
    hmerges, hfirst, List.flatMap_append, List.flatMap_singleton, List.flatMap_singleton,
    List.filter_append, List.length_append] at honce
  dsimp only at honce
  have h0 := hvote (GossipRun.start (.legacyMajority 1)) 0
  have h1 := hvote g g.delivered
  omega

/-- An advert of second 900 in the place of one of second 1000. -/
theorem not_keepsNewest_checksum :
    ¬(GossipRun.run HealthQuorumLog.checksumEd25519 checksumKey id (.legacyMajority 2)
      ([] ++ [checksumDelivery 1000])).KeepsNewest
      (GossipRun.run HealthQuorumLog.checksumEd25519 checksumKey id (.legacyMajority 2)
        ([] ++ [checksumDelivery 1000] ++ [checksumDelivery 900])) := by
  intro hkeeps
  have hfirst := pending_run_checksum (.legacyMajority 2) rfl [] 1000 rfl rfl rfl
  obtain ⟨g, hg⟩ : ∃ g, GossipRun.run HealthQuorumLog.checksumEd25519 checksumKey id
      (.legacyMajority 2) ([] ++ [checksumDelivery 1000]) = g := ⟨_, rfl⟩
  rw [hg] at hfirst
  have hreplace : g.withVote ⟨g.delivered, checksumDelivery 900⟩ =
      [⟨g.delivered, checksumDelivery 900⟩] := by
    unfold GossipRun.withVote
    rw [show Vote.subject ⟨g.delivered, checksumDelivery 900⟩ = .replicate 32 9 from rfl, hfirst]
    refine congrArg _ (List.filter_eq_nil_iff.mpr fun w hw => ?_)
    obtain rfl := List.mem_singleton.mp hw
    exact fun hne => of_decide_eq_true hne rfl
  have hsecond := pending_run_checksum (.legacyMajority 2) rfl _ 900 rfl hg
    (by rw [hreplace]; rfl)
  have hnewest := hkeeps (.replicate 32 9) ⟨0, checksumDelivery 1000⟩
    (by rw [hg, hfirst]; exact List.mem_cons_self) ⟨g.delivered, checksumDelivery 900⟩
    (by rw [hsecond, hreplace]; exact List.mem_cons_self) rfl
  exact absurd (show (1000 : UInt64) ≤ 900 from hnewest) (by decide)

/-- **An advert that arrives twice counts twice, and an older one replaces a newer one.** -/
theorem not_counts_once :
    (¬∀ (policy : GossipMergePolicy) (deliveries : List Delivery),
        (GossipRun.run HealthQuorumLog.checksumEd25519 checksumKey id policy
          deliveries).CountsOnce) ∧
      ¬∀ (policy : GossipMergePolicy) (deliveries : List Delivery) (d : Delivery),
        (GossipRun.run HealthQuorumLog.checksumEd25519 checksumKey id policy
          deliveries).KeepsNewest
          (GossipRun.run HealthQuorumLog.checksumEd25519 checksumKey id policy
            (deliveries ++ [d])) := by
  constructor
  · intro hall
    exact not_countsOnce_checksum (hall _ _)
  · intro hall
    exact not_keepsNewest_checksum (hall _ _ _)

end Aegis
