import Aegis.Lib.Run
import Aegis.Relay.QuorumReplay

/-!
# Safety of the quorum log

What a quorum rests on, in every run of appends from an empty log: each observation that is
pending was signed and sent by an authority, and cannot be replaced.  Files, writes that fail,
trackers and labels are whatever they are.

* `Sound.append`, `sound_run` — one append keeps the invariant, and so does every run.
* `vote_applied` — a merge is made of the pending observations and passes the diversity gate.
* `merges_of_run` — **one merge for each subject of an epoch**, of enough authority reporters.
-/

namespace Aegis

namespace HealthQuorumLog

/-! ## One append -/

section Steps

variable {SK VK : Type} {E : Ed25519 SK VK} {fl : ℚ → ℚ} {log : HealthQuorumLog}

/-- **A merge**: the subject was pending, enough reporters and organisations stand behind it,
and the tracker merges just their observations. -/
theorem vote_applied {c : Append VK} {reporters distinctOrgs : ℕ}
    (h : (log.vote fl c).2.2 = .applied reporters distinctOrgs) :
    c.entry.quorumKey ∉ log.applied ∧
      log.majorityK ≤ (log.observe c.entry c.label).reporters c.entry.quorumKey ∧
      c.tracker.policy.minOrgs ≤ distinctDiversityCount
        ((log.observe c.entry c.label).diversityKeys c.order c.entry.quorumKey) ∧
      (log.vote fl c).2.1 = (c.tracker.applyQuorumMedian fl c.advert.subject
        ((log.observe c.entry c.label).observations c.order c.entry.quorumKey)
        ((log.observe c.entry c.label).diversityKeys c.order c.entry.quorumKey)).1 ∧
      c.entry.quorumKey ∈ (log.vote fl c).1.applied := by
  unfold vote at h ⊢
  by_cases hdone : c.entry.quorumKey ∈ log.applied
  · simp only [if_pos hdone] at h
    cases h
  · simp only [if_neg hdone] at h ⊢
    by_cases hfew : (log.observe c.entry c.label).reporters c.entry.quorumKey <
        (log.observe c.entry c.label).majorityK
    · simp only [if_pos hfew] at h
      cases h
    · simp only [if_neg hfew] at h ⊢
      rcases c.tracker.applyQuorumMedian_cases fl c.advert.subject
          ((log.observe c.entry c.label).observations c.order c.entry.quorumKey)
          ((log.observe c.entry c.label).diversityKeys c.order c.entry.quorumKey) with
        heq | ⟨horgs, heq | ⟨tracker, heq⟩⟩
      · simp only [heq] at h
        cases h
      · simp only [heq] at h
        cases h
      · simp only [heq]
        exact ⟨hdone, not_lt.mp hfew, horgs, trivial, Finset.mem_insert_self _ _⟩

/-- Without a merge the tracker is left alone. -/
theorem vote_tracker {c : Append VK}
    (h : ∀ reporters distinctOrgs, (log.vote fl c).2.2 ≠ .applied reporters distinctOrgs) :
    (log.vote fl c).2.1 = c.tracker := by
  unfold vote at h ⊢
  by_cases hdone : c.entry.quorumKey ∈ log.applied
  · simp only [if_pos hdone]
  · simp only [if_neg hdone] at h ⊢
    by_cases hfew : (log.observe c.entry c.label).reporters c.entry.quorumKey <
        (log.observe c.entry c.label).majorityK
    · simp only [if_pos hfew]
    · simp only [if_neg hfew] at h ⊢
      rcases c.tracker.applyQuorumMedian_cases fl c.advert.subject
          ((log.observe c.entry c.label).observations c.order c.entry.quorumKey)
          ((log.observe c.entry c.label).diversityKeys c.order c.entry.quorumKey) with
        heq | ⟨horgs, heq | ⟨tracker, heq⟩⟩
      · simp only [heq]
      · simp only [heq]
      · simp only [heq] at h
        exact absurd rfl (h _ _)

/-- A new entry hides nothing that has been seen. -/
theorem lookup_seen_note {entry : HealthQuorumLogEntry}
    (hnone : log.seen.lookup entry.dedupKey = none) {key : UInt64 × RelayId × RelayId}
    {p : Observation} (h : log.seen.lookup key = some p) :
    (log.note entry).seen.lookup key = some p := by
  have hne : key ≠ entry.dedupKey := by
    rintro rfl
    rw [hnone] at h
    cases h
  exact (AList.lookup_insert_ne hne).trans h

/-- A vote adds nothing to the entries seen. -/
theorem seen_vote (log : HealthQuorumLog) (c : Append VK) :
    (log.vote fl c).1.seen = log.seen := by
  rcases vote_cases fl log c with
    ⟨-, heq⟩ | ⟨-, ⟨tracker, outcome, heq, -⟩ | ⟨-, ⟨tracker, r, d, heq⟩ | ⟨tracker, r, d, heq⟩⟩⟩
  all_goals exact congrArg (fun v => v.1.seen) heq

/-- What an append leaves of the entries it has seen. -/
theorem seen_appendVerified (E : Ed25519 SK VK) (fl : ℚ → ℚ) (log : HealthQuorumLog)
    (fs : FileSystem) (c : Append VK) :
    (log.appendVerified E fl fs c).log.seen = log.seen ∨
      log.seen.lookup c.entry.dedupKey = none ∧
        (log.appendVerified E fl fs c).log.seen =
          log.seen.insert c.entry.dedupKey c.entry.payload := by
  rcases appendVerified_cases E fl log fs c with
    ⟨hlog, -⟩ | ⟨-, -, hseen, ⟨e, -, heq⟩ | ⟨-, heq⟩⟩
  · exact Or.inl (congrArg HealthQuorumLog.seen hlog)
  · refine Or.inr ⟨hseen, ?_⟩
    rw [heq]
    rfl
  · refine Or.inr ⟨hseen, ?_⟩
    rw [heq]
    exact seen_vote _ c

/-- What has been seen stays. -/
theorem lookup_seen_appendVerified (E : Ed25519 SK VK) (fl : ℚ → ℚ) (fs : FileSystem) (c : Append VK)
    {key : UInt64 × RelayId × RelayId} {p : Observation} (h : log.seen.lookup key = some p) :
    (log.appendVerified E fl fs c).log.seen.lookup key = some p := by
  rcases seen_appendVerified E fl log fs c with heq | ⟨hnone, heq⟩
  · rw [heq, h]
  · rw [heq]
    exact lookup_seen_note hnone h

/-- An entry that is accepted has been seen. -/
theorem seen_of_ok {fs : FileSystem} {c : Append VK} {outcome : QuorumAppendOutcome}
    (h : (log.appendVerified E fl fs c).result = .ok outcome) :
    (log.appendVerified E fl fs c).log.seen.lookup c.entry.dedupKey = some c.entry.payload := by
  unfold appendVerified at h ⊢
  cases hcheck : log.checkAdvert E c.entry c.verifyingKey with
  | error e =>
    simp only [hcheck] at h
    cases h
  | ok new =>
    cases new with
    | false => exact seen_of_checkAdvert hcheck
    | true =>
      simp only [hcheck] at h ⊢
      rcases hpersist : (log.note c.entry).persistEntry fs c.entry c.write with ⟨fs', result⟩
      cases result with
      | error e =>
        simp only [hpersist] at h
        cases h
      | ok _ =>
        show ((log.note c.entry).vote fl c).1.seen.lookup c.entry.dedupKey = _
        rw [seen_vote]
        exact AList.lookup_insert _

/-- What a vote makes of a ballot. -/
theorem ballot_vote (fl : ℚ → ℚ) (log : HealthQuorumLog) (c : Append VK)
    (q : UInt64 × RelayId) :
    ((log.vote fl c).1.ballot q = ∅ ∧ q ∈ (log.vote fl c).1.applied) ∨
      (log.vote fl c).1.ballot q = log.ballot q ∨
      q = c.entry.quorumKey ∧ q ∉ log.applied ∧ (log.vote fl c).1.ballot q =
        (log.ballot q).insert c.advert.reporter (c.entry.payload, c.label) := by
  have hobserve : (log.observe c.entry c.label).ballot q = log.ballot q ∨
      q = c.entry.quorumKey ∧ (log.observe c.entry c.label).ballot q =
        (log.ballot q).insert c.advert.reporter (c.entry.payload, c.label) := by
    by_cases hq : q = c.entry.quorumKey
    · subst hq
      exact Or.inr ⟨rfl, ballot_observe_self log c.entry c.label⟩
    · exact Or.inl (ballot_observe_ne _ hq)
  have hsettle : ∀ median,
      (((log.observe c.entry c.label).settle c.entry.quorumKey median).ballot q = ∅ ∧
        q ∈ ((log.observe c.entry c.label).settle c.entry.quorumKey median).applied) ∨
      ((log.observe c.entry c.label).settle c.entry.quorumKey median).ballot q = log.ballot q := by
    intro median
    by_cases hq : q = c.entry.quorumKey
    · subst hq
      exact Or.inl ⟨ballot_settle_self _ _ _, Finset.mem_insert_self _ _⟩
    · exact Or.inr ((ballot_settle_ne median hq).trans (ballot_observe_ne _ hq))
  rcases vote_cases fl log c with
    ⟨-, heq⟩ | ⟨hnot, ⟨tracker, outcome, heq, -⟩ |
      ⟨-, ⟨tracker, r, d, heq⟩ | ⟨tracker, r, d, heq⟩⟩⟩
  · exact Or.inr (Or.inl (congrArg (fun v => v.1.ballot q) heq))
  · rw [heq]
    exact Or.inr (hobserve.imp_right fun ⟨hq, hb⟩ => ⟨hq, hq ▸ hnot, hb⟩)
  · rw [heq]
    exact (hsettle _).imp_right Or.inl
  · rw [heq]
    exact (hsettle _).imp_right Or.inl

/-- What a vote makes of the subjects that are done with. -/
theorem applied_vote (fl : ℚ → ℚ) (log : HealthQuorumLog) (c : Append VK)
    (q : UInt64 × RelayId) :
    (q ∈ log.applied → q ∈ (log.vote fl c).1.applied ∧
      (log.vote fl c).1.appliedMedians.lookup q = log.appliedMedians.lookup q) ∧
    (q ∈ (log.vote fl c).1.applied → q ∈ log.applied ∨ (log.vote fl c).1.ballot q = ∅) := by
  have hsettle : c.entry.quorumKey ∉ log.applied → ∀ median,
      (q ∈ log.applied →
        q ∈ ((log.observe c.entry c.label).settle c.entry.quorumKey median).applied ∧
        ((log.observe c.entry c.label).settle c.entry.quorumKey median).appliedMedians.lookup q =
          log.appliedMedians.lookup q) ∧
      (q ∈ ((log.observe c.entry c.label).settle c.entry.quorumKey median).applied →
        q ∈ log.applied ∨
          ((log.observe c.entry c.label).settle c.entry.quorumKey median).ballot q = ∅) := by
    intro hnot median
    refine ⟨fun hq => ⟨Finset.mem_insert_of_mem hq, ?_⟩, fun hq => ?_⟩
    · exact lookup_settle_ne median (ne_of_mem_of_not_mem hq hnot)
    · rcases Finset.mem_insert.mp hq with rfl | hq
      · exact Or.inr (ballot_settle_self _ _ _)
      · exact Or.inl hq
  rcases vote_cases fl log c with
    ⟨-, heq⟩ | ⟨hnot, ⟨tracker, outcome, heq, -⟩ | ⟨-, ⟨tracker, r, d, heq⟩ | ⟨tracker, r, d, heq⟩⟩⟩
  · rw [heq]
    exact ⟨fun hq => ⟨hq, rfl⟩, Or.inl⟩
  · rw [heq]
    exact ⟨fun hq => ⟨hq, rfl⟩, Or.inl⟩
  · rw [heq]
    exact hsettle hnot _
  · rw [heq]
    exact hsettle hnot _

/-- A vote keeps the threshold, the authorities and the path. -/
theorem config_vote (fl : ℚ → ℚ) (log : HealthQuorumLog) (c : Append VK) :
    (log.vote fl c).1.majorityK = log.majorityK ∧
      (log.vote fl c).1.authoritySet = log.authoritySet ∧
      (log.vote fl c).1.path = log.path := by
  rcases vote_cases fl log c with
    ⟨-, heq⟩ | ⟨-, ⟨tracker, outcome, heq, -⟩ | ⟨-, ⟨tracker, r, d, heq⟩ | ⟨tracker, r, d, heq⟩⟩⟩
  all_goals
    rw [heq]
    exact ⟨rfl, rfl, rfl⟩

/-- **What an append does to a ballot**: nothing, or the subject is done with, or the advert it
has just verified is put among those pending. -/
theorem ballot_appendVerified (E : Ed25519 SK VK) (fl : ℚ → ℚ) (log : HealthQuorumLog)
    (fs : FileSystem) (c : Append VK) (q : UInt64 × RelayId) :
    ((log.appendVerified E fl fs c).log.ballot q = ∅ ∧
        q ∈ (log.appendVerified E fl fs c).log.applied) ∨
      (log.appendVerified E fl fs c).log.ballot q = log.ballot q ∨
      q = c.entry.quorumKey ∧ q ∉ log.applied ∧ c.advert.verify E c.verifyingKey = .ok () ∧
        log.IsAuthority c.advert.reporter ∧
        log.seen.lookup c.entry.dedupKey = none ∧
        (log.appendVerified E fl fs c).log.seen.lookup c.entry.dedupKey = some c.entry.payload ∧
        (log.appendVerified E fl fs c).log.ballot q =
          (log.ballot q).insert c.advert.reporter (c.entry.payload, c.label) := by
  rcases appendVerified_cases E fl log fs c with
    ⟨hlog, -⟩ | ⟨hverify, hauth, hseen, ⟨e, -, heq⟩ | ⟨-, heq⟩⟩
  · exact Or.inr (Or.inl (congrArg (fun l => l.ballot q) hlog))
  · rw [heq]
    exact Or.inr (Or.inl rfl)
  · rw [heq]
    rcases ballot_vote fl (log.note c.entry) c q with hb | hb | ⟨hq, hnot, hb⟩
    · exact Or.inl hb
    · exact Or.inr (Or.inl hb)
    · refine Or.inr (Or.inr ⟨hq, hnot, hverify, hauth, hseen, ?_, hb⟩)
      show ((log.note c.entry).vote fl c).1.seen.lookup c.entry.dedupKey = _
      rw [seen_vote]
      exact AList.lookup_insert _

/-- **What an append does to the subjects that are done with.** -/
theorem applied_appendVerified (E : Ed25519 SK VK) (fl : ℚ → ℚ) (log : HealthQuorumLog)
    (fs : FileSystem) (c : Append VK) (q : UInt64 × RelayId) :
    (q ∈ log.applied → q ∈ (log.appendVerified E fl fs c).log.applied ∧
      (log.appendVerified E fl fs c).log.appliedMedians.lookup q = log.appliedMedians.lookup q) ∧
    (q ∈ (log.appendVerified E fl fs c).log.applied →
      q ∈ log.applied ∨ (log.appendVerified E fl fs c).log.ballot q = ∅) := by
  rcases appendVerified_cases E fl log fs c with
    ⟨hlog, -⟩ | ⟨-, -, -, ⟨e, -, heq⟩ | ⟨-, heq⟩⟩
  · rw [hlog]
    exact ⟨fun hq => ⟨hq, rfl⟩, Or.inl⟩
  · rw [heq]
    exact ⟨fun hq => ⟨hq, rfl⟩, Or.inl⟩
  · rw [heq]
    exact applied_vote fl (log.note c.entry) c q

theorem config_appendVerified (E : Ed25519 SK VK) (fl : ℚ → ℚ) (log : HealthQuorumLog)
    (fs : FileSystem) (c : Append VK) :
    (log.appendVerified E fl fs c).log.majorityK = log.majorityK ∧
      (log.appendVerified E fl fs c).log.authoritySet = log.authoritySet ∧
      (log.appendVerified E fl fs c).log.path = log.path := by
  rcases appendVerified_cases E fl log fs c with
    ⟨hlog, -⟩ | ⟨-, -, -, ⟨e, -, heq⟩ | ⟨-, heq⟩⟩
  · rw [hlog]
    exact ⟨rfl, rfl, rfl⟩
  · rw [heq]
    exact ⟨rfl, rfl, rfl⟩
  · rw [heq]
    exact config_vote fl (log.note c.entry) c

end Steps

/-! ## The invariant -/

section Invariant

variable {SK VK : Type} (E : Ed25519 SK VK)

/-- One of the calls carried this observation, signed, under this label. -/
def Vouched (calls : List (Append VK)) (q : UInt64 × RelayId) (reporter : RelayId)
    (obs : Observation) (label : List Char) : Prop :=
  ∃ c ∈ calls, c.entry.quorumKey = q ∧ c.advert.reporter = reporter ∧ c.entry.payload = obs ∧
    c.label = label ∧ c.advert.verify E c.verifyingKey = .ok ()

/-- **The scheme is ideal**: every call comes with a key that its reporter holds, and what
verifies under a key is what its holder has signed. -/
structure Keyed (holder : VK → RelayId) (signed : RelayId → List UInt8 → Prop)
    (calls : List (Append VK)) : Prop where
  key : ∀ c ∈ calls, holder c.verifyingKey = c.advert.reporter
  ideal : ∀ vk message signature, E.verify vk message signature = true →
    signed (holder vk) message

/-- The reporter has signed this observation of the subject. -/
def HasSigned (signed : RelayId → List UInt8 → Prop) (reporter subject : RelayId)
    (obs : Observation) : Prop :=
  ∃ advert : PeerHealthAdvert, signed reporter advert.signableBytes.toList ∧
    advert.reporter = reporter ∧ advert.subject = subject ∧
      (advert.successes, advert.failures) = obs

/-- What holds of the log after any calls. -/
structure Sound (majorityK : ℕ) (authoritySet : Finset RelayId) (calls : List (Append VK))
    (log : HealthQuorumLog) : Prop where
  majorityK_eq : log.majorityK = max majorityK 1
  authoritySet_eq : log.authoritySet = authoritySet
  /-- What is pending was signed by an authority, and has been seen. -/
  ballot : ∀ q reporter obs label, (log.ballot q).lookup reporter = some (obs, label) →
    log.IsAuthority reporter ∧ Vouched E calls q reporter obs label ∧
      log.seen.lookup (q.1, reporter, q.2) = some obs
  done : ∀ q ∈ log.applied, log.ballot q = ∅

variable {E} {fl : ℚ → ℚ} {majorityK : ℕ} {authoritySet : Finset RelayId}
variable {calls : List (Append VK)} {log : HealthQuorumLog}

theorem Vouched.concat {q : UInt64 × RelayId} {reporter : RelayId} {obs : Observation}
    {label : List Char} (h : Vouched E calls q reporter obs label) (c : Append VK) :
    Vouched E (calls ++ [c]) q reporter obs label := by
  obtain ⟨c', hmem, hrest⟩ := h
  exact ⟨c', List.mem_append_left _ hmem, hrest⟩

/-- Under an ideal scheme a call's reporter has signed what the call carried. -/
theorem Vouched.hasSigned {q : UInt64 × RelayId} {reporter : RelayId} {obs : Observation}
    {label : List Char} (h : Vouched E calls q reporter obs label) {holder : VK → RelayId}
    {signed : RelayId → List UInt8 → Prop} (hkeyed : Keyed E holder signed calls) :
    HasSigned signed reporter q.2 obs := by
  obtain ⟨c, hmem, rfl, rfl, rfl, -, hverify⟩ := h
  have hsignature : E.verify c.verifyingKey c.advert.signableBytes.toList c.advert.signature =
      true := by
    unfold PeerHealthAdvert.verify at hverify
    split at hverify
    · assumption
    · cases hverify
  have hsigned := hkeyed.ideal _ _ _ hsignature
  rw [hkeyed.key c hmem] at hsigned
  exact ⟨c.advert, hsigned, rfl, rfl, rfl⟩

theorem sound_new (path : Option PathBuf) :
    Sound E majorityK authoritySet [] { new majorityK authoritySet with path := path } := by
  refine ⟨rfl, rfl, fun q reporter obs label h => ?_, fun q hq => ?_⟩
  · cases h
  · exact absurd hq (Finset.notMem_empty q)

/-- The observation that is put among those pending. -/
theorem Sound.observe (h : Sound E majorityK authoritySet calls log) {c : Append VK}
    (hverify : c.advert.verify E c.verifyingKey = .ok ())
    (hauth : log.IsAuthority c.advert.reporter) {reporter : RelayId} {obs : Observation}
    {label : List Char} {seen : HashMap (UInt64 × RelayId × RelayId) Observation}
    (hseen : ∀ key p, log.seen.lookup key = some p → seen.lookup key = some p)
    (hself : seen.lookup c.entry.dedupKey = some c.entry.payload)
    (hlookup : ((log.ballot c.entry.quorumKey).insert c.advert.reporter
      (c.entry.payload, c.label)).lookup reporter = some (obs, label)) :
    log.IsAuthority reporter ∧ Vouched E (calls ++ [c]) c.entry.quorumKey reporter obs label ∧
      seen.lookup (c.entry.quorumKey.1, reporter, c.entry.quorumKey.2) = some obs := by
  by_cases hr : reporter = c.advert.reporter
  · subst hr
    rw [AList.lookup_insert] at hlookup
    cases hlookup
    exact ⟨hauth, ⟨c, List.mem_append_right _ (List.mem_singleton_self c), rfl, rfl, rfl, rfl,
      hverify⟩, hself⟩
  · rw [AList.lookup_insert_ne hr] at hlookup
    obtain ⟨hauth', hvouched, hold⟩ := h.ballot _ _ _ _ hlookup
    exact ⟨hauth', hvouched.concat c, hseen _ _ hold⟩

variable (fl) in
/-- **One append keeps the invariant.** -/
theorem Sound.append (h : Sound E majorityK authoritySet calls log) (fs : FileSystem)
    (c : Append VK) :
    Sound E majorityK authoritySet (calls ++ [c]) (log.appendVerified E fl fs c).log := by
  obtain ⟨hk, hset, -⟩ := config_appendVerified E fl log fs c
  have hmono : ∀ key p, log.seen.lookup key = some p →
      (log.appendVerified E fl fs c).log.seen.lookup key = some p :=
    fun key p hkey => lookup_seen_appendVerified E fl fs c hkey
  have hisAuth : ∀ reporter, log.IsAuthority reporter →
      (log.appendVerified E fl fs c).log.IsAuthority reporter := by
    intro reporter hauth
    unfold IsAuthority at hauth ⊢
    rwa [hset]
  refine ⟨hk.trans h.majorityK_eq, hset.trans h.authoritySet_eq, ?_, ?_⟩
  · intro q reporter obs label hlookup
    rcases ballot_appendVerified E fl log fs c q with
      ⟨hb, -⟩ | hb | ⟨rfl, -, hverify, hauth, -, hself, hb⟩
    · rw [hb, AList.lookup_empty] at hlookup
      cases hlookup
    · rw [hb] at hlookup
      obtain ⟨hauth, hvouched, hseen⟩ := h.ballot q reporter obs label hlookup
      exact ⟨hisAuth _ hauth, hvouched.concat c, hmono _ _ hseen⟩
    · rw [hb] at hlookup
      obtain ⟨hauth', hvouched, hseen⟩ := h.observe hverify hauth hmono hself hlookup
      exact ⟨hisAuth _ hauth', hvouched, hseen⟩
  · intro q hq
    rcases (applied_appendVerified E fl log fs c q).2 hq with hold | hempty
    · rcases ballot_appendVerified E fl log fs c q with ⟨hb, -⟩ | hb | ⟨-, hnot, -⟩
      · exact hb
      · exact hb.trans (h.done q hold)
      · exact absurd hold hnot
    · exact hempty

variable (E fl) in
/-- **Every run keeps it.** -/
theorem sound_run (path : Option PathBuf) (fs : FileSystem) (calls : List (Append VK)) :
    Sound E majorityK authoritySet calls
      (runNode E fl ⟨{ new majorityK authoritySet with path := path }, fs⟩ calls).log := by
  induction calls using List.reverseRecOn with
  | nil => exact sound_new path
  | append_singleton calls c ih =>
    rw [runNode_concat]
    exact ih.append fl _ c

variable (fl) in
/-- What is pending stays, unless the subject is done with. -/
theorem Sound.observed_append (h : Sound E majorityK authoritySet calls log) (fs : FileSystem)
    (c : Append VK) {q : UInt64 × RelayId} {reporter : RelayId} {obs : Observation}
    (hobs : log.observed q reporter = some obs) :
    (log.appendVerified E fl fs c).log.observed q reporter = some obs ∨
      q ∈ (log.appendVerified E fl fs c).log.applied := by
  rcases ballot_appendVerified E fl log fs c q with ⟨-, hdone⟩ | hb | ⟨rfl, -, -, -, hnone, -, hb⟩
  · exact Or.inr hdone
  · left
    unfold HealthQuorumLog.observed at hobs ⊢
    rwa [hb]
  · left
    unfold HealthQuorumLog.observed at hobs ⊢
    rw [hb, AList.lookup_insert_ne, hobs]
    -- the reporter of a pending observation has been seen
    rintro rfl
    obtain ⟨⟨obs', label⟩, hlookup, rfl⟩ := Option.map_eq_some_iff.mp hobs
    have hseen := (h.ballot _ _ _ _ hlookup).2.2
    have hnone' : log.seen.lookup (c.entry.quorumKey.1, c.advert.reporter, c.entry.quorumKey.2) =
      none := hnone
    rw [hnone'] at hseen
    cases hseen

/-- What is done with stays, with its median; what is pending is not replaced. -/
theorem stays_run {s : Node} (h : Sound E majorityK authoritySet calls s.log)
    (later : List (Append VK)) :
    (∀ q ∈ s.log.applied, q ∈ (runNode E fl s later).log.applied ∧
      (runNode E fl s later).log.appliedMedians.lookup q = s.log.appliedMedians.lookup q) ∧
    ∀ q reporter obs, s.log.observed q reporter = some obs →
      (runNode E fl s later).log.observed q reporter = some obs ∨
        q ∈ (runNode E fl s later).log.applied := by
  induction later generalizing s calls with
  | nil => exact ⟨fun q hq => ⟨hq, rfl⟩, fun _ _ _ hobs => Or.inl hobs⟩
  | cons c later ih =>
    obtain ⟨happlied, hobserved⟩ := ih (s := stepNode E fl s c) (h.append fl s.fs c)
    refine ⟨fun q hq => ?_, fun q reporter obs hobs => ?_⟩
    · obtain ⟨hq', hmedian⟩ := (applied_appendVerified E fl s.log s.fs c q).1 hq
      obtain ⟨hlater, hmedian'⟩ := happlied q hq'
      exact ⟨hlater, hmedian'.trans hmedian⟩
    · rcases h.observed_append fl s.fs c hobs with hobs | hdone
      · exact hobserved q reporter obs hobs
      · exact Or.inr (happlied q hdone).1

/-- What has been seen stays. -/
theorem seen_run {s : Node} {key : UInt64 × RelayId × RelayId} {p : Observation}
    (h : s.log.seen.lookup key = some p) (later : List (Append VK)) :
    (runNode E fl s later).log.seen.lookup key = some p :=
  Run.foldl_preserves (fun s : Node => s.log.seen.lookup key = some p)
    (fun s c _ h => lookup_seen_appendVerified E fl s.fs c h) h

end Invariant

/-! ## The theorem -/

section Theorem

variable {SK VK : Type} (E : Ed25519 SK VK) (fl : ℚ → ℚ)

/-- What a call returns after the calls before it. -/
def outcomeAt (start : Node) (before : List (Append VK)) (c : Append VK) : Appended :=
  (runNode E fl start before).log.appendVerified E fl (runNode E fl start before).fs c

variable {E fl}

/-- A call that merges does so in its vote. -/
theorem vote_of_applied {log : HealthQuorumLog} {fs : FileSystem} {c : Append VK} {r d : ℕ}
    (h : (log.appendVerified E fl fs c).result = .ok (.applied r d)) :
    c.advert.verify E c.verifyingKey = .ok () ∧ log.IsAuthority c.advert.reporter ∧
      log.seen.lookup c.entry.dedupKey = none ∧
      ((log.note c.entry).vote fl c).2.2 = .applied r d ∧
      (log.appendVerified E fl fs c).log = ((log.note c.entry).vote fl c).1 ∧
      (log.appendVerified E fl fs c).tracker = ((log.note c.entry).vote fl c).2.1 := by
  rcases appendVerified_cases E fl log fs c with
    ⟨-, -, -, hout⟩ | ⟨hverify, hauth, hseen, ⟨e, -, heq⟩ | ⟨-, heq⟩⟩
  · exact absurd h (hout r d)
  · rw [heq] at h
    cases h
  · rw [heq] at h ⊢
    refine ⟨hverify, hauth, hseen, ?_, rfl, rfl⟩
    injection h

section Empty

variable {majorityK : ℕ} {authoritySet : Finset RelayId} {path : Option PathBuf} {fs : FileSystem}

/-- Once a call has merged a subject, no later call does. -/
theorem not_applied_later {before mid : List (Append VK)} {c c' : Append VK} {r d r' d' : ℕ}
    (hkey : c.entry.quorumKey = c'.entry.quorumKey)
    (h : (outcomeAt E fl ⟨{ new majorityK authoritySet with path := path }, fs⟩ before c).result =
      .ok (.applied r d)) :
    (outcomeAt E fl ⟨{ new majorityK authoritySet with path := path }, fs⟩
      (before ++ c :: mid) c').result ≠ .ok (.applied r' d') := by
  intro h'
  obtain ⟨-, -, -, hvote, hlog, -⟩ := vote_of_applied h
  obtain ⟨-, -, -, hvote', -⟩ := vote_of_applied h'
  obtain ⟨-, -, -, -, hdone⟩ := vote_applied hvote
  obtain ⟨hnot, -⟩ := vote_applied hvote'
  rw [← hlog] at hdone
  have hsound : Sound E majorityK authoritySet (before ++ [c]) _ :=
    sound_run E fl path fs (before ++ [c])
  have hrun : runNode E fl ⟨{ new majorityK authoritySet with path := path }, fs⟩
      (before ++ c :: mid) = runNode E fl (runNode E fl
        ⟨{ new majorityK authoritySet with path := path }, fs⟩ (before ++ [c])) mid := by
    rw [← runNode_append, List.append_assoc]
    rfl
  refine hnot ?_
  rw [← hkey, hrun]
  refine ((stays_run hsound mid).1 _ ?_).1
  rw [runNode_concat]
  exact hdone

/-- **What a merge is made of.** -/
theorem ballot_of_applied (hauth : authoritySet.Nonempty) {before : List (Append VK)}
    {c : Append VK} {r d : ℕ}
    (h : (outcomeAt E fl ⟨{ new majorityK authoritySet with path := path }, fs⟩ before c).result =
      .ok (.applied r d)) :
    ∃ ballot : HashMap RelayId (Observation × List Char),
      majorityK ≤ ballot.entries.length ∧
      (∀ reporter obs label, ballot.lookup reporter = some (obs, label) →
        reporter ∈ authoritySet ∧
        Vouched E (before ++ [c]) c.entry.quorumKey reporter obs label) ∧
      c.tracker.policy.minOrgs ≤ distinctDiversityCount ((c.order.values ballot).map Prod.snd) ∧
      (outcomeAt E fl ⟨{ new majorityK authoritySet with path := path }, fs⟩ before c).tracker =
        (c.tracker.applyQuorumMedian fl c.advert.subject ((c.order.values ballot).map Prod.fst)
          ((c.order.values ballot).map Prod.snd)).1 := by
  have hsound : Sound E majorityK authoritySet before _ := sound_run E fl path fs before
  obtain ⟨hverify, hisAuth, hseen, hvote, -, htracker⟩ := vote_of_applied h
  obtain ⟨-, hle, horgs, htracker', -⟩ := vote_applied hvote
  refine ⟨_, ?_, ?_, horgs, htracker.trans htracker'⟩
  · refine le_trans ?_ hle
    show majorityK ≤ (runNode E fl _ before).log.majorityK
    rw [hsound.majorityK_eq]
    exact le_max_left _ _
  · intro reporter obs label hlookup
    have hobserve := ballot_observe_self
      ((runNode E fl ⟨{ new majorityK authoritySet with path := path }, fs⟩ before).log.note c.entry)
      c.entry c.label
    rw [hobserve] at hlookup
    obtain ⟨hauth', hvouched, -⟩ := hsound.observe hverify hisAuth
      (fun key p hkey => lookup_seen_note hseen hkey) (AList.lookup_insert _) hlookup
    refine ⟨?_, hvouched⟩
    rcases hauth' with hempty | hmem
    · rw [hsound.authoritySet_eq] at hempty
      exact absurd hempty hauth.ne_empty
    · rwa [hsound.authoritySet_eq] at hmem

/-- **One observation for each reporter**: calls that are accepted for the same reporter,
subject and epoch carry the same counts. -/
theorem payload_eq_of_ok {start : Node} {calls before after before' after' : List (Append VK)}
    {c c' : Append VK} {o o' : QuorumAppendOutcome} (hcalls : calls = before ++ c :: after)
    (hcalls' : calls = before' ++ c' :: after') (hkey : c.entry.dedupKey = c'.entry.dedupKey)
    (h : (outcomeAt E fl start before c).result = .ok o)
    (h' : (outcomeAt E fl start before' c').result = .ok o') :
    c.entry.payload = c'.entry.payload := by
  have hend : ∀ {before after : List (Append VK)} {c : Append VK} {o : QuorumAppendOutcome},
      calls = before ++ c :: after → (outcomeAt E fl start before c).result = .ok o →
      (runNode E fl start calls).log.seen.lookup c.entry.dedupKey = some c.entry.payload := by
    rintro before after c o rfl hok
    rw [runNode_append]
    exact seen_run (s := stepNode E fl (runNode E fl start before) c) (seen_of_ok hok) after
  have hseen := hend hcalls h
  rw [hkey, hend hcalls' h'] at hseen
  exact (Option.some.inj hseen).symm

end Empty

variable (E fl)

/-- **Safety of the quorum log**, in every run from an empty log with authorities. -/
theorem merges_of_run (majorityK : ℕ) (authoritySet : Finset RelayId)
    (hauth : authoritySet.Nonempty) (path : Option PathBuf) (fs : FileSystem)
    (calls : List (Append VK)) :
    let start : Node := ⟨{ new majorityK authoritySet with path := path }, fs⟩
    -- a subject of an epoch is merged by one call at most
    (∀ before c after before' c' after' r d r' d', calls = before ++ c :: after →
      calls = before' ++ c' :: after' → c.entry.quorumKey = c'.entry.quorumKey →
      (outcomeAt E fl start before c).result = .ok (.applied r d) →
      (outcomeAt E fl start before' c').result = .ok (.applied r' d') → before = before') ∧
    -- only a merge changes the tracker
    (∀ before c after, calls = before ++ c :: after →
      (∀ r d, (outcomeAt E fl start before c).result ≠ .ok (.applied r d)) →
      (outcomeAt E fl start before c).tracker = c.tracker) ∧
    -- what is merged
    (∀ before c after r d, calls = before ++ c :: after →
      (outcomeAt E fl start before c).result = .ok (.applied r d) →
      ∃ ballot : HashMap RelayId (Observation × List Char),
        majorityK ≤ ballot.entries.length ∧
        (∀ reporter obs label, ballot.lookup reporter = some (obs, label) →
          reporter ∈ authoritySet ∧
          Vouched E (before ++ [c]) c.entry.quorumKey reporter obs label) ∧
        c.tracker.policy.minOrgs ≤
          distinctDiversityCount ((c.order.values ballot).map Prod.snd) ∧
        (outcomeAt E fl start before c).tracker = (c.tracker.applyQuorumMedian fl
          c.advert.subject ((c.order.values ballot).map Prod.fst)
          ((c.order.values ballot).map Prod.snd)).1 ∧
        -- if the scheme is ideal, its reporters have signed it
        ∀ holder signed, Keyed E holder signed (before ++ [c]) →
          ∀ reporter obs label, ballot.lookup reporter = some (obs, label) →
            HasSigned signed reporter c.advert.subject obs) ∧
    -- a reporter counts with one observation on a subject of an epoch
    (∀ before c after before' c' after' o o', calls = before ++ c :: after →
      calls = before' ++ c' :: after' → c.entry.dedupKey = c'.entry.dedupKey →
      (outcomeAt E fl start before c).result = .ok o →
      (outcomeAt E fl start before' c').result = .ok o' →
      c.entry.payload = c'.entry.payload) ∧
    -- what is counted or pending is not changed by what comes later
    ∀ before after, calls = before ++ after →
      (∀ q ∈ (runNode E fl start before).log.applied,
        q ∈ (runNode E fl start calls).log.applied ∧
        (runNode E fl start calls).log.appliedMedians.lookup q =
          (runNode E fl start before).log.appliedMedians.lookup q) ∧
      ∀ q reporter obs, (runNode E fl start before).log.observed q reporter = some obs →
        (runNode E fl start calls).log.observed q reporter = some obs ∨
          q ∈ (runNode E fl start calls).log.applied := by
  intro start
  refine ⟨?_, ?_, ?_, ?_, ?_⟩
  · intro before c after before' c' after' r d r' d' hcalls hcalls' hkey h h'
    rcases Run.append_cons_cases (hcalls.symm.trans hcalls') with heq | ⟨mid, rfl⟩ | ⟨mid, rfl⟩
    · exact heq
    · exact absurd h' (not_applied_later hkey h)
    · exact absurd h (not_applied_later hkey.symm h')
  · intro before c after _ hnot
    show ((runNode E fl start before).log.appendVerified E fl _ c).tracker = _
    rcases appendVerified_cases E fl (runNode E fl start before).log
        (runNode E fl start before).fs c with
      ⟨-, -, htracker, -⟩ | ⟨-, -, -, ⟨e, -, heq⟩ | ⟨-, heq⟩⟩
    · exact htracker
    · rw [heq]
    · unfold outcomeAt at hnot
      rw [heq] at hnot ⊢
      exact vote_tracker fun r d hout => hnot r d (congrArg Except.ok hout)
  · intro before c after r d _ h
    obtain ⟨ballot, hk, hballot, horgs, htracker⟩ := ballot_of_applied hauth h
    exact ⟨ballot, hk, hballot, horgs, htracker, fun holder signed hkeyed reporter obs label hl =>
      (hballot reporter obs label hl).2.hasSigned hkeyed⟩
  · intro before c after before' c' after' o o' hcalls hcalls' hkey h h'
    exact payload_eq_of_ok hcalls hcalls' hkey h h'
  · rintro before after rfl
    rw [runNode_append]
    exact stays_run (sound_run E fl path fs before) after

/-- A scheme under which the reporters 1 and 2 have signed their adverts, and nothing else. -/
def advertEd25519 : Ed25519 UInt8 UInt8 :=
  { checksumEd25519 with
    verify := fun key m signature =>
      decide (key ∈ [1, 2] ∧
        m = (checksumAppend (.legacyMajority 1) key).advert.signableBytes.toList ∧
        signature = List.Vector.replicate advertSigLen key) }

/-- What an append does depends on the scheme by its check of the advert only. -/
theorem appendVerified_congr {SK VK : Type} {E E' : Ed25519 SK VK} {fl : ℚ → ℚ}
    {log : HealthQuorumLog} {fs : FileSystem} {c : Append VK}
    (h : c.advert.verify E c.verifyingKey = c.advert.verify E' c.verifyingKey) :
    log.appendVerified E fl fs c = log.appendVerified E' fl fs c := by
  unfold appendVerified checkAdvert
  rw [show c.entry.advert.verify E c.verifyingKey = _ from h]
  rfl

/-- The two adverts verify, as they do under the scheme that does not look at the message. -/
theorem verify_advertEd25519 {n : UInt8} (hn : n ∈ [1, 2]) :
    (checksumAppend (.legacyMajority 1) n).advert.verify advertEd25519 n =
      (checksumAppend (.legacyMajority 1) n).advert.verify checksumEd25519 n := by
  unfold PeerHealthAdvert.verify
  generalize hm : (checksumAppend (.legacyMajority 1) n).advert.signableBytes.toList = m
  have hadvert : advertEd25519.verify n m (checksumAppend (.legacyMajority 1) n).advert.signature =
      true := decide_eq_true ⟨hn, hm.symm, rfl⟩
  have hchecksum : checksumEd25519.verify n m
      (checksumAppend (.legacyMajority 1) n).advert.signature = true := decide_eq_true rfl
  rw [if_pos hadvert, if_pos hchecksum]

/-- Two reporters sign what they have seen, and the second call merges it. -/
theorem merges_of_run_checksum :
    let authorities : Finset RelayId := {List.Vector.replicate 32 1, List.Vector.replicate 32 2}
    let start : Node := ⟨{ new 2 authorities with path := none }, fun _ => none⟩
    let first := checksumAppend (.legacyMajority 1) 1
    let second := checksumAppend (.legacyMajority 1) 2
    let merged := outcomeAt advertEd25519 id start [first] second
    merged.result = .ok (.applied 2 1) ∧
    ∃ ballot : HashMap RelayId (Observation × List Char), 2 ≤ ballot.entries.length ∧
      (∀ reporter obs label, ballot.lookup reporter = some (obs, label) →
        reporter ∈ authorities ∧
        Vouched advertEd25519 [first, second] second.entry.quorumKey reporter obs label ∧
        HasSigned (fun id m => ∃ n ∈ [1, 2], id = List.Vector.replicate 32 n ∧
            m = (checksumAppend (.legacyMajority 1) n).advert.signableBytes.toList)
          reporter (List.Vector.replicate 32 9) obs) ∧
      1 ≤ distinctDiversityCount ((second.order.values ballot).map Prod.snd) ∧
      merged.tracker = (second.tracker.applyQuorumMedian id (List.Vector.replicate 32 9)
        ((second.order.values ballot).map Prod.fst)
        ((second.order.values ballot).map Prod.snd)).1 := by
  intro authorities start first second merged
  have hresult : merged.result = .ok (.applied 2 1) := by
    change (outcomeAt advertEd25519 id start [first] second).result = _
    rw [outcomeAt, runNode, List.foldl_cons, List.foldl_nil, stepNode,
      appendVerified_congr (c := first) (verify_advertEd25519 (by decide)),
      appendVerified_congr (c := second) (verify_advertEd25519 (by decide))]
    decide +kernel
  obtain ⟨ballot, hk, hballot, horgs, htracker, hsigned⟩ := (merges_of_run advertEd25519 id 2
    authorities ⟨_, Finset.mem_insert_self _ _⟩ none (fun _ => none) [first, second]).2.2.1
    [first] second [] 2 1 rfl hresult
  have hkeyed : Keyed advertEd25519 (List.Vector.replicate 32)
      (fun id m => ∃ n ∈ [1, 2], id = List.Vector.replicate 32 n ∧
        m = (checksumAppend (.legacyMajority 1) n).advert.signableBytes.toList)
      ([first] ++ [second]) := by
    refine ⟨fun c hc => ?_, fun vk m signature h => ?_⟩
    · rcases List.mem_pair.mp hc with rfl | rfl <;> rfl
    · obtain ⟨hvk, hm, -⟩ := of_decide_eq_true h
      exact ⟨vk, hvk, rfl, hm⟩
  exact ⟨hresult, ballot, hk, fun reporter obs label h => ⟨(hballot reporter obs label h).1,
    (hballot reporter obs label h).2, hsigned _ _ hkeyed reporter obs label h⟩, horgs, htracker⟩

end Theorem

end HealthQuorumLog

end Aegis
