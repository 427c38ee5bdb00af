import Aegis.Trust.AnonIssuer

/-!
# Single spend of anonymous credentials

A verifier keeps one registry: it accepts credentials, merges the registries of peers, saves
the registry and loads it again, and rotates old epochs away.  Nothing in a verifier says which
epoch is the current one, so a credential of an epoch that was rotated away verifies as before,
and its spend is forgotten.

* `Spent.step`, `Spent.run` — what is spent stays spent, while its epoch is not rotated away and
  loads read what was saved since.
* `accepted_once_of_run` — a credential is accepted once, until its epoch is rotated away.
* `accepted_twice_checksum` — and once more after that, or after the load of an older file.
-/

namespace Aegis

open Buffer CredentialSuite

/-! ## Verifiers -/

/-- The JSON of registry files. -/
structure RegistryJson (Text : Type) where
  toStringPretty : NullifierRegistryFile → Text
  fromStr : Text → Except String NullifierRegistryFile

/-- A file is read back with its version and its epochs, in whatever order. -/
def RegistryJson.RoundTrips {Text : Type} (J : RegistryJson Text) : Prop :=
  ∀ file, ∃ file', J.fromStr (J.toStringPretty file) = .ok file' ∧ file'.version = file.version ∧
    ∀ s, file'.epochs.lookup s = file.epochs.lookup s

/-- A verifier's registry, and the files it can read. -/
structure SpendVerifier (Text : Type) where
  registry : NullifierRegistry
  files : PathBuf → Option Text

/-- What happens to the registry. -/
inductive RegistryEvent (Text : Type) where
  | verifyAndSpend (params : AnonymousCredentialIssuerParams)
      (credential : IssuedAnonymousCredential)
  | merge (o : RegistryOrder) (other : NullifierRegistry)
  | mergeFromFile (o : RegistryOrder) (order : IterOrder (List Char) (List (List Char)))
      (path : PathBuf)
  | saveToFile (o : RegistryOrder) (path : PathBuf)
  | loadFromFile (order : IterOrder (List Char) (List (List Char)))
      (path : PathBuf)
  /-- Another process, or a save that fails half way. -/
  | writeFile (path : PathBuf) (text : Option Text)
  | rotateEpoch (oldEpoch : UInt64)

namespace SpendVerifier

variable {SK VK Text : Type} (C : CredentialSuite SK VK) (J : RegistryJson Text)

/-- `NullifierRegistry::load_from_file`. -/
def loadFromFile (s : SpendVerifier Text) (order : IterOrder (List Char) (List (List Char)))
    (path : PathBuf) : Except NullifierError NullifierRegistry :=
  match s.files path with
  | none => .error (.io "No such file or directory (os error 2)")
  | some text =>
    match J.fromStr text with
    | .error message => .error (.json message)
    | .ok file => NullifierRegistry.ofFile order file

/-- What each event does. -/
def step (s : SpendVerifier Text) : RegistryEvent Text → SpendVerifier Text
  | .verifyAndSpend params credential =>
    { s with registry := (C.verifyAndSpend params s.registry credential).2 }
  | .merge o other => { s with registry := (s.registry.merge o other).2 }
  | .mergeFromFile o order path =>
    match s.loadFromFile J order path with
    | .error _ => s
    | .ok other => { s with registry := (s.registry.merge o other).2 }
  | .saveToFile o path =>
    { s with files := Function.update s.files path (some (J.toStringPretty (s.registry.toFile o))) }
  | .loadFromFile order path =>
    match s.loadFromFile J order path with
    | .error _ => s
    | .ok registry => { s with registry := registry }
  | .writeFile path text => { s with files := Function.update s.files path text }
  | .rotateEpoch oldEpoch => { s with registry := rotateEpoch s.registry oldEpoch }

/-- One event after another. -/
def run (s : SpendVerifier Text) (events : List (RegistryEvent Text)) : SpendVerifier Text :=
  events.foldl (step C J) s

variable {C J} in
theorem run_append (s : SpendVerifier Text) (l l' : List (RegistryEvent Text)) :
    run C J s (l ++ l') = run C J (run C J s l) l' := List.foldl_append

/-- The step accepts the credential. -/
def accepts (credential : IssuedAnonymousCredential) (s : SpendVerifier Text) :
    RegistryEvent Text → Bool
  | .verifyAndSpend params c =>
    decide (c = credential) && decide ((C.verifyAndSpend params s.registry c).1 = .ok true)
  | _ => false

/-- The epoch that the event rotates away. -/
def rotated : RegistryEvent Text → Option UInt64
  | .rotateEpoch oldEpoch => some oldEpoch
  | _ => none

/-- Epochs only move forward. -/
def Forward (events : List (RegistryEvent Text)) : Prop :=
  (events.filterMap rotated).Pairwise (· < ·)

/-- The epoch is not rotated away, and a load reads what was saved since and not overwritten. -/
def Keeps (epoch : UInt64) :
    List PathBuf → List (RegistryEvent Text) → Prop
  | _, [] => True
  | saved, .saveToFile _ path :: events => Keeps epoch (path :: saved) events
  | saved, .writeFile path _ :: events => Keeps epoch (saved.filter (· ≠ path)) events
  | saved, .loadFromFile _ path :: events => path ∈ saved ∧ Keeps epoch saved events
  | saved, .rotateEpoch oldEpoch :: events => oldEpoch ≠ epoch ∧ Keeps epoch saved events
  | saved, .verifyAndSpend _ _ :: events => Keeps epoch saved events
  | saved, .merge _ _ :: events => Keeps epoch saved events
  | saved, .mergeFromFile _ _ _ :: events => Keeps epoch saved events

/-! ## What is spent stays spent -/

/-- A nullifier is spent, here and in every file saved since. -/
structure Spent (J : RegistryJson Text) (epoch : UInt64) (n : ReputationNullifier)
    (saved : List PathBuf) (s : SpendVerifier Text) : Prop where
  spent : s.registry.isSpent epoch n = true
  saved : ∀ path ∈ saved, ∀ order, ∃ r, s.loadFromFile J order path = .ok r ∧
    r.isSpent epoch n = true

variable {C J} {epoch : UInt64} {n : ReputationNullifier} {saved : List PathBuf}
  {s : SpendVerifier Text}

theorem isSpent_verifyAndSpend (params : AnonymousCredentialIssuerParams)
    (registry : NullifierRegistry) (credential : IssuedAnonymousCredential)
    (h : registry.isSpent epoch n = true) :
    (C.verifyAndSpend params registry credential).2.isSpent epoch n = true := by
  rcases C.verifyAndSpend_cases params registry credential with
    ⟨-, -, hsame⟩ | ⟨-, -, -, hsame⟩ | ⟨-, -, -, hafter⟩
  · rw [hsame, h]
  · rw [hsame, h]
  · rw [hafter]
    exact Or.inl h

/-- Another registry with the nullifier spent, and the same files. -/
theorem Spent.registry (h : Spent J epoch n saved s) {registry : NullifierRegistry}
    (hspent : registry.isSpent epoch n = true) :
    Spent J epoch n saved { s with registry := registry } :=
  ⟨hspent, h.saved⟩

theorem loadFromFile_update_of_ne {path path' : PathBuf} (h : path' ≠ path)
    (text : Option Text) (order : IterOrder (List Char) (List (List Char))) :
    ({ s with files := Function.update s.files path text } : SpendVerifier Text).loadFromFile J
      order path' = s.loadFromFile J order path' := by
  simp [loadFromFile, Function.update_of_ne h]

/-- What is saved is read back. -/
theorem loadFromFile_saved (hJ : J.RoundTrips) (s : SpendVerifier Text) (o : RegistryOrder)
    (path : PathBuf) (order : IterOrder (List Char) (List (List Char))) :
    ∃ r, (step C J s (.saveToFile o path)).loadFromFile J order path = .ok r ∧
      ∀ e m, r.isSpent e m = s.registry.isSpent e m := by
  obtain ⟨file, hfile, hversion, hepochs⟩ := hJ (s.registry.toFile o)
  obtain ⟨r, hr, hspent⟩ := NullifierRegistry.ofFile_toFile hversion hepochs order
  exact ⟨r, by simp [step, loadFromFile, hfile, hr], hspent⟩

/-- **One step keeps what is spent.** -/
theorem Spent.step (hJ : J.RoundTrips) (h : Spent J epoch n saved s) {event : RegistryEvent Text}
    {events : List (RegistryEvent Text)} (hkeeps : Keeps epoch saved (event :: events)) :
    ∃ saved', Spent J epoch n saved' (SpendVerifier.step C J s event) ∧
      Keeps epoch saved' events := by
  cases event with
  | verifyAndSpend params credential =>
    exact ⟨saved, h.registry (isSpent_verifyAndSpend params _ credential h.spent), hkeeps⟩
  | merge o other =>
    obtain ⟨-, -, hall⟩ := s.registry.isSpent_merge o other
    exact ⟨saved, h.registry ((hall epoch n).mpr (Or.inl h.spent)), hkeeps⟩
  | mergeFromFile o order path =>
    refine ⟨saved, ?_, hkeeps⟩
    rw [SpendVerifier.step]
    cases hload : s.loadFromFile J order path with
    | error e => exact h
    | ok other =>
      obtain ⟨-, -, hall⟩ := s.registry.isSpent_merge o other
      exact h.registry ((hall epoch n).mpr (Or.inl h.spent))
  | saveToFile o path =>
    refine ⟨path :: saved, ⟨h.spent, fun path' hpath order => ?_⟩, hkeeps⟩
    by_cases hne : path' = path
    · subst hne
      obtain ⟨r, hr, hspent⟩ := loadFromFile_saved (C := C) hJ s o path' order
      exact ⟨r, hr, by rw [hspent, h.spent]⟩
    · obtain ⟨r, hr, hspent⟩ := h.saved path' ((List.mem_cons.mp hpath).resolve_left hne) order
      exact ⟨r, (loadFromFile_update_of_ne hne _ order).trans hr, hspent⟩
  | loadFromFile order path =>
    obtain ⟨hpath, hkeeps⟩ := hkeeps
    obtain ⟨r, hr, hspent⟩ := h.saved path hpath order
    refine ⟨saved, ?_, hkeeps⟩
    rw [SpendVerifier.step, hr]
    exact h.registry hspent
  | writeFile path text =>
    refine ⟨saved.filter (· ≠ path), ⟨h.spent, fun path' hpath order => ?_⟩, hkeeps⟩
    obtain ⟨hmem, hne⟩ := List.mem_filter.mp hpath
    obtain ⟨r, hr, hspent⟩ := h.saved path' hmem order
    exact ⟨r, (loadFromFile_update_of_ne (by simpa using hne) text order).trans hr, hspent⟩
  | rotateEpoch oldEpoch =>
    obtain ⟨hne, hkeeps⟩ := hkeeps
    refine ⟨saved, h.registry ?_, hkeeps⟩
    rw [CredentialSuite.rotateEpoch, NullifierRegistry.isSpent_forgetEpoch, if_neg hne.symm, h.spent]

/-- **A run keeps what is spent.** -/
theorem Spent.run (hJ : J.RoundTrips) (h : Spent J epoch n saved s)
    {events : List (RegistryEvent Text)} (hkeeps : Keeps epoch saved events) :
    (SpendVerifier.run C J s events).registry.isSpent epoch n = true := by
  induction events generalizing s saved with
  | nil => exact h.spent
  | cons event events ih =>
    obtain ⟨saved', hstep, hkeeps'⟩ := h.step (C := C) hJ hkeeps
    exact ih hstep hkeeps'

/-- A credential that verifies and is not spent is accepted. -/
theorem accepted_of_fresh {params : AnonymousCredentialIssuerParams}
    (registry : NullifierRegistry) {credential : IssuedAnonymousCredential}
    (hvalid : C.verifyCredential params credential = .ok true)
    (hfresh : registry.isSpent credential.epoch credential.nullifier = false) :
    (C.verifyAndSpend params registry credential).1 = .ok true := by
  rcases C.verifyAndSpend_cases params registry credential with
    ⟨hinvalid, -⟩ | ⟨-, hspent, -⟩ | ⟨-, -, haccept, -⟩
  · exact absurd hvalid hinvalid
  · exact absurd (hspent.symm.trans hfresh) (by simp)
  · exact haccept

/-! ## Every run -/

/-- **Single spend**: once a credential is accepted, no credential with its epoch and nullifier
is, until the epoch is rotated away; then it is accepted once more. -/
theorem accepted_once_of_run (hJ : J.RoundTrips) (s : SpendVerifier Text)
    (before : List (RegistryEvent Text)) (params : AnonymousCredentialIssuerParams)
    (credential : IssuedAnonymousCredential)
    (haccepted : (C.verifyAndSpend params (run C J s before).registry credential).1 = .ok true)
    (mid : List (RegistryEvent Text)) :
    (Keeps credential.epoch [] mid → ∀ params' credential', credential'.epoch = credential.epoch →
      credential'.nullifier = credential.nullifier →
      (C.verifyAndSpend params' (run C J s
        (before ++ .verifyAndSpend params credential :: mid)).registry credential').1 ≠ .ok true) ∧
    (C.verifyAndSpend params (run C J s (before ++ .verifyAndSpend params credential :: mid ++
      [.rotateEpoch credential.epoch])).registry credential).1 = .ok true := by
  have hvalid : C.verifyCredential params credential = .ok true := by
    rcases C.verifyAndSpend_cases params (run C J s before).registry credential with
      ⟨-, hrefused, -⟩ | ⟨hvalid, -⟩ | ⟨hvalid, -⟩
    · exact absurd haccepted hrefused
    · exact hvalid
    · exact hvalid
  refine ⟨fun hkeeps params' credential' hepoch hnullifier => ?_, ?_⟩
  · have hspent : Spent J credential.epoch credential.nullifier []
        (step C J (run C J s before) (.verifyAndSpend params credential)) := by
      refine ⟨?_, fun path hpath => absurd hpath List.not_mem_nil⟩
      rcases C.verifyAndSpend_cases params (run C J s before).registry credential with
        ⟨-, hrefused, -⟩ | ⟨-, -, hrefused, -⟩ | ⟨-, -, -, hafter⟩
      · exact absurd haccepted hrefused
      · rw [hrefused] at haccepted
        cases haccepted
      · exact (hafter _ _).mpr (Or.inr ⟨rfl, rfl⟩)
    have hrun := hspent.run (C := C) hJ hkeeps
    rw [run_append]
    rcases C.verifyAndSpend_cases params' (run C J (run C J s before)
        (.verifyAndSpend params credential :: mid)).registry credential' with
      ⟨-, hrefused, -⟩ | ⟨-, -, hrefused, -⟩ | ⟨-, hfresh, -⟩
    · exact hrefused
    · rw [hrefused]
      simp
    · rw [hepoch, hnullifier] at hfresh
      exact absurd (hrun.symm.trans hfresh) (by simp)
  · rw [run_append]
    refine accepted_of_fresh _ hvalid ?_
    show (rotateEpoch _ _).isSpent _ _ = false
    rw [CredentialSuite.rotateEpoch, NullifierRegistry.isSpent_forgetEpoch, if_pos rfl]

/-! ### A toy scheme -/

/-- A proof names its threshold, and a digest is the sum of the bytes. -/
def checksumCredentials : CredentialSuite UInt8 UInt8 where
  toEd25519 := HealthQuorumLog.checksumEd25519
  fromBytes := fun b => some b.head
  proveSingle := fun threshold delta _ =>
    ⟨List.Vector.replicate 32 (UInt8.ofNat delta.toNat), u64Bytes threshold⟩
  verifySingle := fun threshold proof => decide (proof.rangeProof = u64Bytes threshold)
  sha3 := fun bytes => List.Vector.replicate 32 bytes.sum

/-- Files are kept as they are. -/
def checksumJson : RegistryJson NullifierRegistryFile := ⟨id, .ok⟩

theorem complete_checksumCredentials : checksumCredentials.Complete where
  fromBytes := fun _ => rfl
  verify := fun _ _ => decide_eq_true rfl
  verifySingle := fun _ _ _ => decide_eq_true rfl

theorem roundTrips_checksumJson : checksumJson.RoundTrips := fun file =>
  ⟨file, rfl, rfl, fun _ => rfl⟩

/-- A credential of epoch 1, at its threshold. -/
def checksumCredential : Except IssuerError IssuedAnonymousCredential :=
  checksumCredentials.issue 7 (1 / 2) (1 / 2) (Bytes.zero 32) 1 (Bytes.zero 32) (Bytes.zero 32)

/-- A verifier that has seen nothing. -/
def checksumVerifier : SpendVerifier NullifierRegistryFile := ⟨.new, fun _ => none⟩

theorem valid_checksumCredential : ∃ credential, checksumCredential = .ok credential ∧
    credential.epoch = 1 ∧ checksumCredentials.verifyCredential
      (checksumCredentials.publicParams 7) credential = .ok true := by
  have hissue : ∃ credential, checksumCredential = .ok credential ∧ credential.epoch = 1 := by
    unfold checksumCredential issue
    rw [if_neg (lt_irrefl _)]
    exact ⟨_, rfl, rfl⟩
  obtain ⟨credential, hcredential, hepoch⟩ := hissue
  exact ⟨credential, hcredential, hepoch, verifyCredential_issue complete_checksumCredentials
    hcredential⟩

/-- A credential that was saved and loaded again is refused, and is accepted after a rotation. -/
theorem accepted_once_of_run_checksum : ∃ credential, checksumCredential = .ok credential ∧
    (checksumCredentials.verifyAndSpend (checksumCredentials.publicParams 7)
      (run checksumCredentials checksumJson checksumVerifier
        [.verifyAndSpend (checksumCredentials.publicParams 7) credential,
          .saveToFile ⟨.latestFirst, fun _ => .latestFirst⟩ ['r'],
          .loadFromFile .latestFirst ['r']]).registry credential).1 ≠ .ok true ∧
    (checksumCredentials.verifyAndSpend (checksumCredentials.publicParams 7)
      (run checksumCredentials checksumJson checksumVerifier
        [.verifyAndSpend (checksumCredentials.publicParams 7) credential,
          .saveToFile ⟨.latestFirst, fun _ => .latestFirst⟩ ['r'],
          .loadFromFile .latestFirst ['r'],
          .rotateEpoch credential.epoch]).registry credential).1 = .ok true := by
  obtain ⟨credential, hcredential, -, hvalid⟩ := valid_checksumCredential
  obtain ⟨hrefused, hagain⟩ := accepted_once_of_run (C := checksumCredentials)
    roundTrips_checksumJson checksumVerifier [] (checksumCredentials.publicParams 7) credential
    (accepted_of_fresh _ hvalid rfl)
    [.saveToFile ⟨.latestFirst, fun _ => .latestFirst⟩ ['r'], .loadFromFile .latestFirst ['r']]
  exact ⟨credential, hcredential,
    hrefused ⟨List.mem_singleton_self _, trivial⟩ _ credential rfl rfl, hagain⟩

/-- **A rotation makes a credential spendable again**: one issued for epoch 1 is accepted, epoch 1
is rotated away, and the credential is accepted once more.  So does a stale load: the registry is
saved, the credential is accepted, the file is loaded, and the credential is accepted once more. -/
theorem accepted_twice_checksum : ∃ credential, checksumCredential = .ok credential ∧
    (Forward ([.verifyAndSpend (checksumCredentials.publicParams 7) credential, .rotateEpoch 1,
        .verifyAndSpend (checksumCredentials.publicParams 7) credential] :
        List (RegistryEvent NullifierRegistryFile)) ∧
      Run.count (step checksumCredentials checksumJson) (accepts checksumCredentials credential)
        checksumVerifier
        [.verifyAndSpend (checksumCredentials.publicParams 7) credential, .rotateEpoch 1,
          .verifyAndSpend (checksumCredentials.publicParams 7) credential] = 2) ∧
    Run.count (step checksumCredentials checksumJson) (accepts checksumCredentials credential)
      checksumVerifier
      [.saveToFile ⟨.latestFirst, fun _ => .latestFirst⟩ ['r'],
        .verifyAndSpend (checksumCredentials.publicParams 7) credential,
        .loadFromFile .latestFirst ['r'],
        .verifyAndSpend (checksumCredentials.publicParams 7) credential] = 2 := by
  obtain ⟨credential, hcredential, hepoch, hvalid⟩ := valid_checksumCredential
  have hfirst := accepted_of_fresh .new hvalid rfl
  refine ⟨credential, hcredential, ⟨List.pairwise_singleton _ (1 : UInt64), ?_⟩, ?_⟩
  · have hagain := accepted_of_fresh (rotateEpoch (checksumCredentials.verifyAndSpend
      (checksumCredentials.publicParams 7) .new credential).2 1) hvalid (by
        rw [CredentialSuite.rotateEpoch, NullifierRegistry.isSpent_forgetEpoch, if_pos hepoch])
    simp [Run.count, accepts, step, checksumVerifier, hfirst, hagain]
  · have hload : ∀ registry, loadFromFile checksumJson
        ⟨registry, Function.update (fun _ => none) ['r'] (some (checksumJson.toStringPretty
          (NullifierRegistry.new.toFile ⟨.latestFirst, fun _ => .latestFirst⟩)))⟩
        .latestFirst ['r'] = .ok .new := by
      intro registry
      unfold loadFromFile
      dsimp only
      rw [Function.update_self]
      rfl
    simp [Run.count, accepts, step, checksumVerifier, hfirst, hload]

end SpendVerifier

end Aegis
