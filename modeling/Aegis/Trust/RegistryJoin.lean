import Aegis.Trust.SingleSpend

/-!
# Merging and loading registries (`nullifier.rs`)

The spent nullifiers of a registry are a set of pairs, and a merge is the union of two such sets.
A registry file lists the nullifiers of an epoch under a text that is parsed as a number;
`load_from_file` keeps one set for each number, and the last text that stands for a number wins.

* `merge_join` — **a merge is a join**, and counts what it takes in.
* `listed_spent_iff` — **when a load spends everything that its file lists.**
-/

namespace Aegis

namespace NullifierRegistry

/-! ## The spent set -/

/-- What is spent, as a set. -/
def spentSet (r : NullifierRegistry) : Set (UInt64 × ReputationNullifier) :=
  { p | r.isSpent p.1 p.2 = true }

/-- `NullifierRegistry::len`. -/
def len (r : NullifierRegistry) : ℕ :=
  (r.used.entries.map fun e => e.2.entries.length).sum

theorem mem_spent_iff {o : RegistryOrder} {r : NullifierRegistry}
    {p : UInt64 × ReputationNullifier} : p ∈ r.spent o ↔ p ∈ r.spentSet := mem_spent

theorem length_spent (o : RegistryOrder) (r : NullifierRegistry) : (r.spent o).length = r.len := by
  unfold spent len
  rw [List.length_flatMap]
  have hentry : ∀ e : (Σ _ : UInt64, HashSet ReputationNullifier),
      ((e.2.iter (o.nullifiers e.1)).map (Prod.mk e.1)).length = e.2.entries.length := by
    intro e
    rw [List.length_map, HashSet.iter, List.length_map, IterOrder.length_iter]
  simp only [hentry]
  exact ((o.epochs.iter_perm r.used).map _).sum_eq

theorem nodup_spent (o : RegistryOrder) (r : NullifierRegistry) : (r.spent o).Nodup := by
  unfold spent
  rw [List.nodup_flatMap]
  constructor
  · intro e _
    exact (HashSet.nodup_iter _ _).map fun m n h => (Prod.mk.inj h).2
  · have hkeys : (o.epochs.iter r.used).Pairwise fun e e' => e.1 ≠ e'.1 :=
      List.pairwise_map.mp (o.epochs.nodup_keys_iter r.used)
    refine hkeys.imp fun {e e'} hne p hp hp' => ?_
    obtain ⟨m, -, rfl⟩ := List.mem_map.mp hp
    obtain ⟨m', -, heq⟩ := List.mem_map.mp hp'
    exact hne (Prod.mk.inj heq).1.symm

/-- **`len` is the size of the spent set.** -/
theorem ncard_spentSet (r : NullifierRegistry) : r.spentSet.ncard = r.len := by
  let o : RegistryOrder := ⟨.latestFirst, fun _ => .latestFirst⟩
  have hset : r.spentSet = ((r.spent o).toFinset : Set (UInt64 × ReputationNullifier)) := by
    ext p
    rw [List.coe_toFinset, Set.mem_ofPred_eq, mem_spent_iff]
  rw [hset, Set.ncard_coe_finset, List.toFinset_card_of_nodup (r.nodup_spent o), r.length_spent o]

/-- **What a merge returns, and what is spent after it.** -/
theorem merge_spec (o : RegistryOrder) (r other : NullifierRegistry) :
    ∃ report, (r.merge o other).1 = .ok report ∧
      report.added + report.alreadyPresent = other.len ∧
      (r.merge o other).2.spentSet = r.spentSet ∪ other.spentSet := by
  obtain ⟨report, hok, hcount, hall⟩ := r.isSpent_mergeAll (other.spent o) ⟨0, 0⟩
  refine ⟨report, hok, ?_, ?_⟩
  · rw [hcount, length_spent, Nat.add_zero, Nat.zero_add]
  · ext p
    rw [Set.mem_union, ← mem_spent_iff (o := o) (r := other)]
    exact hall p.1 p.2

theorem spentSet_merge (o : RegistryOrder) (r other : NullifierRegistry) :
    (r.merge o other).2.spentSet = r.spentSet ∪ other.spentSet := by
  obtain ⟨report, -, -, hset⟩ := merge_spec o r other
  exact hset

/-- What was exported is loaded with the same spent set. -/
theorem spentSet_exported {Text : Type} {J : RegistryJson Text} (hJ : J.RoundTrips)
    (r : NullifierRegistry) (o : RegistryOrder) (order : IterOrder (List Char) (List (List Char)))
    (files : PathBuf → Option Text) (path : PathBuf) :
    ∃ r', (SpendVerifier.mk r (Function.update files path
        (some (J.toStringPretty (r.toFile o))))).loadFromFile J order path = .ok r' ∧
      r'.spentSet = r.spentSet := by
  obtain ⟨file, hfile, hversion, hepochs⟩ := hJ (r.toFile o)
  obtain ⟨r', hr', hspent⟩ := ofFile_toFile hversion hepochs order
  refine ⟨r', ?_, ?_⟩
  · simp [SpendVerifier.loadFromFile, hfile, hr']
  · ext p
    show r'.isSpent p.1 p.2 = true ↔ r.isSpent p.1 p.2 = true
    rw [hspent]

/-- **A merge is a join.**  For any three registries, whatever the orders in which they are gone
through: a merge is never refused, counts the other registry and leaves the union spent; it is
commutative, associative and idempotent on spent sets; and what is exported is loaded with the
same spent set. -/
theorem merge_join {Text : Type} (J : RegistryJson Text) (hJ : J.RoundTrips)
    (a b c : NullifierRegistry) :
    (∀ o, ∃ report, (a.merge o b).1 = .ok report ∧
        report.added + report.alreadyPresent = b.len ∧ b.len = b.spentSet.ncard ∧
        (a.merge o b).2.spentSet = a.spentSet ∪ b.spentSet) ∧
      (∀ o o', (a.merge o b).2.spentSet = (b.merge o' a).2.spentSet) ∧
      (∀ o₁ o₂ o₃ o₄, ((a.merge o₁ b).2.merge o₂ c).2.spentSet =
        (a.merge o₃ (b.merge o₄ c).2).2.spentSet) ∧
      (∀ o, (a.merge o a).2.spentSet = a.spentSet) ∧
      ∀ o order files path, ∃ r', (SpendVerifier.mk a (Function.update files path
          (some (J.toStringPretty (a.toFile o))))).loadFromFile J order path = .ok r' ∧
        r'.spentSet = a.spentSet := by
  refine ⟨fun o => ?_, fun o o' => ?_, fun o₁ o₂ o₃ o₄ => ?_, fun o => ?_,
    spentSet_exported hJ a⟩
  · obtain ⟨report, hok, hcount, hset⟩ := merge_spec o a b
    exact ⟨report, hok, hcount, (ncard_spentSet b).symm, hset⟩
  · rw [spentSet_merge, spentSet_merge, Set.union_comm]
  · rw [spentSet_merge, spentSet_merge, spentSet_merge, spentSet_merge, Set.union_assoc]
  · rw [spentSet_merge, Set.union_self]

/-- A registry in which `n…n` is spent in epoch 7. -/
def spentInSeven (n : UInt8) : NullifierRegistry :=
  (NullifierRegistry.new.tryRegister 7 (.replicate 32 n)).2

theorem merge_join_checksum :
    (∀ o, ∃ report, ((spentInSeven 1).merge o (spentInSeven 2)).1 = .ok report ∧
        report.added + report.alreadyPresent = (spentInSeven 2).len ∧
        (spentInSeven 2).len = (spentInSeven 2).spentSet.ncard ∧
        ((spentInSeven 1).merge o (spentInSeven 2)).2.spentSet =
          (spentInSeven 1).spentSet ∪ (spentInSeven 2).spentSet) ∧
      ∀ o order files path, ∃ r', (SpendVerifier.mk (spentInSeven 1) (Function.update files path
          (some (SpendVerifier.checksumJson.toStringPretty
            ((spentInSeven 1).toFile o))))).loadFromFile SpendVerifier.checksumJson order path =
          .ok r' ∧ r'.spentSet = (spentInSeven 1).spentSet := by
  obtain ⟨hmerge, -, -, -, hload⟩ := merge_join SpendVerifier.checksumJson
    SpendVerifier.roundTrips_checksumJson (spentInSeven 1) (spentInSeven 2) (spentInSeven 3)
  exact ⟨hmerge, hload⟩

/-! ## What a load keeps -/

/-- The file lists the nullifier under a text that stands for the epoch. -/
def Listed (file : NullifierRegistryFile) (epoch : UInt64) (n : ReputationNullifier) : Prop :=
  ∃ key hexes hex, file.epochs.lookup key = some hexes ∧ parseU64 key = some epoch ∧
    hex ∈ hexes ∧ parseHex32 hex = .ok n

/-- The nullifiers that the load of an epoch takes in. -/
theorem mem_foldlM_loadNullifier {epoch : UInt64} {hexes : List (List Char)}
    {set : HashSet ReputationNullifier} (h : hexes.foldlM (loadNullifier epoch) ∅ = .ok set)
    (n : ReputationNullifier) : n ∈ set ↔ ∃ hex ∈ hexes, parseHex32 hex = .ok n := by
  induction hexes using List.reverseRecOn generalizing set with
  | nil =>
    obtain rfl := Except.ok.inj h
    simp
  | append_singleton hexes hex ih =>
    obtain ⟨before, hbefore, hstep⟩ := Run.foldlM_concat.mp h
    unfold loadNullifier at hstep
    cases hparse : parseHex32 hex with
    | error e =>
      rw [hparse] at hstep
      cases hstep
    | ok parsed =>
      rw [hparse] at hstep
      by_cases hmem : parsed ∈ before
      · simp only [if_pos hmem] at hstep
        cases hstep
      · simp only [if_neg hmem] at hstep
        obtain rfl := Except.ok.inj hstep
        rw [AList.mem_insert, ih hbefore]
        simp only [List.mem_append, List.mem_singleton, or_and_right, exists_or, exists_eq_left,
          hparse, Except.ok.injEq]
        rw [or_comm, eq_comm]

/-- An epoch that loads lists only nullifiers. -/
theorem exists_parseHex32 {epoch : UInt64} {hexes : List (List Char)}
    {set : HashSet ReputationNullifier} (h : hexes.foldlM (loadNullifier epoch) ∅ = .ok set)
    {hex : List Char} (hhex : hex ∈ hexes) : ∃ n, parseHex32 hex = .ok n := by
  induction hexes using List.reverseRecOn generalizing set with
  | nil => cases hhex
  | append_singleton hexes last ih =>
    obtain ⟨before, hbefore, hstep⟩ := Run.foldlM_concat.mp h
    rcases List.mem_append.mp hhex with hold | hlast
    · exact ih hbefore hold
    · obtain rfl := List.mem_singleton.mp hlast
      unfold loadNullifier at hstep
      cases hparse : parseHex32 hex with
      | error e =>
        rw [hparse] at hstep
        cases hstep
      | ok n => exact ⟨n, rfl⟩

/-- The epoch that an entry of the file stands for, and the set that it loads to. -/
def LoadsTo (entry : Σ _ : List Char, List (List Char)) (epoch : UInt64)
    (set : HashSet ReputationNullifier) : Prop :=
  parseU64 entry.1 = some epoch ∧ entry.2.foldlM (loadNullifier epoch) ∅ = .ok set

theorem loadEpoch_eq_ok_iff {used used' : HashMap UInt64 (HashSet ReputationNullifier)}
    {entry : Σ _ : List Char, List (List Char)} :
    loadEpoch used entry = .ok used' ↔
      ∃ epoch set, LoadsTo entry epoch set ∧ used' = used.insert epoch set := by
  constructor
  · intro h
    unfold loadEpoch at h
    cases hepoch : parseU64 entry.1 with
    | none =>
      rw [hepoch] at h
      cases h
    | some epoch =>
      simp only [hepoch] at h
      cases hload : entry.2.foldlM (loadNullifier epoch) ∅ with
      | error e =>
        rw [hload] at h
        cases h
      | ok set =>
        rw [hload] at h
        exact ⟨epoch, set, ⟨hepoch, hload⟩, (Except.ok.inj h).symm⟩
  · rintro ⟨epoch, set, ⟨hepoch, hload⟩, rfl⟩
    unfold loadEpoch
    simp only [hepoch, hload]

/-- **A file is accepted in every order or in none**: each entry is loaded by itself. -/
theorem exists_foldlM_loadEpoch {entries : List (Σ _ : List Char, List (List Char))} :
    (∃ used, entries.foldlM loadEpoch ∅ = .ok used) ↔
      ∀ entry ∈ entries, ∃ epoch set, LoadsTo entry epoch set := by
  induction entries using List.reverseRecOn with
  | nil => exact iff_of_true ⟨∅, rfl⟩ (fun entry h => by cases h)
  | append_singleton entries last ih =>
    constructor
    · rintro ⟨used, hused⟩ entry hentry
      obtain ⟨before, hbefore, hstep⟩ := Run.foldlM_concat.mp hused
      rcases List.mem_append.mp hentry with hold | hlast
      · exact ih.mp ⟨before, hbefore⟩ entry hold
      · obtain rfl := List.mem_singleton.mp hlast
        obtain ⟨epoch, set, hloads, -⟩ := loadEpoch_eq_ok_iff.mp hstep
        exact ⟨epoch, set, hloads⟩
    · intro h
      obtain ⟨before, hbefore⟩ := ih.mpr fun entry hentry =>
        h entry (List.mem_append_left _ hentry)
      obtain ⟨epoch, set, hloads⟩ := h last (List.mem_append_right _ (List.mem_singleton_self last))
      exact ⟨before.insert epoch set, Run.foldlM_concat.mpr ⟨before, hbefore,
        loadEpoch_eq_ok_iff.mpr ⟨epoch, set, hloads, rfl⟩⟩⟩

/-- **One entry of each epoch wins.** -/
theorem lookup_foldlM_loadEpoch {entries : List (Σ _ : List Char, List (List Char))}
    {used : HashMap UInt64 (HashSet ReputationNullifier)}
    (h : entries.foldlM loadEpoch ∅ = .ok used) {entry : Σ _ : List Char, List (List Char)}
    (hentry : entry ∈ entries) {epoch : UInt64} (hepoch : parseU64 entry.1 = some epoch) :
    ∃ winner ∈ entries, ∃ set, LoadsTo winner epoch set ∧ used.lookup epoch = some set := by
  induction entries using List.reverseRecOn generalizing used with
  | nil => cases hentry
  | append_singleton entries last ih =>
    obtain ⟨before, hbefore, hstep⟩ := Run.foldlM_concat.mp h
    obtain ⟨epoch', set, hloads, rfl⟩ := loadEpoch_eq_ok_iff.mp hstep
    by_cases heq : epoch = epoch'
    · subst heq
      exact ⟨last, List.mem_append_right _ (List.mem_singleton_self last), set, hloads,
        AList.lookup_insert _⟩
    · rcases List.mem_append.mp hentry with hold | hlast
      · obtain ⟨winner, hwinner, set', hset', hlookup⟩ := ih hbefore hold
        exact ⟨winner, List.mem_append_left _ hwinner, set', hset',
          (AList.lookup_insert_ne heq).trans hlookup⟩
      · obtain rfl := List.mem_singleton.mp hlast
        rw [hloads.1] at hepoch
        exact absurd (Option.some.inj hepoch).symm heq

theorem ofFile_eq_ok_iff {order : IterOrder (List Char) (List (List Char))}
    {file : NullifierRegistryFile} {r : NullifierRegistry} :
    ofFile order file = .ok r ↔ file.version = registryFileVersion ∧
      (order.iter file.epochs).foldlM loadEpoch ∅ = .ok r.used := by
  unfold ofFile
  by_cases hversion : file.version ≠ registryFileVersion
  · rw [if_pos hversion]
    exact iff_of_false nofun fun h => hversion h.1
  · rw [if_neg hversion, and_iff_right (not_not.mp hversion)]
    cases (order.iter file.epochs).foldlM loadEpoch ∅ with
    | error e => exact iff_of_false nofun nofun
    | ok used =>
      constructor
      · intro h
        obtain rfl := Except.ok.inj h
        rfl
      · intro h
        obtain rfl := Except.ok.inj h
        rfl

/-- A file that is accepted in one order is accepted in every other. -/
theorem ofFile_of_ofFile {order : IterOrder (List Char) (List (List Char))}
    {file : NullifierRegistryFile} {r : NullifierRegistry} (h : ofFile order file = .ok r)
    (order' : IterOrder (List Char) (List (List Char))) : ∃ r', ofFile order' file = .ok r' := by
  obtain ⟨hversion, hload⟩ := ofFile_eq_ok_iff.mp h
  have hperm : (order'.iter file.epochs).Perm (order.iter file.epochs) :=
    (order'.iter_perm _).trans (order.iter_perm _).symm
  obtain ⟨used, hused⟩ := exists_foldlM_loadEpoch.mpr fun entry hentry =>
    exists_foldlM_loadEpoch.mp ⟨r.used, hload⟩ entry (hperm.mem_iff.mp hentry)
  exact ⟨⟨used⟩, ofFile_eq_ok_iff.mpr ⟨hversion, hused⟩⟩

/-- **When a load spends everything that its file lists.**  For every file that is accepted:
whatever the order in which its epochs are gone through, every nullifier that is listed under a text
that stands for an epoch is spent in it, if and only if any two texts that stand for the same epoch
list the same nullifiers. -/
theorem listed_spent_iff (file : NullifierRegistryFile)
    (haccepted : ∃ order r, ofFile order file = .ok r) :
    (∀ order r, ofFile order file = .ok r → ∀ epoch n, Listed file epoch n →
        r.isSpent epoch n = true) ↔
      ∀ key key' hexes hexes', file.epochs.lookup key = some hexes →
        file.epochs.lookup key' = some hexes' → parseU64 key = parseU64 key' →
        ∀ hex ∈ hexes, ∃ hex' ∈ hexes', parseHex32 hex' = parseHex32 hex := by
  obtain ⟨order₀, r₀, hr₀⟩ := haccepted
  constructor
  · intro h key key' hexes hexes' hkey hkey' hepochs hex hhex
    -- in an order in which the other text comes last, its set is the one that is kept
    obtain ⟨r, hr⟩ := ofFile_of_ofFile hr₀ (.lastly key')
    obtain ⟨-, hload⟩ := ofFile_eq_ok_iff.mp hr
    obtain ⟨before, hbefore⟩ := IterOrder.iter_lastly hkey'
    rw [hbefore] at hload
    obtain ⟨used, -, hstep⟩ := Run.foldlM_concat.mp hload
    obtain ⟨epoch, set, hloads, hused⟩ := loadEpoch_eq_ok_iff.mp hstep
    obtain ⟨n, hn⟩ : ∃ n, parseHex32 hex = .ok n := by
      obtain ⟨-, hload₀⟩ := ofFile_eq_ok_iff.mp hr₀
      obtain ⟨e, s, hs⟩ := exists_foldlM_loadEpoch.mp ⟨_, hload₀⟩ ⟨key, hexes⟩
        (IterOrder.mem_iter.mpr hkey)
      exact exists_parseHex32 hs.2 hhex
    have hspent := h _ r hr epoch n ⟨key, hexes, hex, hkey, hepochs.trans hloads.1, hhex, hn⟩
    obtain ⟨set', hlookup, hmem⟩ := isSpent_iff.mp hspent
    rw [hused, AList.lookup_insert] at hlookup
    obtain rfl := Option.some.inj hlookup
    obtain ⟨hex', hhex', hn'⟩ := (mem_foldlM_loadNullifier hloads.2 n).mp hmem
    exact ⟨hex', hhex', hn'.trans hn.symm⟩
  · rintro h order r hr epoch n ⟨key, hexes, hex, hkey, hepoch, hhex, hn⟩
    obtain ⟨-, hload⟩ := ofFile_eq_ok_iff.mp hr
    obtain ⟨⟨key', hexes'⟩, hwinner, set, hloads, hlookup⟩ := lookup_foldlM_loadEpoch hload
      (IterOrder.mem_iter.mpr hkey) hepoch
    obtain ⟨hex', hhex', hsame⟩ := h key key' hexes hexes' hkey (IterOrder.mem_iter.mp hwinner)
      (hepoch.trans hloads.1.symm) hex hhex
    exact isSpent_iff.mpr ⟨set, hlookup,
      (mem_foldlM_loadNullifier hloads.2 n).mpr ⟨hex', hhex', hsame.trans hn⟩⟩

/-- A file that lists `1…1` under the first text and `2…2` under the second. -/
def twoTexts (first second : List Char) : NullifierRegistryFile :=
  ⟨registryFileVersion, ((∅ : HashMap (List Char) (List (List Char))).insert first
    [hex32 (.replicate 32 1)]).insert second [hex32 (.replicate 32 2)]⟩

theorem twoTexts_accepted {first second : List Char} (e e' : UInt64)
    (hfirst : parseU64 first = some e) (hsecond : parseU64 second = some e')
    (hne : second ≠ first) :
    ofFile .latestFirst (twoTexts first second) =
      .ok ⟨((∅ : HashMap UInt64 (HashSet ReputationNullifier)).insert e'
        ((∅ : HashSet ReputationNullifier).insert (.replicate 32 2) ())).insert e
          ((∅ : HashSet ReputationNullifier).insert (.replicate 32 1) ())⟩ := by
  have hiter : (IterOrder.latestFirst.iter (twoTexts first second).epochs) =
      [⟨second, [hex32 (.replicate 32 2)]⟩, ⟨first, [hex32 (.replicate 32 1)]⟩] := by
    show (AList.insert _ _ _).entries = _
    rw [HashMap.entries_insert_eq, HashMap.entries_insert_eq,
      List.filter_cons_of_pos (by simpa using hne.symm)]
    rfl
  have hload : ∀ (used : HashMap UInt64 (HashSet ReputationNullifier)) key epoch n,
      parseU64 key = some epoch → loadEpoch used ⟨key, [hex32 n]⟩ =
        .ok (used.insert epoch ((∅ : HashSet ReputationNullifier).insert n ())) := by
    intro used key epoch n hkey
    refine loadEpoch_eq_ok_iff.mpr ⟨epoch, _, ⟨hkey, ?_⟩, rfl⟩
    rw [List.foldlM_cons, loadNullifier, parseHex32_hex32]
    rfl
  refine ofFile_eq_ok_iff.mpr ⟨rfl, ?_⟩
  rw [hiter, List.foldlM_cons, hload _ _ _ _ hsecond]
  show List.foldlM loadEpoch _ [_] = _
  rw [List.foldlM_cons, hload _ _ _ _ hfirst]
  rfl

theorem listed_spent_iff_twoTexts :
    (∀ order r, ofFile order (twoTexts "7".toList "8".toList) = .ok r → ∀ epoch n,
        Listed (twoTexts "7".toList "8".toList) epoch n → r.isSpent epoch n = true) ↔
      ∀ key key' hexes hexes',
        (twoTexts "7".toList "8".toList).epochs.lookup key = some hexes →
        (twoTexts "7".toList "8".toList).epochs.lookup key' = some hexes' →
        parseU64 key = parseU64 key' →
        ∀ hex ∈ hexes, ∃ hex' ∈ hexes', parseHex32 hex' = parseHex32 hex :=
  listed_spent_iff (twoTexts "7".toList "8".toList)
    ⟨.latestFirst, _, twoTexts_accepted 7 8 (by decide +kernel) (by decide +kernel) (by decide)⟩

/-- Under `7` and `07`, only one of the two lists is kept. -/
theorem listed_lost_twoTexts :
    ∃ r, ofFile .latestFirst (twoTexts "7".toList "07".toList) = .ok r ∧
      Listed (twoTexts "7".toList "07".toList) 7 (.replicate 32 2) ∧
      r.isSpent 7 (.replicate 32 2) = false := by
  have hfirst : parseU64 "7".toList = some 7 := by decide +kernel
  have hsecond : parseU64 "07".toList = some 7 := by decide +kernel
  refine ⟨_, twoTexts_accepted 7 7 hfirst hsecond (by decide), ?_, ?_⟩
  · exact ⟨"07".toList, _, _, AList.lookup_insert _, hsecond, List.mem_singleton_self _,
      parseHex32_hex32 _⟩
  · rw [isSpent_insert, if_pos rfl]
    decide

end NullifierRegistry

end Aegis
