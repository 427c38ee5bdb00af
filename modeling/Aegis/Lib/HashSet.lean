import Aegis.Lib.HashMap

/-!
# Hash sets and maps built by insertions

A hash set is a hash map to nothing.  A map built by inserting pairs with different keys holds
exactly these pairs.

* `lookup_insertAll` — what the map holds.
* `nodup_of_length_insertAll` — a map with an entry for each pair shows that the keys differ.
-/

/-- A set of `κ`, whose members are the keys. -/
abbrev HashSet (κ : Type) := HashMap κ Unit

namespace HashSet

variable {κ : Type} [DecidableEq κ]

/-- `HashSet::iter`. -/
def iter (o : IterOrder κ Unit) (s : HashSet κ) : List κ := (o.iter s).map Sigma.fst

theorem mem_iff_lookup {s : HashSet κ} {k : κ} : k ∈ s ↔ s.lookup k = some () := by
  rw [← AList.lookup_isSome, Option.isSome_iff_exists]
  exact ⟨fun ⟨_, h⟩ => h, fun h => ⟨(), h⟩⟩

@[simp] theorem mem_iter {o : IterOrder κ Unit} {s : HashSet κ} {k : κ} :
    k ∈ s.iter o ↔ k ∈ s := by
  rw [mem_iff_lookup, ← IterOrder.mem_iter (o := o), iter, List.mem_map]
  constructor
  · rintro ⟨⟨k', ⟨⟩⟩, hmem, rfl⟩
    exact hmem
  · intro hmem
    exact ⟨_, hmem, rfl⟩

omit [DecidableEq κ] in
theorem nodup_iter (o : IterOrder κ Unit) (s : HashSet κ) : (s.iter o).Nodup :=
  o.nodup_keys_iter s

end HashSet

namespace HashMap

variable {κ α : Type} [DecidableEq κ]

/-- The pairs, inserted one after another. -/
def insertAll (pairs : List (κ × α)) : HashMap κ α :=
  pairs.foldl (fun m p => m.insert p.1 p.2) ∅

theorem insertAll_concat (pairs : List (κ × α)) (p : κ × α) :
    insertAll (pairs ++ [p]) = (insertAll pairs).insert p.1 p.2 := by
  simp [insertAll]

/-- **A map built from different keys holds what was inserted.** -/
theorem lookup_insertAll {pairs : List (κ × α)} (h : (pairs.map Prod.fst).Nodup) {k : κ} {a : α} :
    (insertAll pairs).lookup k = some a ↔ (k, a) ∈ pairs := by
  induction pairs using List.reverseRecOn with
  | nil => simp [insertAll]
  | append_singleton pairs p ih =>
    rw [List.map_append, List.nodup_append] at h
    obtain ⟨hpairs, -, hnew⟩ := h
    rw [insertAll_concat, List.mem_append, List.mem_singleton]
    by_cases hk : k = p.1
    · subst hk
      have hold : ∀ b, (p.1, b) ∉ pairs := by
        intro b hb
        exact hnew p.1 (List.mem_map.mpr ⟨(p.1, b), hb, rfl⟩) p.1 (by simp) rfl
      simp [hold, Prod.ext_iff, eq_comm]
    · rw [AList.lookup_insert_ne hk, ih hpairs]
      constructor
      · exact Or.inl
      · rintro (hmem | rfl)
        · exact hmem
        · exact absurd rfl hk

theorem mem_insertAll {pairs : List (κ × α)} {k : κ} :
    k ∈ insertAll pairs ↔ k ∈ pairs.map Prod.fst := by
  induction pairs using List.reverseRecOn with
  | nil => simp [insertAll]
  | append_singleton pairs p ih =>
    rw [insertAll_concat, AList.mem_insert, ih]
    simp [or_comm]

/-- **As many entries as pairs**: the keys are different. -/
theorem nodup_of_length_insertAll {pairs : List (κ × α)}
    (h : (insertAll pairs).entries.length = pairs.length) : (pairs.map Prod.fst).Nodup := by
  have hkeys : (insertAll pairs).keys.toFinset = (pairs.map Prod.fst).toFinset := by
    ext k
    rw [List.mem_toFinset, List.mem_toFinset, ← mem_insertAll]
    rfl
  have hcard := List.toFinset_card_of_nodup (insertAll pairs).keys_nodup
  rw [hkeys, AList.keys, List.keys, List.length_map, h] at hcard
  exact Multiset.coe_nodup.mp (Multiset.toFinset_card_eq_card_iff_nodup.mp
    (hcard.trans (List.length_map _).symm))

end HashMap
