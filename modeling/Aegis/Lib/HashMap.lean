import Mathlib

/-!
# Hash maps

A hash map is an association list without duplicate keys.  The order in which it hands out
its entries is not part of its meaning: an `IterOrder` is one such order, and a program is
right about a map if it is right for every one of them.

* `mem_iter`, `iter_length` — every order hands out the same entries.
* `values_perm` — maps that agree on every key, up to a projection of their values, hand out
  the same projections.
* `iter_lastly` — there is an order for every last entry.
* `HashMap.entries_insert_eq` — an insertion takes the place of the entry of its key.
-/

/-- A map from `κ` to `α`, read by `AList.lookup`. -/
abbrev HashMap (κ α : Type) := AList fun _ : κ => α

/-- An order in which a map's entries are handed out. -/
structure IterOrder (κ α : Type) where
  order : List (Σ _ : κ, α) → List (Σ _ : κ, α)
  perm : ∀ l, (order l).Perm l

namespace IterOrder

variable {κ α β γ : Type}

/-- The latest insertion first. -/
def latestFirst : IterOrder κ α := ⟨fun l => l, fun l => List.Perm.refl l⟩

/-- `HashMap::iter`. -/
def iter (o : IterOrder κ α) (m : HashMap κ α) : List (Σ _ : κ, α) := o.order m.entries

/-- `HashMap::values`. -/
def values (o : IterOrder κ α) (m : HashMap κ α) : List α := (o.iter m).map Sigma.snd

theorem iter_perm (o : IterOrder κ α) (m : HashMap κ α) : (o.iter m).Perm m.entries := o.perm _

@[simp] theorem length_iter (o : IterOrder κ α) (m : HashMap κ α) :
    (o.iter m).length = m.entries.length := (o.iter_perm m).length_eq

theorem nodup_keys_iter (o : IterOrder κ α) (m : HashMap κ α) :
    ((o.iter m).map Sigma.fst).Nodup :=
  ((o.iter_perm m).map Sigma.fst).nodup_iff.mpr m.nodupKeys

theorem nodup_project (o : IterOrder κ α) (m : HashMap κ α) (f : α → γ) :
    ((o.iter m).map fun e => (e.1, f e.2)).Nodup := by
  refine List.Nodup.of_map Prod.fst ?_
  rw [List.map_map]
  exact o.nodup_keys_iter m

variable [DecidableEq κ]

theorem mem_iter {o : IterOrder κ α} {m : HashMap κ α} {k : κ} {a : α} :
    (⟨k, a⟩ : Σ _ : κ, α) ∈ o.iter m ↔ m.lookup k = some a := by
  rw [(o.iter_perm m).mem_iff, ← AList.mem_lookup_iff, Option.mem_def]

/-- The entries, with their values projected. -/
theorem mem_project {o : IterOrder κ α} {m : HashMap κ α} {f : α → γ} {k : κ} {c : γ} :
    (k, c) ∈ (o.iter m).map (fun e => (e.1, f e.2)) ↔ (m.lookup k).map f = some c := by
  rw [List.mem_map, Option.map_eq_some_iff]
  constructor
  · rintro ⟨⟨k', a⟩, hmem, heq⟩
    cases heq
    exact ⟨a, mem_iter.mp hmem, rfl⟩
  · rintro ⟨a, ha, rfl⟩
    exact ⟨⟨k, a⟩, mem_iter.mpr ha, rfl⟩

/-- **Maps that agree hand out the same values**, whatever the orders. -/
theorem values_perm {m : HashMap κ α} {m' : HashMap κ β} {f : α → γ} {g : β → γ}
    (h : ∀ k, (m.lookup k).map f = (m'.lookup k).map g) (o : IterOrder κ α)
    (o' : IterOrder κ β) : ((o.values m).map f).Perm ((o'.values m').map g) := by
  have hpairs : ((o.iter m).map fun e => (e.1, f e.2)).Perm
      ((o'.iter m').map fun e => (e.1, g e.2)) := by
    refine (List.perm_ext_iff_of_nodup (o.nodup_project m f) (o'.nodup_project m' g)).mpr ?_
    rintro ⟨k, c⟩
    rw [mem_project, mem_project, h]
  have hvalues := hpairs.map Prod.snd
  rw [List.map_map, List.map_map] at hvalues
  rw [values, values, List.map_map, List.map_map]
  exact hvalues

/-- Maps that agree have equally many entries. -/
theorem length_entries_eq {m : HashMap κ α} {m' : HashMap κ β} {f : α → γ} {g : β → γ}
    (h : ∀ k, (m.lookup k).map f = (m'.lookup k).map g) :
    m.entries.length = m'.entries.length := by
  have hlen := (values_perm h latestFirst latestFirst).length_eq
  simpa only [values, List.length_map, length_iter] using hlen

/-- An insertion does not make the map smaller. -/
theorem length_entries_le_insert (m : HashMap κ α) (k : κ) (a : α) :
    m.entries.length ≤ (m.insert k a).entries.length := by
  have hkeys : ∀ m : HashMap κ α, m.entries.length = m.keys.length := fun m =>
    (List.length_map _).symm
  rw [hkeys, hkeys, AList.keys_insert, List.length_cons, List.length_erase]
  split_ifs <;> omega

/-- The entry of one key last. -/
def lastly (k : κ) : IterOrder κ α where
  order l := l.filter (fun e => e.1 ≠ k) ++ l.filter (fun e => e.1 = k)
  perm l := by
    have hperm := List.filter_append_perm (fun e : (Σ _ : κ, α) => decide (e.1 ≠ k)) l
    simpa using hperm

/-- **The entry of the key is handed out at the end.** -/
theorem iter_lastly {m : HashMap κ α} {k : κ} {a : α} (h : m.lookup k = some a) :
    ∃ before, (lastly k).iter m = before ++ [⟨k, a⟩] := by
  refine ⟨m.entries.filter fun e => e.1 ≠ k, ?_⟩
  show _ ++ m.entries.filter (fun e => e.1 = k) = _
  congr 1
  have hmem : ⟨k, a⟩ ∈ m.entries := AList.mem_lookup_iff.mp h
  have hnodup := m.nodupKeys
  generalize m.entries = l at hmem hnodup
  induction l with
  | nil => cases hmem
  | cons e l ih =>
    obtain ⟨hnot, hl⟩ := List.nodupKeys_cons.mp hnodup
    have hkeys : ∀ e' ∈ l, e'.1 ∈ l.keys := fun e' he' => List.mem_map_of_mem he'
    rcases List.mem_cons.mp hmem with rfl | htail
    · rw [List.filter_cons_of_pos (by simp), List.filter_eq_nil_iff.mpr]
      intro e' he' heq
      exact hnot (of_decide_eq_true heq ▸ hkeys e' he')
    · have hne : e.1 ≠ k := by
        rintro rfl
        exact hnot (hkeys ⟨e.1, a⟩ htail)
      rw [List.filter_cons_of_neg (by simpa using hne), ih htail hl]

end IterOrder

/-! ## Insertion -/

namespace HashMap

variable {κ α : Type} [DecidableEq κ]

theorem kerase_eq_filter {l : List (Σ _ : κ, α)} (h : l.NodupKeys) (k : κ) :
    l.kerase k = l.filter fun e => e.1 ≠ k := by
  induction l with
  | nil => rfl
  | cons e l ih =>
    obtain ⟨hnot, hnodup⟩ := List.nodupKeys_cons.mp h
    by_cases hkey : e.1 = k
    · have hne : ∀ e' ∈ l, decide (e'.1 ≠ k) = true := by
        intro e' he'
        refine decide_eq_true fun heq => hnot ?_
        rw [hkey, ← heq]
        exact List.mem_map_of_mem he'
      rw [List.kerase_cons_eq hkey.symm, List.filter_cons_of_neg (by simpa using hkey),
        List.filter_eq_self.mpr hne]
    · rw [List.kerase_cons_ne (Ne.symm hkey), List.filter_cons_of_pos (by simpa using hkey),
        ih hnodup]

/-- **An insertion takes the place of the entry of its key.** -/
theorem entries_insert_eq (m : HashMap κ α) (k : κ) (a : α) :
    (m.insert k a).entries = ⟨k, a⟩ :: m.entries.filter fun e => e.1 ≠ k := by
  rw [AList.entries_insert, kerase_eq_filter m.nodupKeys]

end HashMap
