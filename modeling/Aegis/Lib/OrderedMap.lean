import Mathlib

/-!
# Ordered maps

A map that keeps its entries in the order of their keys, so that it hands them out in that order.

* `get_insert` — what an insertion changes.
* `mem_entries_iff` — the entries are what the keys are mapped to.
* `get_insertAll` — of several insertions of one key, the last counts.
-/

/-- The entries, by strictly increasing keys. -/
structure OrderedMap (κ α : Type) [LT κ] where
  entries : List (κ × α)
  sorted : (entries.map Prod.fst).Pairwise (· < ·)

namespace OrderedMap

variable {κ α : Type} [DecidableEq κ]

theorem lookup_cons (e : κ × α) (l : List (κ × α)) (k : κ) :
    (e :: l).lookup k = if k = e.1 then some e.2 else l.lookup k := by
  rw [List.lookup_cons]
  by_cases h : k = e.1
  · rw [if_pos h, beq_iff_eq.mpr h]
  · rw [if_neg h, beq_false_of_ne h]

theorem exists_lookup_of_mem {l : List (κ × α)} {k : κ} (h : k ∈ l.map Prod.fst) :
    ∃ a, l.lookup k = some a := by
  induction l with
  | nil => exact absurd h List.not_mem_nil
  | cons e l ih =>
    rw [lookup_cons]
    split_ifs with hk
    · exact ⟨e.2, rfl⟩
    · rw [List.map_cons, List.mem_cons] at h
      exact ih (h.resolve_left hk)

variable [LT κ]

/-- No entries. -/
def empty : OrderedMap κ α := ⟨[], .nil⟩

/-- The value of a key. -/
def get (m : OrderedMap κ α) (k : κ) : Option α := m.entries.lookup k

@[simp] theorem get_empty (k : κ) : (empty : OrderedMap κ α).get k = none := rfl

omit [DecidableEq κ] in
theorem nodup_keys [Std.Irrefl (α := κ) (· < ·)] (m : OrderedMap κ α) :
    (m.entries.map Prod.fst).Nodup :=
  m.sorted.imp Std.ne_of_lt

theorem mem_entries_iff [Std.Irrefl (α := κ) (· < ·)] {m : OrderedMap κ α} {k : κ}
    {a : α} : (k, a) ∈ m.entries ↔ m.get k = some a := by
  have hnodup := m.nodup_keys
  unfold get
  generalize m.entries = l at hnodup
  induction l with
  | nil => exact iff_of_false List.not_mem_nil nofun
  | cons e l ih =>
    rw [List.map_cons, List.nodup_cons] at hnodup
    rw [List.mem_cons, lookup_cons]
    split_ifs with hk
    · have hnot : (k, a) ∉ l := fun h => hnodup.1 (hk ▸ List.mem_map_of_mem h)
      rw [or_iff_left hnot, Option.some.injEq]
      exact ⟨fun h => (congrArg Prod.snd h).symm, fun h => Prod.ext hk h.symm⟩
    · have hne : (k, a) ≠ e := fun h => hk (congrArg Prod.fst h)
      rw [or_iff_right hne]
      exact ih hnodup.2

variable [DecidableLT κ]

/-- An entry at its place, instead of one with the same key. -/
def insertEntry (k : κ) (a : α) : List (κ × α) → List (κ × α)
  | [] => [(k, a)]
  | e :: l =>
    if k < e.1 then (k, a) :: e :: l
    else if k = e.1 then (k, a) :: l
    else e :: insertEntry k a l

theorem fst_mem_of_insertEntry {k : κ} {a : α} {l : List (κ × α)} {e : κ × α}
    (h : e ∈ insertEntry k a l) : e.1 = k ∨ e.1 ∈ l.map Prod.fst := by
  induction l with
  | nil =>
    obtain rfl := List.mem_singleton.mp h
    exact Or.inl rfl
  | cons e' l ih =>
    unfold insertEntry at h
    rw [List.map_cons, List.mem_cons]
    split_ifs at h
    · rcases List.mem_cons.mp h with rfl | h
      · exact Or.inl rfl
      · exact Or.inr (List.mem_cons.mp (List.mem_map_of_mem h))
    · rcases List.mem_cons.mp h with rfl | h
      · exact Or.inl rfl
      · exact Or.inr (Or.inr (List.mem_map_of_mem h))
    · rcases List.mem_cons.mp h with rfl | h
      · exact Or.inr (Or.inl rfl)
      · exact (ih h).imp_right Or.inr

theorem lookup_insertEntry (k : κ) (a : α) (l : List (κ × α)) (k' : κ) :
    (insertEntry k a l).lookup k' = if k' = k then some a else l.lookup k' := by
  induction l with
  | nil => exact lookup_cons (k, a) [] k'
  | cons e l ih =>
    rw [insertEntry]
    by_cases hlt : k < e.1
    · rw [if_pos hlt]
      exact lookup_cons (k, a) (e :: l) k'
    · rw [if_neg hlt]
      by_cases heq : k = e.1
      · rw [if_pos heq, lookup_cons, lookup_cons, ← heq]
        split_ifs <;> rfl
      · rw [if_neg heq, lookup_cons, lookup_cons, ih]
        split_ifs with hfirst hkey
        · exact absurd (hkey.symm.trans hfirst) heq
        all_goals rfl

variable [LE κ] [Std.IsLinearOrder κ] [Std.LawfulOrderLT κ]

theorem sorted_insertEntry (k : κ) (a : α) {l : List (κ × α)}
    (h : (l.map Prod.fst).Pairwise (· < ·)) :
    ((insertEntry k a l).map Prod.fst).Pairwise (· < ·) := by
  induction l with
  | nil => exact List.pairwise_singleton _ _
  | cons e l ih =>
    rw [List.map_cons, List.pairwise_cons] at h
    obtain ⟨hfirst, hrest⟩ := h
    unfold insertEntry
    split_ifs with hlt heq
    · refine List.pairwise_cons.mpr ⟨?_, List.pairwise_cons.mpr ⟨hfirst, hrest⟩⟩
      intro k' hk'
      rcases List.mem_cons.mp hk' with rfl | hk'
      · exact hlt
      · exact Std.lt_trans hlt (hfirst k' hk')
    · subst heq
      exact List.pairwise_cons.mpr ⟨hfirst, hrest⟩
    · refine List.pairwise_cons.mpr ⟨?_, ih hrest⟩
      intro k' hk'
      obtain ⟨e', he', rfl⟩ := List.mem_map.mp hk'
      rcases fst_mem_of_insertEntry he' with hkey | hmem
      · rw [hkey]
        exact Std.lt_of_le_of_ne (Std.not_lt.mp hlt) (Ne.symm heq)
      · exact hfirst e'.1 hmem

/-- The value of a key is set, and the order kept. -/
def insert (m : OrderedMap κ α) (k : κ) (a : α) : OrderedMap κ α :=
  ⟨insertEntry k a m.entries, sorted_insertEntry k a m.sorted⟩

/-- Several insertions, one after another. -/
def insertAll (m : OrderedMap κ α) (l : List (κ × α)) : OrderedMap κ α :=
  l.foldl (fun m e => m.insert e.1 e.2) m

theorem insertAll_append (m : OrderedMap κ α) (l l' : List (κ × α)) :
    m.insertAll (l ++ l') = (m.insertAll l).insertAll l' :=
  List.foldl_append

theorem get_insert (m : OrderedMap κ α) (k : κ) (a : α) (k' : κ) :
    (m.insert k a).get k' = if k' = k then some a else m.get k' :=
  lookup_insertEntry k a m.entries k'

/-- **Of several insertions of one key, the last counts.** -/
theorem get_insertAll (m : OrderedMap κ α) (l : List (κ × α)) (k : κ) :
    (m.insertAll l).get k = (l.reverse.lookup k).or (m.get k) := by
  induction l generalizing m with
  | nil => rfl
  | cons e l ih =>
    show ((m.insert e.1 e.2).insertAll l).get k = _
    rw [ih, get_insert, List.reverse_cons, List.lookup_append, Option.or_assoc]
    congr 1
    rw [lookup_cons, List.lookup_nil]
    split_ifs <;> rfl

end OrderedMap
