import Mathlib

/-!
# Bounded first-in first-out windows

A window remembers the last inputs it accepted and refuses what it remembers.  It
has a capacity, at which it forgets its oldest entry, and it may have a threshold,
at which it forgets everything.

* `Inv.step`, `Inv.run` — a window holds no entry twice, stays within its
  capacity and its threshold, and holds only what was submitted.
* `mem_run_of_flushes_eq_zero` — without a flush, an accepted input is remembered
  for as long as fewer than `capacity` others have been accepted since.
* `exists_last_accepted` — the newest entry of a window is the last input accepted.
* `run_eq_rtake` — a window that is never flushed holds the last inputs it accepted.
* `flushes_pos_of_lt` — a window that is shown more different inputs than its
  threshold is flushed.
* `remembers_prefixes_iff` — when every input accepted in a run stays remembered.
-/

namespace Window

variable {α : Type} [DecidableEq α]

/-- How a window forgets: its capacity, and the length at which it is flushed, if any. -/
structure Policy where
  capacity : ℕ
  flushAt : Option ℕ

/-- A threshold that can be reached, and is reached before the capacity. -/
structure Policy.WellFormed (P : Policy) : Prop where
  capacity_pos : 0 < P.capacity
  flushAt_pos : ∀ t, P.flushAt = some t → 0 < t
  flushAt_le : ∀ t, P.flushAt = some t → t ≤ P.capacity

/-- Is a window of this length flushed before it takes in another entry? -/
def Policy.flushes (P : Policy) (n : ℕ) : Bool :=
  match P.flushAt with
  | none => false
  | some t => decide (t ≤ n)

variable (P : Policy)

/-- Make room for one more entry. -/
def makeRoom (w : List α) : List α :=
  if P.flushes w.length then [] else if P.capacity ≤ w.length then w.tail else w

/-- Submit `a`: is it accepted, and what is remembered afterwards. -/
def submit (w : List α) (a : α) : Bool × List α :=
  if a ∈ w then (false, w) else (true, makeRoom P w ++ [a])

/-- The flushes of one submission. -/
def flush (w : List α) (a : α) : ℕ := if a ∉ w ∧ P.flushes w.length = true then 1 else 0

/-- One item after another is submitted. -/
def run (w : List α) (as : List α) : List α := as.foldl (fun w a => (submit P w a).2) w

/-- The inputs accepted in a run. -/
def acceptances : List α → List α → ℕ
  | _, [] => 0
  | w, a :: as => (submit P w a).1.toNat + acceptances (submit P w a).2 as

/-- The flushes of a run. -/
def flushes : List α → List α → ℕ
  | _, [] => 0
  | w, a :: as => flush P w a + flushes (submit P w a).2 as

variable {P}

theorem submit_of_mem {w : List α} {a : α} (h : a ∈ w) : submit P w a = (false, w) := by
  rw [submit, if_pos h]

theorem submit_of_not_mem {w : List α} {a : α} (h : a ∉ w) :
    submit P w a = (true, makeRoom P w ++ [a]) := by
  rw [submit, if_neg h]

/-- An input is refused exactly when it is remembered. -/
theorem submit_fst (w : List α) (a : α) : (submit P w a).1 = !decide (a ∈ w) := by
  by_cases h : a ∈ w
  · rw [submit_of_mem h, decide_eq_true h]
    rfl
  · rw [submit_of_not_mem h, decide_eq_false h]
    rfl

theorem run_append (w : List α) (as bs : List α) : run P w (as ++ bs) = run P (run P w as) bs :=
  List.foldl_append

theorem acceptances_append (w : List α) (as bs : List α) :
    acceptances P w (as ++ bs) = acceptances P w as + acceptances P (run P w as) bs := by
  induction as generalizing w with
  | nil => simp [acceptances, run]
  | cons a as ih => rw [List.cons_append, acceptances, ih, acceptances, Nat.add_assoc]; rfl

theorem flushes_append (w : List α) (as bs : List α) :
    flushes P w (as ++ bs) = flushes P w as + flushes P (run P w as) bs := by
  induction as generalizing w with
  | nil => simp [flushes, run]
  | cons a as ih => rw [List.cons_append, flushes, ih, flushes, Nat.add_assoc]; rfl

/-! ## The invariant -/

/-- A window that was shown `as`. -/
structure Inv (P : Policy) (as w : List α) : Prop where
  nodup : w.Nodup
  length_le : w.length ≤ P.capacity
  below : ∀ t, P.flushAt = some t → w.length ≤ t
  subset : w ⊆ as

omit [DecidableEq α] in
theorem makeRoom_suffix (w : List α) : makeRoom P w <:+ w := by
  rw [makeRoom]
  split_ifs
  · exact List.nil_suffix
  · exact List.tail_suffix w
  · exact List.suffix_refl w

omit [DecidableEq α] in
theorem length_makeRoom_lt (hP : P.WellFormed) {as w : List α} (h : Inv P as w) :
    (makeRoom P w).length < P.capacity ∧
      ∀ t, P.flushAt = some t → (makeRoom P w).length < t := by
  have hpos := hP.capacity_pos
  rw [makeRoom]
  cases ht : P.flushAt with
  | none =>
    simp only [Policy.flushes, ht, Bool.false_eq_true, if_false]
    refine ⟨?_, fun t h => by cases h⟩
    have hle := h.length_le
    split_ifs with hfull
    · rw [List.length_tail]
      omega
    · omega
  | some t =>
    have htpos := hP.flushAt_pos t ht
    have htle := hP.flushAt_le t ht
    by_cases hflush : t ≤ w.length
    · simp only [Policy.flushes, ht, hflush, decide_true, if_true, List.length_nil]
      exact ⟨hpos, fun u hu => by cases hu; exact htpos⟩
    · have hfull : ¬P.capacity ≤ w.length := by omega
      simp only [Policy.flushes, ht, hflush, decide_false, Bool.false_eq_true, if_false, hfull]
      exact ⟨by omega, fun u hu => by cases hu; omega⟩

omit [DecidableEq α] in
theorem Inv.nil (P : Policy) : Inv P [] ([] : List α) :=
  ⟨List.nodup_nil, Nat.zero_le _, fun _ _ => Nat.zero_le _, List.Subset.refl _⟩

/-- **One submission keeps the invariant.** -/
theorem Inv.submit (hP : P.WellFormed) {as w : List α} (h : Inv P as w) (a : α) :
    Inv P (as ++ [a]) (Window.submit P w a).2 := by
  have hgrow : w ⊆ as ++ [a] := fun x hx => List.mem_append_left _ (h.subset hx)
  by_cases ha : a ∈ w
  · rw [submit_of_mem ha]
    exact ⟨h.nodup, h.length_le, h.below, hgrow⟩
  · rw [submit_of_not_mem ha]
    have hsuf := makeRoom_suffix (P := P) w
    obtain ⟨hcap, hbelow⟩ := length_makeRoom_lt hP h
    refine ⟨?_, ?_, ?_, ?_⟩
    · refine List.Nodup.append (h.nodup.sublist hsuf.sublist) (List.nodup_singleton a) ?_
      rw [List.disjoint_singleton]
      exact fun hmem => ha (hsuf.subset hmem)
    · rw [List.length_append, List.length_singleton]
      omega
    · intro t ht
      have := hbelow t ht
      rw [List.length_append, List.length_singleton]
      omega
    · intro x hx
      rcases List.mem_append.mp hx with hx | hx
      · exact hgrow (hsuf.subset hx)
      · exact List.mem_append_right _ hx

/-- **Every run from the empty window keeps it.** -/
theorem Inv.run (hP : P.WellFormed) (as : List α) : Inv P as (Window.run P [] as) := by
  induction as using List.reverseRecOn with
  | nil => exact Inv.nil P
  | append_singleton as a ih =>
    rw [run_append]
    exact ih.submit hP a

/-! ## What is remembered -/

/-- **Without a flush an accepted input is remembered** while fewer than `capacity`
others are accepted. -/
theorem mem_run_of_flushes_eq_zero {u v : List α} {a : α} {mid : List α}
    (hflush : flushes P (u ++ a :: v) mid = 0)
    (hacc : v.length + acceptances P (u ++ a :: v) mid < P.capacity) :
    a ∈ run P (u ++ a :: v) mid := by
  induction mid generalizing u v with
  | nil => exact List.mem_append_right _ List.mem_cons_self
  | cons b mid ih =>
    rw [flushes, Nat.add_eq_zero_iff] at hflush
    obtain ⟨hhead, htail⟩ := hflush
    rw [acceptances] at hacc
    change a ∈ run P (submit P (u ++ a :: v) b).2 mid
    by_cases hb : b ∈ u ++ a :: v
    · rw [submit_of_mem hb] at htail hacc ⊢
      refine ih htail ?_
      simpa using hacc
    · have hno : P.flushes (u ++ a :: v).length = false := by
        by_contra hyes
        rw [Bool.not_eq_false] at hyes
        rw [flush, if_pos ⟨hb, hyes⟩] at hhead
        omega
      rw [submit_of_not_mem hb] at htail hacc ⊢
      rw [makeRoom, if_neg (by rw [hno]; decide)] at htail hacc ⊢
      simp only [Bool.toNat_true] at hacc
      by_cases hfull : P.capacity ≤ (u ++ a :: v).length
      · rw [if_pos hfull] at htail hacc ⊢
        cases u with
        | nil =>
          -- `a` is the oldest of a full window: that many others were accepted since
          rw [List.nil_append, List.length_cons] at hfull
          omega
        | cons x u =>
          simp only [List.cons_append, List.tail_cons, List.append_assoc] at htail hacc ⊢
          refine ih htail ?_
          rw [List.length_append, List.length_singleton]
          omega
      · rw [if_neg hfull] at htail hacc ⊢
        simp only [List.append_assoc, List.cons_append] at htail hacc ⊢
        refine ih htail ?_
        rw [List.length_append, List.length_singleton]
        omega

/-- The newest entry is the last input accepted. -/
theorem exists_last_accepted {as : List α} {a : α} (h : (run P [] as).getLast? = some a) :
    ∃ pre mid, as = pre ++ a :: mid ∧ a ∉ run P [] pre ∧
      acceptances P (submit P (run P [] pre) a).2 mid = 0 ∧
      flushes P (submit P (run P [] pre) a).2 mid = 0 := by
  induction as using List.reverseRecOn with
  | nil => simp [run] at h
  | append_singleton as b ih =>
    rw [run_append] at h
    change (submit P (run P [] as) b).2.getLast? = some a at h
    by_cases hb : b ∈ run P [] as
    · rw [submit_of_mem hb] at h
      obtain ⟨pre, mid, rfl, ha, hacc, hflush⟩ := ih h
      have hrun : run P [] (pre ++ a :: mid) =
          run P (submit P (run P [] pre) a).2 mid := run_append [] pre (a :: mid)
      rw [hrun] at hb
      refine ⟨pre, mid ++ [b], by simp, ha, ?_, ?_⟩
      · rw [acceptances_append, hacc, acceptances, submit_of_mem hb]
        rfl
      · rw [flushes_append, hflush, flushes, flush, if_neg (fun hc => hc.1 hb)]
        rfl
    · rw [submit_of_not_mem hb, List.getLast?_concat, Option.some.injEq] at h
      subst h
      exact ⟨as, [], rfl, hb, rfl, rfl⟩

/-! ## A window that is never flushed -/

variable (P) in
/-- The inputs that a run accepts, in order. -/
def accepted : List α → List α → List α
  | _, [] => []
  | w, a :: as => (if a ∈ w then [] else [a]) ++ accepted (submit P w a).2 as

omit [DecidableEq α] in
/-- Making room for one more leaves all but one of the last entries. -/
theorem makeRoom_rtake {n : ℕ} (hcap : P.capacity = n + 1) (hflush : P.flushAt = none)
    (l : List α) : makeRoom P (l.rtake P.capacity) = l.rtake n := by
  have hno : ∀ k, P.flushes k = false := fun k => by rw [Policy.flushes, hflush]
  unfold makeRoom List.rtake
  rw [hno, if_neg Bool.false_ne_true, hcap, List.length_drop]
  split_ifs with hfull
  · rw [List.tail_drop]
    congr 1
    omega
  · congr 1
    omega

/-- **A window without a threshold holds the last inputs it accepted.** -/
theorem run_eq_rtake (hcap : 0 < P.capacity) (hflush : P.flushAt = none) (l as : List α) :
    run P (l.rtake P.capacity) as =
      (l ++ accepted P (l.rtake P.capacity) as).rtake P.capacity := by
  obtain ⟨n, hn⟩ := Nat.exists_eq_succ_of_ne_zero hcap.ne'
  induction as generalizing l with
  | nil =>
    rw [accepted, List.append_nil]
    rfl
  | cons a as ih =>
    rw [accepted]
    show run P (submit P (l.rtake P.capacity) a).2 as = _
    by_cases ha : a ∈ l.rtake P.capacity
    · rw [submit_of_mem ha, if_pos ha, List.nil_append]
      exact ih l
    · have hnext : (submit P (l.rtake P.capacity) a).2 = (l ++ [a]).rtake P.capacity := by
        rw [submit_of_not_mem ha, makeRoom_rtake hn hflush, hn, List.rtake_concat_succ]
      rw [hnext, if_neg ha, ← List.append_assoc]
      exact ih (l ++ [a])

/-! ## When a window is flushed -/

/-- A run without a flush, shown no more than its threshold allows, forgets nothing. -/
theorem subset_run_of_flushes_eq_zero (hP : P.WellFormed) {t : ℕ} (ht : P.flushAt = some t)
    {as : List α} (h : flushes P [] as = 0) : as ⊆ run P [] as := by
  induction as using List.reverseRecOn with
  | nil => exact List.Subset.refl _
  | append_singleton as a ih =>
    rw [flushes_append, Nat.add_eq_zero_iff] at h
    obtain ⟨hpre, hlast⟩ := h
    have hmem := ih hpre
    rw [flushes, flushes, Nat.add_zero] at hlast
    rw [run_append]
    change as ++ [a] ⊆ (submit P (run P [] as) a).2
    by_cases ha : a ∈ run P [] as
    · rw [submit_of_mem ha]
      intro x hx
      rcases List.mem_append.mp hx with hx | hx
      · exact hmem hx
      · rw [List.mem_singleton.mp hx]
        exact ha
    · have hno : ¬P.flushes (run P [] as).length = true := by
        intro hyes
        rw [flush, if_pos ⟨ha, hyes⟩] at hlast
        omega
      have hshort : ¬P.capacity ≤ (run P [] as).length := by
        have hle := hP.flushAt_le t ht
        simp only [Policy.flushes, ht, decide_eq_true_eq] at hno
        omega
      rw [submit_of_not_mem ha, makeRoom, if_neg hno, if_neg hshort]
      intro x hx
      rcases List.mem_append.mp hx with hx | hx
      · exact List.mem_append_left _ (hmem hx)
      · exact List.mem_append_right _ hx

/-- **A window shown more different inputs than its threshold is flushed.** -/
theorem flushes_pos_of_lt (hP : P.WellFormed) {t : ℕ} (ht : P.flushAt = some t) {as : List α}
    (h : t < as.toFinset.card) : 0 < flushes P [] as := by
  by_contra hzero
  have hsub := subset_run_of_flushes_eq_zero hP ht (by omega : flushes P [] as = 0)
  have hinv := Inv.run hP as
  have hcard : as.toFinset.card ≤ (run P [] as).toFinset.card :=
    Finset.card_le_card fun x hx => List.mem_toFinset.mpr (hsub (List.mem_toFinset.mp hx))
  have hlen := List.toFinset_card_le (run P [] as)
  have hbelow := hinv.below t ht
  omega

/-- A window shown no more different inputs than its threshold is never flushed. -/
theorem flushes_eq_zero_of_le (hP : P.WellFormed) {as : List α}
    (h : ∀ t, P.flushAt = some t → as.toFinset.card ≤ t) : flushes P [] as = 0 := by
  induction as using List.reverseRecOn with
  | nil => rfl
  | append_singleton as a ih =>
    have hinv := Inv.run hP as
    have hpre : flushes P [] as = 0 := by
      refine ih fun t ht => le_trans (Finset.card_le_card ?_) (h t ht)
      intro x hx
      rw [List.mem_toFinset] at hx ⊢
      exact List.mem_append_left _ hx
    rw [flushes_append, hpre, flushes, flushes, flush, if_neg]
    rintro ⟨ha, hflush⟩
    cases ht : P.flushAt with
    | none => simp [Policy.flushes, ht] at hflush
    | some t =>
      simp only [Policy.flushes, ht, decide_eq_true_eq] at hflush
      have hcard : ((run P [] as) ++ [a]).toFinset.card ≤ (as ++ [a]).toFinset.card := by
        refine Finset.card_le_card fun x hx => ?_
        rw [List.mem_toFinset] at hx ⊢
        rcases List.mem_append.mp hx with hx | hx
        · exact List.mem_append_left _ (hinv.subset hx)
        · exact List.mem_append_right _ hx
      have hnodup : ((run P [] as) ++ [a]).Nodup := by
        refine List.Nodup.append hinv.nodup (List.nodup_singleton a) ?_
        rw [List.disjoint_singleton]
        exact ha
      rw [List.toFinset_card_of_nodup hnodup, List.length_append, List.length_singleton] at hcard
      have hle := h t ht
      omega

theorem exists_flush {w as : List α} (h : 0 < flushes P w as) :
    ∃ pre a post, as = pre ++ a :: post ∧ a ∉ run P w pre ∧
      P.flushes (run P w pre).length = true := by
  induction as generalizing w with
  | nil => simp [flushes] at h
  | cons b as ih =>
    by_cases hb : b ∉ w ∧ P.flushes w.length = true
    · exact ⟨[], b, as, rfl, hb.1, hb.2⟩
    · rw [flushes, flush, if_neg hb, Nat.zero_add] at h
      obtain ⟨pre, a, post, rfl, ha, hflush⟩ := ih h
      exact ⟨b :: pre, a, post, rfl, ha, hflush⟩

/-! ## What a window promises -/

/-- After `p`, every input accepted in it is remembered, as long as fewer than
`limit` flushes and fewer than `capacity` acceptances have happened since. -/
def Remembers (P : Policy) (limit : ℕ) (p : List α) : Prop :=
  ∀ pre a mid, p = pre ++ a :: mid → a ∉ run P [] pre →
    flushes P (submit P (run P [] pre) a).2 mid < limit →
    acceptances P (submit P (run P [] pre) a).2 mid < P.capacity → a ∈ run P [] p

theorem remembers_of_flushes_eq_zero {p : List α} (h : flushes P [] p = 0) (limit : ℕ) :
    Remembers P limit p := by
  rintro pre a mid rfl ha _ hacc
  rw [flushes_append, flushes, Nat.add_eq_zero_iff, Nat.add_eq_zero_iff] at h
  rw [run_append]
  change a ∈ run P (submit P (run P [] pre) a).2 mid
  rw [submit_of_not_mem ha] at h hacc ⊢
  refine mem_run_of_flushes_eq_zero h.2.2 ?_
  rw [List.length_nil, Nat.zero_add]
  exact hacc

/-- A flush breaks the promise at once: the newest entry is forgotten. -/
theorem not_remembers_of_flush (hP : P.WellFormed) {limit : ℕ} (hlimit : 2 ≤ limit)
    (hcap : 2 ≤ P.capacity) {pre : List α} {a : α} (ha : a ∉ run P [] pre)
    (hflush : P.flushes (run P [] pre).length = true) : ¬Remembers P limit (pre ++ [a]) := by
  intro hrem
  have hlen : 0 < (run P [] pre).length := by
    cases ht : P.flushAt with
    | none => simp [Policy.flushes, ht] at hflush
    | some t =>
      have htpos := hP.flushAt_pos t ht
      simp only [Policy.flushes, ht, decide_eq_true_eq] at hflush
      omega
  have hforget : (submit P (run P [] pre) a).2 = [a] := by
    rw [submit_of_not_mem ha, makeRoom, if_pos hflush, List.nil_append]
  obtain ⟨b, hb⟩ : ∃ b, (run P [] pre).getLast? = some b :=
    ⟨_, List.getLast?_eq_some_getLast (List.ne_nil_of_length_pos hlen)⟩
  have hbmem := List.mem_of_getLast? hb
  obtain ⟨pre', mid, rfl, hacc, hmidacc, hmidflush⟩ := exists_last_accepted hb
  have hrun : run P (submit P (run P [] pre') b).2 mid = run P [] (pre' ++ b :: mid) :=
    (run_append [] pre' (b :: mid)).symm
  have hkept := hrem pre' b (mid ++ [a]) (by simp) hacc
    (by
      rw [flushes_append, hmidflush, flushes, flushes, hrun, flush, if_pos ⟨ha, hflush⟩]
      omega)
    (by
      rw [acceptances_append, hmidacc, acceptances, acceptances, hrun, submit_of_not_mem ha]
      exact hcap)
  rw [run_append] at hkept
  change b ∈ (submit P (run P [] (pre' ++ b :: mid)) a).2 at hkept
  rw [hforget, List.mem_singleton] at hkept
  exact ha (hkept ▸ hbmem)

/-- **When the promise is kept in a whole run**: exactly if the window is shown no
more different inputs than its threshold. -/
theorem remembers_prefixes_iff (hP : P.WellFormed) {limit : ℕ} (hlimit : 2 ≤ limit)
    (hcap : ∀ t, P.flushAt = some t → 2 ≤ P.capacity) (as : List α) :
    (∀ p, p <+: as → Remembers P limit p) ↔
      ∀ t, P.flushAt = some t → as.toFinset.card ≤ t := by
  constructor
  · intro hrem t ht
    by_contra hlt
    obtain ⟨pre, a, post, rfl, ha, hflush⟩ :=
      exists_flush (flushes_pos_of_lt hP ht (not_le.mp hlt))
    refine not_remembers_of_flush hP hlimit (hcap t ht) ha hflush (hrem _ ⟨post, ?_⟩)
    rw [List.append_assoc, List.singleton_append]
  · rintro hcard p ⟨q, rfl⟩
    have hzero := flushes_eq_zero_of_le hP hcard
    rw [flushes_append, Nat.add_eq_zero_iff] at hzero
    exact remembers_of_flushes_eq_zero hzero.1 limit

end Window
