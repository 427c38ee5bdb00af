import Mathlib

/-!
# Runs

A loop over a list of inputs is a left fold, and a system that takes step after
step is one too.  This file collects the rules the development uses on such runs.

* `foldl_preserves`, `foldlM_preserves` — what every step preserves holds after the run.
* `Guarded.preserves` — the same when every step of the run meets a side condition.
* `foldl_iff_guarded` — what a step preserves exactly when it meets the side condition.
* `foldlM_map` — a loop that simulates another one through a map fails when that one does, and
  ends in the image of its result.
* `Interleave.foldl_rel` — a loop over an interleaving simulates the loop over one of its parts.
* `foldl_foldl_of_involutive` — a loop whose rounds commute and undo themselves,
  run twice, does nothing.
-/

namespace Run

variable {σ ι : Type}

/-- **The invariant rule for a loop**: what every round preserves holds at the end. -/
theorem foldl_preserves {f : σ → ι → σ} (P : σ → Prop) {l : List ι}
    (hstep : ∀ s, ∀ i ∈ l, P s → P (f s i)) {s : σ} (h : P s) : P (l.foldl f s) := by
  induction l generalizing s with
  | nil => exact h
  | cons i l ih =>
    rw [List.foldl_cons]
    exact ih (fun s j hj => hstep s j (List.mem_cons_of_mem i hj))
      (hstep s i List.mem_cons_self h)

/-- **A loop that simulates another one** round by round through `φ` simulates the whole of it. -/
theorem foldlM_map {τ : Type} {f : τ → ι → Option τ} {g : σ → ι → Option σ} (φ : σ → τ)
    (h : ∀ s i, f (φ s) i = (g s i).map φ) (l : List ι) (s : σ) :
    l.foldlM f (φ s) = (l.foldlM g s).map φ := by
  induction l generalizing s with
  | nil => rfl
  | cons i l ih =>
    rw [List.foldlM_cons, List.foldlM_cons, h]
    cases g s i with
    | none => rfl
    | some s' => exact ih s'

/-- One more round of a loop that can fail. -/
theorem foldlM_concat {ε : Type} {f : σ → ι → Except ε σ} {l : List ι} {i : ι} {s s'' : σ} :
    (l ++ [i]).foldlM f s = .ok s'' ↔ ∃ s', l.foldlM f s = .ok s' ∧ f s' i = .ok s'' := by
  rw [List.foldlM_append]
  cases l.foldlM f s with
  | error e =>
    constructor
    · intro h
      cases h
    · rintro ⟨s', hs', -⟩
      cases hs'
  | ok s' =>
    show List.foldlM f s' [i] = _ ↔ _
    rw [List.foldlM_cons]
    cases hi : f s' i with
    | error e =>
      constructor
      · intro h
        cases h
      · rintro ⟨t, ht, hit⟩
        obtain rfl := Except.ok.inj ht
        rw [hi] at hit
        cases hit
    | ok t =>
      constructor
      · intro h
        exact ⟨s', rfl, hi.trans h⟩
      · rintro ⟨u, hu, hiu⟩
        obtain rfl := Except.ok.inj hu
        exact hi.symm.trans hiu

/-- **The invariant rule for a loop that can fail.** -/
theorem foldlM_preserves {ε : Type} {f : σ → ι → Except ε σ} (P : σ → Prop) {l : List ι}
    (hstep : ∀ s, ∀ i, ∀ s', i ∈ l → P s → f s i = .ok s' → P s') {s s' : σ} (h : P s)
    (hrun : l.foldlM f s = .ok s') : P s' := by
  induction l generalizing s with
  | nil =>
    obtain rfl := Except.ok.inj hrun
    exact h
  | cons i l ih =>
    rw [List.foldlM_cons] at hrun
    cases hi : f s i with
    | error e =>
      rw [hi] at hrun
      cases hrun
    | ok t =>
      rw [hi] at hrun
      exact ih (fun s j s' hj => hstep s j s' (List.mem_cons_of_mem i hj))
        (hstep s i t List.mem_cons_self h hi) hrun

/-- Every step of the run meets the side condition `ok`. -/
def Guarded (f : σ → ι → σ) (ok : σ → ι → Prop) : σ → List ι → Prop
  | _, [] => True
  | s, i :: l => ok s i ∧ Guarded f ok (f s i) l

theorem guarded_append {f : σ → ι → σ} {ok : σ → ι → Prop} {l l' : List ι} {s : σ} :
    Guarded f ok s (l ++ l') ↔ Guarded f ok s l ∧ Guarded f ok (l.foldl f s) l' := by
  induction l generalizing s with
  | nil => exact ⟨fun h => ⟨trivial, h⟩, fun h => h.2⟩
  | cons i l ih => exact (and_congr_right fun _ => ih).trans and_assoc.symm

/-- **The invariant rule for a guarded run.** -/
theorem Guarded.preserves {f : σ → ι → σ} {ok : σ → ι → Prop} (P : σ → Prop)
    (hstep : ∀ s i, ok s i → P s → P (f s i)) {l : List ι} {s : σ} (hok : Guarded f ok s l)
    (h : P s) : P (l.foldl f s) := by
  induction l generalizing s with
  | nil => exact h
  | cons i l ih => exact ih hok.2 (hstep s i hok.1 h)

/-- **A property that a step keeps exactly when it meets the side condition** holds after the runs
whose steps all meet it. -/
theorem foldl_iff_guarded {f : σ → ι → σ} {ok : σ → ι → Prop} {P : σ → Prop}
    (hstep : ∀ s i, P (f s i) ↔ P s ∧ ok s i) {l : List ι} {s : σ} :
    P (l.foldl f s) ↔ P s ∧ Guarded f ok s l := by
  induction l generalizing s with
  | nil => exact (and_iff_left trivial).symm
  | cons i l ih =>
    rw [List.foldl_cons, ih, hstep, and_assoc]
    rfl

/-- **Two side conditions that agree where the invariant holds** are met by the same runs. -/
theorem guarded_congr {f : σ → ι → σ} {ok good : σ → ι → Prop} (P : σ → Prop)
    (hiff : ∀ s i, P s → (good s i ↔ ok s i)) (hstep : ∀ s i, ok s i → P s → P (f s i))
    {l : List ι} {s : σ} (h : P s) : Guarded f good s l ↔ Guarded f ok s l := by
  induction l generalizing s with
  | nil => exact Iff.rfl
  | cons i l ih =>
    rw [Guarded, Guarded, hiff s i h]
    exact and_congr_right fun hok => ih (hstep s i hok h)

/-- How many steps of the run meet `p`. -/
def count (f : σ → ι → σ) (p : σ → ι → Bool) : σ → List ι → ℕ
  | _, [] => 0
  | s, i :: l => (p s i).toNat + count f p (f s i) l

/-- `out` is made of `l` and `r`, each in its order. -/
inductive Interleave : List ι → List ι → List ι → Prop where
  | nil : Interleave [] [] []
  | left {i : ι} {l r out : List ι} : Interleave l r out → Interleave (i :: l) r (i :: out)
  | right {i : ι} {l r out : List ι} : Interleave l r out → Interleave l (i :: r) (i :: out)

/-- **The simulation rule for interleavings.**  When items of `l` keep two loops together and
items of `r` leave the second one behind unnoticed, the loop over both simulates that over `l`. -/
theorem Interleave.foldl_rel {τ : Type} {f : σ → ι → σ} {g : τ → ι → τ} (R : σ → τ → Prop)
    {l r out : List ι} (h : Interleave l r out)
    (hleft : ∀ i ∈ l, ∀ s t, R s t → R (f s i) (g t i))
    (hright : ∀ i ∈ r, ∀ s t, R s t → R (f s i) t)
    {s : σ} {t : τ} (hst : R s t) : R (out.foldl f s) (l.foldl g t) := by
  induction h generalizing s t with
  | nil => exact hst
  | left _ ih =>
    exact ih (fun i hi => hleft i (List.mem_cons_of_mem _ hi)) hright
      (hleft _ List.mem_cons_self s t hst)
  | right _ ih =>
    exact ih hleft (fun i hi => hright i (List.mem_cons_of_mem _ hi))
      (hright _ List.mem_cons_self s t hst)

theorem Interleave.of_left (l : List ι) : Interleave l [] l := by
  induction l with
  | nil => exact .nil
  | cons i l ih => exact .left ih

theorem Interleave.append {l r out l' r' out' : List ι} (h : Interleave l r out)
    (h' : Interleave l' r' out') : Interleave (l ++ l') (r ++ r') (out ++ out') := by
  induction h with
  | nil => exact h'
  | left _ ih => exact .left ih
  | right _ ih => exact .right ih

theorem Interleave.mem {l r out : List ι} (h : Interleave l r out) {i : ι} :
    i ∈ out ↔ i ∈ l ∨ i ∈ r := by
  induction h with
  | nil => simp
  | left _ ih => rw [List.mem_cons, List.mem_cons, ih, or_assoc]
  | right _ ih => rw [List.mem_cons, List.mem_cons, ih, or_left_comm]

/-- Of two moments of a run, one comes first. -/
theorem append_cons_cases {before after before' after' : List ι} {i j : ι}
    (h : before ++ i :: after = before' ++ j :: after') :
    before = before' ∨ (∃ mid, before' = before ++ i :: mid) ∨
      ∃ mid, before = before' ++ j :: mid := by
  rcases List.append_eq_append_iff.mp h with ⟨mid, hmid, htail⟩ | ⟨mid, hmid, htail⟩
  · cases mid with
    | nil => exact Or.inl (by rw [hmid, List.append_nil])
    | cons x mid =>
      rw [List.cons_append] at htail
      cases htail
      exact Or.inr (Or.inl ⟨mid, hmid⟩)
  · cases mid with
    | nil => exact Or.inl (by rw [hmid, List.append_nil])
    | cons x mid =>
      rw [List.cons_append] at htail
      cases htail
      exact Or.inr (Or.inr ⟨mid, hmid⟩)

/-- A round that commutes with every round of a loop commutes with the loop. -/
theorem foldl_comm_step {f : σ → ι → σ} (hcomm : ∀ s i j, f (f s i) j = f (f s j) i)
    (l : List ι) (s : σ) (i : ι) : f (l.foldl f s) i = l.foldl f (f s i) := by
  induction l generalizing s with
  | nil => rfl
  | cons j l ih => rw [List.foldl_cons, List.foldl_cons, ih, hcomm]

/-- A loop whose rounds commute and undo themselves, run twice, does nothing. -/
theorem foldl_foldl_of_involutive {f : σ → ι → σ} (hcomm : ∀ s i j, f (f s i) j = f (f s j) i)
    (hinv : ∀ s i, f (f s i) i = s) (l : List ι) (s : σ) : l.foldl f (l.foldl f s) = s := by
  induction l generalizing s with
  | nil => rfl
  | cons i l ih => rw [List.foldl_cons, List.foldl_cons, foldl_comm_step hcomm, ih, hinv]

end Run
