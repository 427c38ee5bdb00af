import Mathlib

/-!
# Hash chains

A chain mixes one item after another into a running hash.  Two chains that end in the same hash have
mixed the same items, unless two of the inputs that were hashed on the way collide.

* `inputs` — what has been hashed along a chain.
* `foldl_injOn` — **chains of one length that end alike have mixed the same items**.
-/

namespace HashChain

variable {α β : Type} (mix : α → β → α)

/-- What is hashed along a chain: the running hash and the item, at every step. -/
def inputs (a : α) : List β → List (α × β)
  | [] => []
  | b :: bs => (a, b) :: inputs (mix a b) bs

variable {mix}

theorem inputs_append (a : α) (bs : List β) (b : β) :
    inputs mix a (bs ++ [b]) = inputs mix a bs ++ [(bs.foldl mix a, b)] := by
  induction bs generalizing a with
  | nil => rfl
  | cons c bs ih => simp [inputs, ih]

theorem mem_inputs_last (a : α) (bs : List β) (b : β) :
    (bs.foldl mix a, b) ∈ inputs mix a (bs ++ [b]) := by
  simp [inputs_append]

theorem mem_inputs_of_mem {a : α} {bs : List β} {x : α × β} (h : x ∈ inputs mix a bs) (b : β) :
    x ∈ inputs mix a (bs ++ [b]) := by
  rw [inputs_append]
  exact List.mem_append_left _ h

/-- No two of the inputs collide. -/
def CollisionFree (mix : α → β → α) (xs : List (α × β)) : Prop :=
  ∀ x ∈ xs, ∀ y ∈ xs, mix x.1 x.2 = mix y.1 y.2 → x = y

/-- **Chains of one length that end alike have mixed the same items.** -/
theorem foldl_injOn {a : α} {bs cs : List β} (hlength : bs.length = cs.length)
    (hfree : CollisionFree mix (inputs mix a bs ++ inputs mix a cs))
    (h : bs.foldl mix a = cs.foldl mix a) : bs = cs := by
  induction bs using List.reverseRecOn generalizing cs with
  | nil => exact (List.length_eq_zero_iff.mp hlength.symm).symm
  | append_singleton bs b ih =>
    rcases List.eq_nil_or_concat cs with rfl | ⟨cs, c, rfl⟩
    · simp at hlength
    · rw [List.concat_eq_append] at hlength hfree h ⊢
      simp only [List.foldl_append, List.foldl_cons, List.foldl_nil] at h
      have hlast := hfree _ (List.mem_append_left _ (mem_inputs_last a bs b)) _
        (List.mem_append_right _ (mem_inputs_last a cs c)) h
      obtain ⟨hchain, rfl⟩ := Prod.mk.inj hlast
      have hprefix : CollisionFree mix (inputs mix a bs ++ inputs mix a cs) := by
        have hmem : ∀ x ∈ inputs mix a bs ++ inputs mix a cs,
            x ∈ inputs mix a (bs ++ [b]) ++ inputs mix a (cs ++ [b]) := by
          intro x hx
          rcases List.mem_append.mp hx with hx | hx
          · exact List.mem_append_left _ (mem_inputs_of_mem hx b)
          · exact List.mem_append_right _ (mem_inputs_of_mem hx b)
        intro x hx y hy
        exact hfree x (hmem x hx) y (hmem y hy)
      rw [ih (by simpa using hlength) hprefix hchain]

end HashChain
