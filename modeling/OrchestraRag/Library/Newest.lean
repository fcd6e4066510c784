import Mathlib.Data.List.Perm.Subperm

/-!
# The newest elements

A list of elements with a time grows while its `n` newest elements are read.  Those that are shown
are known at the end, and an element that was there at the start is shown, too, unless `n` others
are shown that are not older (`Newest`).
-/

section Newest

variable {α τ : Type*} [LE τ] (time : α → τ) (n : ℕ)

/-- Of a list that grew from `before` to `after`, `shown` are the `n` newest elements at some time
in between. -/
structure Newest (before after shown : List α) : Prop where
  ordered : shown.Pairwise (fun a b => time b ≤ time a)
  length_le : shown.length ≤ n
  le_length : min n before.length ≤ shown.length
  known : shown ⊆ after
  complete : ∀ a ∈ before, a ∈ shown ∨ shown.length = n ∧ ∀ b ∈ shown, time a ≤ time b

variable {time n} {before after after' as : List α}

theorem Newest.later {shown : List α} (h : Newest time n before after shown)
    (hafter : after ⊆ after') :
  Newest time n before after' shown
  where
    ordered := h.ordered
    length_le := h.length_le
    le_length := h.le_length
    known := List.Subset.trans h.known hafter
    complete := h.complete

/-- The first elements of the list in order are the newest ones. -/
theorem newest_take (hordered : as.Pairwise (fun a b => time b ≤ time a))
    (hbefore : before.Subperm as) (hafter : as ⊆ after) :
  Newest time n before after (as.take n)
  := by
  constructor
  · apply hordered.sublist (List.take_sublist n as)
  · apply List.length_take_le
  · rw [List.length_take]
    apply Nat.le_min_of_le_of_le (Nat.min_le_left _ _)
    apply Nat.le_trans (Nat.min_le_right _ _) hbefore.length_le
  · apply List.Subset.trans (List.take_subset n as) hafter
  · intro a ha
    have hmem : a ∈ as.take n ++ as.drop n := by
      rw [List.take_append_drop]
      apply List.Subperm.subset hbefore ha
    rcases List.mem_append.mp hmem with hfirst | hrest
    · apply Or.inl hfirst
    · apply Or.inr
      constructor
      · have hlong := List.length_pos_of_mem hrest
        rw [List.length_drop] at hlong
        apply List.length_take_of_le (by omega)
      · rw [← List.take_append_drop n as, List.pairwise_append] at hordered
        intro b hb
        apply hordered.2.2 b hb a hrest

end Newest
