import Mathlib.Data.List.Basic

/-!
# Latest elements

The latest element of a list with a property is the last one that has it.  Where elements come one
after another and each takes the place of the ones it concerns, the latest one is in force.
-/

namespace Latest

variable {α : Type*} (p : α → Prop) [DecidablePred p]

/-- The last element that has the property. -/
def latest (as : List α) : Option α :=
  as.reverse.find? (fun a => p a)

/-- A new element takes the place of the ones before it, if it has the property. -/
theorem latest_concat (as : List α) (a : α) :
  latest p (as ++ [a]) = if p a then some a else latest p as
  := by
  rw [latest, List.reverse_append, List.reverse_singleton, List.singleton_append, List.find?_cons]
  by_cases ha : p a
  · rw [decide_eq_true ha, if_pos ha]
  · rw [decide_eq_false ha, if_neg ha, latest]

variable {p} {as : List α} {a : α}

theorem of_latest (h : latest p as = some a) :
  a ∈ as ∧ p a
  := by
  rw [latest] at h
  have hpa := List.find?_some h
  exact ⟨List.mem_reverse.mp (List.mem_of_find?_eq_some h), of_decide_eq_true hpa⟩

theorem latest_eq_none :
  latest p as = none ↔ ∀ a ∈ as, ¬ p a
  := by
  rw [latest, List.find?_eq_none]
  simp

theorem latest_isSome :
  (latest p as).isSome ↔ ∃ a ∈ as, p a
  := by
  rw [← Option.ne_none_iff_isSome, Ne, latest_eq_none]
  push Not
  rfl

/-- The latest element is the only one, when there are no two that have the property. -/
theorem latest_eq_some_of_unique (ha : a ∈ as) (hpa : p a) (honly : ∀ b ∈ as, p b → b = a) :
  latest p as = some a
  := by
  obtain ⟨b, hb⟩ := Option.isSome_iff_exists.mp (latest_isSome.mpr ⟨a, ha, hpa⟩)
  obtain ⟨hmem, hpb⟩ := of_latest hb
  rw [hb, honly b hmem hpb]

end Latest
