import Mathlib.Data.List.Induction
import Mathlib.Data.List.Perm.Basic

/-!
# Rows that evict others

A change of a table may evict rows and then add one.  After changes of an empty table a row
is there exactly if some change added it and no later one evicts it (`mem_run`).  When every
change evicts the rows that are at odds with the one it adds, no two rows are at odds
(`pairwise_run`).
-/

namespace Eviction

variable {ε ρ : Type*} (evicts : ε → ρ → Bool) (adds : ε → Option ρ)

/-- The table after one change. -/
def apply (rows : List ρ) (e : ε) : List ρ :=
  rows.filter (fun r => !evicts e r) ++ (adds e).toList

/-- The table after changes of an empty one. -/
def run (es : List ε) : List ρ :=
  es.foldl (apply evicts adds) []

variable {evicts adds}

theorem run_concat (es : List ε) (e : ε) :
  run evicts adds (es ++ [e]) = apply evicts adds (run evicts adds es) e
  := by
  rw [run, List.foldl_append]
  rfl

theorem mem_apply {rows : List ρ} {e : ε} {r : ρ} :
  r ∈ apply evicts adds rows e ↔ (r ∈ rows ∧ evicts e r = false) ∨ adds e = some r
  := by
  simp [apply]

/-- A row is in the table exactly if some change added it and no later one evicts it. -/
theorem mem_run {es : List ε} {r : ρ} :
  r ∈ run evicts adds es ↔ ∃ before e after, es = before ++ e :: after ∧ adds e = some r
    ∧ ∀ d ∈ after, evicts d r = false
  := by
  induction es using List.reverseRecOn with
  | nil => simp [run]
  | append_singleton es e ih =>
      rw [run_concat, mem_apply, ih]
      constructor
      · rintro (⟨⟨before, d, after, rfl, hd, hafter⟩, he⟩ | he)
        · refine ⟨before, d, after ++ [e], by simp, hd, ?_⟩
          intro d' hd'
          rcases List.mem_append.mp hd' with hd' | hd'
          · apply hafter d' hd'
          · obtain rfl := List.mem_singleton.mp hd'
            apply he
        · exact ⟨es, e, [], rfl, he, by simp⟩
      · rintro ⟨before, d, after, hes, hd, hafter⟩
        rcases List.eq_nil_or_concat' after with rfl | ⟨after, e', rfl⟩
        · obtain ⟨-, he⟩ := List.append_inj' hes rfl
          obtain rfl := List.singleton_inj.mp he
          apply Or.inr hd
        · rw [← List.cons_append, ← List.append_assoc] at hes
          obtain ⟨rfl, he⟩ := List.append_inj' hes rfl
          obtain rfl := List.singleton_inj.mp he
          apply Or.inl
          constructor
          · refine ⟨before, d, after, rfl, hd, ?_⟩
            intro d' hd'
            apply hafter d' (List.mem_append_left _ hd')
          · apply hafter
            simp

/-- What every added row is to the rows that its change does not evict, every row is to the
rows before it. -/
theorem pairwise_run {R : ρ → ρ → Prop} (h : ∀ e r r', adds e = some r → evicts e r' = false → R r' r)
    (es : List ε) :
  (run evicts adds es).Pairwise R
  := by
  induction es using List.reverseRecOn with
  | nil => apply List.Pairwise.nil
  | append_singleton es e ih =>
      rw [run_concat, apply, List.pairwise_append]
      refine ⟨ih.filter _, ?_, ?_⟩
      · cases adds e with
        | none => apply List.Pairwise.nil
        | some r => apply List.pairwise_singleton
      · intro r' hr' r hr
        apply h e r r' (Option.mem_toList.mp hr)
        simpa using List.of_mem_filter hr'

/-- Rows that differ pairwise under a map have no value of it twice. -/
theorem nodup_map_run {κ : Type*} {f : ρ → κ}
    (h : ∀ e r r', adds e = some r → evicts e r' = false → f r' ≠ f r) (es : List ε) :
  ((run evicts adds es).map f).Nodup
  := List.pairwise_map.mpr (pairwise_run h es)

end Eviction
