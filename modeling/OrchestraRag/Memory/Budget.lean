import Mathlib
import OrchestraRag.Memory.HashOrder

/-!
# The token budget

What a search returns of its ranking: the longest prefix that fits the token budget, but not
less than the first entry.
-/

namespace OrchestraRag

open Sql

/-- The tokens of a text are its bytes divided by four, rounded up. -/
theorem estimateTokens_eq_ceilDiv (text : String) :
  estimateTokens text = text.utf8ByteSize ⌈/⌉ 4
  := rfl

namespace ContextResult

variable {F : Type}

/-- The entries `kept` of a ranking, with the estimate of their tokens, are what a budget leaves
of it. -/
structure Budgeted (budget : ℕ) (ranking kept : List (ContextResult F)) (estimate : ℕ) :
    Prop where
  initial : kept.IsPrefix ranking
  nonempty : ranking ≠ [] → kept ≠ []
  tokens : estimate = (kept.map (fun r => r.content.utf8ByteSize ⌈/⌉ 4)).sum
  fits : ∀ j, 2 ≤ j → j ≤ kept.length →
    ((kept.take j).map (fun r => r.content.utf8ByteSize ⌈/⌉ 4)).sum ≤ budget
  exceeds : kept.length < ranking.length →
    budget < ((ranking.take (kept.length + 1)).map (fun r => r.content.utf8ByteSize ⌈/⌉ 4)).sum
  overshoot : budget < estimate → kept.length = 1

theorem tokenCount_eq_ceilDiv (results : List (ContextResult F)) :
  tokenCount results = (results.map (fun r => r.content.utf8ByteSize ⌈/⌉ 4)).sum
  := rfl

/-- The loop takes results while they fit, and stops at the first that does not. -/
theorem truncate_splits (budget : ℕ) (truncated results : List (ContextResult F)) :
  ∃ kept rest, results = kept ++ rest
    ∧ truncate budget (tokenCount truncated) truncated results
      = (truncated ++ kept, tokenCount (truncated ++ kept))
    ∧ (∀ before r after, kept = before ++ r :: after → Fits budget (truncated ++ before) r)
    ∧ ∀ r ∈ rest.head?, ¬ Fits budget (truncated ++ kept) r
  := by
  induction results generalizing truncated with
  | nil =>
      use [], [], rfl
      constructor
      · rw [List.append_nil]
        rfl
      · constructor
        · intro before r after hsplit
          simp at hsplit
        · intro r hr
          cases hr
  | cons r results ih =>
      by_cases hfits : Fits budget truncated r
      · obtain ⟨kept, rest, rfl, htruncate, htaken, hstop⟩ := ih (truncated ++ [r])
        rw [List.append_assoc, List.singleton_append] at htruncate hstop
        use r :: kept, rest, rfl
        constructor
        · rw [truncate_cons hfits, htruncate]
        · use fun before r' after hsplit => ?_, hstop
          cases before with
          | nil =>
              obtain ⟨rfl, -⟩ := List.cons.inj hsplit
              rw [List.append_nil]
              apply hfits
          | cons first before =>
              obtain ⟨rfl, hkept⟩ := List.cons.inj hsplit
              have hbefore := htaken before r' after hkept
              rw [List.append_assoc] at hbefore
              apply hbefore
      · use [], r :: results, rfl
        rw [List.append_nil]
        constructor
        · apply truncate_cons_of_not hfits
        · constructor
          · intro before r' after hsplit
            simp at hsplit
          · intro r' hr'
            obtain rfl := Option.some.inj hr'
            apply hfits

/-- When each entry fits after those before it, each prefix of two or more entries fits. -/
theorem fits_of_taken {budget : ℕ} {kept : List (ContextResult F)}
    (htaken : ∀ before r after, kept = before ++ r :: after → Fits budget before r) :
  ∀ j, 2 ≤ j → j ≤ kept.length → tokenCount (kept.take j) ≤ budget
  := by
  intro j htwo hj
  obtain ⟨i, rfl⟩ : ∃ i, j = i + 1 := Nat.exists_eq_add_of_le' (by omega)
  have hi : i < kept.length := hj
  have hsplit : kept = kept.take i ++ kept[i] :: kept.drop (i + 1) := by
    rw [← List.drop_eq_getElem_cons hi, List.take_append_drop]
  rcases htaken _ _ _ hsplit with hnil | hle
  · rcases List.take_eq_nil_iff.mp hnil with rfl | rfl
    · omega
    · simp at hi
  · rw [List.take_append_getElem hi] at hle
    apply hle

theorem budgeted_truncate (budget : ℕ) (results : List (ContextResult F)) :
  Budgeted budget results (truncate budget 0 [] results).1 (truncate budget 0 [] results).2
  := by
  obtain ⟨kept, rest, rfl, htruncate, htaken, hstop⟩ := truncate_splits budget [] results
  simp only [List.nil_append] at htruncate htaken hstop
  have heq : truncate budget 0 [] (kept ++ rest) = (kept, tokenCount kept) := htruncate
  rw [heq]
  dsimp only
  have hfits := fits_of_taken htaken
  constructor
  · apply List.prefix_append
  · intro hne hkept
    rw [hkept] at hne hstop
    cases rest with
    | nil => apply hne rfl
    | cons r rest => apply hstop r rfl (Or.inl rfl)
  · apply tokenCount_eq_ceilDiv
  · apply hfits
  · intro hlt
    cases rest with
    | nil => simp at hlt
    | cons r rest =>
        obtain ⟨-, hover⟩ := not_or.mp (hstop r rfl)
        have htake : (kept ++ r :: rest).take (kept.length + 1) = kept ++ [r] := by
          rw [List.take_append, List.take_of_length_le (by omega)]
          simp
        rw [htake, ← tokenCount_eq_ceilDiv]
        omega
  · intro hover
    by_contra hlength
    by_cases hnil : kept = []
    · rw [hnil] at hover
      apply absurd hover (Nat.not_lt_zero budget)
    · have hpos := List.length_pos_iff.mpr hnil
      have hle := hfits kept.length (by omega) (Nat.le_refl _)
      rw [List.take_length] at hle
      omega

end ContextResult

section Search

variable {F : Type} [SingleFloat F] (sorting : SortBy) (orders : Orders F) (codec : TagCodec)

/-- A budget leaves of every ranking a prefix of at least one entry, of the entries that fit; a
search returns what its budget leaves of the ranking of its entries. -/
theorem truncated_to_budget (budget : ℕ) :
  (∀ ranking : List (ContextResult F), ContextResult.Budgeted budget ranking
    (ContextResult.truncate budget 0 [] ranking).1 (ContextResult.truncate budget 0 [] ranking).2)
  ∧ ∀ (project query : String) (vector : Option (List F)) (category : Option String)
      (s s' : MemoryState) (kept : List (ContextResult F)) (estimate : ℕ),
    (HybridSearch.getContext sorting orders codec project query vector budget category).Runs s
      (.ok (kept, estimate)) s' →
    ∃ resultMap, (HybridSearch.merged sorting orders codec project query vector budget
        category).Runs s (.ok resultMap) s'
      ∧ ContextResult.Budgeted budget (ContextResult.ranking sorting orders resultMap) kept
        estimate
  := by
  use ContextResult.budgeted_truncate budget
  intro project query vector category s s' kept estimate h
  obtain ⟨merged, hmerged, hresult⟩ := HybridSearch.runs_getContext.mp h
  cases merged with
  | error e => cases hresult
  | ok resultMap =>
      use resultMap, hmerged
      have hbudgeted := ContextResult.budgeted_truncate budget
        (ContextResult.ranking sorting orders resultMap)
      have hranked : (kept, estimate) = ContextResult.ranked sorting orders budget resultMap :=
        Except.ok.inj hresult
      change ContextResult.Budgeted budget _ (ContextResult.ranked sorting orders budget resultMap).1
        (ContextResult.ranked sorting orders budget resultMap).2 at hbudgeted
      rw [← hranked] at hbudgeted
      apply hbudgeted

end Search

/-- The budget leaves one of two notes. -/
theorem truncated_to_budget_twinNotes :
  ∃ resultMap, (HybridSearch.merged SortBy.merge { insertedOrders with results := Scan.inserted }
      noTags "alpha" "zebra" (some [(⟨0x3f800000⟩ : F32)]) 2 none).Runs twinNotes (.ok resultMap)
      twinNotes
    ∧ ContextResult.Budgeted 2 (ContextResult.ranking SortBy.merge
      { insertedOrders with results := Scan.inserted } resultMap) [twin "m1" "first"] 2
  := (truncated_to_budget _ _ _ 2).2 _ _ _ _ _ _ _ _
    (runs_getContext_twinNotes Scan.inserted rfl rfl rfl (by decide) (by decide))

end OrchestraRag
