import Mathlib.Algebra.BigOperators.Group.List.Basic
import Mathlib.Algebra.GroupWithZero.Nat
import Mathlib.Data.List.Induction
import OrchestraRag.Library.SortedMap

/-!
# Tallies

A map from keys to how often each was counted.  Counting one more (`add`) reads the number of a
key, zero if it has none, and writes the next one.  The numbers of a tally add up to how many
keys were counted (`sum_tally`).
-/

namespace Tally

variable {κ : Type*} [LinearOrder κ]

/-- Count a key. -/
def add (counts : List (κ × ℕ)) (k : κ) : List (κ × ℕ) :=
  SortedMap.insert k ((counts.lookup k).getD 0 + 1) counts

/-- Count the keys of a list. -/
def tally (ks : List κ) : List (κ × ℕ) :=
  ks.foldl add []

/-- The sum of the numbers. -/
def sum (counts : List (κ × ℕ)) : ℕ :=
  (counts.map Prod.snd).sum

@[simp]
theorem tally_append_singleton (ks : List κ) (k : κ) :
  tally (ks ++ [k]) = add (tally ks) k
  := List.foldl_concat _ _ _ _

theorem sorted_tally (ks : List κ) :
  SortedMap.Sorted (tally ks)
  := by
  induction ks using List.reverseRecOn with
  | nil => apply SortedMap.sorted_nil
  | append_singleton ks k ih =>
      rw [tally_append_singleton]
      apply SortedMap.sorted_insert _ _ ih

/-- The number of a key is how often it was counted. -/
theorem lookup_tally (ks : List κ) (k : κ) :
  ((tally ks).lookup k).getD 0 = ks.count k
  := by
  induction ks using List.reverseRecOn with
  | nil => rfl
  | append_singleton ks k' ih =>
      rw [tally_append_singleton, add, SortedMap.lookup_insert, List.count_append,
        List.count_singleton, ← ih]
      by_cases hk : k = k'
      · rw [if_pos hk, hk, beq_self_eq_true]
        rfl
      · rw [if_neg hk, beq_false_of_ne (Ne.symm hk)]
        rfl

/-- A key above which all keys of a map lie is not in it. -/
theorem lookup_eq_none_of_lt {β : Type*} {k : κ} {es : List (κ × β)} (h : ∀ e ∈ es, k < e.1) :
  es.lookup k = none
  := by
  rw [List.lookup_eq_none_iff]
  intro e he
  rw [bne_iff_ne]
  apply (h e he).ne

/-- Writing a number for a key changes the sum by as much as the number of the key. -/
theorem sum_insert (k : κ) (n : ℕ) {counts : List (κ × ℕ)} (h : SortedMap.Sorted counts) :
  sum (SortedMap.insert k n counts) + (counts.lookup k).getD 0 = sum counts + n
  := by
  induction counts with
  | nil => simp [SortedMap.insert, sum]
  | cons e counts ih =>
      obtain ⟨k', n'⟩ := e
      obtain ⟨hlt, hcounts⟩ := SortedMap.sorted_cons.mp h
      rw [SortedMap.insert]
      split
      case isTrue hk =>
          have habsent : ((k', n') :: counts).lookup k = none := by
            apply lookup_eq_none_of_lt
            intro e he
            rcases List.mem_cons.mp he with rfl | he
            · apply hk
            · apply hk.trans (hlt e he)
          rw [habsent]
          simp only [sum, List.map_cons, List.sum_cons, Option.getD_none]
          omega
      case isFalse hk =>
          split
          case isTrue heq =>
              obtain rfl := heq
              simp only [sum, List.map_cons, List.sum_cons, List.lookup_cons, beq_self_eq_true,
                Option.getD_some]
              omega
          case isFalse hne =>
              have hrest := ih hcounts
              simp only [sum] at hrest
              rw [SortedMap.lookup_cons_ite, if_neg hne]
              simp only [sum, List.map_cons, List.sum_cons]
              omega

/-- The numbers of a tally add up to how many keys were counted. -/
theorem sum_tally (ks : List κ) :
  sum (tally ks) = ks.length
  := by
  induction ks using List.reverseRecOn with
  | nil => rfl
  | append_singleton ks k ih =>
      have hsum := sum_insert k (((tally ks).lookup k).getD 0 + 1) (sorted_tally ks)
      rw [tally_append_singleton, add, List.length_append, List.length_singleton, ← ih]
      omega

/-- The keys of a tally are those that were counted. -/
theorem mem_of_mem_tally {ks : List κ} {e : κ × ℕ} (h : e ∈ tally ks) :
  e.1 ∈ ks
  := by
  induction ks using List.reverseRecOn with
  | nil => cases h
  | append_singleton ks k ih =>
      rw [tally_append_singleton] at h
      rcases SortedMap.mem_insert h with rfl | h
      · apply List.mem_append_right _ List.mem_cons_self
      · apply List.mem_append_left _ (ih h)

end Tally
