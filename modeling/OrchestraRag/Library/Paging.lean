import Mathlib.Data.List.Basic
import Mathlib.Data.List.Nodup

/-!
# Pages

A page of a list is what follows an offset, up to a limit.  A search that ranks only as many
entries as it may need, skips the offset and selects last gives the page of the selected entries
just when it ranked those and no others (`filter_page_iff`).

The rank of an entry of an ordered list is the number of those that come before it; the entry at
that position is one that does not come after it (`exists_getElem?_countP`).
-/

namespace Paging

universe u

variable {α : Type u}

/-- The entries at the positions from `offset` up to `offset + limit`. -/
def page (offset limit : ℕ) (as : List α) : List α :=
  (as.drop offset).take limit

/-- A page that ends with the last entry contains it. -/
theorem mem_page_of_concat {offset limit : ℕ} {as : List α} {a : α}
    (hlength : as.length + 1 = offset + limit) (hlimit : 1 ≤ limit) :
  a ∈ page offset limit (as ++ [a])
  := by
  have hoffset : offset ≤ as.length := by omega
  have hrest : (as.drop offset ++ [a]).length ≤ limit := by
    rw [List.length_append, List.length_drop, List.length_singleton]
    omega
  rw [page, List.drop_append_of_le_length hoffset, List.take_of_length_le hrest]
  apply List.mem_append_right _ List.mem_cons_self

theorem page_of_length_le {offset limit : ℕ} {as : List α} (h : as.length ≤ offset + limit) :
  page offset limit as = as.drop offset
  := by
  apply List.take_of_length_le
  rw [List.length_drop]
  omega

section Filter

variable {p : α → Bool} {as : List α} {offset limit : ℕ}

/-- If the selected entries are the first ones, their page is what follows the offset. -/
theorem filter_page_of_filter_eq (h : as.filter p = as.take (offset + limit)) :
  ((as.take (offset + limit)).drop offset).filter p = page offset limit (as.filter p)
  := by
  have hlength : (as.take (offset + limit)).length ≤ offset + limit :=
    List.length_take_le (offset + limit) as
  rw [h, page_of_length_le hlength, List.filter_eq_self]
  intro a ha
  have hmem := List.mem_of_mem_drop ha
  rw [← h] at hmem
  apply List.of_mem_filter hmem

/-- If all entries that were cut are selected, and as many as there are, they are all that are. -/
theorem filter_eq_take (hselected : ∀ a ∈ as.take (offset + limit), p a = true)
    (hlength : (as.take (offset + limit)).length = (as.filter p).length) :
  as.filter p = as.take (offset + limit)
  := by
  have hfirst : (as.take (offset + limit)).filter p = as.take (offset + limit) :=
    List.filter_eq_self.mpr hselected
  have hsublist : (as.take (offset + limit)).Sublist (as.filter p) := by
    rw [← hfirst]
    apply (List.take_sublist _ _).filter
  apply (hsublist.eq_of_length hlength).symm

/-- A page within the entries that were cut leaves no selected entry after them. -/
theorem filter_rest_eq_nil {before within rest : List α}
    (h : (before ++ within ++ rest).Nodup) (hwithin : 1 ≤ within.length)
    (hpage : within.filter p = page before.length within.length
      ((before ++ within ++ rest).filter p))
    (hlength : (before ++ within).length = ((before ++ within ++ rest).filter p).length) :
  rest.filter p = []
  := by
  rcases List.eq_nil_or_concat (rest.filter p) with hnil | ⟨others, last, hlast⟩
  · apply hnil
  · rw [List.filter_append, hlast, List.concat_eq_append, ← List.append_assoc] at hpage hlength
    rw [List.length_append, List.length_append] at hlength
    have hmem : last ∈ within.filter p := by
      rw [hpage]
      apply mem_page_of_concat hlength.symm hwithin
    have hrest : last ∈ rest.filter p := by
      rw [hlast, List.concat_eq_append]
      apply List.mem_append_right _ List.mem_cons_self
    apply absurd (List.mem_of_mem_filter hrest)
    apply List.disjoint_of_nodup_append h
    apply List.mem_append_right _ (List.mem_of_mem_filter hmem)

/-- The skipped and cut entries that are selected are the page of the selected ones, and all that
were cut are as many as those selected, exactly when those selected are the first ones. -/
theorem filter_page_iff (h : as.Nodup) (hlimit : 1 ≤ limit) :
  (((as.take (offset + limit)).drop offset).filter p = page offset limit (as.filter p)
      ∧ (as.take (offset + limit)).length = (as.filter p).length)
    ↔ as.filter p = as.take (offset + limit)
  := by
  constructor
  · rintro ⟨hpage, hlength⟩
    have hrest : (as.drop (offset + limit)).filter p = [] := by
      by_cases hall : as.length ≤ offset + limit
      · rw [List.drop_of_length_le hall, List.filter_nil]
      · have hcut : as.take (offset + limit) = as.take offset ++ (as.drop offset).take limit :=
          List.take_add
        have hsplit : as.take offset ++ (as.drop offset).take limit ++ as.drop (offset + limit)
            = as := by
          rw [← hcut, List.take_append_drop]
        have hdrop : (as.take (offset + limit)).drop offset = (as.drop offset).take limit := by
          rw [List.drop_take, Nat.add_sub_cancel_left]
        have hbefore : (as.take offset).length = offset := by
          rw [List.length_take]
          omega
        have hwithin : ((as.drop offset).take limit).length = limit := by
          rw [List.length_take, List.length_drop]
          omega
        have hnil := @filter_rest_eq_nil α p (as.take offset) ((as.drop offset).take limit)
          (as.drop (offset + limit))
        rw [hsplit, hwithin, hbefore, ← hcut, ← hdrop] at hnil
        apply hnil h hlimit hpage hlength
    apply filter_eq_take _ hlength
    have hselected : as.filter p = (as.take (offset + limit)).filter p := by
      conv_lhs => rw [← List.take_append_drop (offset + limit) as]
      rw [List.filter_append, hrest, List.append_nil]
    rw [hselected] at hlength
    apply List.length_filter_eq_length_iff.mp hlength.symm
  · intro hfirst
    use filter_page_of_filter_eq hfirst
    rw [hfirst]

end Filter

/-! ### Ranks -/

/-- An entry at a position within a page is on it. -/
theorem mem_page_of_getElem? {offset limit i : ℕ} {as : List α} {a : α} (ha : as[i]? = some a)
    (hoffset : offset ≤ i) (hlimit : i < offset + limit) :
  a ∈ page offset limit as
  := by
  apply List.mem_of_getElem? (i := i - offset)
  rw [page, List.getElem?_take, if_pos (by omega), List.getElem?_drop, Nat.add_sub_cancel' hoffset]
  apply ha

/-- After a page that is not full there is nothing. -/
theorem lt_of_length_page_lt {offset limit i : ℕ} {as : List α} (hi : i < as.length)
    (hpage : (page offset limit as).length < limit) :
  i < offset + limit
  := by
  rw [page, List.length_take, List.length_drop] at hpage
  omega

/-- In an ordered list the entries that come before some entry are followed by one that does not
come after it. -/
theorem exists_getElem?_countP {r : α → α → Prop} {p : α → Bool} {as : List α} {a : α}
    (hordered : as.Pairwise r) (hp : ∀ b c, r b c → p c = true → p b = true) (ha : a ∈ as)
    (hpa : p a = false) :
  ∃ b, as[as.countP p]? = some b ∧ p b = false ∧ (b = a ∨ r b a)
  := by
  induction as with
  | nil => cases ha
  | cons b as ih =>
      obtain ⟨hfirst, hrest⟩ := List.pairwise_cons.mp hordered
      cases hpb : p b with
      | true =>
          rw [List.countP_cons_of_pos hpb, List.getElem?_cons_succ]
          rcases List.mem_cons.mp ha with rfl | ha
          · rw [hpb] at hpa
            cases hpa
          · apply ih hrest ha
      | false =>
          have hnone : as.countP p = 0 := by
            rw [List.countP_eq_zero]
            intro c hc hpc
            rw [hp b c (hfirst c hc) hpc] at hpb
            cases hpb
          rw [List.countP_cons_of_neg (by rw [hpb]; exact Bool.false_ne_true), hnone]
          use b, rfl, hpb
          rcases List.mem_cons.mp ha with rfl | ha
          · exact Or.inl rfl
          · exact Or.inr (hfirst a ha)

end Paging
