import Mathlib.Data.List.MinMax
import Mathlib.Data.List.Nodup
import Mathlib.Data.List.Sort

/-!
# Sorting by a comparator

`SortBy` is a sort of a standard library: it takes any comparator, and what it promises holds
for those that are total preorders of the elements they sort.  On others it still returns the
elements it was given, in some order.
-/

/-- The comparator orders any two of the elements, consistently. -/
structure TotalPreorder {α : Type} (cmp : α → α → Ordering) (xs : List α) : Prop where
  swap : ∀ a ∈ xs, ∀ b ∈ xs, cmp b a = (cmp a b).swap
  trans : ∀ a ∈ xs, ∀ b ∈ xs, ∀ c ∈ xs, cmp a b ≠ .gt → cmp b c ≠ .gt → cmp a c ≠ .gt

/-- A stable sort by comparators. -/
structure SortBy where
  sort : {α : Type} → (α → α → Ordering) → List α → List α
  perm : ∀ {α : Type} (cmp : α → α → Ordering) (xs : List α), (sort cmp xs).Perm xs
  stable : ∀ {α : Type} (cmp : α → α → Ordering) (xs : List α), TotalPreorder cmp xs →
    sort cmp xs = xs.mergeSort (fun a b => cmp a b != .gt)

section TotalPreorder

variable {α : Type} {cmp : α → α → Ordering} {xs ys : List α}

theorem TotalPreorder.perm (h : TotalPreorder cmp xs) (hperm : ys.Perm xs) :
  TotalPreorder cmp ys
  := by
  constructor
  · intro a ha b hb
    apply h.swap a (hperm.mem_iff.mp ha) b (hperm.mem_iff.mp hb)
  · intro a ha b hb c hc
    apply h.trans a (hperm.mem_iff.mp ha) b (hperm.mem_iff.mp hb) c (hperm.mem_iff.mp hc)

/-- Merge sort on the elements of a list, as a sort of a type on which the comparator is a total
preorder. -/
theorem mergeSort_eq_attach (le : α → α → Bool) (xs : List α) :
  xs.mergeSort le = (xs.attach.mergeSort (fun a b => le a.val b.val)).map Subtype.val
  := by
  have hmap := List.map_mergeSort (f := Subtype.val) (l := xs.attach)
    (r := fun a b => le a.val b.val) (s := le) (fun _ _ _ _ => rfl)
  rw [hmap, List.attach_map_subtype_val]

variable (h : TotalPreorder cmp xs)

include h

theorem TotalPreorder.trans_attach (a b c : { x // x ∈ xs }) (hab : (cmp a b != .gt) = true)
    (hbc : (cmp b c != .gt) = true) :
  (cmp a c != .gt) = true
  := by
  rw [bne_iff_ne] at *
  apply h.trans a a.property b b.property c c.property hab hbc

theorem TotalPreorder.total_attach (a b : { x // x ∈ xs }) :
  ((cmp a b != .gt) || (cmp b a != .gt)) = true
  := by
  rw [h.swap a a.property b b.property]
  cases cmp a.val b.val with
  | lt => rfl
  | eq => rfl
  | gt => rfl

theorem TotalPreorder.pairwise_mergeSort :
  (xs.mergeSort (fun a b => cmp a b != .gt)).Pairwise (fun a b => cmp a b ≠ .gt)
  := by
  have hsorted := List.pairwise_mergeSort h.trans_attach h.total_attach xs.attach
  rw [mergeSort_eq_attach, List.pairwise_map]
  apply hsorted.imp
  intro a b hab
  apply bne_iff_ne.mp hab

/-- Two elements that are in order stay in order. -/
theorem TotalPreorder.sublist_mergeSort {a b : α} (hab : cmp a b ≠ .gt)
    (hsublist : [a, b].Sublist xs) :
  [a, b].Sublist (xs.mergeSort (fun a b => cmp a b != .gt))
  := by
  rw [← List.attach_map_subtype_val xs] at hsublist
  obtain ⟨pair, hpair, heq⟩ := List.sublist_map_iff.mp hsublist
  have hle : (pair.map Subtype.val).Pairwise (fun a b => (cmp a b != .gt) = true) := by
    rw [← heq, List.pairwise_pair]
    apply bne_iff_ne.mpr hab
  rw [List.pairwise_map] at hle
  have hstable := List.sublist_mergeSort h.trans_attach h.total_attach hle hpair
  rw [mergeSort_eq_attach, heq]
  apply hstable.map

end TotalPreorder

/-! ### Pairs of distinct elements -/

section Pairs

variable {α : Type} {a b : α} {xs ys : List α}

/-- Distinct elements stand in one order only. -/
theorem not_sublist_swap (hnodup : xs.Nodup) (h : [a, b].Sublist xs) :
  ¬ [b, a].Sublist xs
  := by
  intro hswap
  obtain ⟨l₁, l₂, rfl, ha, hb⟩ := List.cons_sublist_iff.mp h
  obtain ⟨l₃, l₄, hsplit, hb', ha'⟩ := List.cons_sublist_iff.mp hswap
  have hdisjoint := List.disjoint_of_nodup_append hnodup
  rw [List.singleton_sublist] at hb ha'
  rcases List.append_eq_append_iff.mp hsplit with ⟨l, rfl, rfl⟩ | ⟨l, rfl, rfl⟩
  · apply hdisjoint ha (List.mem_append_right _ ha')
  · apply hdisjoint (List.mem_append_left _ hb') hb

/-- With an element a prefix has what stands before it. -/
theorem pair_sublist_of_isPrefix (hnodup : ys.Nodup) (hinit : xs.IsPrefix ys)
    (h : [a, b].Sublist ys) (hb : b ∈ xs) :
  [a, b].Sublist xs
  := by
  obtain ⟨rest, rfl⟩ := hinit
  obtain ⟨l₁, l₂, hsplit, ha, hb'⟩ := List.cons_sublist_iff.mp h
  have hdisjoint := List.disjoint_of_nodup_append hnodup
  rw [List.singleton_sublist] at hb'
  rcases List.append_eq_append_iff.mp hsplit with ⟨l, rfl, rfl⟩ | ⟨l, rfl, rfl⟩
  · cases hdisjoint hb (List.mem_append_right _ hb')
  · apply List.cons_sublist_iff.mpr
    use l₁, l, rfl, ha
    rw [List.singleton_sublist]
    rcases List.mem_append.mp hb' with hb' | hb'
    · apply hb'
    · cases hdisjoint hb hb'

end Pairs

/-! ### What stands before an element -/

section Split

variable {α : Type} {cmp : α → α → Ordering} {before after : List α} {r : α}

/-- Nothing that comes strictly before an element stands behind it. -/
theorem TotalPreorder.filter_lt_split (h : TotalPreorder cmp (before ++ r :: after))
    (hsorted : (before ++ r :: after).Pairwise (fun a b => cmp a b ≠ .gt)) :
  (before ++ r :: after).filter (fun x => cmp x r = .lt) = before.filter (fun x => cmp x r = .lt)
  := by
  have hr : r ∈ before ++ r :: after := List.mem_append_right _ List.mem_cons_self
  have hrest : (r :: after).filter (fun x => cmp x r = .lt) = [] := by
    apply List.filter_eq_nil_iff.mpr
    intro x hx hlt
    have hswap := h.swap x (List.mem_append_right _ hx) r hr
    rw [of_decide_eq_true hlt] at hswap
    rcases List.mem_cons.mp hx with rfl | hx
    · rw [of_decide_eq_true hlt] at hswap
      cases hswap
    · have hafter := (List.pairwise_append.mp hsorted).2.1
      apply (List.pairwise_cons.mp hafter).1 x hx hswap
  rw [List.filter_append, hrest, List.append_nil]

/-- What stands before an element comes strictly before it, when nothing ties with it. -/
theorem filter_lt_of_untied
    (hsorted : (before ++ r :: after).Pairwise (fun a b => cmp a b ≠ .gt))
    (huntied : ∀ x ∈ before, cmp x r ≠ .eq) :
  before.filter (fun x => cmp x r = .lt) = before
  := by
  apply List.filter_eq_self.mpr
  intro x hx
  apply decide_eq_true
  have hle := (List.pairwise_append.mp hsorted).2.2 x hx r List.mem_cons_self
  cases hcmp : cmp x r with
  | lt => rfl
  | eq => cases huntied x hx hcmp
  | gt => cases hle hcmp

end Split

/-! ### First minima -/

section Argmin

variable {α β : Type} [LinearOrder β] {f : α → β} {xs before after : List α} {m : α}

theorem argmin_append_cons (hbefore : ∀ a ∈ before, f m < f a) (hafter : ∀ a ∈ after, f m ≤ f a) :
  (before ++ m :: after).argmin f = some m
  := by
  induction before with
  | nil =>
      rw [List.nil_append, List.argmin_cons]
      cases hleast : after.argmin f with
      | none => rfl
      | some c => exact if_neg (not_lt_of_ge (hafter c (List.argmin_mem hleast)))
  | cons b before ih =>
      rw [List.cons_append, List.argmin_cons,
        ih (fun a ha => hbefore a (List.mem_cons_of_mem b ha))]
      exact if_pos (hbefore b List.mem_cons_self)

/-- A first minimum is less than what stands before it, and at most what stands behind it. -/
theorem argmin_eq_some_iff_append :
  xs.argmin f = some m ↔ ∃ before after, xs = before ++ m :: after
    ∧ (∀ a ∈ before, f m < f a) ∧ ∀ a ∈ after, f m ≤ f a
  := by
  constructor
  · intro h
    induction xs with
    | nil => cases h
    | cons x xs ih =>
        rw [List.argmin_cons] at h
        cases hleast : xs.argmin f with
        | none =>
            rw [hleast] at h
            obtain rfl := Option.some.inj h
            rw [List.argmin_eq_none.mp hleast]
            exact ⟨[], [], rfl, by simp, by simp⟩
        | some c =>
            rw [hleast] at h
            by_cases hlt : f c < f x
            · obtain rfl := Option.some.inj ((if_pos hlt).symm.trans h)
              obtain ⟨before, after, rfl, hbefore, hafter⟩ := ih hleast
              refine ⟨x :: before, after, rfl, ?_, hafter⟩
              intro a ha
              rcases List.mem_cons.mp ha with rfl | ha
              · apply hlt
              · apply hbefore a ha
            · obtain rfl := Option.some.inj ((if_neg hlt).symm.trans h)
              refine ⟨[], xs, rfl, by simp, ?_⟩
              intro a ha
              apply (le_of_not_gt hlt).trans (List.le_of_mem_argmin ha hleast)
  · rintro ⟨before, after, rfl, hbefore, hafter⟩
    apply argmin_append_cons hbefore hafter

end Argmin

namespace SortBy

theorem mem_sort {α : Type} {sorting : SortBy} {cmp : α → α → Ordering} {xs : List α} {a : α} :
  a ∈ sorting.sort cmp xs ↔ a ∈ xs
  := (sorting.perm cmp xs).mem_iff

section Sorted

variable {α : Type} {cmp : α → α → Ordering} {xs : List α}

/-- What is sorted is in order. -/
theorem pairwise_sort (sorting : SortBy) (h : TotalPreorder cmp xs) :
  (sorting.sort cmp xs).Pairwise (fun a b => cmp a b ≠ .gt)
  := by
  rw [sorting.stable cmp xs h]
  apply h.pairwise_mergeSort

/-- The sort is stable: two elements that are in order stay in order. -/
theorem sublist_sort (sorting : SortBy) (h : TotalPreorder cmp xs) {a b : α}
    (hab : cmp a b ≠ .gt) (hsublist : [a, b].Sublist xs) :
  [a, b].Sublist (sorting.sort cmp xs)
  := by
  rw [sorting.stable cmp xs h]
  apply h.sublist_mergeSort hab hsublist

end Sorted

/-- Merge sort, for any comparator. -/
def merge : SortBy where
  sort cmp xs := xs.mergeSort (fun a b => cmp a b != .gt)
  perm _ _ := List.mergeSort_perm _ _
  stable _ _ _ := rfl

end SortBy

/-! ### Keys that not all elements have -/

section PartialKey

variable {α K : Type} [LinearOrder K] {key : α → Option K} {xs : List α} {a b : α} {x y : K}

/-- Descending order by a key; an element without one ties with all. -/
def byKey (key : α → Option K) (a b : α) : Ordering :=
  ((key b).bind (fun y => (key a).map (fun x => compare y x))).getD .eq

theorem byKey_of_some (ha : key a = some x) (hb : key b = some y) :
  byKey key a b = compare y x
  := by
  rw [byKey, ha, hb]
  rfl

theorem byKey_none_left (ha : key a = none) :
  byKey key a b = .eq
  := by
  rw [byKey, ha]
  cases key b with
  | none => rfl
  | some y => rfl

theorem byKey_none_right (hb : key b = none) :
  byKey key a b = .eq
  := by
  rw [byKey, hb]
  rfl

theorem byKey_ne_gt_iff (ha : key a = some x) (hb : key b = some y) :
  byKey key a b ≠ .gt ↔ y ≤ x
  := by
  rw [byKey_of_some ha hb, ne_eq, compare_gt_iff_gt, not_lt]

theorem byKey_swap (key : α → Option K) (a b : α) :
  byKey key b a = (byKey key a b).swap
  := by
  cases ha : key a with
  | none =>
      rw [byKey_none_left ha, byKey_none_right ha]
      rfl
  | some x =>
      cases hb : key b with
      | none =>
          rw [byKey_none_left hb, byKey_none_right hb]
          rfl
      | some y =>
          rw [byKey_of_some ha hb, byKey_of_some hb ha]
          exact Std.OrientedOrd.eq_swap

/-- An order by a key is consistent exactly if all elements have the key, or all keys are the
same. -/
theorem totalPreorder_byKey_iff :
  TotalPreorder (byKey key) xs ↔ (∀ a ∈ xs, (key a).isSome)
    ∨ ∀ a ∈ xs, ∀ b ∈ xs, ∀ x y, key a = some x → key b = some y → x = y
  := by
  constructor
  · intro h
    by_contra hnot
    obtain ⟨hmissing, hdiffer⟩ := not_or.mp hnot
    push Not at hmissing hdiffer
    obtain ⟨c, hc, hnone⟩ := hmissing
    obtain ⟨a, ha, b, hb, x, y, hx, hy, hne⟩ := hdiffer
    rw [ne_eq, Option.not_isSome_iff_eq_none] at hnone
    -- the element without a key lies between any two
    have hle : ∀ a ∈ xs, ∀ b ∈ xs, ∀ x y, key a = some x → key b = some y → y ≤ x := by
      intro a ha b hb x y hx hy
      apply (byKey_ne_gt_iff hx hy).mp
      apply h.trans a ha c hc b hb
      · rw [byKey_none_right hnone]
        decide
      · rw [byKey_none_left hnone]
        decide
    apply hne (le_antisymm (hle b hb a ha y x hy hx) (hle a ha b hb x y hx hy))
  · intro h
    constructor
    · intro a _ b _
      apply byKey_swap
    · intro a ha b hb c hc hab hbc
      cases hx : key a with
      | none =>
          rw [byKey_none_left hx]
          decide
      | some x =>
          cases hz : key c with
          | none =>
              rw [byKey_none_right hz]
              decide
          | some z =>
              rw [byKey_ne_gt_iff hx hz]
              rcases h with hall | hsame
              · obtain ⟨y, hy⟩ := Option.isSome_iff_exists.mp (hall b hb)
                rw [byKey_ne_gt_iff hx hy] at hab
                rw [byKey_ne_gt_iff hy hz] at hbc
                apply hbc.trans hab
              · rw [hsame a ha c hc x z hx hz]

/-- The first elements of an order by a key, and what is left out of it. -/
theorem exists_take_byKey (sorting : SortBy) (h : TotalPreorder (byKey key) xs) (n : ℕ) :
  ((sorting.sort (byKey key) xs).take n).Pairwise
      (fun a b => ∀ x y, key a = some x → key b = some y → y ≤ x)
    ∧ ∃ rest, ((sorting.sort (byKey key) xs).take n ++ rest).Perm xs
      ∧ ∀ b ∈ rest, ∀ a ∈ (sorting.sort (byKey key) xs).take n,
        ∀ y x, key b = some y → key a = some x → y ≤ x
  := by
  have hsorted : (sorting.sort (byKey key) xs).Pairwise
      (fun a b => ∀ x y, key a = some x → key b = some y → y ≤ x) := by
    apply (sorting.pairwise_sort h).imp
    intro a b hab x y hx hy
    apply (byKey_ne_gt_iff hx hy).mp hab
  have hperm := sorting.perm (byKey key) xs
  rw [← List.take_append_drop n (sorting.sort (byKey key) xs)] at hsorted hperm
  obtain ⟨htake, -, hrest⟩ := List.pairwise_append.mp hsorted
  use htake, (sorting.sort (byKey key) xs).drop n, hperm
  intro b hb a ha y x hy hx
  apply hrest a ha b hb x y hx hy

end PartialKey
