import Mathlib.Data.List.Lookmap
import Mathlib.Order.Lattice

/-!
# Maps sorted by key

A map is the list of its entries in increasing order of the keys.  `insert` keeps the
order and replaces the value of a key that is there, `collect` builds the map of a list
of entries, the last value of a key winning, and `List.lookup` reads it.  Collecting the
entries of a sorted map gives the map back (`collect_of_sorted`).
-/

namespace SortedMap

variable {κ β γ : Type*} [LinearOrder κ]

/-- The keys of `es` are strictly increasing. -/
def Sorted (es : List (κ × β)) : Prop :=
  (es.map Prod.fst).Pairwise (· < ·)

instance (es : List (κ × β)) : Decidable (Sorted es) :=
  inferInstanceAs (Decidable (List.Pairwise _ _))

/-- The map `es` with the value of `k` set to `v`. -/
def insert (k : κ) (v : β) : List (κ × β) → List (κ × β)
  | [] => [(k, v)]
  | (k', v') :: es =>
      if k < k' then (k, v) :: (k', v') :: es
      else if k = k' then (k, v) :: es
      else (k', v') :: insert k v es

/-- The map of a list of entries, the last value of a key winning. -/
def collect (es : List (κ × β)) : List (κ × β) :=
  es.foldl (fun m e => insert e.1 e.2 m) []

@[simp]
theorem sorted_nil :
  Sorted ([] : List (κ × β))
  := List.Pairwise.nil

theorem sorted_cons {k : κ} {v : β} {es : List (κ × β)} :
  Sorted ((k, v) :: es) ↔ (∀ e ∈ es, k < e.1) ∧ Sorted es
  := by
  simp [Sorted]

/-- Only the keys matter for being sorted. -/
theorem Sorted.of_keys {es : List (κ × β)} {fs : List (κ × γ)} (h : Sorted es)
    (hk : fs.map Prod.fst = es.map Prod.fst) :
  Sorted fs
  := by
  rw [Sorted, hk]
  apply h

/-- Inserting a key above all keys of a map appends it. -/
theorem insert_of_lt {k : κ} {v : β} {es : List (κ × β)} (h : ∀ e ∈ es, e.1 < k) :
  insert k v es = es ++ [(k, v)]
  := by
  induction es with
  | nil => rfl
  | cons e es ih =>
      have he := h e List.mem_cons_self
      rw [insert, if_neg he.not_gt, if_neg he.ne', List.cons_append]
      congr 1
      apply ih
      intro e' he'
      apply h e' (List.mem_cons_of_mem _ he')

theorem mem_insert {k : κ} {v : β} {es : List (κ × β)} {e : κ × β} (h : e ∈ insert k v es) :
  e = (k, v) ∨ e ∈ es
  := by
  induction es with
  | nil => exact Or.inl (List.mem_singleton.mp h)
  | cons e' es ih =>
      rw [insert] at h
      split at h
      · rcases List.mem_cons.mp h with h | h
        · apply Or.inl h
        · apply Or.inr h
      · split at h
        · rcases List.mem_cons.mp h with h | h
          · apply Or.inl h
          · apply Or.inr (List.mem_cons_of_mem _ h)
        · rcases List.mem_cons.mp h with rfl | h
          · apply Or.inr List.mem_cons_self
          · apply (ih h).imp id
            apply List.mem_cons_of_mem

theorem sorted_insert (k : κ) (v : β) {es : List (κ × β)} (h : Sorted es) :
  Sorted (insert k v es)
  := by
  induction es with
  | nil => simp [insert, Sorted]
  | cons e es ih =>
      obtain ⟨hlt, hes⟩ := sorted_cons.mp h
      rw [insert]
      split
      case isTrue hk =>
          apply sorted_cons.mpr
          refine ⟨?_, h⟩
          intro e' he'
          rcases List.mem_cons.mp he' with rfl | he'
          · apply hk
          · apply hk.trans (hlt e' he')
      case isFalse hk =>
          split
          case isTrue heq =>
              apply sorted_cons.mpr
              rw [heq]
              apply And.intro hlt hes
          case isFalse hne =>
              apply sorted_cons.mpr
              refine ⟨?_, ih hes⟩
              intro e' he'
              rcases mem_insert he' with rfl | he'
              · apply lt_of_le_of_ne (not_lt.mp hk) (Ne.symm hne)
              · apply hlt e' he'

theorem sorted_foldl_insert {m : List (κ × β)} (es : List (κ × β)) (h : Sorted m) :
  Sorted (es.foldl (fun m e => insert e.1 e.2 m) m)
  := by
  induction es generalizing m with
  | nil => apply h
  | cons e es ih => apply ih (sorted_insert e.1 e.2 h)

/-- A collected map is sorted. -/
theorem sorted_collect (es : List (κ × β)) :
  Sorted (collect es)
  := sorted_foldl_insert es sorted_nil

theorem foldl_insert_of_sorted {m es : List (κ × β)} (h : Sorted (m ++ es)) :
  es.foldl (fun m e => insert e.1 e.2 m) m = m ++ es
  := by
  induction es generalizing m with
  | nil => simp
  | cons e es ih =>
      have hm : ∀ e' ∈ m, e'.1 < e.1 := by
        intro e' he'
        rw [Sorted, List.map_append, List.pairwise_append] at h
        apply h.2.2 e'.1 (List.mem_map_of_mem he') e.1
        simp
      rw [List.foldl_cons, insert_of_lt hm, ih]
      · simp
      · simpa using h

theorem mem_foldl_insert {m es : List (κ × β)} {e : κ × β}
    (h : e ∈ es.foldl (fun m e => insert e.1 e.2 m) m) :
  e ∈ m ∨ e ∈ es
  := by
  induction es generalizing m with
  | nil => exact Or.inl h
  | cons e' es ih =>
      rcases ih h with h | h
      · rcases mem_insert h with rfl | h
        · apply Or.inr List.mem_cons_self
        · apply Or.inl h
      · apply Or.inr (List.mem_cons_of_mem _ h)

/-- The entries of a collected map are among the ones collected. -/
theorem mem_collect {es : List (κ × β)} {e : κ × β} (h : e ∈ collect es) :
  e ∈ es
  := by
  rcases mem_foldl_insert h with h | h
  · cases h
  · apply h

/-- Collecting the entries of a map gives the map. -/
theorem collect_of_sorted {es : List (κ × β)} (h : Sorted es) :
  collect es = es
  := foldl_insert_of_sorted h

/-- Every entry of a map is what its key looks up. -/
theorem lookup_of_mem {es : List (κ × β)} (h : Sorted es) {k : κ} {v : β} (hmem : (k, v) ∈ es) :
  es.lookup k = some v
  := by
  induction es with
  | nil => cases hmem
  | cons e es ih =>
      obtain ⟨hlt, hes⟩ := sorted_cons.mp h
      rcases List.mem_cons.mp hmem with rfl | hmem
      · simp
      · rw [List.lookup_cons, beq_false_of_ne (hlt _ hmem).ne', ih hes hmem]

theorem lookup_cons_ite (k k' : κ) (v : β) (es : List (κ × β)) :
  ((k, v) :: es).lookup k' = if k' = k then some v else es.lookup k'
  := by
  by_cases hk : k' = k
  · rw [if_pos hk, List.lookup_cons, beq_iff_eq.mpr hk]
  · rw [if_neg hk, List.lookup_cons, beq_false_of_ne hk]

theorem lookup_insert (k k' : κ) (v : β) (es : List (κ × β)) :
  (insert k v es).lookup k' = if k' = k then some v else es.lookup k'
  := by
  induction es with
  | nil => apply lookup_cons_ite
  | cons e es ih =>
      obtain ⟨key, value⟩ := e
      rw [insert]
      split
      · apply lookup_cons_ite
      · split
        · rename_i hkey
          obtain rfl := hkey
          rw [lookup_cons_ite, lookup_cons_ite]
          split
          · rfl
          · rfl
        · rename_i hkey
          rw [lookup_cons_ite, lookup_cons_ite, ih]
          by_cases hk : k' = k
          · rw [if_pos hk, if_neg (hk ▸ hkey), if_pos hk]
          · rw [if_neg hk, if_neg hk]

theorem lookup_foldl_insert (k : κ) (m es : List (κ × β)) :
  (es.foldl (fun m e => insert e.1 e.2 m) m).lookup k = (es.reverse.lookup k).or (m.lookup k)
  := by
  induction es generalizing m with
  | nil => simp
  | cons e es ih =>
      obtain ⟨key, value⟩ := e
      rw [List.foldl_cons, ih, lookup_insert, List.reverse_cons, List.lookup_append, Option.or_assoc,
        lookup_cons_ite, List.lookup_nil]
      split
      · rfl
      · rfl

/-- A collected map holds the last value of each key. -/
theorem lookup_collect (k : κ) (es : List (κ × β)) :
  (collect es).lookup k = es.reverse.lookup k
  := by
  rw [collect, lookup_foldl_insert, List.lookup_nil, Option.or_none]

end SortedMap
