import Mathlib.Data.Set.Insert
import OrchestraRag.Library.Staged

/-!
# What is known of a collection

Of a collection of documents with keys it may be known, for some keys, that there is one document
with the key, and which, or that there is none (`Known.Holds`).  What is known follows upserts and
deletions, whatever else the collection holds; the documents of a collection of which every key is
known are those of a map.
-/

/-- For each key of `keys`, the document with the key, if there is one. -/
structure Known (κ δ : Type*) where
  keys : Set κ
  document : κ → Option δ

namespace Known

variable {κ δ : Type*} [DecidableEq κ]

def nothing : Known κ δ :=
  ⟨∅, fun _ => none⟩

/-- There are no documents. -/
def empty : Known κ δ :=
  ⟨Set.univ, fun _ => none⟩

/-- Each of `ds`, in turn, replaces the documents with its key. -/
def upsertAll (key : δ → κ) (known : Known κ δ) (ds : List δ) : Known κ δ where
  keys := known.keys ∪ {k | Staged.Has key k ds}
  document k := (Staged.lastAt key k ds).or (known.document k)

def delete (known : Known κ δ) (k : κ) : Known κ δ where
  keys := insert k known.keys
  document := Function.update known.document k none

variable (key : δ → κ)

/-- The documents are as known. -/
def Holds (known : Known κ δ) (docs : List δ) : Prop :=
  ∀ k ∈ known.keys, docs.filter (fun d => key d = k) = (known.document k).toList

variable {key} {known : Known κ δ} {docs ds : List δ}

theorem holds_nothing :
  (nothing : Known κ δ).Holds key docs
  := by
  rintro k ⟨⟩

theorem holds_empty :
  (empty : Known κ δ).Holds key []
  := by
  intro k _
  rfl

/-- With a key of the upserts there is the last of them, and with another key what there was. -/
theorem filter_key_upsertAll (docs ds : List δ) (k : κ) :
  (Staged.upsertAll key docs ds).filter (fun d => key d = k)
    = match Staged.lastAt key k ds with
      | some d => [d]
      | none => docs.filter (fun d => key d = k)
  := by
  induction ds using List.reverseRecOn with
  | nil => rfl
  | append_singleton ds x ih =>
      have happly : Staged.upsert key (Staged.upsertAll key docs ds) x
          = (Staged.upsertAll key docs ds).filter (fun d => key d ≠ key x) ++ [x] := rfl
      rw [Staged.upsertAll_append_singleton, happly, List.filter_append, List.filter_filter,
        Staged.lastAt_append_singleton]
      by_cases hk : key x = k
      · have hnone : ∀ d ∈ Staged.upsertAll key docs ds,
            ¬ (decide (key d = k) && decide (key d ≠ key x)) = true := by
          intro d _
          simp [hk]
        rw [if_pos hk, List.filter_eq_nil_iff.mpr hnone, List.filter_singleton, decide_eq_true hk]
        rfl
      · rw [if_neg hk, ← ih, List.filter_singleton, decide_eq_false hk, cond_false, List.append_nil]
        apply List.filter_congr
        intro d _
        by_cases hd : key d = k
        · have hne : k ≠ key x := Ne.symm hk
          simp [hd, hne]
        · simp [hd]

theorem Holds.upsertAll (h : known.Holds key docs) (ds : List δ) :
  (known.upsertAll key ds).Holds key (Staged.upsertAll key docs ds)
  := by
  intro k hk
  have hknown : (known.upsertAll key ds).document k
      = (Staged.lastAt key k ds).or (known.document k) := rfl
  rw [filter_key_upsertAll, hknown]
  cases hlast : Staged.lastAt key k ds with
  | some d => rfl
  | none =>
      rcases hk with hk | ⟨d, hd, hkey⟩
      · apply h k hk
      · rw [Staged.lastAt, List.find?_eq_none] at hlast
        cases hlast d (List.mem_reverse.mpr hd) (decide_eq_true hkey)

theorem Holds.delete (h : known.Holds key docs) (k : κ) :
  (known.delete k).Holds key ((Change.delete k).apply key docs)
  := by
  intro k' hk'
  have hknown : (known.delete k).document = Function.update known.document k none := rfl
  rw [hknown, Change.apply, List.filter_filter]
  by_cases hkk' : k' = k
  · rw [hkk', Function.update_self, Option.toList_none, List.filter_eq_nil_iff]
    intro d _
    simp
  · rw [Function.update_of_ne hkk', ← h k' (Set.mem_of_mem_insert_of_ne hk' hkk')]
    apply List.filter_congr
    intro d _
    by_cases hd : key d = k'
    · simp [hd, hkk']
    · simp [hd]

/-- A document is there exactly if it is the one that is known. -/
theorem Holds.mem_iff (h : known.Holds key docs) {d : δ} (hd : key d ∈ known.keys) :
  d ∈ docs ↔ known.document (key d) = some d
  := by
  have hfilter : d ∈ docs ↔ d ∈ docs.filter (fun x => key x = key d) := by
    rw [List.mem_filter]
    simp
  rw [hfilter, h _ hd, Option.mem_toList]

/-- With a known key there is a document exactly if one is known. -/
theorem Holds.has_iff (h : known.Holds key docs) {k : κ} (hk : k ∈ known.keys) :
  k ∈ docs.map key ↔ (known.document k).isSome
  := by
  rw [List.mem_map, Option.isSome_iff_exists]
  constructor
  · rintro ⟨d, hd, rfl⟩
    exact ⟨d, (h.mem_iff hk).mp hd⟩
  · rintro ⟨d, hd⟩
    have hmem : d ∈ docs.filter (fun x => key x = k) := by
      rw [h k hk, hd]
      apply List.mem_cons_self
    obtain ⟨hdocs, hkey⟩ := List.mem_filter.mp hmem
    exact ⟨d, hdocs, of_decide_eq_true hkey⟩

/-- When every key is known, there is one document at most with each. -/
theorem Holds.unique (h : known.Holds key docs) (hall : known.keys = Set.univ) :
  Staged.Unique key docs
  := by
  rw [Staged.Unique, List.nodup_iff_count_le_one]
  intro k
  have hcount : (docs.map key).count k = (docs.filter (fun d => key d = k)).length := by
    rw [List.count, List.countP_map, List.countP_eq_length_filter]
    rfl
  rw [hcount, h k (hall ▸ Set.mem_univ k)]
  apply Option.length_toList_le

end Known
