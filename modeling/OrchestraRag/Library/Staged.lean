import Mathlib.Data.List.Induction
import Mathlib.Data.List.Nodup

/-!
# Staged changes

A collection of documents with keys, of which a snapshot is published.  Changes are queued:
deleting a key removes every document with that key, whether published or queued before, and
adding a document does not look at the ones that are there.  Publishing applies what is queued,
whoever queued it.

Replacing documents one by one (`upsertAll`) brings those whose keys satisfy a predicate to a
given list exactly when none of them has a key that is not in the list, and no two documents of
the list have the same key (`upsertAll_eq_iff`).  The documents then are the ones before
overridden by the last of the list with each key (`lastAt_upsertAll`), and replacing them again
changes nothing (`upsertAll_idempotent`).
-/

/-- A change to a collection of documents `δ` with keys in `κ`. -/
inductive Change (κ δ : Type*) where
  | delete (k : κ)
  | add (d : δ)
  | deleteAll

/-- The last snapshot that was published, and the changes queued since. -/
structure Staged (κ δ : Type*) where
  published : List δ
  queued : List (Change κ δ)

variable {κ δ : Type*}

/-- The documents after a change. -/
def Change.apply [DecidableEq κ] (key : δ → κ) (docs : List δ) : Change κ δ → List δ
  | .delete k => docs.filter (fun d => key d ≠ k)
  | .add d => docs ++ [d]
  | .deleteAll => []

namespace Staged

/-- Queue a change. -/
def queue (s : Staged κ δ) (change : Change κ δ) : Staged κ δ :=
  { s with queued := s.queued ++ [change] }

/-- Forget what is queued. -/
def rollback (s : Staged κ δ) : Staged κ δ :=
  ⟨s.published, []⟩

variable [DecidableEq κ] (key : δ → κ)

/-- The documents that publishing would publish. -/
def current (s : Staged κ δ) : List δ :=
  s.queued.foldl (Change.apply key) s.published

/-- Publish the current documents. -/
def publish (s : Staged κ δ) : Staged κ δ :=
  ⟨s.current key, []⟩

/-- The snapshot has a document with the key. -/
def Has (k : κ) (docs : List δ) : Prop :=
  ∃ d ∈ docs, key d = k

/-- The snapshot has at most one document for each key. -/
def Unique (docs : List δ) : Prop :=
  (docs.map key).Nodup

instance (docs : List δ) : Decidable (Unique key docs) :=
  inferInstanceAs (Decidable (List.Nodup _))

variable {key} {s : Staged κ δ} {k k' : κ} {d : δ} {docs : List δ}

@[simp]
theorem current_queue (change : Change κ δ) :
  (s.queue change).current key = change.apply key (s.current key)
  := by
  rw [current, queue, List.foldl_append]
  rfl

@[simp]
theorem current_publish :
  (s.publish key).current key = s.current key
  := rfl

theorem has_delete :
  Has key k' ((Change.delete k).apply key docs) ↔ Has key k' docs ∧ k' ≠ k
  := by
  constructor
  · rintro ⟨d, hd, rfl⟩
    obtain ⟨hmem, hkey⟩ := List.mem_filter.mp hd
    exact ⟨⟨d, hmem, rfl⟩, of_decide_eq_true hkey⟩
  · rintro ⟨⟨d, hd, rfl⟩, hne⟩
    exact ⟨d, List.mem_filter.mpr ⟨hd, decide_eq_true hne⟩, rfl⟩

theorem has_add :
  Has key k ((Change.add d : Change κ δ).apply key docs) ↔ Has key k docs ∨ key d = k
  := by
  constructor
  · rintro ⟨d', hd', rfl⟩
    rcases List.mem_append.mp hd' with hd' | hd'
    · exact Or.inl ⟨d', hd', rfl⟩
    · obtain rfl := List.mem_singleton.mp hd'
      exact Or.inr rfl
  · rintro (⟨d', hd', rfl⟩ | rfl)
    · exact ⟨d', List.mem_append_left _ hd', rfl⟩
    · exact ⟨d, List.mem_append_right _ List.mem_cons_self, rfl⟩

theorem unique_delete (h : Unique key docs) (k : κ) :
  Unique key ((Change.delete k).apply key docs)
  := h.sublist (List.filter_sublist.map key)

/-- Adding a document keeps the keys unique when its key is not there. -/
theorem unique_add (h : Unique key docs) (hd : ¬ Has key (key d) docs) :
  Unique key ((Change.add d : Change κ δ).apply key docs)
  := by
  rw [Unique, Change.apply, List.map_append, List.map_singleton, ← List.concat_eq_append]
  apply List.Nodup.concat _ h
  intro hmem
  obtain ⟨d', hd', hkey⟩ := List.mem_map.mp hmem
  apply hd ⟨d', hd', hkey⟩

/-! ### Upserts -/

section Upserts

variable {κ δ : Type*} [DecidableEq κ] (key : δ → κ)

/-- The documents after one has replaced those with its key. -/
def upsert (docs : List δ) (d : δ) : List δ :=
  (Change.add d : Change κ δ).apply key ((Change.delete (key d)).apply key docs)

/-- The documents after each of `ds`, in turn, has replaced those with its key. -/
def upsertAll (docs ds : List δ) : List δ :=
  ds.foldl (upsert key) docs

variable {key} {docs ds : List δ} {d d' : δ}

theorem mem_upsert :
  d' ∈ upsert key docs d ↔ (d' ∈ docs ∧ key d' ≠ key d) ∨ d' = d
  := by
  rw [upsert, Change.apply, Change.apply, List.mem_append, List.mem_filter, List.mem_singleton,
    decide_eq_true_iff]

@[simp]
theorem upsertAll_append_singleton :
  upsertAll key docs (ds ++ [d]) = upsert key (upsertAll key docs ds) d
  := List.foldl_concat _ _ _ _

/-- A document is there that was there and whose key is not among those of `ds`, and otherwise
one of `ds`. -/
theorem of_mem_upsertAll (h : d ∈ upsertAll key docs ds) :
  (d ∈ docs ∧ ¬ Has key (key d) ds) ∨ d ∈ ds
  := by
  induction ds using List.reverseRecOn with
  | nil =>
      apply Or.inl
      use h
      rintro ⟨x, ⟨⟩, -⟩
  | append_singleton ds x ih =>
      rw [upsertAll_append_singleton, mem_upsert] at h
      rcases h with ⟨hmem, hne⟩ | rfl
      · rcases ih hmem with ⟨hdocs, habsent⟩ | hds
        · apply Or.inl
          use hdocs
          rintro ⟨y, hy, hkey⟩
          rcases List.mem_append.mp hy with hy | hy
          · apply habsent ⟨y, hy, hkey⟩
          · obtain rfl := List.mem_singleton.mp hy
            apply hne hkey.symm
        · apply Or.inr (List.mem_append_left _ hds)
      · apply Or.inr (List.mem_append_right _ List.mem_cons_self)

/-- A document stays whose key is not among those of `ds`. -/
theorem mem_upsertAll (h : d ∈ docs) (habsent : ¬ Has key (key d) ds) :
  d ∈ upsertAll key docs ds
  := by
  induction ds generalizing docs with
  | nil => apply h
  | cons x ds ih =>
      apply ih
      · apply mem_upsert.mpr
        apply Or.inl
        use h
        intro hkey
        apply habsent ⟨x, List.mem_cons_self, hkey.symm⟩
      · rintro ⟨y, hy, hkey⟩
        apply habsent ⟨y, List.mem_cons_of_mem x hy, hkey⟩

/-- There is a document of `ds` for each of their keys, and no other document. -/
theorem upsertAll_at_key (docs : List δ) {k : κ} (h : Has key k ds) :
  ∃ d ∈ ds, key d = k ∧ ∀ d', (d' ∈ upsertAll key docs ds ∧ key d' = k) ↔ d' = d
  := by
  induction ds using List.reverseRecOn with
  | nil =>
      obtain ⟨x, ⟨⟩, -⟩ := h
  | append_singleton ds x ih =>
      by_cases hk : key x = k
      · use x, List.mem_append_right _ List.mem_cons_self, hk
        intro d'
        rw [upsertAll_append_singleton, mem_upsert]
        constructor
        · rintro ⟨⟨-, hne⟩ | rfl, hkey⟩
          · apply absurd (hkey.trans hk.symm) hne
          · rfl
        · rintro rfl
          exact ⟨Or.inr rfl, hk⟩
      · have hds : Has key k ds := by
          obtain ⟨y, hy, hkey⟩ := h
          rcases List.mem_append.mp hy with hy | hy
          · exact ⟨y, hy, hkey⟩
          · obtain rfl := List.mem_singleton.mp hy
            apply absurd hkey hk
        obtain ⟨d, hd, hkey, honly⟩ := ih hds
        use d, List.mem_append_left _ hd, hkey
        intro d'
        rw [upsertAll_append_singleton, mem_upsert, ← honly d']
        constructor
        · rintro ⟨⟨hmem, -⟩ | rfl, hkey'⟩
          · exact ⟨hmem, hkey'⟩
          · apply absurd hkey' hk
        · rintro ⟨hmem, hkey'⟩
          refine ⟨Or.inl ⟨hmem, ?_⟩, hkey'⟩
          rw [hkey']
          apply Ne.symm hk

/-- Documents whose keys satisfy a predicate that those of `ds` do not are left alone. -/
theorem filter_upsertAll (p : κ → Prop) [DecidablePred p] (h : ∀ d ∈ ds, ¬ p (key d)) :
  (upsertAll key docs ds).filter (fun d => p (key d)) = docs.filter (fun d => p (key d))
  := by
  induction ds using List.reverseRecOn with
  | nil => rfl
  | append_singleton ds x ih =>
      have hx : ¬ p (key x) := h x (List.mem_append_right _ List.mem_cons_self)
      rw [upsertAll_append_singleton, ← ih (fun d hd => h d (List.mem_append_left _ hd)), upsert,
        Change.apply, Change.apply, List.filter_append, List.filter_filter,
        List.filter_singleton, decide_eq_false hx, cond_false, List.append_nil]
      apply List.filter_congr
      intro d _
      by_cases hd : p (key d)
      · have hne : key d ≠ key x := by
          intro hkey
          apply hx
          rw [← hkey]
          apply hd
        simp [hd, hne]
      · simp [hd]

/-- The documents whose keys satisfy `p` become `ds`, exactly when none of them has a key that is
not among those of `ds`, and `ds` has one document for each of its keys. -/
theorem upsertAll_eq_iff (docs : List δ) (p : κ → Prop) (h : ∀ d ∈ ds, p (key d)) :
  (∀ d, d ∈ upsertAll key docs ds ∧ p (key d) ↔ d ∈ ds) ↔
    (∀ d ∈ docs, p (key d) → Has key (key d) ds)
      ∧ ∀ d ∈ ds, ∀ d' ∈ ds, key d = key d' → d = d'
  := by
  constructor
  · intro heq
    constructor
    · intro d hd hp
      by_contra habsent
      apply habsent ⟨d, (heq d).mp ⟨mem_upsertAll hd habsent, hp⟩, rfl⟩
    · intro d hd d' hd' hkey
      have hhas : Has key (key d) ds := ⟨d, hd, rfl⟩
      obtain ⟨x, -, -, honly⟩ := upsertAll_at_key docs hhas
      have hx := (honly d).mp ⟨((heq d).mpr hd).1, rfl⟩
      have hx' := (honly d').mp ⟨((heq d').mpr hd').1, hkey.symm⟩
      rw [hx, hx']
  · rintro ⟨hcovered, hsame⟩ d
    constructor
    · rintro ⟨hmem, hp⟩
      rcases of_mem_upsertAll hmem with ⟨hdocs, habsent⟩ | hds
      · apply absurd (hcovered d hdocs hp) habsent
      · apply hds
    · intro hd
      have hhas : Has key (key d) ds := ⟨d, hd, rfl⟩
      obtain ⟨x, hx, hkey, honly⟩ := upsertAll_at_key docs hhas
      obtain rfl := hsame d hd x hx hkey.symm
      exact ⟨((honly d).mpr rfl).1, h d hd⟩

/-! ### The last document with a key -/

/-- The last document with a key. -/
def lastAt (key : δ → κ) (k : κ) (docs : List δ) : Option δ :=
  docs.reverse.find? (fun d => key d = k)

theorem lastAt_append_singleton (k : κ) :
  lastAt key k (docs ++ [d]) = if key d = k then some d else lastAt key k docs
  := by
  rw [lastAt, List.reverse_append, List.reverse_singleton, List.singleton_append, List.find?_cons]
  by_cases hk : key d = k
  · rw [decide_eq_true hk, if_pos hk]
  · rw [decide_eq_false hk, if_neg hk]
    rfl

theorem lastAt_upsert (docs : List δ) (d : δ) (k : κ) :
  lastAt key k (upsert key docs d) = if key d = k then some d else lastAt key k docs
  := by
  have happly : upsert key docs d = docs.filter (fun x => key x ≠ key d) ++ [d] := rfl
  rw [happly, lastAt_append_singleton]
  by_cases hk : key d = k
  · rw [if_pos hk, if_pos hk]
  · rw [if_neg hk, if_neg hk, lastAt, ← List.filter_reverse, List.find?_filter, lastAt]
    congr 1
    funext x
    by_cases hx : key x = k
    · simp [hx, Ne.symm hk]
    · simp [hx]

/-- Upserts override: the last document with a key is that of the upserts, if there is one. -/
theorem lastAt_upsertAll (docs ds : List δ) (k : κ) :
  lastAt key k (upsertAll key docs ds) = (lastAt key k ds).or (lastAt key k docs)
  := by
  induction ds using List.reverseRecOn with
  | nil => rfl
  | append_singleton ds x ih =>
      rw [upsertAll_append_singleton, lastAt_upsert, lastAt_append_singleton, ih]
      by_cases hk : key x = k
      · rw [if_pos hk, if_pos hk, Option.some_or]
      · rw [if_neg hk, if_neg hk]

theorem unique_upsertAll (h : Unique key docs) (ds : List δ) :
  Unique key (upsertAll key docs ds)
  := by
  induction ds using List.reverseRecOn with
  | nil => apply h
  | append_singleton ds x ih =>
      rw [upsertAll_append_singleton]
      apply unique_add (unique_delete ih (key x))
      intro hhas
      apply (has_delete.mp hhas).2 rfl

/-- What was there and stays comes first; what follows depends on the upserts only. -/
theorem upsertAll_eq_append (docs ds : List δ) :
  upsertAll key docs ds
    = docs.filter (fun d => key d ∉ ds.map key) ++ upsertAll key [] ds
  := by
  induction ds using List.reverseRecOn with
  | nil => simp [upsertAll]
  | append_singleton ds x ih =>
      rw [upsertAll_append_singleton, upsertAll_append_singleton, ih, upsert, upsert, Change.apply,
        Change.apply, Change.apply, Change.apply, List.filter_append, List.filter_filter,
        List.append_assoc]
      congr 1
      apply List.filter_congr
      intro d _
      by_cases hx : key d = key x
      · simp [hx]
      · simp [hx]

/-- Upserting the same documents again changes nothing. -/
theorem upsertAll_idempotent (docs ds : List δ) :
  upsertAll key (upsertAll key docs ds) ds = upsertAll key docs ds
  := by
  have hreplaced : (upsertAll key [] ds).filter (fun d => key d ∉ ds.map key) = [] := by
    rw [List.filter_eq_nil_iff]
    intro d hd hkey
    rcases of_mem_upsertAll hd with ⟨⟨⟩, -⟩ | hmem
    apply of_decide_eq_true hkey (List.mem_map_of_mem hmem)
  rw [upsertAll_eq_append docs ds, upsertAll_eq_append (_ ++ _) ds, List.filter_append,
    List.filter_filter, hreplaced, List.append_nil]
  simp only [Bool.and_self]

end Upserts

end Staged
