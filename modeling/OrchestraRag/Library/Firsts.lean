import Mathlib.Data.List.Perm.Basic
import Mathlib.Data.List.Nodup

/-!
# First occurrences

A pass over a list that keeps an element unless one with the same key was kept before.  It keeps
the first element with every key, so two lists lead to the same elements, in any order, exactly
when they have the same first element with every key (`perm_firsts_iff`).
-/

namespace Firsts

variable {α κ : Type} [DecidableEq κ] (key : α → κ)

/-- Keep an element unless its key was seen before. -/
def push (acc : List κ × List α) (a : α) : List κ × List α :=
  if key a ∈ acc.1 then acc else (key a :: acc.1, acc.2 ++ [a])

/-- The elements that are kept. -/
def firsts (as : List α) : List α :=
  (as.foldl (push key) ([], [])).2

/-- The keys that were seen are those of the elements kept, each once. -/
structure Seen (acc : List κ × List α) : Prop where
  mem_iff : ∀ k, k ∈ acc.1 ↔ k ∈ acc.2.map key
  nodup : (acc.2.map key).Nodup

variable {key}

theorem Seen.push {acc : List κ × List α} (h : Seen key acc) (a : α) :
  Seen key (push key acc a)
  := by
  rw [Firsts.push]
  split
  case isTrue hseen => apply h
  case isFalse hnew =>
    constructor
    · intro k
      rw [List.mem_cons, h.mem_iff, List.map_append, List.mem_append, List.map_singleton,
        List.mem_singleton, or_comm]
    · rw [List.map_append, List.map_singleton]
      apply List.Nodup.append h.nodup (List.nodup_singleton _)
      rw [List.disjoint_singleton, ← h.mem_iff]
      apply hnew

/-- What is kept with a key stays first, and an element with a new key is kept. -/
theorem Seen.find?_push {acc : List κ × List α} (h : Seen key acc) (a : α) (k : κ) :
  (Firsts.push key acc a).2.find? (fun b => key b = k) = (acc.2 ++ [a]).find? (fun b => key b = k)
  := by
  rw [Firsts.push]
  split
  case isTrue hseen =>
    obtain ⟨b, hb, hkey⟩ := List.mem_map.mp ((h.mem_iff _).mp hseen)
    by_cases hk : key a = k
    · have hfound : (acc.2.find? (fun b => key b = k)).isSome := by
        rw [List.find?_isSome]
        use b, hb
        rw [hkey, hk]
        simp
      rw [List.find?_append, Option.or_of_isSome hfound]
    · rw [List.find?_append, List.find?_singleton, if_neg (by simpa using hk), Option.or_none]
  case isFalse hnew => rfl

theorem Seen.foldl {acc : List κ × List α} (h : Seen key acc) (as : List α) :
  Seen key (as.foldl (Firsts.push key) acc)
    ∧ ∀ k, (as.foldl (Firsts.push key) acc).2.find? (fun b => key b = k)
      = (acc.2 ++ as).find? (fun b => key b = k)
  := by
  induction as generalizing acc with
  | nil =>
      rw [List.append_nil]
      exact ⟨h, fun _ => rfl⟩
  | cons a as ih =>
      obtain ⟨hseen, hfind⟩ := ih (h.push a)
      use hseen
      intro k
      rw [List.foldl_cons, hfind, List.find?_append, h.find?_push, ← List.find?_append,
        List.append_assoc, List.singleton_append]

omit [DecidableEq κ] in
theorem seen_nil :
  Seen key ([], [])
  := ⟨fun _ => Iff.rfl, List.nodup_nil⟩

theorem nodup_firsts (as : List α) :
  ((firsts key as).map key).Nodup
  := (seen_nil.foldl as).1.nodup

/-- The first element with a key is kept. -/
theorem find?_firsts (as : List α) (k : κ) :
  (firsts key as).find? (fun b => key b = k) = as.find? (fun b => key b = k)
  := (seen_nil.foldl as).2 k

/-- In a list without a key twice, an element is found by its key. -/
theorem find?_eq_some_of_nodup {as : List α} (h : (as.map key).Nodup) {a : α} {k : κ} :
  as.find? (fun b => key b = k) = some a ↔ a ∈ as ∧ key a = k
  := by
  constructor
  · intro hfind
    use List.mem_of_find?_eq_some hfind
    have hkey := List.find?_some hfind
    apply of_decide_eq_true hkey
  · rintro ⟨ha, hkey⟩
    cases hfind : as.find? (fun b => key b = k) with
    | none =>
        have hnone := List.find?_eq_none.mp hfind a ha
        rw [hkey] at hnone
        simp at hnone
    | some b =>
        have hb := List.find?_some hfind
        have hsame := List.inj_on_of_nodup_map h (List.mem_of_find?_eq_some hfind) ha
          ((of_decide_eq_true hb).trans hkey.symm)
        rw [hsame]

/-- What is kept is the first element with its key. -/
theorem mem_firsts_iff {as : List α} {a : α} :
  a ∈ firsts key as ↔ as.find? (fun b => key b = key a) = some a
  := by
  rw [← find?_firsts, find?_eq_some_of_nodup (nodup_firsts as)]
  simp

/-- Every key is kept. -/
theorem mem_map_firsts_iff {as : List α} {k : κ} :
  k ∈ (firsts key as).map key ↔ k ∈ as.map key
  := by
  have hfound (as : List α) : k ∈ as.map key ↔ (as.find? (fun b => key b = k)).isSome := by
    rw [List.find?_isSome, List.mem_map]
    simp only [decide_eq_true_eq]
  rw [hfound, hfound, find?_firsts]

/-- Two lists lead to the same elements exactly when they have the same first element with every
key. -/
theorem perm_firsts_iff {as bs : List α} :
  (firsts key as).Perm (firsts key bs)
    ↔ ∀ k, as.find? (fun a => key a = k) = bs.find? (fun a => key a = k)
  := by
  constructor
  · intro h k
    rw [← find?_firsts, ← find?_firsts bs]
    apply Option.ext
    intro a
    rw [find?_eq_some_of_nodup (nodup_firsts as), find?_eq_some_of_nodup (nodup_firsts bs),
      h.mem_iff]
  · intro h
    apply (List.perm_ext_iff_of_nodup (List.Nodup.of_map key (nodup_firsts as))
      (List.Nodup.of_map key (nodup_firsts bs))).mpr
    intro a
    have hsame := h (key a)
    rw [← find?_firsts, ← find?_firsts bs] at hsame
    have hbs := @find?_eq_some_of_nodup _ _ _ _ _ (@nodup_firsts _ _ _ key bs) a (key a)
    rw [← hsame, find?_eq_some_of_nodup (nodup_firsts as)] at hbs
    simpa using hbs

end Firsts

/-! ### First values -/

/-- What is found first is the same in every order exactly when all that can be found is. -/
theorem findSome?_perm_iff {α β : Type} {f : α → Option β} {as : List α} :
  (∀ bs cs : List α, bs.Perm as → cs.Perm as → bs.findSome? f = cs.findSome? f)
    ↔ ∀ a ∈ as, ∀ a' ∈ as, ∀ b b', f a = some b → f a' = some b' → b = b'
  := by
  constructor
  · intro h a ha a' ha' b b' hb hb'
    obtain ⟨before, after, hsplit⟩ := List.append_of_mem ha
    obtain ⟨before', after', hsplit'⟩ := List.append_of_mem ha'
    have hperm : (a :: (before ++ after)).Perm as := by
      rw [hsplit]
      apply List.perm_middle.symm
    have hperm' : (a' :: (before' ++ after')).Perm as := by
      rw [hsplit']
      apply List.perm_middle.symm
    have hsame := h _ _ hperm hperm'
    rw [List.findSome?_cons_of_isSome (by simp [hb]), List.findSome?_cons_of_isSome (by simp [hb']),
      hb, hb'] at hsame
    apply Option.some.inj hsame
  · intro h bs cs hbs hcs
    cases hfound : bs.findSome? f with
    | none =>
        symm
        rw [List.findSome?_eq_none_iff] at hfound ⊢
        intro a ha
        apply hfound a ((hbs.trans hcs.symm).mem_iff.mpr ha)
    | some b =>
        obtain ⟨a, ha, hb⟩ := List.exists_of_findSome?_eq_some hfound
        cases hfound' : cs.findSome? f with
        | none =>
            have hnone := List.findSome?_eq_none_iff.mp hfound' a
              ((hbs.trans hcs.symm).mem_iff.mp ha)
            rw [hb] at hnone
            cases hnone
        | some b' =>
            obtain ⟨a', ha', hb'⟩ := List.exists_of_findSome?_eq_some hfound'
            rw [h a (hbs.mem_iff.mp ha) a' (hcs.mem_iff.mp ha') b b' hb hb']
