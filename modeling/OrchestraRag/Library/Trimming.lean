import Mathlib.Data.List.DropRight
import OrchestraRag.Library.Utf8

/-!
# Trimmed texts

Trimming a pattern removes the copies of it that a text begins with.  When patterns are trimmed one
after the other, what is removed is made of them, and a text is used up exactly when it is `Spent`:
copies of the first pattern, as many as can be, then copies of the second one, and so on.
-/

namespace Utf8

/-! ### Patterns -/

/-- A pattern a number of times. -/
def copies (n : ℕ) (pattern : List Char) : List Char :=
  (List.replicate n pattern).flatten

@[simp]
theorem copies_zero (pattern : List Char) :
  copies 0 pattern = []
  := rfl

@[simp]
theorem copies_succ (n : ℕ) (pattern : List Char) :
  copies (n + 1) pattern = pattern ++ copies n pattern
  := rfl

/-- The last copy may be split off as well as the first one. -/
theorem copies_succ' (n : ℕ) (pattern : List Char) :
  copies (n + 1) pattern = copies n pattern ++ pattern
  := by
  rw [copies, List.replicate_succ', List.flatten_concat, ← copies]

theorem mem_of_mem_copies {n : ℕ} {pattern : List Char} {c : Char} (h : c ∈ copies n pattern) :
  c ∈ pattern
  := by
  obtain ⟨copy, hcopy, hc⟩ := List.mem_flatten.mp h
  rw [List.eq_of_mem_replicate hcopy] at hc
  apply hc

section Pattern

variable {pattern : List Char}

theorem trimStartText_of_not_begins {cs : List Char} (h : ¬ pattern <+: cs) :
  trimStartText pattern cs = cs
  := by
  rw [trimStartText, if_neg (mt And.right h)]

theorem trimStartText_append (hpattern : pattern ≠ []) (cs : List Char) :
  trimStartText pattern (pattern ++ cs) = trimStartText pattern cs
  := by
  rw [trimStartText, if_pos ⟨hpattern, List.prefix_append pattern cs⟩, List.drop_left]

theorem trimStartText_copies (hpattern : pattern ≠ []) (n : ℕ) (cs : List Char) :
  trimStartText pattern (copies n pattern ++ cs) = trimStartText pattern cs
  := by
  induction n with
  | zero => rfl
  | succ n ih => rw [copies_succ, List.append_assoc, trimStartText_append hpattern, ih]

/-- A text begins with copies of a pattern, and what follows them does not begin with another. -/
theorem exists_trimStartText (hpattern : pattern ≠ []) (cs : List Char) :
  ¬ pattern <+: trimStartText pattern cs
    ∧ ∃ n, cs = copies n pattern ++ trimStartText pattern cs
  := by
  induction cs using trimStartText.induct pattern with
  | case1 cs h ih =>
      obtain ⟨cs, rfl⟩ := h.2
      rw [List.drop_left] at ih
      obtain ⟨hrest, n, hcs⟩ := ih
      rw [trimStartText_append hpattern]
      use hrest, n + 1
      rw [copies_succ, List.append_assoc, ← hcs]
  | case2 cs h =>
      have hinit : ¬ pattern <+: cs := fun hinit => h ⟨hpattern, hinit⟩
      rw [trimStartText_of_not_begins hinit]
      exact ⟨hinit, 0, rfl⟩

end Pattern

/-! ### Patterns one after the other -/

/-- The text without the copies of each pattern that it starts with in its turn. -/
def trimStartTexts (patterns : List (List Char)) (cs : List Char) : List Char :=
  patterns.foldl (fun rest pattern => trimStartText pattern rest) cs

/-- A text is made of copies of the patterns, of each as many as there are. -/
def Spent : List (List Char) → List Char → Prop
  | [], cs => cs = []
  | pattern :: patterns, cs =>
      ∃ n rest, cs = copies n pattern ++ rest ∧ ¬ pattern <+: rest ∧ Spent patterns rest

/-- What is trimmed is made of the patterns. -/
theorem exists_trimStartTexts {patterns : List (List Char)} (h : [] ∉ patterns)
    (cs : List Char) :
  ∃ pre, cs = pre ++ trimStartTexts patterns cs ∧ ∀ c ∈ pre, ∃ pattern ∈ patterns, c ∈ pattern
  := by
  induction patterns generalizing cs with
  | nil =>
      use [], rfl
      rintro c ⟨⟩
  | cons pattern patterns ih =>
      rw [List.mem_cons, not_or] at h
      obtain ⟨-, n, hcs⟩ := exists_trimStartText (Ne.symm h.1) cs
      obtain ⟨pre, hrest, hpre⟩ := ih h.2 (trimStartText pattern cs)
      use copies n pattern ++ pre
      constructor
      · rw [List.append_assoc, trimStartTexts, List.foldl_cons, ← trimStartTexts, ← hrest, ← hcs]
      · intro c hc
        rcases List.mem_append.mp hc with hc | hc
        · exact ⟨pattern, List.mem_cons_self, mem_of_mem_copies hc⟩
        · obtain ⟨pattern', hpattern', hc⟩ := hpre c hc
          exact ⟨pattern', List.mem_cons_of_mem _ hpattern', hc⟩

/-- Nothing is left of a text exactly when it is spent. -/
theorem trimStartTexts_eq_nil_iff {patterns : List (List Char)} (h : [] ∉ patterns)
    {cs : List Char} :
  trimStartTexts patterns cs = [] ↔ Spent patterns cs
  := by
  induction patterns generalizing cs with
  | nil => rfl
  | cons pattern patterns ih =>
      rw [List.mem_cons, not_or] at h
      rw [trimStartTexts, List.foldl_cons, ← trimStartTexts, ih h.2, Spent]
      constructor
      · intro hspent
        obtain ⟨hrest, n, hcs⟩ := exists_trimStartText (Ne.symm h.1) cs
        exact ⟨n, trimStartText pattern cs, hcs, hrest, hspent⟩
      · rintro ⟨n, rest, rfl, hrest, hspent⟩
        rw [trimStartText_copies (Ne.symm h.1), trimStartText_of_not_begins hrest]
        apply hspent

/-- A text that is spent begins with one of the patterns, unless it is empty. -/
theorem Spent.exists_begins {patterns : List (List Char)} {cs : List Char}
    (h : Spent patterns cs) (hcs : cs ≠ []) :
  ∃ pattern ∈ patterns, pattern <+: cs
  := by
  induction patterns with
  | nil => exact absurd h hcs
  | cons pattern patterns ih =>
      obtain ⟨n, rest, rfl, -, hspent⟩ := h
      cases n with
      | zero =>
          obtain ⟨pattern', hpattern', hinit⟩ := ih hspent
          exact ⟨pattern', List.mem_cons_of_mem _ hpattern', hinit⟩
      | succ n =>
          use pattern, List.mem_cons_self
          rw [copies_succ, List.append_assoc]
          apply List.prefix_append

/-! ### White space -/

/-- Trimming removes white space from the ends. -/
theorem exists_trim (cs : List Char) :
  ∃ pre post, cs = pre ++ (trim cs ++ post) ∧ (∀ c ∈ pre, isWhitespace c)
    ∧ ∀ c ∈ post, isWhitespace c
  := by
  refine ⟨cs.takeWhile isWhitespace, (cs.dropWhile isWhitespace).rtakeWhile isWhitespace, ?_, ?_, ?_⟩
  · have hend := @List.rdropWhile_append_rtakeWhile _ isWhitespace (cs.dropWhile isWhitespace)
    rw [List.rdropWhile] at hend
    rw [trim, trimEndMatches, hend, List.takeWhile_append_dropWhile]
  · intro c hc
    apply List.mem_takeWhile_imp hc
  · intro c hc
    apply List.mem_rtakeWhile_imp hc

/-- A trimmed text does not end in white space. -/
theorem eq_nil_of_suffix_trim {cs rest : List Char} (h : rest <:+ trim cs)
    (hwhite : ∀ c ∈ rest, isWhitespace c) :
  rest = []
  := by
  by_contra hne
  obtain ⟨pre, hpre⟩ := h
  have htrim : (cs.dropWhile isWhitespace).rdropWhile isWhitespace = pre ++ rest := hpre.symm
  have hfilled : (cs.dropWhile isWhitespace).rdropWhile isWhitespace ≠ [] := by
    rw [htrim]
    apply List.append_ne_nil_of_right_ne_nil _ hne
  apply List.rdropWhile_last_not isWhitespace (cs.dropWhile isWhitespace) hfilled
  apply hwhite
  simp only [htrim, List.getLast_append_of_ne_nil _ hne]
  apply List.getLast_mem

/-- What is left of a trimmed text is white space only if nothing is left. -/
theorem trim_eq_nil_iff_of_suffix {cs rest : List Char} (h : rest <:+ trim cs) :
  trim rest = [] ↔ rest = []
  := by
  constructor
  · intro hempty
    apply eq_nil_of_suffix_trim h
    obtain ⟨pre, post, hrest, hpre, hpost⟩ := exists_trim rest
    rw [hrest, hempty, List.nil_append]
    intro c hc
    rcases List.mem_append.mp hc with hc | hc
    · apply hpre c hc
    · apply hpost c hc
  · rintro rfl
    rfl

end Utf8
