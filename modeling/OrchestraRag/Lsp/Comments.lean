import OrchestraRag.Lsp.Hover

/-!
# The comment above a symbol

The search for documentation goes up from the line above a symbol through at most five lines.  It
finds the nearest comment that says something, with nothing but blank lines and empty comments
between it and the symbol (`comment_search_window`); lines that the text does not have are passed
over.
-/

namespace OrchestraRag

/-! ### Single lines -/

/-- A line is blank, or a comment that strips to nothing. -/
def SaysNothing (line : List Char) : Prop :=
  Utf8.trim line = []
    ∨ (isCommentLine (Utf8.trim line) ∧ stripCommentMarkers (Utf8.trim line) = [])

/-- A line is a comment, and strips to a text that is not empty. -/
structure CommentText (line text : List Char) : Prop where
  comment : isCommentLine (Utf8.trim line)
  stripped : stripCommentMarkers (Utf8.trim line) = text
  nonempty : text ≠ []

theorem CommentText.not_saysNothing {line text : List Char} (h : CommentText line text) :
  ¬ SaysNothing line
  := by
  rintro (hblank | ⟨-, hempty⟩)
  · have hcomment := h.comment
    rw [hblank] at hcomment
    revert hcomment
    decide
  · apply h.nonempty
    rw [← h.stripped, hempty]

namespace CommentLine

/-- A line that the text does not have is passed over. -/
theorem of_none :
  of none = .next
  := rfl

/-- What a line is taken for: a comment with a text, nothing, or the end of the search. -/
theorem of_some (line : List Char) :
  (∃ text, of (some line) = .comment text ∧ CommentText line text)
    ∨ (of (some line) = .next ∧ SaysNothing line)
    ∨ (of (some line) = .stop ∧ ¬ isCommentLine (Utf8.trim line) ∧ Utf8.trim line ≠ [])
  := by
  simp only [of, Option.getD_some]
  by_cases hcomment : isCommentLine (Utf8.trim line)
  · by_cases hstripped : stripCommentMarkers (Utf8.trim line) = []
    · apply Or.inr
      apply Or.inl
      rw [if_pos hcomment, if_neg (not_not.mpr hstripped)]
      exact ⟨rfl, Or.inr ⟨hcomment, hstripped⟩⟩
    · apply Or.inl
      use stripCommentMarkers (Utf8.trim line)
      rw [if_pos hcomment, if_pos hstripped]
      exact ⟨rfl, hcomment, rfl, hstripped⟩
  · apply Or.inr
    rw [if_neg hcomment]
    by_cases hblank : Utf8.trim line = []
    · apply Or.inl
      rw [if_neg (not_not.mpr hblank)]
      exact ⟨rfl, Or.inl hblank⟩
    · apply Or.inr
      rw [if_pos hblank]
      exact ⟨rfl, hcomment, hblank⟩

variable {line : Option (List Char)}

theorem of_eq_comment_iff {text : List Char} :
  of line = .comment text ↔ ∃ l, line = some l ∧ CommentText l text
  := by
  cases line with
  | none => simp [of_none]
  | some l =>
      simp only [Option.some.injEq, exists_eq_left']
      obtain ⟨found, hof, hfound⟩ | ⟨hof, hnothing⟩ | ⟨hof, hcomment, -⟩ := of_some l
      · rw [hof, comment.injEq]
        constructor
        · rintro rfl
          apply hfound
        · intro htext
          apply hfound.stripped.symm.trans htext.stripped
      · rw [hof]
        apply iff_of_false
        · rintro ⟨⟩
        · intro htext
          apply htext.not_saysNothing hnothing
      · rw [hof]
        apply iff_of_false
        · rintro ⟨⟩
        · intro htext
          apply hcomment htext.comment

theorem of_eq_next_iff :
  of line = .next ↔ ∀ l, line = some l → SaysNothing l
  := by
  cases line with
  | none => simp [of_none]
  | some l =>
      simp only [Option.some.injEq, forall_eq']
      obtain ⟨found, hof, hfound⟩ | ⟨hof, hnothing⟩ | ⟨hof, hcomment, hfilled⟩ := of_some l
      · rw [hof]
        apply iff_of_false
        · rintro ⟨⟩
        · apply hfound.not_saysNothing
      · apply iff_of_true hof hnothing
      · rw [hof]
        apply iff_of_false
        · rintro ⟨⟩
        · rintro (hblank | ⟨hcomment', -⟩)
          · apply hfilled hblank
          · apply hcomment hcomment'

end CommentLine

/-! ### The loop -/

/-- One pass through the search loop: the answer, or the line to go on with. -/
def searchPass (lines : List (List Char)) (searchTo idx : ℕ) : Option String ⊕ ℕ :=
  match CommentLine.of lines[idx]? with
  | .comment text => .inl (some (String.ofList text))
  | .stop => .inl none
  | .next => if idx = searchTo ∨ idx = 0 then .inl none else .inr (idx - 1)

/-- The search loop; `none` when it is not left after a number of passes. -/
def searchPasses (lines : List (List Char)) (searchTo : ℕ) : ℕ → ℕ → Option (Option String)
  | 0, _ => none
  | passes + 1, idx =>
      match searchPass lines searchTo idx with
      | .inl answer => some answer
      | .inr idx => searchPasses lines searchTo passes idx

/-- `extractPrecedingComment` with its loop cut off after a number of passes. -/
def extractInPasses (passes : ℕ) (content : String) (startLine : ℕ) : Option (Option String) :=
  let lines := Utf8.lines content.toList
  if startLine = 0 ∨ lines.isEmpty then some none
  else
    let searchFrom := startLine - 1
    searchPasses lines (searchFrom - 4) passes searchFrom

section Searching

variable {lines : List (List Char)} {searchTo idx : ℕ}

/-- A pass goes on to the line above when a line says nothing and is not the last one. -/
theorem searchPass_eq_inr_iff {idx' : ℕ} :
  searchPass lines searchTo idx = .inr idx' ↔
    CommentLine.of lines[idx]? = .next ∧ ¬ (idx = searchTo ∨ idx = 0) ∧ idx' = idx - 1
  := by
  rw [searchPass]
  cases CommentLine.of lines[idx]? with
  | comment text => simp
  | stop => simp
  | next =>
      by_cases hlast : idx = searchTo ∨ idx = 0
      · simp [hlast]
      · rw [if_neg hlast, Sum.inr.injEq, and_iff_right rfl, and_iff_right hlast, eq_comm]

/-- The search makes one pass, and goes on from where that leads. -/
theorem searchComment_eq (lines : List (List Char)) (searchTo idx : ℕ) :
  searchComment lines searchTo idx
    = match searchPass lines searchTo idx with
      | .inl answer => answer
      | .inr idx => searchComment lines searchTo idx
  := by
  rw [searchComment.eq_def, searchPass]
  cases CommentLine.of lines[idx]? with
  | comment text => rfl
  | stop => rfl
  | next =>
      cases idx with
      | zero => simp
      | succ idx =>
          by_cases hlast : idx + 1 = searchTo
          · simp [hlast]
          · simp [hlast]

/-- The loop is left at the line `searchTo` at the latest. -/
theorem searchPasses_eq {passes : ℕ} (hle : searchTo ≤ idx) (hlt : idx < searchTo + passes) :
  searchPasses lines searchTo passes idx = some (searchComment lines searchTo idx)
  := by
  induction passes generalizing idx with
  | zero => omega
  | succ passes ih =>
      rw [searchPasses, searchComment_eq]
      cases hpass : searchPass lines searchTo idx with
      | inl answer => rfl
      | inr idx' =>
          obtain ⟨-, hgo, rfl⟩ := searchPass_eq_inr_iff.mp hpass
          apply ih
          · omega
          · omega

/-- The search finds the first comment on its way up, when nothing stops it before. -/
theorem searchComment_eq_some_iff {text : String} (hle : searchTo ≤ idx) :
  searchComment lines searchTo idx = some text ↔
    ∃ k, searchTo ≤ k ∧ k ≤ idx ∧ CommentLine.of lines[k]? = .comment text.toList
      ∧ ∀ j, k < j → j ≤ idx → CommentLine.of lines[j]? = .next
  := by
  induction idx using Nat.strong_induction_on with
  | h idx ih =>
      rw [searchComment_eq, searchPass]
      cases hline : CommentLine.of lines[idx]? with
      | comment found =>
          simp only [Option.some.injEq]
          constructor
          · rintro rfl
            rw [String.toList_ofList]
            refine ⟨idx, hle, le_rfl, hline, ?_⟩
            intro j hlt hge
            omega
          · rintro ⟨k, -, hk, hcomment, hbetween⟩
            rcases hk.lt_or_eq with hlt | rfl
            · cases hline.symm.trans (hbetween idx hlt le_rfl)
            · cases hline.symm.trans hcomment
              apply String.ofList_toList
      | stop =>
          constructor
          · rintro ⟨⟩
          · rintro ⟨k, -, hk, hcomment, hbetween⟩
            rcases hk.lt_or_eq with hlt | rfl
            · cases hline.symm.trans (hbetween idx hlt le_rfl)
            · cases hline.symm.trans hcomment
      | next =>
          by_cases hlast : idx = searchTo ∨ idx = 0
          · simp only [hlast, if_true]
            constructor
            · rintro ⟨⟩
            · rintro ⟨k, hfrom, hk, hcomment, -⟩
              have hsame : k = idx := by omega
              rw [hsame] at hcomment
              cases hline.symm.trans hcomment
          · simp only [hlast, if_false]
            rw [ih (idx - 1) (by omega) (by omega)]
            constructor
            · rintro ⟨k, hfrom, hk, hcomment, hbetween⟩
              refine ⟨k, hfrom, by omega, hcomment, ?_⟩
              intro j hlt hge
              by_cases hj : j = idx
              · rw [hj, hline]
              · apply hbetween j hlt (by omega)
            · rintro ⟨k, hfrom, hk, hcomment, hbetween⟩
              have hne : k ≠ idx := by
                rintro rfl
                cases hline.symm.trans hcomment
              refine ⟨k, hfrom, by omega, hcomment, ?_⟩
              intro j hlt hge
              apply hbetween j hlt (by omega)

end Searching

/-! ### The window -/

/-- Line `k` is a comment with a text, one of the five lines above a symbol, and the lines between
them say nothing. -/
structure CommentAbove (lines : List (List Char)) (startLine k : ℕ) (text : List Char) :
    Prop where
  within : startLine ≤ k + 5
  above : k < startLine
  comment : ∃ line, lines[k]? = some line ∧ CommentText line text
  between : ∀ j line, k < j → j < startLine → lines[j]? = some line → SaysNothing line

/-- No comment with a text is nearer. -/
theorem CommentAbove.nearest {lines : List (List Char)} {startLine k j : ℕ}
    {text line other : List Char} (h : CommentAbove lines startLine k text) (hj : j < startLine)
    (hline : lines[j]? = some line) (htext : CommentText line other) :
  j ≤ k
  := by
  by_contra hlt
  apply htext.not_saysNothing
  apply h.between j line (not_le.mp hlt) hj hline

/-- What is extracted is the text of a comment above. -/
theorem extractPrecedingComment_eq_some_iff {content text : String} {startLine : ℕ} :
  extractPrecedingComment content startLine = some text ↔
    ∃ k, CommentAbove (Utf8.lines content.toList) startLine k text.toList
  := by
  rw [extractPrecedingComment]
  generalize Utf8.lines content.toList = lines
  by_cases hnone : startLine = 0 ∨ lines.isEmpty
  · simp only [hnone, if_true]
    constructor
    · rintro ⟨⟩
    · rintro ⟨k, h⟩
      obtain ⟨line, hline, -⟩ := h.comment
      rcases hnone with rfl | hempty
      · exact absurd h.above (Nat.not_lt_zero k)
      · rw [List.isEmpty_iff.mp hempty] at hline
        cases hline
  · simp only [hnone, if_false]
    rw [searchComment_eq_some_iff (Nat.sub_le _ _)]
    apply exists_congr
    intro k
    rw [CommentLine.of_eq_comment_iff]
    constructor
    · rintro ⟨hfrom, hk, htext, hbetween⟩
      refine ⟨by omega, by omega, htext, ?_⟩
      intro j line hlt hj hline
      apply CommentLine.of_eq_next_iff.mp (hbetween j hlt (by omega)) line hline
    · rintro ⟨hwithin, habove, htext, hbetween⟩
      refine ⟨by omega, by omega, htext, ?_⟩
      intro j hlt hj
      apply CommentLine.of_eq_next_iff.mpr
      intro line hline
      apply hbetween j line hlt (by omega) hline

/-- The search ends after at most five passes, wherever it starts.  It finds a text exactly when
one of the five lines above is a comment with that text and the lines between say nothing, and
then no comment with a text is nearer. -/
theorem comment_search_window (content : String) (startLine : ℕ) :
  extractInPasses 5 content startLine = some (extractPrecedingComment content startLine)
    ∧ (∀ text : String, extractPrecedingComment content startLine = some text ↔
      ∃ k, CommentAbove (Utf8.lines content.toList) startLine k text.toList)
    ∧ ∀ k text, CommentAbove (Utf8.lines content.toList) startLine k text →
      ∀ j line other, j < startLine → (Utf8.lines content.toList)[j]? = some line →
        CommentText line other → j ≤ k
  := by
  refine ⟨?_, ?_, ?_⟩
  · rw [extractInPasses, extractPrecedingComment]
    by_cases hnone : startLine = 0 ∨ (Utf8.lines content.toList).isEmpty
    · simp only [hnone, if_true]
    · simp only [hnone, if_false]
      apply searchPasses_eq
      · omega
      · omega
  · intro text
    apply extractPrecedingComment_eq_some_iff
  · intro k text h j line other hj hline htext
    apply h.nearest hj hline htext

end OrchestraRag
