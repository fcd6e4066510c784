import OrchestraRag.Library.Trimming
import OrchestraRag.Lsp.Comments

/-!
# Comments that are only delimiters

The markers are trimmed from a comment in a fixed order, and the end of a block comment is none of
them.  So of a line with nothing but delimiters something may be left, such as the slash of `*/`,
and then the search takes that for the documentation.  It does not exactly when every such line
that it comes to is spent by the markers (`documentation_is_text_iff`).
-/

namespace OrchestraRag

open Utf8 (copies)

/-! ### Lines of delimiters -/

/-- The characters of comment markers. -/
def isMarker (c : Char) : Bool :=
  ['/', '*', '#', '-', '!'].contains c

/-- A trimmed line is a comment that holds only delimiters. -/
def OnlyDelimiters (trimmed : List Char) : Prop :=
  isCommentLine trimmed ∧ ∀ c ∈ trimmed, isMarker c ∨ Utf8.isWhitespace c

/-- The markers, in the order in which they are trimmed. -/
def commentMarkers : List (List Char) :=
  [['/', '/', '/'], ['/', '/', '!'], ['/', '/'], ['/', '*', '*'], ['/', '*'], ['*'], ['#'],
    ['-', '-']]

/-- A trimmed line is made of `///`, then `//!`, `//`, `/**`, `/*`, `*`, `#` and `--`, each any
number of times; but without a `//!` there is at most one `//`, and none before a `/**` or
`/*`. -/
def SpentMarkers (trimmed : List Char) : Prop :=
  ∃ a b c d e f g h : ℕ, (b = 0 → c = 0 ∨ (c = 1 ∧ d = 0 ∧ e = 0))
    ∧ trimmed = copies a ['/', '/', '/'] ++ (copies b ['/', '/', '!'] ++ (copies c ['/', '/']
      ++ (copies d ['/', '*', '*'] ++ (copies e ['/', '*'] ++ (copies f ['*']
        ++ (copies g ['#'] ++ copies h ['-', '-']))))))

theorem stripCommentMarkers_eq (line : List Char) :
  stripCommentMarkers line = Utf8.trim (Utf8.trimStartTexts commentMarkers line)
  := rfl

/-! ### What the markers leave -/

section Greedy

variable (c d e f g h : ℕ)

theorem not_star_hashes :
  ¬ ['*'] <+: copies g ['#'] ++ copies h ['-', '-']
  := by
  cases g with
  | zero =>
      cases h with
      | zero => simp
      | succ h => simp
  | succ g => simp

theorem not_slash_stars :
  ¬ ['/'] <+: copies f ['*'] ++ (copies g ['#'] ++ copies h ['-', '-'])
  := by
  cases f with
  | zero =>
      cases g with
      | zero =>
          cases h with
          | zero => simp
          | succ h => simp
      | succ g => simp
  | succ f => simp

/-- What begins with a slash is no beginning of stars. -/
theorem not_slash_cons_stars (pattern : List Char) :
  ¬ '/' :: pattern <+: copies f ['*'] ++ (copies g ['#'] ++ copies h ['-', '-'])
  := by
  intro hinit
  apply not_slash_stars f g h
  apply List.IsPrefix.trans _ hinit
  exact ⟨pattern, rfl⟩

theorem not_block_blocks (hstar : e = 1 → f = 0) :
  ¬ ['/', '*', '*'] <+: copies e ['/', '*'] ++ (copies f ['*']
    ++ (copies g ['#'] ++ copies h ['-', '-']))
  := by
  cases e with
  | zero => apply not_slash_cons_stars
  | succ e =>
      cases e with
      | zero =>
          rw [hstar rfl]
          simpa [List.cons_prefix_cons] using not_star_hashes g h
      | succ e => simp [List.cons_prefix_cons]

theorem not_slashes_blocks (pattern : List Char) :
  ¬ '/' :: '/' :: pattern <+: copies d ['/', '*', '*'] ++ (copies e ['/', '*'] ++ (copies f ['*']
    ++ (copies g ['#'] ++ copies h ['-', '-'])))
  := by
  cases d with
  | zero =>
      cases e with
      | zero => apply not_slash_cons_stars
      | succ e => simp [List.cons_prefix_cons]
  | succ d => simp [List.cons_prefix_cons]

/-- No exclamation mark follows copies of `//`. -/
theorem not_bang_mem :
  '!' ∉ copies c ['/', '/'] ++ (copies d ['/', '*', '*'] ++ (copies e ['/', '*']
    ++ (copies f ['*'] ++ (copies g ['#'] ++ copies h ['-', '-']))))
  := by
  have hpatterns : ∀ pattern ∈
      [['/', '/'], ['/', '*', '*'], ['/', '*'], ['*'], ['#'], ['-', '-']], '!' ∉ pattern := by
    decide
  have hnone : ∀ n, ∀ pattern ∈
      [['/', '/'], ['/', '*', '*'], ['/', '*'], ['*'], ['#'], ['-', '-']],
        '!' ∉ copies n pattern := by
    intro n pattern hpattern hbang
    apply hpatterns pattern hpattern (Utf8.mem_of_mem_copies hbang)
  simp only [List.mem_append, not_or]
  refine ⟨hnone c _ ?_, hnone d _ ?_, hnone e _ ?_, hnone f _ ?_, hnone g _ ?_, hnone h _ ?_⟩
  all_goals simp

theorem not_bang_slashes :
  ¬ ['/', '/', '!'] <+: copies c ['/', '/'] ++ (copies d ['/', '*', '*'] ++ (copies e ['/', '*']
    ++ (copies f ['*'] ++ (copies g ['#'] ++ copies h ['-', '-']))))
  := by
  cases c with
  | zero => apply not_slashes_blocks
  | succ c =>
      intro hinit
      simp only [Utf8.copies_succ, List.cons_append, List.nil_append, List.cons_prefix_cons,
        true_and] at hinit
      apply not_bang_mem c d e f g h
      apply hinit.subset List.mem_cons_self

theorem not_slashes_bangs (b : ℕ) (hslash : b = 0 → c = 0 ∨ (c = 1 ∧ d = 0 ∧ e = 0)) :
  ¬ ['/', '/', '/'] <+: copies b ['/', '/', '!'] ++ (copies c ['/', '/']
    ++ (copies d ['/', '*', '*'] ++ (copies e ['/', '*'] ++ (copies f ['*']
      ++ (copies g ['#'] ++ copies h ['-', '-'])))))
  := by
  cases b with
  | zero =>
      rcases hslash rfl with rfl | ⟨rfl, rfl, rfl⟩
      · apply not_slashes_blocks
      · simpa [List.cons_prefix_cons] using not_slash_stars f g h
  | succ b => simp [List.cons_prefix_cons]

end Greedy

/-- Copies that are taken greedily are spent. -/
theorem spent_of_greedy {a b c d e f g h : ℕ} (hslash : b = 0 → c = 0 ∨ (c = 1 ∧ d = 0 ∧ e = 0))
    (hstar : e = 1 → f = 0) :
  Utf8.Spent commentMarkers (copies a ['/', '/', '/'] ++ (copies b ['/', '/', '!']
    ++ (copies c ['/', '/'] ++ (copies d ['/', '*', '*'] ++ (copies e ['/', '*']
      ++ (copies f ['*'] ++ (copies g ['#'] ++ copies h ['-', '-'])))))))
  := by
  refine ⟨a, _, rfl, not_slashes_bangs c d e f g h b hslash, b, _, rfl,
    not_bang_slashes c d e f g h, c, _, rfl, not_slashes_blocks d e f g h [], d, _, rfl,
    not_block_blocks e f g h hstar, e, _, rfl, not_slash_cons_stars f g h ['*'], f, _, rfl,
    not_star_hashes g h, g, _, rfl, ?_, h, [], ?_, ?_, rfl⟩
  · cases h with
    | zero => simp
    | succ h => simp
  · rw [List.append_nil]
  · simp

/-- A text is spent by the markers exactly when it is made of them as `SpentMarkers` describes. -/
theorem spent_commentMarkers_iff {trimmed : List Char} :
  Utf8.Spent commentMarkers trimmed ↔ SpentMarkers trimmed
  := by
  constructor
  · rintro ⟨a, _, rfl, hslash, b, _, rfl, -, c, _, rfl, -, d, _, rfl, -, e, _, rfl, -, f, _, rfl, -,
      g, _, rfl, -, h, _, rfl, -, rfl⟩
    rw [List.append_nil] at hslash ⊢
    refine ⟨a, b, c, d, e, f, g, h, ?_, rfl⟩
    -- Otherwise `///` would have been trimmed once more.
    rintro rfl
    by_contra hmore
    apply hslash
    obtain ⟨hc, hmore⟩ := not_or.mp hmore
    obtain ⟨c, rfl⟩ := Nat.exists_eq_succ_of_ne_zero hc
    cases c with
    | succ c => simp [List.cons_prefix_cons]
    | zero =>
        cases d with
        | succ d => simp [List.cons_prefix_cons]
        | zero =>
            cases e with
            | succ e => simp [List.cons_prefix_cons]
            | zero => exact absurd ⟨rfl, rfl, rfl⟩ hmore
  · rintro ⟨a, b, c, d, e, f, g, h, hslash, rfl⟩
    by_cases hstar : e = 1 → f = 0
    · apply spent_of_greedy hslash hstar
    · -- A `/*` before a star is read as `/**`.
      obtain ⟨rfl, hf⟩ := Classical.not_imp.mp hstar
      obtain ⟨f, rfl⟩ := Nat.exists_eq_succ_of_ne_zero hf
      have hread : ∀ rest, copies d ['/', '*', '*'] ++ (copies 1 ['/', '*']
          ++ (copies (f + 1) ['*'] ++ rest))
          = copies (d + 1) ['/', '*', '*'] ++ (copies 0 ['/', '*'] ++ (copies f ['*'] ++ rest)) := by
        intro rest
        rw [Utf8.copies_succ' d, List.append_assoc]
        rfl
      rw [hread]
      apply spent_of_greedy
      · intro hb
        rcases hslash hb with hc | ⟨-, -, ⟨⟩⟩
        apply Or.inl hc
      · rintro ⟨⟩

/-- A text that is spent by the markers is a comment, unless it is empty. -/
theorem SpentMarkers.isCommentLine {trimmed : List Char} (h : SpentMarkers trimmed)
    (hfilled : trimmed ≠ []) :
  isCommentLine trimmed
  := by
  have hmarkers : ∀ pattern ∈ commentMarkers,
      ∃ marker ∈ ["//", "#", "/*", "*", "--"], marker.toList <+: pattern := by
    decide
  obtain ⟨pattern, hpattern, hinit⟩ := (spent_commentMarkers_iff.mpr h).exists_begins hfilled
  obtain ⟨marker, hmarker, hbegins⟩ := hmarkers pattern hpattern
  apply List.any_eq_true.mpr
  use marker, hmarker
  apply List.isPrefixOf_iff_prefix.mpr (hbegins.trans hinit)

theorem stripCommentMarkers_eq_nil_iff {line : List Char} :
  stripCommentMarkers (Utf8.trim line) = [] ↔ SpentMarkers (Utf8.trim line)
  := by
  have hmarkers : [] ∉ commentMarkers := by decide
  obtain ⟨pre, htrim, -⟩ := Utf8.exists_trimStartTexts hmarkers (Utf8.trim line)
  have hsuffix : Utf8.trimStartTexts commentMarkers (Utf8.trim line) <:+ Utf8.trim line :=
    ⟨pre, htrim.symm⟩
  rw [stripCommentMarkers_eq, Utf8.trim_eq_nil_iff_of_suffix hsuffix,
    Utf8.trimStartTexts_eq_nil_iff hmarkers, spent_commentMarkers_iff]

/-- The lines that say nothing are the ones that are spent by the markers; a blank line is. -/
theorem saysNothing_iff {line : List Char} :
  SaysNothing line ↔ SpentMarkers (Utf8.trim line)
  := by
  rw [SaysNothing, stripCommentMarkers_eq_nil_iff]
  constructor
  · rintro (hblank | ⟨-, hspent⟩)
    · rw [hblank]
      refine ⟨0, 0, 0, 0, 0, 0, 0, 0, ?_, rfl⟩
      intro _
      apply Or.inl rfl
    · apply hspent
  · intro hspent
    by_cases hblank : Utf8.trim line = []
    · apply Or.inl hblank
    · apply Or.inr ⟨hspent.isCommentLine hblank, hspent⟩

/-- Every character of a comment line is one of a marker, white space, or in its text; and the text
has no others. -/
theorem mem_stripCommentMarkers {line : List Char} {c : Char} :
  (c ∈ line → isMarker c ∨ Utf8.isWhitespace c ∨ c ∈ stripCommentMarkers line)
    ∧ (c ∈ stripCommentMarkers line → c ∈ line)
  := by
  have hchars : ∀ pattern ∈ commentMarkers, ∀ c ∈ pattern, isMarker c := by
    simp [commentMarkers, isMarker]
  obtain ⟨pre, hline, hpre⟩ := Utf8.exists_trimStartTexts (by decide : [] ∉ commentMarkers) line
  obtain ⟨before, after, hrest, hbefore, hafter⟩ :=
    Utf8.exists_trim (Utf8.trimStartTexts commentMarkers line)
  rw [← stripCommentMarkers_eq] at hrest
  rw [hrest] at hline
  constructor
  · intro hc
    rw [hline, List.mem_append, List.mem_append, List.mem_append] at hc
    rcases hc with hc | hc | hc | hc
    · obtain ⟨pattern, hpattern, hmem⟩ := hpre c hc
      apply Or.inl (hchars pattern hpattern c hmem)
    · apply Or.inr (Or.inl (hbefore c hc))
    · apply Or.inr (Or.inr hc)
    · apply Or.inr (Or.inl (hafter c hc))
  · intro hc
    rw [hline]
    apply List.mem_append_right
    apply List.mem_append_right
    apply List.mem_append_left _ hc

/-! ### Documentation -/

/-- Line `k` is a comment with a text and not only delimiters, one of the five lines above a symbol,
and the lines between them say nothing or are only delimiters. -/
structure TextAbove (lines : List (List Char)) (startLine k : ℕ) (text : List Char) : Prop where
  within : startLine ≤ k + 5
  above : k < startLine
  comment : ∃ line, lines[k]? = some line ∧ CommentText line text
    ∧ ¬ OnlyDelimiters (Utf8.trim line)
  between : ∀ j line, k < j → j < startLine → lines[j]? = some line →
    SaysNothing line ∨ OnlyDelimiters (Utf8.trim line)

/-- Documentation is never a delimiter: it is not made of markers, and a line of delimiters counts
as empty, so that the search goes on above it. -/
structure DocumentationIsText (content : String) (startLine : ℕ) : Prop where
  not_markers : ∀ text : String, extractPrecedingComment content startLine = some text →
    ¬ ∀ c ∈ text.toList, isMarker c
  goes_on : ∀ text : String, extractPrecedingComment content startLine = some text ↔
    ∃ k, TextAbove (Utf8.lines content.toList) startLine k text.toList

/-- The nearest of the five lines above a symbol that is not spent by the markers, if there is one,
is not only delimiters. -/
def DelimitersSpent (lines : List (List Char)) (startLine : ℕ) : Prop :=
  ∀ k line, startLine ≤ k + 5 → k < startLine → lines[k]? = some line →
    (∀ j between, k < j → j < startLine → lines[j]? = some between →
      SpentMarkers (Utf8.trim between)) →
    OnlyDelimiters (Utf8.trim line) → SpentMarkers (Utf8.trim line)

section Above

variable {lines : List (List Char)} {startLine k : ℕ} {text line : List Char}

/-- A text that is left of delimiters has no other characters. -/
theorem CommentText.of_onlyDelimiters (h : CommentText line text)
    (hdelimiters : OnlyDelimiters (Utf8.trim line)) :
  ∀ c ∈ text, isMarker c ∨ Utf8.isWhitespace c
  := by
  intro c hc
  rw [← h.stripped] at hc
  apply hdelimiters.2 c (mem_stripCommentMarkers.2 hc)

/-- A comment whose text is made of markers and white space is only delimiters. -/
theorem CommentText.onlyDelimiters (h : CommentText line text)
    (hmarkers : ∀ c ∈ text, isMarker c ∨ Utf8.isWhitespace c) :
  OnlyDelimiters (Utf8.trim line)
  := by
  use h.comment
  intro c hc
  rcases mem_stripCommentMarkers.1 hc with hmarker | hwhite | htext
  · apply Or.inl hmarker
  · apply Or.inr hwhite
  · rw [h.stripped] at htext
    apply hmarkers c htext

theorem CommentAbove.not_onlyDelimiters (h : CommentAbove lines startLine k text)
    (hspent : DelimitersSpent lines startLine) (hline : lines[k]? = some line)
    (htext : CommentText line text) :
  ¬ OnlyDelimiters (Utf8.trim line)
  := by
  intro hdelimiters
  apply htext.not_saysNothing
  apply saysNothing_iff.mpr
  apply hspent k line h.within h.above hline _ hdelimiters
  intro j between hlt hj hbetween
  apply saysNothing_iff.mp (h.between j between hlt hj hbetween)

/-- When delimiters are spent, the lines between a text and a symbol say nothing. -/
theorem TextAbove.saysNothing (h : TextAbove lines startLine k text)
    (hspent : DelimitersSpent lines startLine) (j : ℕ) (line : List Char) (hlt : k < j)
    (hj : j < startLine) (hline : lines[j]? = some line) :
  SaysNothing line
  := by
  rcases h.between j line hlt hj hline with hnothing | hdelimiters
  · apply hnothing
  · apply saysNothing_iff.mpr
    have hwithin := h.within
    apply hspent j line (by omega) hj hline _ hdelimiters
    intro i between hji hi hbetween
    apply saysNothing_iff.mp
    apply h.saysNothing hspent i between (hlt.trans hji) hi hbetween
termination_by startLine - j

/-- When delimiters are spent, the comment above a symbol is the text above it. -/
theorem commentAbove_iff_textAbove (hspent : DelimitersSpent lines startLine) :
  CommentAbove lines startLine k text ↔ TextAbove lines startLine k text
  := by
  constructor
  · intro h
    obtain ⟨line, hline, htext⟩ := h.comment
    refine ⟨h.within, h.above, ⟨line, hline, htext, ?_⟩, ?_⟩
    · apply h.not_onlyDelimiters hspent hline htext
    · intro j between hlt hj hbetween
      apply Or.inl (h.between j between hlt hj hbetween)
  · intro h
    obtain ⟨line, hline, htext, -⟩ := h.comment
    refine ⟨h.within, h.above, ⟨line, hline, htext⟩, ?_⟩
    intro j between hlt hj hbetween
    apply h.saysNothing hspent j between hlt hj hbetween

end Above

/-- Documentation is never a delimiter exactly when the nearest line that the markers do not spend
is not only delimiters. -/
theorem documentation_is_text_iff (content : String) (startLine : ℕ) :
  DocumentationIsText content startLine
    ↔ DelimitersSpent (Utf8.lines content.toList) startLine
  := by
  constructor
  · intro h k line hwithin habove hline hbetween hdelimiters
    by_contra hleft
    have hcomment : CommentText line (stripCommentMarkers (Utf8.trim line)) :=
      ⟨hdelimiters.1, rfl, mt stripCommentMarkers_eq_nil_iff.mp hleft⟩
    have habove : CommentAbove (Utf8.lines content.toList) startLine k
        (stripCommentMarkers (Utf8.trim line)) := by
      refine ⟨hwithin, habove, ⟨line, hline, hcomment⟩, ?_⟩
      intro j between hlt hj hmem
      apply saysNothing_iff.mpr (hbetween j between hlt hj hmem)
    have hfound : extractPrecedingComment content startLine
        = some (String.ofList (stripCommentMarkers (Utf8.trim line))) := by
      apply extractPrecedingComment_eq_some_iff.mpr
      rw [String.toList_ofList]
      use k
    -- The text found is left of delimiters, and the one it should be is not.
    obtain ⟨k', hk'⟩ := (h.goes_on _).mp hfound
    obtain ⟨line', -, htext', hother⟩ := hk'.comment
    rw [String.toList_ofList] at htext'
    apply hother (htext'.onlyDelimiters (hcomment.of_onlyDelimiters hdelimiters))
  · intro hspent
    constructor
    · intro text hfound hmarkers
      obtain ⟨k, h⟩ := extractPrecedingComment_eq_some_iff.mp hfound
      obtain ⟨line, hline, htext⟩ := h.comment
      apply h.not_onlyDelimiters hspent hline htext
      apply htext.onlyDelimiters
      intro c hc
      apply Or.inl (hmarkers c hc)
    · intro text
      rw [extractPrecedingComment_eq_some_iff]
      apply exists_congr
      intro k
      apply commentAbove_iff_textAbove hspent

/-- A function with a block comment above it. -/
def blockComment : String :=
  "/**\n * Adds two numbers.\n */\nfn add() {}\n"

/-- The documentation of the function is the slash that ends the comment. -/
theorem not_documentation_is_text_blockComment :
  extractPrecedingComment blockComment 3 = some "/" ∧ ¬ DocumentationIsText blockComment 3
  := by
  have hfound : extractPrecedingComment blockComment 3 = some "/" := by
    decide +kernel
  use hfound
  intro h
  apply h.not_markers "/" hfound
  simp [isMarker]

end OrchestraRag
