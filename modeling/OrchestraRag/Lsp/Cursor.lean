import Mathlib.Data.List.DropRight
import OrchestraRag.Lsp.Completion

/-!
# The word before the cursor

Columns are reported in bytes, as Tree-sitter counts them, and `word_before_cursor` counts
characters.  At the end of a token it goes on for as many characters as the line up to there has
bytes more than characters, so the token is found exactly when these characters leave no trace
(`word_before_token_iff`).  Which characters are alphanumeric is given from outside.
-/

/-! ### Trailing runs -/

section TrailingRuns

variable {α : Type} {p : α → Bool}

/-- A run does not reach past an element that does not belong to it. -/
theorem rtakeWhile_append_cons {a : α} (h : ¬ p a) (as bs : List α) :
  (as ++ a :: bs).rtakeWhile p = bs.rtakeWhile p
  := by
  induction bs using List.reverseRecOn with
  | nil => rw [List.rtakeWhile_concat_neg p as a h, List.rtakeWhile_nil]
  | append_singleton bs b ih =>
      rw [← List.cons_append, ← List.append_assoc]
      by_cases hb : p b
      · rw [List.rtakeWhile_concat_pos p _ b hb, List.rtakeWhile_concat_pos p _ b hb, ih]
      · rw [List.rtakeWhile_concat_neg p _ b hb, List.rtakeWhile_concat_neg p _ b hb]

/-- A run that is not preceded by an element of it. -/
theorem rtakeWhile_append {as run : List α} (hrun : ∀ a ∈ run, p a)
    (hleft : ∀ a, as.getLast? = some a → ¬ p a) :
  (as ++ run).rtakeWhile p = run
  := by
  have hself : run.rtakeWhile p = run := List.rtakeWhile_eq_self_iff.mpr hrun
  induction as using List.reverseRecOn with
  | nil => apply hself
  | append_singleton as a _ =>
      rw [List.append_assoc, List.singleton_append, rtakeWhile_append_cons, hself]
      apply hleft
      apply List.getLast?_concat

/-- The elements of a list that starts outside of runs end in a given run exactly when the list
ends in it and an element before it that does not belong to it. -/
theorem rtakeWhile_cons_eq_iff {a : α} (ha : ¬ p a) {as run : List α} (hrun : ∀ a ∈ run, p a) :
  (a :: as).rtakeWhile p = run ↔ ∃ gap b, ¬ p b ∧ a :: as = gap ++ b :: run
  := by
  constructor
  · rintro rfl
    have hsplit := @List.rdropWhile_append_rtakeWhile _ p (a :: as)
    have hne : (a :: as).rdropWhile p ≠ [] := by
      intro hnil
      apply ha
      apply List.rdropWhile_eq_nil_iff.mp hnil a List.mem_cons_self
    use ((a :: as).rdropWhile p).dropLast, ((a :: as).rdropWhile p).getLast hne
    use List.rdropWhile_last_not p _ hne
    rw [List.append_cons, List.dropLast_append_getLast, hsplit]
  · rintro ⟨gap, b, hb, heq⟩
    rw [heq, rtakeWhile_append_cons hb, List.rtakeWhile_eq_self_iff.mpr hrun]

end TrailingRuns

namespace OrchestraRag

section Cursor

variable (isAlphanumeric : Char → Bool)

/-- A character of an identifier. -/
def isIdentifier (c : Char) : Bool :=
  isAlphanumeric c || c == '_'

/-- Between the parts of a line, the token is a maximal run of characters of identifiers. -/
structure MaximalToken (before token after : List Char) : Prop where
  nonempty : token ≠ []
  identifier : ∀ c ∈ token, isIdentifier isAlphanumeric c
  left : ∀ c, before.getLast? = some c → ¬ isIdentifier isAlphanumeric c
  right : ∀ c, after.head? = some c → ¬ isIdentifier isAlphanumeric c

/-- How many bytes more than characters a text has. -/
def excess (cs : List Char) : ℕ :=
  Utf8.byteLength cs - cs.length

theorem length_le_byteLength (cs : List Char) :
  cs.length ≤ Utf8.byteLength cs
  := by
  induction cs with
  | nil => apply le_rfl
  | cons c cs ih =>
      have hpos := Char.utf8Size_pos c
      rw [List.length_cons, Utf8.byteLength_cons]
      omega

variable {isAlphanumeric}

/-- The word is the last run of the characters that it takes from the line. -/
theorem wordBeforeCursor_eq {content : String} {line col : UInt32} {lineChars : List Char}
    (hline : (Utf8.lines content.toList)[line.toNat]? = some lineChars) :
  wordBeforeCursor isAlphanumeric content line col
    = String.ofList ((lineChars.take col.toNat).rtakeWhile (isIdentifier isAlphanumeric))
  := by
  rw [wordBeforeCursor, hline]
  rfl

/-- From as many characters as the line has bytes up to the end of a token, the word is the last
run of the token and the characters in excess. -/
theorem wordBeforeCursor_token {content : String} {line col : UInt32}
    {before token after : List Char}
    (hline : (Utf8.lines content.toList)[line.toNat]? = some (before ++ token ++ after))
    (hcol : col.toNat = Utf8.byteLength (before ++ token)) :
  wordBeforeCursor isAlphanumeric content line col
    = String.ofList ((before ++ token ++ after.take (excess (before ++ token))).rtakeWhile
      (isIdentifier isAlphanumeric))
  := by
  have htake : (before ++ token).take col.toNat = before ++ token := by
    apply List.take_of_length_le
    rw [hcol]
    apply length_le_byteLength
  rw [wordBeforeCursor_eq hline, List.take_append, htake, hcol, excess]

/-- At the byte column where a token ends, the word before the cursor is the token exactly when the
line has no more bytes than characters up to there or nothing after the token, or when the
characters in excess end in another occurrence of the token. -/
theorem word_before_token_iff {content : String} {line col : UInt32}
    {before token after : List Char} (htoken : MaximalToken isAlphanumeric before token after)
    (hline : (Utf8.lines content.toList)[line.toNat]? = some (before ++ token ++ after))
    (hcol : col.toNat = Utf8.byteLength (before ++ token)) :
  wordBeforeCursor isAlphanumeric content line col = String.ofList token
    ↔ (excess (before ++ token) = 0 ∨ after = [])
      ∨ ∃ gap c, ¬ isIdentifier isAlphanumeric c
        ∧ after.take (excess (before ++ token)) = gap ++ c :: token
  := by
  rw [wordBeforeCursor_token hline hcol, String.ofList_inj, ← List.take_eq_nil_iff]
  cases htake : after.take (excess (before ++ token)) with
  | nil =>
      rw [List.append_nil, rtakeWhile_append htoken.identifier htoken.left]
      simp
  | cons c rest =>
      have hc : ¬ isIdentifier isAlphanumeric c := by
        apply htoken.right
        have hhead := congrArg List.head? htake
        rw [List.head?_take] at hhead
        split at hhead
        · cases hhead
        · apply hhead
      have hsame := rtakeWhile_append_cons hc [] rest
      rw [List.nil_append] at hsame
      rw [rtakeWhile_append_cons hc, ← hsame, rtakeWhile_cons_eq_iff hc htoken.identifier]
      constructor
      · apply Or.inr
      · rintro (hnil | hagain)
        · cases hnil
        · apply hagain

/-! ### An arrow in a comment -/

/-- A line with a character of three bytes. -/
def arrowSource : String :=
  "/* → */ foo(x)"

/-- The token `foo` of the line, which ends at byte 13. -/
theorem maximalToken_foo :
  MaximalToken Char.isAlphanum "/* → */ ".toList "foo".toList "(x)".toList
  := by
  constructor
  · decide
  · apply List.all_eq_true.mp
    decide
  · rintro c ⟨⟩
    decide
  · rintro c ⟨⟩
    decide

/-- The token is not found at its end: two more characters are read, and they do not end in it. -/
theorem word_before_token_iff_foo :
  wordBeforeCursor Char.isAlphanum arrowSource 0 13 ≠ "foo"
  := by
  intro hfound
  have hiff := @word_before_token_iff Char.isAlphanum arrowSource 0 13 _ _ _ maximalToken_foo
    rfl rfl
  rcases hiff.mp hfound with (⟨⟨⟩⟩ | ⟨⟨⟩⟩) | ⟨gap, c, -, hagain⟩
  have hlength := congrArg List.length hagain
  rw [List.length_append, List.length_cons] at hlength
  have hshort : ("(x)".toList.take (excess ("/* → */ ".toList ++ "foo".toList))).length = 2 := rfl
  have hfoo : "foo".toList.length = 3 := rfl
  omega

/-- At the end of `foo`, the word before the cursor is `x`. -/
theorem not_word_before_token_foo :
  ¬ ∀ (isAlphanumeric : Char → Bool) (content : String) (line col : UInt32)
      (before token after : List Char), MaximalToken isAlphanumeric before token after →
      (Utf8.lines content.toList)[line.toNat]? = some (before ++ token ++ after) →
      col.toNat = Utf8.byteLength (before ++ token) →
        wordBeforeCursor isAlphanumeric content line col = String.ofList token
  := by
  intro hall
  have hfoo := hall Char.isAlphanum arrowSource 0 13 _ _ _ maximalToken_foo rfl rfl
  have hx : wordBeforeCursor Char.isAlphanum arrowSource 0 13 = "x" := rfl
  rw [hx, String.ofList_toList] at hfoo
  revert hfoo
  decide

end Cursor

end OrchestraRag
