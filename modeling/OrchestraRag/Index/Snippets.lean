import OrchestraRag.Index.Search
import OrchestraRag.Library.Escape

/-!
# Snippets

A snippet is a fragment of a document as HTML: Tantivy escapes it and puts tags around what is
highlighted.  Stripping the tags leaves the escaped fragment (`stripHtmlTags_of_toHtml`), which is
the fragment only if there was nothing to escape, so the lines that are reported are those with an
escaped word (`snippet_recovered_iff`).  The names of the entities are given from outside.
-/

namespace OrchestraRag

/-! ### HTML -/

/-- The characters that are escaped. -/
def isHtmlSpecial (c : Char) : Bool :=
  "&<>\"'".toList.contains c

/-- The names of the entities: neither angle brackets nor white space occur in them. -/
structure HtmlEntities where
  name : Char → List Char
  plain : ∀ c, isHtmlSpecial c → ∀ d ∈ name c, d ≠ '<' ∧ d ≠ '>' ∧ ¬ Utf8.isWhitespace d

namespace HtmlEntities

variable (entities : HtmlEntities)

/-- The entity of a character, between `&` and `;`. -/
def entity (c : Char) : List Char :=
  '&' :: (entities.name c ++ [';'])

/-- A special character is replaced by its entity. -/
def escaping : Escaping Char where
  special := isHtmlSpecial
  code := entities.entity
  long c _ := by
    rw [entity, List.length_cons, List.length_append, List.length_singleton]
    omega

theorem entity_plain (c : Char) (h : isHtmlSpecial c) :
  ∀ d ∈ entities.entity c, d ≠ '<' ∧ d ≠ '>' ∧ ¬ Utf8.isWhitespace d
  := by
  intro d hd
  rcases List.mem_cons.mp hd with rfl | hd
  · decide
  · rcases List.mem_append.mp hd with hd | hd
    · apply entities.plain c h d hd
    · rw [List.mem_singleton.mp hd]
      decide

end HtmlEntities

section Render

variable (entities : HtmlEntities) (fragment : List Char)

/-- The HTML of a fragment from an offset on, with the ranges that are highlighted in it. -/
def renderFrom (startFrom : ℕ) : List (ℕ × ℕ) → Option (List Char)
  | [] => do
      let rest ← Utf8.slice startFrom (Utf8.byteLength fragment) fragment
      pure (entities.escaping.encode rest)
  | (start, stop) :: highlighted => do
      let before ← Utf8.slice startFrom start fragment
      let marked ← Utf8.slice start stop fragment
      let rest ← renderFrom stop highlighted
      pure (entities.escaping.encode before ++ ("<b>".toList
        ++ (entities.escaping.encode marked ++ ("</b>".toList ++ rest))))

end Render

/-- `Snippet::to_html`: the ranges of bytes come in order, and do not overlap. -/
def toHtml (entities : HtmlEntities) (fragment : String) (highlighted : List (ℕ × ℕ)) :
    Option String :=
  (renderFrom entities fragment.toList 0 highlighted).map String.ofList

/-! ### Stripping tags -/

/-- Text without angle brackets is kept. -/
theorem stripTags_append {cs : List Char} (h : ∀ c ∈ cs, c ≠ '<' ∧ c ≠ '>') (rest : List Char) :
  stripTags false (cs ++ rest) = cs ++ stripTags false rest
  := by
  induction cs with
  | nil => rfl
  | cons c cs ih =>
      rw [List.forall_mem_cons] at h
      rw [List.cons_append, stripTags, if_neg h.1.1, if_neg h.1.2, ih h.2]
      rfl

section Strip

variable {entities : HtmlEntities} {fragment : List Char}

/-- Escaped text has no angle brackets. -/
theorem encode_plain (cs : List Char) :
  ∀ d ∈ entities.escaping.encode cs, d ≠ '<' ∧ d ≠ '>'
  := by
  apply Escaping.forall_mem_encode
  · intro c hc d hd
    obtain ⟨hopen, hclose, -⟩ := entities.entity_plain c hc d hd
    exact ⟨hopen, hclose⟩
  · intro c hc
    constructor
    · rintro rfl
      apply hc
      rfl
    · rintro rfl
      apply hc
      rfl

/-- Stripping the tags leaves the escaped rest of the fragment. -/
theorem stripTags_of_renderFrom {startFrom : ℕ} {highlighted : List (ℕ × ℕ)} {html : List Char}
    (h : renderFrom entities fragment startFrom highlighted = some html) :
  ∃ before rest, fragment = before ++ rest ∧ Utf8.byteLength before = startFrom
    ∧ stripTags false html = entities.escaping.encode rest
  := by
  induction highlighted generalizing startFrom html with
  | nil =>
      obtain ⟨rest, hrest, hhtml⟩ := Option.bind_eq_some_iff.mp h
      obtain ⟨before, post, hfragment, hbefore, hend⟩ := Utf8.slice_eq_some.mp hrest
      obtain rfl : post = [] := by
        rw [hfragment, ← List.append_assoc, Utf8.byteLength_append _ post] at hend
        apply Utf8.byteLength_eq_zero_iff.mp
        omega
      rw [List.append_nil] at hfragment
      refine ⟨before, rest, hfragment, hbefore, ?_⟩
      rw [← Option.some.inj hhtml]
      have hplain := @stripTags_append _ (@encode_plain entities rest) []
      rw [List.append_nil, stripTags, List.append_nil] at hplain
      apply hplain
  | cons range highlighted ih =>
      obtain ⟨start, stop⟩ := range
      obtain ⟨between, hbetween, h⟩ := Option.bind_eq_some_iff.mp h
      obtain ⟨marked, hmarked, h⟩ := Option.bind_eq_some_iff.mp h
      obtain ⟨restHtml, hrest, hhtml⟩ := Option.bind_eq_some_iff.mp h
      obtain ⟨before, post, hfragment, hbefore, hstart⟩ := Utf8.slice_eq_some.mp hbetween
      obtain ⟨before', post', hfragment', hstart', hstop⟩ := Utf8.slice_eq_some.mp hmarked
      obtain ⟨before'', rest, hfragment'', hstop', hstrip⟩ := ih hrest
      -- The slices are next to each other.
      obtain ⟨rfl, rfl⟩ : before ++ between = before' ∧ post = marked ++ post' := by
        apply Utf8.append_inj_of_byteLength
        · rw [List.append_assoc, ← hfragment, hfragment']
        · rw [hstart, hstart']
      obtain ⟨rfl, rfl⟩ : before ++ between ++ marked = before'' ∧ post' = rest := by
        apply Utf8.append_inj_of_byteLength
        · rw [List.append_assoc _ marked, ← hfragment', hfragment'']
        · rw [hstop, hstop']
      use before, between ++ (marked ++ post'), hfragment, hbefore
      have htag (cs : List Char) : stripTags false ("<b>".toList ++ cs) = stripTags false cs := rfl
      have htag' (cs : List Char) :
          stripTags false ("</b>".toList ++ cs) = stripTags false cs := rfl
      rw [← Option.some.inj hhtml, stripTags_append (encode_plain between), htag,
        stripTags_append (encode_plain marked), htag', hstrip, Escaping.encode_append,
        Escaping.encode_append]

/-- Stripping the tags of a snippet leaves the escaped fragment. -/
theorem stripHtmlTags_of_toHtml {fragment html : String} {highlighted : List (ℕ × ℕ)}
    (h : toHtml entities fragment highlighted = some html) :
  stripHtmlTags html = String.ofList (entities.escaping.encode fragment.toList)
  := by
  obtain ⟨chars, hchars, rfl⟩ := Option.map_eq_some_iff.mp h
  obtain ⟨before, rest, hfragment, hbefore, hstrip⟩ := stripTags_of_renderFrom hchars
  obtain rfl := Utf8.byteLength_eq_zero_iff.mp hbefore
  rw [List.nil_append] at hfragment
  rw [stripHtmlTags, String.toList_ofList, hstrip, hfragment]

end Strip

/-! ### Lines -/

/-- The line contains a word of the text that has at least 3 bytes. -/
def ContainsWord (text : String) (line : List Char) : Prop :=
  ∃ word ∈ splitWhitespace text, 3 ≤ word.utf8ByteSize ∧ word.toList <:+: line

/-- The lines that are reported are those with a word of the text without tags. -/
theorem mem_computeLineNumbers {content html : String} {n : UInt32} :
  n ∈ computeLineNumbers content html
    ↔ ∃ i line, (Utf8.lines content.toList)[i]? = some line
      ∧ ContainsWord (stripHtmlTags html) line ∧ n = .ofNat (i + 1)
  := by
  have hany (line : List Char) : ((splitWhitespace (stripHtmlTags html)).any (fun word =>
      3 ≤ word.utf8ByteSize ∧ word.toList <:+: line)) ↔ ContainsWord (stripHtmlTags html) line := by
    rw [List.any_eq_true]
    simp only [decide_eq_true_eq]
    exact Iff.rfl
  rw [computeLineNumbers]
  dsimp only
  split
  case isTrue hempty =>
    constructor
    · rintro ⟨⟩
    · rintro ⟨i, line, -, ⟨word, hword, -⟩, -⟩
      rw [hempty] at hword
      cases hword
  case isFalse hsome =>
    rw [List.mem_filterMap]
    constructor
    · rintro ⟨⟨line, i⟩, hline, hn⟩
      obtain ⟨hwords, hn⟩ := Option.ite_none_right_eq_some.mp hn
      use i, line, List.mem_zipIdx_iff_getElem?.mp hline, (hany line).mp hwords
      apply (Option.some.inj hn).symm
    · rintro ⟨i, line, hline, hwords, rfl⟩
      use (line, i), List.mem_zipIdx_iff_getElem?.mpr hline
      apply if_pos ((hany line).mpr hwords)

/-- Every line of the content that contains one of the words is among the numbers. -/
def ReportsLines (content text : String) (numbers : List UInt32) : Prop :=
  ∀ i line, (Utf8.lines content.toList)[i]? = some line → ContainsWord text line →
    ∃ n ∈ numbers, n.toNat = i + 1

section Lines

variable (entities : HtmlEntities)

/-- The text with its special characters escaped. -/
def escapeText (text : String) : String :=
  String.ofList (entities.escaping.encode text.toList)

/-- No white space is escaped. -/
theorem not_isHtmlSpecial_of_isWhitespace {c : Char} (h : Utf8.isWhitespace c) :
  ¬ isHtmlSpecial c
  := by
  intro hspecial
  have hchar : c = '&' ∨ c = '<' ∨ c = '>' ∨ c = '"' ∨ c.toNat = 39 := by
    simpa [isHtmlSpecial, ← Char.toNat_inj] using hspecial
  rcases hchar with rfl | rfl | rfl | rfl | hquote
  · cases h
  · cases h
  · cases h
  · cases h
  · rw [Utf8.isWhitespace, hquote] at h
    cases h

/-- The words of an escaped text are the escaped words. -/
theorem splitWhitespace_escapeText (text : String) :
  splitWhitespace (escapeText entities text) = (splitWhitespace text).map (escapeText entities)
  := by
  have hcode : ∀ c, isHtmlSpecial c → ∀ d ∈ entities.entity c, ¬ Utf8.isWhitespace d := by
    intro c hc d hd
    apply (entities.entity_plain c hc d hd).2.2
  have hplain : ∀ c, Utf8.isWhitespace c → ¬ isHtmlSpecial c := by
    intro c
    apply not_isHtmlSpecial_of_isWhitespace
  have hempty (word : List Char) : entities.escaping.encode word ≠ [] ↔ word ≠ [] := by
    apply not_congr
    constructor
    · intro hnil
      have hlength := (@Escaping.length_encode _ entities.escaping word).1
      rw [hnil, List.length_nil, Nat.le_zero, List.length_eq_zero_iff] at hlength
      apply hlength
    · rintro rfl
      rfl
  rw [splitWhitespace, escapeText, String.toList_ofList,
    @Escaping.splitOnP_encode _ entities.escaping _ hcode hplain, List.filter_map, List.map_map,
    splitWhitespace, List.map_map]
  have hkept : ((fun word : List Char => decide (word ≠ [])) ∘ entities.escaping.encode)
      = fun word => decide (word ≠ []) := by
    funext word
    apply decide_eq_decide.mpr (hempty word)
  rw [hkept]
  congr 1
  funext word
  simp only [Function.comp_apply, escapeText, String.toList_ofList]

/-- The line contains the escaped form, of at least 3 bytes, of a word of the text. -/
def ContainsEscaped (text : String) (line : List Char) : Prop :=
  ∃ word ∈ splitWhitespace text, 3 ≤ (escapeText entities word).utf8ByteSize
    ∧ (escapeText entities word).toList <:+: line

theorem containsWord_escapeText (text : String) (line : List Char) :
  ContainsWord (escapeText entities text) line ↔ ContainsEscaped entities text line
  := by
  rw [ContainsWord, splitWhitespace_escapeText, ContainsEscaped]
  simp only [List.mem_map, exists_exists_and_eq_and]

/-- There is nothing to escape in the text. -/
def PlainText (text : String) : Prop :=
  ∀ c ∈ text.toList, ¬ isHtmlSpecial c

theorem escapeText_eq_self_iff (text : String) :
  escapeText entities text = text ↔ PlainText text
  := by
  apply Iff.trans _ (@Escaping.encode_eq_self_iff _ entities.escaping text.toList)
  rw [escapeText]
  constructor
  · intro h
    have htoList := congrArg String.toList h
    rw [String.toList_ofList] at htoList
    apply htoList
  · intro h
    rw [h, String.ofList_toList]

end Lines

/-! ### What is recovered -/

/-- Stripping the tags gives the fragment back, and each line with one of its words is reported. -/
structure SnippetRecovered (content fragment html : String) : Prop where
  stripped : stripHtmlTags html = fragment
  reported : ReportsLines content fragment (computeLineNumbers content html)

/-- The numbers of the lines are cast to 32 bits. -/
theorem toNat_lineNumber {i : ℕ} (h : i + 1 < 2 ^ 32) :
  (UInt32.ofNat (i + 1)).toNat = i + 1
  := by
  rw [UInt32.toNat_ofNat']
  apply Nat.mod_eq_of_lt h

section Recovered

variable {entities : HtmlEntities} {fragment html : String}
  (hstrip : stripHtmlTags html = escapeText entities fragment) (content : String)

include hstrip

theorem snippetRecovered_iff_plain :
  SnippetRecovered content fragment html
    ↔ PlainText fragment
      ∧ ∀ i line, (Utf8.lines content.toList)[i]? = some line → ContainsWord fragment line →
        i + 1 < 2 ^ 32
  := by
  constructor
  · intro hrecovered
    constructor
    · rw [← escapeText_eq_self_iff entities, ← hstrip, hrecovered.stripped]
    · intro i line hline hword
      obtain ⟨n, -, hn⟩ := hrecovered.reported i line hline hword
      rw [← hn]
      apply n.toNat_lt
  · rintro ⟨hplain, hnumbers⟩
    have hsame : stripHtmlTags html = fragment := by
      rw [hstrip, escapeText_eq_self_iff]
      apply hplain
    use hsame
    intro i line hline hword
    use .ofNat (i + 1)
    constructor
    · apply mem_computeLineNumbers.mpr
      use i, line, hline
      rw [hsame]
      exact ⟨hword, rfl⟩
    · apply toNat_lineNumber (hnumbers i line hline hword)

theorem reportsLines_iff_escaped (hlength : (Utf8.lines content.toList).length < 2 ^ 32) :
  ReportsLines content fragment (computeLineNumbers content html)
    ↔ ∀ line ∈ Utf8.lines content.toList, ContainsWord fragment line →
      ContainsEscaped entities fragment line
  := by
  have hnumber {i : ℕ} {line : List Char} (hline : (Utf8.lines content.toList)[i]? = some line) :
      (UInt32.ofNat (i + 1)).toNat = i + 1 := by
    obtain ⟨hlt, -⟩ := List.getElem?_eq_some_iff.mp hline
    apply toNat_lineNumber
    omega
  constructor
  · intro hreports line hmem hword
    obtain ⟨i, hline⟩ := List.mem_iff_getElem?.mp hmem
    obtain ⟨n, hn, hnat⟩ := hreports i line hline hword
    obtain ⟨j, line', hline', hwords, rfl⟩ := mem_computeLineNumbers.mp hn
    obtain rfl : i = j := by
      rw [hnumber hline'] at hnat
      omega
    obtain rfl := Option.some.inj (hline.symm.trans hline')
    rw [hstrip, containsWord_escapeText] at hwords
    apply hwords
  · intro hescaped i line hline hword
    use .ofNat (i + 1)
    constructor
    · apply mem_computeLineNumbers.mpr
      use i, line, hline
      rw [hstrip, containsWord_escapeText]
      exact ⟨hescaped line (List.mem_of_getElem? hline) hword, rfl⟩
    · apply hnumber hline

end Recovered

/-- A snippet is recovered exactly when its fragment has nothing to escape, and its words occur only
in lines whose numbers have 32 bits.  In a content with so few lines, each line with a word of the
fragment is reported exactly when it also contains an escaped word. -/
theorem snippet_recovered_iff (entities : HtmlEntities) {fragment html : String}
    {highlighted : List (ℕ × ℕ)} (h : toHtml entities fragment highlighted = some html)
    (content : String) :
  (SnippetRecovered content fragment html
      ↔ PlainText fragment
        ∧ ∀ i line, (Utf8.lines content.toList)[i]? = some line → ContainsWord fragment line →
          i + 1 < 2 ^ 32)
    ∧ ((Utf8.lines content.toList).length < 2 ^ 32 →
      (ReportsLines content fragment (computeLineNumbers content html)
        ↔ ∀ line ∈ Utf8.lines content.toList, ContainsWord fragment line →
          ContainsEscaped entities fragment line))
  := by
  have hstrip : stripHtmlTags html = escapeText entities fragment := stripHtmlTags_of_toHtml h
  constructor
  · apply snippetRecovered_iff_plain hstrip
  · apply reportsLines_iff_escaped hstrip

/-! ### A type with an argument -/

/-- The entities that Tantivy writes. -/
def tantivyEntities : HtmlEntities where
  name c :=
    if c = '&' then "amp".toList
    else if c = '<' then "lt".toList
    else if c = '>' then "gt".toList
    else if c = '"' then "quot".toList
    else "#x27".toList
  plain := by
    have hplain {name : List Char} (h : name.all (fun d => d ≠ '<' ∧ d ≠ '>'
        ∧ ¬ Utf8.isWhitespace d)) :
        ∀ d ∈ name, d ≠ '<' ∧ d ≠ '>' ∧ ¬ Utf8.isWhitespace d := by
      intro d hd
      apply of_decide_eq_true (List.all_eq_true.mp h d hd)
    intro c _
    split_ifs
    all_goals
      apply hplain
      rfl

/-- `Vec` is highlighted. -/
theorem toHtml_vec :
  toHtml tantivyEntities "Vec<T>" [(0, 3)] = some "<b>Vec</b>&lt;T&gt;"
  := by
  rfl

/-- The type is not recovered, and a line with it is not reported. -/
theorem snippet_recovered_iff_vec :
  ¬ SnippetRecovered "a: Vec<T>" "Vec<T>" "<b>Vec</b>&lt;T&gt;"
  := by
  intro hrecovered
  obtain ⟨hplain, -⟩ :=
    (snippet_recovered_iff tantivyEntities toHtml_vec "a: Vec<T>").1.mp hrecovered
  apply hplain '<'
  · decide
  · rfl

/-- The word occurs in the line, in a form that is not searched. -/
theorem not_recovered_vec :
  ¬ ∀ (entities : HtmlEntities) (content fragment html : String) (highlighted : List (ℕ × ℕ)),
      toHtml entities fragment highlighted = some html →
        stripHtmlTags html = fragment
          ∧ ReportsLines content fragment (computeLineNumbers content html)
  := by
  intro hall
  obtain ⟨hstripped, -⟩ := hall tantivyEntities "a: Vec<T>" "Vec<T>" _ _ toHtml_vec
  have hlength := congrArg String.length hstripped
  revert hlength
  decide

end OrchestraRag
