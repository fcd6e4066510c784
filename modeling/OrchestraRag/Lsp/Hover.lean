import OrchestraRag.Library.Sorting
import OrchestraRag.Lsp.Document

/-!
# Hover

Hover takes its answer from the symbol that `findSymbolAt` finds at a position.  The search
compares lines only, and keeps the best symbol so far while it goes through the siblings; what
it finds inside a sibling replaces that symbol, however small it is.  So it finds the first
smallest one among the `survivors` (`findSymbolAt_eq_argmin`), which need not be the smallest
symbol at the line (`findsInnermost_iff`).
-/

namespace OrchestraRag

/-- Hover information for a symbol. -/
structure HoverInfo where
  name : String
  kind : String
  documentation : Option String
  detail : Option String
  deriving DecidableEq

/-! ### Documentation -/

/-- Check if a trimmed line looks like a comment. -/
def isCommentLine (trimmed : List Char) : Bool :=
  ["//", "#", "/*", "*", "--"].any (fun marker => marker.toList.isPrefixOf trimmed)

/-- Strip leading comment markers and white space from a comment line. -/
def stripCommentMarkers (line : List Char) : List Char :=
  Utf8.trim (["///", "//!", "//", "/**", "/*", "*", "#", "--"].foldl
    (fun rest marker => Utf8.trimStartText marker.toList rest) line)

/-- What a line above a symbol says: its comment, that the search ends there, or nothing. -/
inductive CommentLine where
  | comment (text : List Char)
  | stop
  | next

/-- Look at a line above a symbol; a line that is missing or empty says nothing. -/
def CommentLine.of (line : Option (List Char)) : CommentLine :=
  let trimmed := Utf8.trim (line.getD [])
  if isCommentLine trimmed then
    let stripped := stripCommentMarkers trimmed
    if stripped ≠ [] then .comment stripped else .next
  else if trimmed ≠ [] then .stop
  else .next

/-- Search for a comment from line `idx` up to line `searchTo`. -/
def searchComment (lines : List (List Char)) (searchTo : ℕ) (idx : ℕ) : Option String :=
  match CommentLine.of lines[idx]? with
  | .comment text => some (String.ofList text)
  | .stop => none
  | .next =>
      if idx = searchTo then none
      else
        match idx with
        | 0 => none
        | idx + 1 => searchComment lines searchTo idx

/-- Extract the first comment line immediately before `startLine`, at most five lines above. -/
def extractPrecedingComment (content : String) (startLine : ℕ) : Option String :=
  let lines := Utf8.lines content.toList
  if startLine = 0 ∨ lines.isEmpty then none
  else
    let searchFrom := startLine - 1
    searchComment lines (searchFrom - 4) searchFrom

/-! ### The symbol at a position -/

/-- Whether the range of a symbol covers a position; the column is not looked at. -/
def symbolContains (sym : CodeSymbol) (line _col : ℕ) : Bool :=
  sym.range.startLine ≤ line ∧ line ≤ sym.range.endLine

/-- The number of lines a symbol spans, less one. -/
def CodeSymbol.lineSpan (sym : CodeSymbol) : ℕ :=
  sym.range.endLine - sym.range.startLine

mutual

/-- The best symbol after a sibling was looked at: a match inside it, or the smaller one of it
and the best one before. -/
def findInSymbol (line col : ℕ) (best : Option CodeSymbol) : CodeSymbol → Option CodeSymbol
  | .mk name kind range detail children =>
      let sym := CodeSymbol.mk name kind range detail children
      if symbolContains sym line col then
        match findAmong line col none children with
        | some childMatch => some childMatch
        | none =>
            match best with
            | none => some sym
            | some prev => if sym.lineSpan < prev.lineSpan then some sym else some prev
      else best

/-- The best symbol after all siblings were looked at. -/
def findAmong (line col : ℕ) (best : Option CodeSymbol) : List CodeSymbol → Option CodeSymbol
  | [] => best
  | sym :: symbols => findAmong line col (findInSymbol line col best sym) symbols

end

/-- Find the symbol at a position. -/
def findSymbolAt (symbols : List CodeSymbol) (line col : ℕ) : Option CodeSymbol :=
  findAmong line col none symbols

/-- Hover information for the symbol at a position. -/
def hoverAt (symbols : List CodeSymbol) (content : String) (line col : UInt32) :
    Option HoverInfo :=
  (findSymbolAt symbols line.toNat col.toNat).map (fun sym =>
    { name := sym.name
      kind := sym.kind.toString
      documentation := extractPrecedingComment content sym.range.startLine
      detail := sym.detail })

/-- Hover information for a position of an open document. -/
def DocumentStore.hover (store : DocumentStore) (path : String) (line col : UInt32) :
    Outcome String (Option HoverInfo) := do
  match ← store.get path with
  | some doc => pure (hoverAt doc.symbols doc.content line col)
  | none => pure none

/-! ### What the search finds -/

namespace CodeSymbol

/-- The range of the symbol covers a line. -/
def Covers (sym : CodeSymbol) (line : ℕ) : Prop :=
  sym.range.startLine ≤ line ∧ line ≤ sym.range.endLine

instance (sym : CodeSymbol) (line : ℕ) : Decidable (sym.Covers line) :=
  inferInstanceAs (Decidable (_ ∧ _))

/-- The symbol covers a line together with one of its children. -/
def CoversInside (sym : CodeSymbol) (line : ℕ) : Prop :=
  sym.Covers line ∧ ∃ child ∈ sym.children, child.Covers line

instance (sym : CodeSymbol) (line : ℕ) : Decidable (sym.CoversInside line) :=
  inferInstanceAs (Decidable (_ ∧ _))

end CodeSymbol

theorem symbolContains_iff {sym : CodeSymbol} {line col : ℕ} :
  symbolContains sym line col ↔ sym.Covers line
  := by
  simp [symbolContains, CodeSymbol.Covers]

mutual

/-- What the search keeps of a symbol that covers the line: what it keeps of its children, if one
of them covers the line, else the symbol itself. -/
def survivorsOf (line : ℕ) : CodeSymbol → List CodeSymbol
  | .mk name kind range detail children =>
      let sym := CodeSymbol.mk name kind range detail children
      if ¬ sym.Covers line then []
      else if sym.CoversInside line then survivors line children
      else [sym]

/-- What the search keeps of some siblings: nothing of those that stand before one that covers
the line together with one of its children. -/
def survivors (line : ℕ) : List CodeSymbol → List CodeSymbol
  | [] => []
  | sym :: symbols =>
      if ∃ later ∈ symbols, later.CoversInside line then survivors line symbols
      else survivorsOf line sym ++ survivors line symbols

end

section Survivors

variable {line col : ℕ}

theorem survivorsOf_of_not_covers {sym : CodeSymbol} (h : ¬ sym.Covers line) :
  survivorsOf line sym = []
  := by
  obtain ⟨name, kind, range, detail, children⟩ := sym
  rw [survivorsOf]
  apply if_pos h

theorem survivorsOf_of_coversInside {sym : CodeSymbol} (h : sym.CoversInside line) :
  survivorsOf line sym = survivors line sym.children
  := by
  obtain ⟨name, kind, range, detail, children⟩ := sym
  rw [survivorsOf, if_neg (not_not.mpr h.1), if_pos h]
  rfl

theorem survivorsOf_of_covers {sym : CodeSymbol} (h : sym.Covers line)
    (hinside : ¬ sym.CoversInside line) :
  survivorsOf line sym = [sym]
  := by
  obtain ⟨name, kind, range, detail, children⟩ := sym
  rw [survivorsOf, if_neg (not_not.mpr h), if_neg hinside]

/-- One step of `List.argmin`, for the line span. -/
abbrev smaller (best : Option CodeSymbol) (sym : CodeSymbol) : Option CodeSymbol :=
  List.argAux (fun b c => b.lineSpan < c.lineSpan) best sym

mutual

theorem findInSymbol_eq_none {best : Option CodeSymbol} :
  ∀ {sym : CodeSymbol}, findInSymbol line col best sym = none ↔
    best = none ∧ ¬ sym.Covers line
  | .mk name kind range detail children => by
      simp only [findInSymbol, symbolContains_iff]
      by_cases hcovers : (CodeSymbol.mk name kind range detail children).Covers line
      · simp only [hcovers, if_true, not_true_eq_false, and_false, iff_false]
        cases findAmong line col none children with
        | some childMatch => simp
        | none =>
            cases best with
            | none => simp
            | some prev =>
                by_cases hlt : (CodeSymbol.mk name kind range detail children).lineSpan
                    < prev.lineSpan
                · simp [hlt]
                · simp [hlt]
      · simp only [hcovers, if_false, not_false_eq_true, and_true]

/-- Nothing is found exactly when no sibling covers the line. -/
theorem findAmong_eq_none {best : Option CodeSymbol} :
  ∀ {symbols : List CodeSymbol}, findAmong line col best symbols = none ↔
    best = none ∧ ∀ sym ∈ symbols, ¬ sym.Covers line
  | [] => by simp [findAmong]
  | sym :: symbols => by
      rw [findAmong, findAmong_eq_none, findInSymbol_eq_none, List.forall_mem_cons, and_assoc]

end

mutual

/-- Looking at a sibling, the search goes on from what it keeps of it. -/
theorem findInSymbol_eq (best : Option CodeSymbol) :
  ∀ sym : CodeSymbol, findInSymbol line col best sym
    = (survivorsOf line sym).foldl smaller (if sym.CoversInside line then none else best)
  | .mk name kind range detail children => by
      have hchildren := findAmong_eq none children
      rw [ite_self] at hchildren
      simp only [findInSymbol, symbolContains_iff]
      by_cases hcovers : (CodeSymbol.mk name kind range detail children).Covers line
      · rw [if_pos hcovers]
        by_cases hinside : (CodeSymbol.mk name kind range detail children).CoversInside line
        · rw [if_pos hinside, survivorsOf_of_coversInside hinside]
          cases hfound : findAmong line col none children with
          | some childMatch => apply hfound.symm.trans hchildren
          | none =>
              obtain ⟨-, child, hchild, hcover⟩ := hinside
              apply absurd hcover ((findAmong_eq_none.mp hfound).2 child hchild)
        · have hnone : findAmong line col none children = none := by
            apply findAmong_eq_none.mpr
            use rfl
            intro child hchild hcover
            apply hinside ⟨hcovers, child, hchild, hcover⟩
          rw [if_neg hinside, survivorsOf_of_covers hcovers hinside, hnone]
          cases best with
          | none => rfl
          | some prev => rfl
      · have hinside : ¬ (CodeSymbol.mk name kind range detail children).CoversInside line :=
          fun h => hcovers h.1
        rw [if_neg hcovers, if_neg hinside, survivorsOf_of_not_covers hcovers, List.foldl_nil]

/-- After all siblings the search has the best of the survivors; the best symbol from before is
forgotten at a sibling that covers the line together with one of its children. -/
theorem findAmong_eq (best : Option CodeSymbol) :
  ∀ symbols : List CodeSymbol, findAmong line col best symbols
    = (survivors line symbols).foldl smaller
      (if ∃ sym ∈ symbols, sym.CoversInside line then none else best)
  | [] => by simp [findAmong, survivors]
  | sym :: symbols => by
      rw [findAmong, findAmong_eq _ symbols, findInSymbol_eq best sym, survivors]
      by_cases hlater : ∃ later ∈ symbols, later.CoversInside line
      · obtain ⟨later, hmem, hinside⟩ := hlater
        have hany : ∃ sym' ∈ sym :: symbols, sym'.CoversInside line :=
          ⟨later, List.mem_cons_of_mem sym hmem, hinside⟩
        rw [if_pos hany, if_pos ⟨later, hmem, hinside⟩, if_pos ⟨later, hmem, hinside⟩]
      · rw [if_neg hlater, if_neg hlater, List.foldl_append]
        congr 2
        by_cases hinside : sym.CoversInside line
        · simp [hinside]
        · simp [hinside, hlater]

end

/-- The search finds the first smallest survivor. -/
theorem findSymbolAt_eq_argmin (symbols : List CodeSymbol) (line col : ℕ) :
  findSymbolAt symbols line col = (survivors line symbols).argmin CodeSymbol.lineSpan
  := by
  rw [findSymbolAt, findAmong_eq, ite_self]
  rfl

end Survivors

/-! ### The innermost symbol -/

/-- The symbol is one of the symbols, or nested in one at any depth. -/
inductive CodeSymbol.Occurs (sym : CodeSymbol) : List CodeSymbol → Prop
  | here {symbols : List CodeSymbol} : sym ∈ symbols → Occurs sym symbols
  | inside {symbols : List CodeSymbol} {parent : CodeSymbol} :
      parent ∈ symbols → Occurs sym parent.children → Occurs sym symbols

/-- The lines of every child lie within those of its parent. -/
def NestedLines (symbols : List CodeSymbol) : Prop :=
  ∀ parent : CodeSymbol, parent.Occurs symbols → ∀ child ∈ parent.children,
    parent.range.startLine ≤ child.range.startLine ∧ child.range.endLine ≤ parent.range.endLine

theorem nestedLines_iff {symbols : List CodeSymbol} :
  NestedLines symbols ↔ ∀ sym ∈ symbols, NestedLines sym.children ∧ ∀ child ∈ sym.children,
    sym.range.startLine ≤ child.range.startLine ∧ child.range.endLine ≤ sym.range.endLine
  := by
  constructor
  · intro h sym hsym
    constructor
    · intro parent hparent
      apply h parent (.inside hsym hparent)
    · apply h sym (.here hsym)
  · intro h parent hparent
    cases hparent with
    | here hmem => apply (h parent hmem).2
    | inside hmem hinside => apply (h _ hmem).1 parent hinside

@[simp]
theorem nestedLines_nil :
  NestedLines []
  := by
  rw [nestedLines_iff]
  intro sym hsym
  cases hsym

@[simp]
theorem nestedLines_cons {sym : CodeSymbol} {symbols : List CodeSymbol} :
  NestedLines (sym :: symbols) ↔ (NestedLines sym.children ∧ ∀ child ∈ sym.children,
    sym.range.startLine ≤ child.range.startLine ∧ child.range.endLine ≤ sym.range.endLine)
    ∧ NestedLines symbols
  := by
  rw [nestedLines_iff, @nestedLines_iff symbols, List.forall_mem_cons]

/-- When lines are nested, a line covered at any depth is covered by one of the siblings. -/
theorem CodeSymbol.Occurs.covers_top {line : ℕ} {sym : CodeSymbol} {symbols : List CodeSymbol}
    (h : sym.Occurs symbols) (hnested : NestedLines symbols) (hcovers : sym.Covers line) :
  ∃ top ∈ symbols, top.Covers line
  := by
  induction h with
  | here hmem => use sym, hmem
  | @inside symbols parent hmem hinside ih =>
      obtain ⟨hchildren, hlines⟩ := nestedLines_iff.mp hnested parent hmem
      obtain ⟨child, hchild, hstart, hend⟩ := ih hchildren
      obtain ⟨hstart', hend'⟩ := hlines child hchild
      use parent, hmem, hstart'.trans hstart, hend.trans hend'

/-- The symbol covers a line and has no child that does, and neither it nor a symbol around it is
followed by a sibling that covers the line together with one of its children. -/
inductive CodeSymbol.Kept (line : ℕ) (sym : CodeSymbol) : List CodeSymbol → Prop
  | here {before after : List CodeSymbol} :
      sym.Covers line → ¬ sym.CoversInside line → (∀ later ∈ after, ¬ later.CoversInside line) →
      Kept line sym (before ++ sym :: after)
  | inside {before after : List CodeSymbol} {parent : CodeSymbol} :
      parent.Covers line → Kept line sym parent.children →
      (∀ later ∈ after, ¬ later.CoversInside line) →
      Kept line sym (before ++ parent :: after)

namespace CodeSymbol.Kept

variable {line : ℕ} {sym : CodeSymbol} {symbols : List CodeSymbol}

theorem cons (h : sym.Kept line symbols) (first : CodeSymbol) :
  sym.Kept line (first :: symbols)
  := by
  cases h with
  | @here before after hcovers hinside hafter =>
      apply @here line sym (first :: before) after hcovers hinside hafter
  | @inside before after parent hcovers hkept hafter =>
      apply @inside line sym (first :: before) after parent hcovers hkept hafter

theorem covers (h : sym.Kept line symbols) :
  sym.Covers line
  := by
  induction h with
  | here hcovers => apply hcovers
  | inside hcovers hkept hafter ih => apply ih

theorem occurs (h : sym.Kept line symbols) :
  sym.Occurs symbols
  := by
  induction h with
  | here => apply Occurs.here List.mem_append_cons_self
  | inside hcovers hkept hafter ih => apply Occurs.inside List.mem_append_cons_self ih

/-- A symbol around it covers the line together with a child. -/
theorem exists_covers (h : sym.Kept line symbols) :
  ∃ top ∈ symbols, top.Covers line
  := by
  cases h with
  | here hcovers => exact ⟨sym, List.mem_append_cons_self, hcovers⟩
  | @inside before after parent hcovers => exact ⟨parent, List.mem_append_cons_self, hcovers⟩

end CodeSymbol.Kept

mutual

theorem kept_of_mem_survivorsOf {line : ℕ} {sym : CodeSymbol} {after : List CodeSymbol}
    (hafter : ∀ later ∈ after, ¬ later.CoversInside line) :
  ∀ {top : CodeSymbol}, sym ∈ survivorsOf line top → sym.Kept line (top :: after)
  | .mk name kind range detail children, h => by
      by_cases hcovers : (CodeSymbol.mk name kind range detail children).Covers line
      · by_cases hinside : (CodeSymbol.mk name kind range detail children).CoversInside line
        · rw [survivorsOf_of_coversInside hinside] at h
          have hkept : sym.Kept line children := kept_of_mem_survivors h
          apply @CodeSymbol.Kept.inside line sym [] after (.mk name kind range detail children)
            hcovers hkept hafter
        · rw [survivorsOf_of_covers hcovers hinside] at h
          obtain rfl := List.mem_singleton.mp h
          apply @CodeSymbol.Kept.here line _ [] after hcovers hinside hafter
      · rw [survivorsOf_of_not_covers hcovers] at h
        cases h

theorem kept_of_mem_survivors {line : ℕ} {sym : CodeSymbol} :
  ∀ {symbols : List CodeSymbol}, sym ∈ survivors line symbols → sym.Kept line symbols
  | [], h => by cases h
  | top :: symbols, h => by
      rw [survivors] at h
      split at h
      · apply (kept_of_mem_survivors h).cons
      case isFalse hlater =>
          rcases List.mem_append.mp h with h | h
          · apply kept_of_mem_survivorsOf _ h
            intro later hmem hinside
            apply hlater ⟨later, hmem, hinside⟩
          · apply (kept_of_mem_survivors h).cons

end

theorem mem_survivors_append {line : ℕ} {sym top : CodeSymbol} (before : List CodeSymbol)
    {after : List CodeSymbol} (hafter : ∀ later ∈ after, ¬ later.CoversInside line)
    (h : sym ∈ survivorsOf line top) :
  sym ∈ survivors line (before ++ top :: after)
  := by
  induction before with
  | nil =>
      rw [List.nil_append, survivors, if_neg]
      · apply List.mem_append_left _ h
      · rintro ⟨later, hmem, hinside⟩
        apply hafter later hmem hinside
  | cons first before ih =>
      rw [List.cons_append, survivors]
      split
      · apply ih
      · apply List.mem_append_right _ ih

/-- What the search keeps. -/
theorem mem_survivors_iff {line : ℕ} {sym : CodeSymbol} {symbols : List CodeSymbol} :
  sym ∈ survivors line symbols ↔ sym.Kept line symbols
  := by
  constructor
  · apply kept_of_mem_survivors
  · intro h
    induction h with
    | here hcovers hinside hafter =>
        apply mem_survivors_append _ hafter
        rw [survivorsOf_of_covers hcovers hinside]
        apply List.mem_cons_self
    | inside hcovers hkept hafter ih =>
        apply mem_survivors_append _ hafter
        rw [survivorsOf_of_coversInside ⟨hcovers, hkept.exists_covers⟩]
        apply ih

/-- The search finds no symbol exactly when none covers the line, at any depth, and else one that
covers it and spans no more lines than any other that does. -/
structure FindsInnermost (symbols : List CodeSymbol) (line col : ℕ) : Prop where
  none_iff : findSymbolAt symbols line col = none ↔
    ∀ sym : CodeSymbol, sym.Occurs symbols → ¬ sym.Covers line
  smallest : ∀ sym, findSymbolAt symbols line col = some sym →
    sym.Occurs symbols ∧ sym.Covers line
      ∧ ∀ other : CodeSymbol, other.Occurs symbols → other.Covers line →
        sym.lineSpan ≤ other.lineSpan

/-- The search finds an innermost symbol exactly when it keeps one of the smallest symbols that
cover the line. -/
theorem findsInnermost_iff {symbols : List CodeSymbol} (h : NestedLines symbols) (line col : ℕ) :
  FindsInnermost symbols line col ↔
    ((∃ sym : CodeSymbol, sym.Occurs symbols ∧ sym.Covers line) →
      ∃ sym : CodeSymbol, sym.Kept line symbols ∧ ∀ other : CodeSymbol, other.Occurs symbols →
        other.Covers line → sym.lineSpan ≤ other.lineSpan)
  := by
  have hfound := findSymbolAt_eq_argmin symbols line col
  constructor
  · intro hfinds hcovered
    cases hsym : findSymbolAt symbols line col with
    | none =>
        obtain ⟨sym, hoccurs, hcovers⟩ := hcovered
        apply absurd hcovers (hfinds.none_iff.mp hsym sym hoccurs)
    | some sym =>
        use sym, mem_survivors_iff.mp (List.argmin_mem (hfound.symm.trans hsym))
        apply (hfinds.smallest sym hsym).2.2
  · intro hsurvives
    constructor
    · rw [findSymbolAt, findAmong_eq_none]
      constructor
      · rintro ⟨-, huncovered⟩ sym hoccurs hcovers
        obtain ⟨top, htop, hcover⟩ := hoccurs.covers_top h hcovers
        apply huncovered top htop hcover
      · intro huncovered
        use rfl
        intro sym hsym
        apply huncovered sym (.here hsym)
    · intro sym hsym
      rw [hfound] at hsym
      have hkept := mem_survivors_iff.mp (List.argmin_mem hsym)
      obtain ⟨least, hleast, hsmallest⟩ := hsurvives ⟨sym, hkept.occurs, hkept.covers⟩
      refine ⟨hkept.occurs, hkept.covers, ?_⟩
      intro other hother hcover
      apply (List.le_of_mem_argmin (mem_survivors_iff.mpr hleast) hsym).trans (hsmallest other hother hcover)

/-- A class with a method. -/
def outerClass : List CodeSymbol :=
  [.mk "Outer" .class_ ⟨0, 0, 6, 1⟩ none [.mk "inner" .method ⟨2, 4, 4, 5⟩ none []]]

theorem findsInnermost_outerClass :
  FindsInnermost outerClass 2 4
  := by
  have hnested : NestedLines outerClass := by
    simp [outerClass, CodeSymbol.children, CodeSymbol.range]
  apply (findsInnermost_iff hnested 2 4).mpr
  intro _
  have hkept : CodeSymbol.Kept 2 (.mk "inner" .method ⟨2, 4, 4, 5⟩ none []) outerClass :=
    mem_survivors_iff.mp (List.mem_singleton.mpr rfl)
  refine ⟨_, hkept, ?_⟩
  rintro other (hmem | ⟨hmem, hinside⟩) -
  · obtain rfl := List.mem_singleton.mp hmem
    decide
  · obtain rfl := List.mem_singleton.mp hmem
    rcases hinside with hmem | ⟨hmem, hinside⟩
    · obtain rfl := List.mem_singleton.mp hmem
      decide
    · obtain rfl := List.mem_singleton.mp hmem
      rcases hinside with hmem | ⟨hmem, -⟩
      · cases hmem
      · cases hmem

/-- A function and an `impl` block that begins on its line. -/
def sharedLine : List CodeSymbol :=
  [.mk "alpha" .function ⟨5, 0, 5, 13⟩ none [],
    .mk "impl Beta" .class_ ⟨5, 14, 9, 1⟩ none [.mk "gamma" .method ⟨5, 26, 8, 3⟩ none []]]

/-- On the function the search finds the method of the block, which is longer. -/
theorem not_findsInnermost_sharedLine :
  NestedLines sharedLine ∧ ¬ FindsInnermost sharedLine 5 3
  := by
  constructor
  · simp [sharedLine, CodeSymbol.children, CodeSymbol.range]
  · intro h
    have hfound : findSymbolAt sharedLine 5 3
        = some (.mk "gamma" .method ⟨5, 26, 8, 3⟩ none []) := rfl
    have hshorter := (h.smallest _ hfound).2.2 (.mk "alpha" .function ⟨5, 0, 5, 13⟩ none [])
      (.here List.mem_cons_self) (by decide)
    revert hshorter
    decide

end OrchestraRag
