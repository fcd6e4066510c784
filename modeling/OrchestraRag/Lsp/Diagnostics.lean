import OrchestraRag.Lsp.Document
import OrchestraRag.Parser.Nested
import OrchestraRag.Parser.Positions

/-!
# Diagnostics

The diagnostics of an open document are read from the tree of its text.  There is one for each
node that stands for an error or for a missing token, at any depth, and they are in the order of
the text (`diagnostics_in_order`).
-/

namespace OrchestraRag

/-- Which nodes stand for an error, and which for a missing token. -/
structure NodeFlags where
  isError : Node → Bool
  isMissing : Node → Bool

/-- A single parse error in a document. -/
structure Diagnostic where
  line : UInt32
  col : UInt32
  severity : String
  message : String
  deriving DecidableEq

section Diagnostics

variable (flags : NodeFlags)

/-- The diagnostic of a node, if it is faulty. -/
def NodeFlags.diagnostic (node : Node) : Option Diagnostic :=
  let start := node.range.startPoint
  if flags.isError node then
    some
      { line := .ofNat start.row
        col := .ofNat start.column
        severity := "error"
        message := "parse error: unexpected token near column " ++ toString start.column }
  else if flags.isMissing node then
    some
      { line := .ofNat start.row
        col := .ofNat start.column
        severity := "error"
        message := "missing token: " ++ node.kind }
  else none

mutual

/-- Recursively collect the diagnostics of a tree. -/
def collectErrorNodes (out : List Diagnostic) : Node → List Diagnostic
  | .mk kind fieldName range children =>
      collectErrorChildren
        (out ++ (flags.diagnostic (.mk kind fieldName range children)).toList) children

def collectErrorChildren (out : List Diagnostic) : List Node → List Diagnostic
  | [] => out
  | child :: children => collectErrorChildren (collectErrorNodes out child) children

end

variable (treeSitter : TreeSitter)

/-- Parse a text and collect its diagnostics; there are none when it cannot be parsed. -/
def collectParseDiagnostics (content language : String) : List Diagnostic :=
  match (ParserWrapper.new.parse treeSitter content language).1 with
  | .ok root => collectErrorNodes flags [] root
  | .error _ => []

/-- Diagnostics of the document at a path; there are none when it is not open or its language is
not known. -/
def DocumentStore.diagnostics (store : DocumentStore) (path : String) :
    Outcome String (List Diagnostic) := do
  match ← store.get path with
  | none => pure []
  | some doc =>
      match doc.language with
      | none => pure []
      | some lang => pure (collectParseDiagnostics flags treeSitter doc.content lang)

end Diagnostics

/-! ### What is collected -/

section Collected

variable {flags : NodeFlags} {treeSitter : TreeSitter}

mutual

/-- The walk collects the diagnostics of all nodes. -/
theorem collectErrorNodes_eq (out : List Diagnostic) :
  ∀ node : Node, collectErrorNodes flags out node = out ++ node.collect flags.diagnostic
  | .mk kind fieldName range children => by
      rw [collectErrorNodes, collectErrorChildren_eq _ children, collect_mk, List.append_assoc]

theorem collectErrorChildren_eq (out : List Diagnostic) :
  ∀ nodes : List Node, collectErrorChildren flags out nodes
    = out ++ nodes.flatMap (Node.collect flags.diagnostic)
  | [] => (List.append_nil out).symm
  | child :: nodes => by
      rw [collectErrorChildren, collectErrorNodes_eq _ child, collectErrorChildren_eq _ nodes,
        List.flatMap_cons, List.append_assoc]

end

end Collected

/-! ### The order of the text -/

/-- The node stands for an error or for a missing token. -/
def NodeFlags.Faulty (flags : NodeFlags) (node : Node) : Prop :=
  flags.isError node = true ∨ flags.isMissing node = true

theorem isSome_diagnostic {flags : NodeFlags} {node : Node} :
  (flags.diagnostic node).isSome ↔ flags.Faulty node
  := by
  rw [NodeFlags.diagnostic, NodeFlags.Faulty]
  split
  case isTrue herror => simp [herror]
  case isFalse herror =>
      split
      case isTrue hmissing => simp [hmissing]
      case isFalse hmissing => simp [herror, hmissing]

/-- The place of a diagnostic, its line before its column. -/
def Diagnostic.place (diag : Diagnostic) : ℕ ×ₗ ℕ :=
  toLex (diag.line.toNat, diag.col.toNat)

/-- What Tree-sitter says of the tree of a text: ranges are nested, none ends before it starts, and
rows and columns are numbers of 32 bits. -/
structure TextOrdered (root : Node) : Prop where
  nested : WellNested root
  forward : ∀ path node, root.follow path = some node → node.span.start ≤ node.span.stop
  row : ∀ path node, root.follow path = some node → node.range.startPoint.row < 2 ^ 32
  column : ∀ path node, root.follow path = some node → node.range.startPoint.column < 2 ^ 32

section Ordered

variable {flags : NodeFlags} {treeSitter : TreeSitter} {root : Node}

theorem place_of_diagnostic {node : Node} {diag : Diagnostic}
    (hrow : node.range.startPoint.row < 2 ^ 32) (hcolumn : node.range.startPoint.column < 2 ^ 32)
    (h : flags.diagnostic node = some diag) :
  diag.place = node.span.start
  := by
  have hplace : diag.line = .ofNat node.range.startPoint.row
      ∧ diag.col = .ofNat node.range.startPoint.column := by
    rw [NodeFlags.diagnostic] at h
    split at h
    · obtain rfl := Option.some.inj h
      exact ⟨rfl, rfl⟩
    · split at h
      · obtain rfl := Option.some.inj h
        exact ⟨rfl, rfl⟩
      · cases h
  rw [Diagnostic.place, hplace.1, hplace.2, UInt32.toNat_ofNat_of_lt' hrow,
    UInt32.toNat_ofNat_of_lt' hcolumn]
  rfl

/-- A node that follows another starts no earlier. -/
theorem TextOrdered.start_le (h : TextOrdered root) {p q : Path} {a b : Node}
    (hpq : Follows p q) (ha : root.follow p = some a) (hb : root.follow q = some b) :
  a.span.start ≤ b.span.start
  := by
  have hspan {path : Path} {node : Node} (hnode : root.follow path = some node) :
      (root.follow path).map Node.span = some node.span := by
    rw [hnode]
    rfl
  rcases hpq with hbelow | hbefore
  · apply (h.nested.nested.within_of_isPrefix hbelow.isPrefix (hspan ha) (hspan hb)).1
  · apply le_trans (h.forward p a ha)
    apply h.nested.nested.precedes_of_before hbefore (hspan ha) (hspan hb)

/-- The diagnostics of a tree are in the order of the text. -/
theorem TextOrdered.pairwise_collect (h : TextOrdered root) :
  (root.collect flags.diagnostic).Pairwise (fun a b => a.place ≤ b.place)
  := by
  apply List.pairwise_filterMap.mpr
  apply (pairwise_positions root).imp
  intro p q hpq a ha b hb
  obtain ⟨first, hfirst, ha⟩ := Option.bind_eq_some_iff.mp ha
  obtain ⟨second, hsecond, hb⟩ := Option.bind_eq_some_iff.mp hb
  rw [place_of_diagnostic (h.row p first hfirst) (h.column p first hfirst) ha,
    place_of_diagnostic (h.row q second hsecond) (h.column q second hsecond) hb]
  apply h.start_le hpq hfirst hsecond

/-- The faulty nodes of a tree, by their positions. -/
def faultySites (flags : NodeFlags) (root : Node) : List Path :=
  root.positions.filter (fun path => ((root.follow path).bind flags.diagnostic).isSome)

theorem mem_faultySites {path : Path} :
  path ∈ faultySites flags root ↔ ∃ node, root.follow path = some node ∧ flags.Faulty node
  := by
  rw [faultySites, List.mem_filter, mem_positions]
  constructor
  · rintro ⟨⟨node, hnode⟩, hsome⟩
    rw [hnode] at hsome
    exact ⟨node, hnode, isSome_diagnostic.mp hsome⟩
  · rintro ⟨node, hnode, hfaulty⟩
    rw [hnode]
    exact ⟨⟨node, rfl⟩, isSome_diagnostic.mpr hfaulty⟩

theorem nodup_faultySites (flags : NodeFlags) (root : Node) :
  (faultySites flags root).Nodup
  := by
  apply List.Nodup.filter
  apply (pairwise_positions root).imp
  intro p q h
  apply h.ne

theorem map_some_filterMap {α β : Type} (g : α → Option β) (as : List α) :
  (as.filterMap g).map some = (as.filter (fun a => (g a).isSome)).map g
  := by
  induction as with
  | nil => rfl
  | cons a as ih =>
      cases ha : g a with
      | none => rw [List.filterMap_cons_none ha, List.filter_cons_of_neg (by simp [ha]), ih]
      | some b =>
          rw [List.filterMap_cons_some ha, List.filter_cons_of_pos (by simp [ha]), List.map_cons,
            List.map_cons, ih, ha]

theorem diagnostics_of_tree {store : DocumentStore} {path lang : String} {doc : Document}
    (hopen : store.poisoned = false) (hdoc : store.documents.get path = some doc)
    (hlanguage : doc.language = some lang)
    (hparse : ParserWrapper.parseFresh treeSitter doc.content lang = .ok root) :
  store.diagnostics flags treeSitter path = .ok (root.collect flags.diagnostic)
  := by
  have hget : store.get path = .ok (some doc) := by
    rw [DocumentStore.get, hopen, hdoc]
    rfl
  have hcollect : collectParseDiagnostics flags treeSitter doc.content lang
      = root.collect flags.diagnostic := by
    rw [ParserWrapper.parseFresh] at hparse
    rw [collectParseDiagnostics, hparse, ← List.nil_append (root.collect flags.diagnostic)]
    apply collectErrorNodes_eq
  rw [← hcollect, DocumentStore.diagnostics, hget]
  simp only [bind, Except.bind, hlanguage]
  rfl

/-- An open document whose text has a tree has one diagnostic for each faulty node of the tree, in
the order of the text. -/
theorem diagnostics_in_order {store : DocumentStore} {path lang : String} {doc : Document}
    (hopen : store.poisoned = false) (hdoc : store.documents.get path = some doc)
    (hlanguage : doc.language = some lang)
    (hparse : ParserWrapper.parseFresh treeSitter doc.content lang = .ok root)
    (hroot : TextOrdered root) :
  ∃ (sites : List Path) (diags : List Diagnostic),
    store.diagnostics flags treeSitter path = .ok diags
    ∧ sites.Nodup
    ∧ (∀ site, site ∈ sites ↔ ∃ node, root.follow site = some node ∧ flags.Faulty node)
    ∧ diags.map some = sites.map (fun site => (root.follow site).bind flags.diagnostic)
    ∧ diags.Pairwise (fun a b => a.place ≤ b.place)
  := by
  use faultySites flags root, root.collect flags.diagnostic
  use diagnostics_of_tree hopen hdoc hlanguage hparse
  use nodup_faultySites flags root
  use fun _ => mem_faultySites
  use map_some_filterMap _ root.positions
  apply hroot.pairwise_collect

end Ordered

/-! ### A missing parenthesis -/

/-- A Rust source that lacks a parenthesis. -/
def brokenSource : String :=
  "fn main( {}"

/-- The tree of `brokenSource`. -/
def brokenTree : Node :=
  .mk "source_file" none ⟨0, 11, ⟨0, 0⟩, ⟨0, 11⟩⟩
    [.mk "function_item" none ⟨0, 11, ⟨0, 0⟩, ⟨0, 11⟩⟩
      [.mk "identifier" (some "name") ⟨3, 7, ⟨0, 3⟩, ⟨0, 7⟩⟩ [],
        .mk "parameters" (some "parameters") ⟨7, 8, ⟨0, 7⟩, ⟨0, 8⟩⟩
          [.mk "(" none ⟨7, 8, ⟨0, 7⟩, ⟨0, 8⟩⟩ [], .mk ")" none ⟨8, 8, ⟨0, 8⟩, ⟨0, 8⟩⟩ []],
        .mk "block" (some "body") ⟨9, 11, ⟨0, 9⟩, ⟨0, 11⟩⟩ []]]

/-- A Tree-sitter that parses every text as `brokenSource`. -/
def brokenTreeSitter : TreeSitter where
  setLanguage _ := .ok ()
  parse _ _ := some brokenTree
  toSexp root := "(" ++ root.kind ++ ")"

/-- The flags of `brokenTree`: its only empty node is missing. -/
def emptyMissing : NodeFlags where
  isError node := node.kind == "ERROR"
  isMissing node := node.range.startByte == node.range.endByte

/-- `brokenSource`, open as `main.rs`. -/
def brokenDocument : Document where
  path := "main.rs"
  content := brokenSource
  version := 1
  symbols := []
  language := some "rust"

theorem textOrdered_brokenTree :
  TextOrdered brokenTree
  := by
  have hall (P : Node → Prop) (h : ∀ node ∈ brokenTree.collect some, P node) :
      ∀ path node, brokenTree.follow path = some node → P node := by
    intro path node hnode
    apply h
    rw [Node.collect, List.mem_filterMap]
    use path, mem_positions.mpr ⟨node, hnode⟩
    rw [hnode]
    rfl
  constructor
  · simp only [brokenTree, wellNested_mk, List.forall_mem_cons, List.pairwise_cons,
      List.Pairwise.nil, List.not_mem_nil, false_imp_iff, implies_true]
    decide
  · apply hall
    decide
  · apply hall
    decide
  · apply hall
    decide

/-- The missing parenthesis is the only diagnostic. -/
theorem diagnostics_in_order_broken :
  ∃ (sites : List Path) (diags : List Diagnostic),
    DocumentStore.diagnostics emptyMissing brokenTreeSitter
      ⟨Documents.empty.insert brokenDocument, .new, false⟩ "main.rs" = .ok diags
    ∧ sites.Nodup
    ∧ (∀ site, site ∈ sites ↔ ∃ node, brokenTree.follow site = some node
      ∧ emptyMissing.Faulty node)
    ∧ diags.map some = sites.map (fun site => (brokenTree.follow site).bind emptyMissing.diagnostic)
    ∧ diags.Pairwise (fun a b => a.place ≤ b.place)
  := diagnostics_in_order rfl (Documents.get_insert_self _ brokenDocument) rfl rfl
    textOrdered_brokenTree

example :
  brokenTree.collect emptyMissing.diagnostic
    = [{ line := 0, col := 8, severity := "error", message := "missing token: )" }]
  := by decide

end OrchestraRag
