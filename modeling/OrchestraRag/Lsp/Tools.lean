import OrchestraRag.Lsp.Completion
import OrchestraRag.Lsp.Diagnostics
import OrchestraRag.Lsp.Hover
import OrchestraRag.Lsp.Methods
import OrchestraRag.Memory.Tools
import OrchestraRag.Protocol.Handler

/-!
# The LSP tools

A tool reads its arguments, which give a request, calls the method of the store in a blocking
task, and answers the JSON of what the method returns.  A request that panics fails with the
error of its task.
-/

namespace OrchestraRag

open Sql

/-- The tools. -/
inductive LspTool where
  | openDocument
  | closeDocument
  | updateDocument
  | gotoDefinition
  | findReferences
  | hover
  | complete
  | diagnostics
  | workspaceSymbols
  | buildIndex
  deriving DecidableEq

/-- A method of the store and its arguments. -/
inductive LspRequest where
  | openDocument (path content : String) (version : Int64)
  | closeDocument (path : String)
  | updateDocument (path content : String) (version : Int64)
  | gotoDefinition (path : String) (line col : UInt32)
  | findReferences (path : String) (line col : UInt32)
  | hover (path : String) (line col : UInt32)
  | complete (path : String) (line col : UInt32) (prefixOverride : Option String)
  | diagnostics (path : String)
  | workspaceSymbols (query : String)
  | buildIndex

/-! ### Arguments -/

namespace LspTool

/-- The arguments of the two tools that set a text. -/
def textArguments (args : Json) : Except String (String × String × Int64) := do
  let path ← required "path" (args.index "path").asStr
  let content ← required "content" (args.index "content").asStr
  pure (path, content, ((args.get "version").bind Json.asI64).getD 1)

/-- The request that a tool makes of its arguments. -/
def request (args : Json) : LspTool → Except String LspRequest
  | .openDocument => do
      let (path, content, version) ← textArguments args
      pure (.openDocument path content version)
  | .closeDocument => do
      let path ← required "path" (args.index "path").asStr
      pure (.closeDocument path)
  | .updateDocument => do
      let (path, content, version) ← textArguments args
      pure (.updateDocument path content version)
  | .gotoDefinition => do
      let (path, line, col) ← gotoDefinitionArguments args
      pure (.gotoDefinition path line col)
  | .findReferences => do
      let (path, line, col) ← gotoDefinitionArguments args
      pure (.findReferences path line col)
  | .hover => do
      let (path, line, col) ← gotoDefinitionArguments args
      pure (.hover path line col)
  | .complete => do
      let (path, line, col) ← gotoDefinitionArguments args
      pure (.complete path line col ((args.get "prefix").bind Json.asStr))
  | .diagnostics => do
      let path ← required "path" (args.index "path").asStr
      pure (.diagnostics path)
  | .workspaceSymbols => do
      let query ← required "query" (args.index "query").asStr
      pure (.workspaceSymbols query)
  | .buildIndex => pure .buildIndex

end LspTool

/-! ### Answers -/

/-- The value of an optional text. -/
def optionalTextToJson : Option String → Json
  | some text => .string text
  | none => .null

/-- The value of a line or a column. -/
def positionToJson (n : UInt32) : Json :=
  countToJson n.toNat

namespace LspRequest

/-- The answer of a tool that sets a text: `opened` or `updated`. -/
def textAnswer (done : String) (count : ℕ) : Json :=
  .object (SortedMap.collect [(done, .bool true), ("symbol_count", countToJson count)])

def closedAnswer (closed : Bool) : Json :=
  .object [("closed", .bool closed)]

def definitionAnswer : Option SymbolLocation → Json
  | some l =>
      .object (SortedMap.collect
        [("found", .bool true),
          ("definition", .object (SortedMap.collect
            [("path", .string l.path), ("line", positionToJson l.line),
              ("col", positionToJson l.col), ("name", .string l.name),
              ("kind", .string l.kind)]))])
  | none => .object (SortedMap.collect [("found", .bool false), ("definition", .null)])

def referencesAnswer (refs : List SymbolLocation) : Json :=
  .object [("references", .array (refs.map (fun r => .object (SortedMap.collect
    [("path", .string r.path), ("line", positionToJson r.line), ("col", positionToJson r.col)]))))]

def hoverAnswer : Option HoverInfo → Json
  | some h =>
      .object (SortedMap.collect
        [("found", .bool true), ("name", .string h.name), ("kind", .string h.kind),
          ("documentation", optionalTextToJson h.documentation),
          ("detail", optionalTextToJson h.detail)])
  | none =>
      .object (SortedMap.collect
        [("found", .bool false), ("name", .null), ("kind", .null), ("documentation", .null),
          ("detail", .null)])

def completionsAnswer (items : List CompletionItem) : Json :=
  .object [("completions", .array (items.map (fun i => .object (SortedMap.collect
    [("label", .string i.label), ("kind", .string i.kind)]))))]

def diagnosticsAnswer (diags : List Diagnostic) : Json :=
  .object [("diagnostics", .array (diags.map (fun d => .object (SortedMap.collect
    [("line", positionToJson d.line), ("col", positionToJson d.col),
      ("severity", .string d.severity), ("message", .string d.message)]))))]

def symbolsAnswer (syms : List SymbolLocation) : Json :=
  .object [("symbols", .array (syms.map (fun s => .object (SortedMap.collect
    [("name", .string s.name), ("kind", .string s.kind), ("path", .string s.path),
      ("line", positionToJson s.line)]))))]

def indexedAnswer (indexed : ℕ × ℕ) : Json :=
  .object (SortedMap.collect
    [("documents_indexed", countToJson indexed.1), ("symbols_indexed", countToJson indexed.2)])

end LspRequest

/-! ### Calls -/

/-- What is given from outside: Tree-sitter and its flags, the alphanumeric characters, the order
in which the index is scanned, and the text of the error of a task that panics. -/
structure LspContext where
  treeSitter : TreeSitter
  flags : NodeFlags
  isAlphanumeric : Char → Bool
  scan : Scan LspRow
  joinError : String

namespace LspContext

variable (context : LspContext)

/-- The method `m`, run alone from `s`, may end with `r` and leave `s'`. -/
abbrev Ends {α : Type} (m : LspM α) (s : LspStore) (r : Outcome String α) (s' : LspStore) : Prop :=
  Program.Exec (LspOp.Step context.treeSitter) m.run s r s'

/-- What a request may answer and leave when it runs alone. -/
def Answers : LspRequest → LspStore → Outcome String Json → LspStore → Prop
  | .openDocument path content version, s, x, s' =>
      ∃ r, context.Ends (LspStore.openDocument path content version) s r s'
        ∧ x = r.map (LspRequest.textAnswer "opened")
  | .closeDocument path, s, x, s' =>
      ∃ r, context.Ends (LspStore.closeDocument path) s r s' ∧ x = r.map LspRequest.closedAnswer
  | .updateDocument path content version, s, x, s' =>
      ∃ r, context.Ends (LspStore.updateDocument path content version) s r s'
        ∧ x = r.map (LspRequest.textAnswer "updated")
  | .gotoDefinition path line col, s, x, s' =>
      ∃ r, SymbolIndex.gotoDefinition context.scan path line col s.index = (r, s'.index)
        ∧ s'.docs = s.docs ∧ x = r.map LspRequest.definitionAnswer
  | .findReferences path line col, s, x, s' =>
      ∃ r, SymbolIndex.findReferences context.scan path line col s.index = (r, s'.index)
        ∧ s'.docs = s.docs ∧ x = r.map LspRequest.referencesAnswer
  | .hover path line col, s, x, s' =>
      x = (s.docs.hover path line col).map LspRequest.hoverAnswer ∧ s' = s
  | .complete path line col prefixOverride, s, x, s' =>
      ∃ r, context.Ends
          (LspStore.complete context.isAlphanumeric path line col prefixOverride) s r s'
        ∧ x = r.map LspRequest.completionsAnswer
  | .diagnostics path, s, x, s' =>
      x = (s.docs.diagnostics context.flags context.treeSitter path).map
          LspRequest.diagnosticsAnswer ∧ s' = s
  | .workspaceSymbols query, s, x, s' =>
      ∃ r, SymbolIndex.searchSymbols context.scan query s.index = (r, s'.index)
        ∧ s'.docs = s.docs ∧ x = r.map LspRequest.symbolsAnswer
  | .buildIndex, s, x, s' =>
      ∃ r, context.Ends LspStore.buildIndex s r s' ∧ x = r.map LspRequest.indexedAnswer

/-- The result of a blocking task. -/
def joined : Outcome String Json → Except String Json
  | .ok answer => .ok answer
  | .error (.err e) => .error e
  | .error .panicked => .error ("spawn_blocking failed: " ++ context.joinError)

/-- What a tool may answer and leave when it runs alone. -/
def Handles (call : LspTool × Json) (s : LspStore) (x : Except String Json) (s' : LspStore) :
    Prop :=
  match call.1.request call.2 with
  | .error e => x = .error e ∧ s' = s
  | .ok request => ∃ r, context.Answers request s r s' ∧ x = context.joined r

end LspContext

end OrchestraRag
