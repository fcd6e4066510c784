import OrchestraRag.Parser.Forest
import OrchestraRag.Parser.Tools

/-!
# Filtered symbols

`get_symbols` with `symbol_types` keeps the symbols at the top of the forest whose type is asked
for, with everything nested in them.  It does not look into the other ones: a symbol of such a type
that is nested in one of another type is lost (`filter_reaches_iff`).
-/

namespace OrchestraRag

/-! ### The types asked for -/

theorem SymbolKind.fromStrName_eq_some_iff {s : String} {kind : SymbolKind} :
  fromStrName s = some kind ↔ s = kind.toString
  := by
  constructor
  · intro h
    have hname := List.find?_some h
    rw [beq_iff_eq] at hname
    apply hname.symm
  · rintro rfl
    apply fromStrName_toString

/-- The kind of a symbol is among the types that the arguments name. -/
def Requested (types : List Json) (sym : CodeSymbol) : Prop :=
  .string sym.kind.toString ∈ types

theorem requested_iff {types : List Json} {sym : CodeSymbol} :
  sym.kind ∈ (types.filterMap Json.asStr).filterMap SymbolKind.fromStrName ↔ Requested types sym
  := by
  rw [List.mem_filterMap, Requested]
  constructor
  · rintro ⟨name, hname, hkind⟩
    obtain rfl := SymbolKind.fromStrName_eq_some_iff.mp hkind
    obtain ⟨value, hvalue, htext⟩ := List.mem_filterMap.mp hname
    cases value with
    | string text =>
        cases htext
        apply hvalue
    | _ => cases htext
  · intro h
    exact ⟨_, List.mem_filterMap.mpr ⟨_, h, rfl⟩, SymbolKind.fromStrName_toString _⟩

instance (types : List Json) (sym : CodeSymbol) : Decidable (Requested types sym) :=
  decidable_of_iff _ requested_iff

theorem retainTypes_eq {args : Json} {types : List Json}
    (h : (args.get "symbol_types").bind Json.asArray = some types) (symbols : List CodeSymbol) :
  ParseTools.retainTypes args symbols = symbols.filter (fun sym => Requested types sym)
  := by
  rw [ParseTools.retainTypes, h]
  apply List.filter_congr
  intro sym _
  rw [decide_eq_decide]
  apply requested_iff

/-! ### What is kept -/

section Kept

variable (p : CodeSymbol → Prop) [DecidablePred p]

/-- The symbols of the trees that are kept, and those of the others. -/
theorem countP_everySymbol (symbols : List CodeSymbol) :
  (everySymbol symbols).countP p
    = (everySymbol (symbols.filter (fun root => p root))).countP p
      + (everySymbol (symbols.filter (fun root => ¬ p root))).countP p
  := by
  have hperm := (List.filter_append_perm (fun root => decide (p root)) symbols).symm
  rw [← List.countP_append, ← everySymbol_append]
  simp only [everySymbol_eq_flatMap, decide_not]
  apply (hperm.flatMap_right _).countP_eq

/-- The symbols of a kind are all in the trees that are kept exactly when every tree that has one is
kept. -/
theorem filter_everySymbol_sublist_iff (symbols : List CodeSymbol) :
  ((everySymbol symbols).filter p).Sublist (everySymbol (symbols.filter (fun root => p root)))
    ↔ ∀ root ∈ symbols, ∀ sym ∈ root.subtree, p sym → p root
  := by
  constructor
  · intro h root hroot sym hsym hp
    by_contra hlost
    have hcount : (everySymbol symbols).countP p
        ≤ (everySymbol (symbols.filter (fun root => p root))).countP p := by
      have hall := @List.Sublist.countP_le _ (fun sym => decide (p sym)) _ _ h
      rw [List.countP_filter] at hall
      simpa only [Bool.and_self] using hall
    have hsplit := countP_everySymbol p symbols
    have hnone : (everySymbol (symbols.filter (fun root => ¬ p root))).countP p = 0 := by omega
    apply List.countP_eq_zero.mp hnone sym _ (decide_eq_true hp)
    apply mem_everySymbol.mpr
    use root, List.mem_filter.mpr ⟨hroot, decide_eq_true hlost⟩
  · intro h
    induction symbols with
    | nil => apply List.nil_sublist
    | cons root symbols ih =>
        rw [List.forall_mem_cons] at h
        rw [everySymbol, List.filter_append]
        by_cases hroot : p root
        · rw [List.filter_cons_of_pos (by simp [hroot]), everySymbol]
          apply List.filter_sublist.append (ih h.2)
        · have hnone : root.subtree.filter p = [] := by
            rw [List.filter_eq_nil_iff]
            intro sym hsym hp
            apply hroot (h.1 sym hsym (of_decide_eq_true hp))
          rw [List.filter_cons_of_neg (by simp [hroot]), hnone, List.nil_append]
          apply ih h.2

end Kept

namespace ParseTools

variable {treeSitter : TreeSitter} {tools : ParseTools} {args : Json} {request : ParseRequest}
  {symbols : List CodeSymbol}

/-- A call on tools that are coherent and not poisoned answers with the symbols that it keeps. -/
theorem handleGetSymbols_eq (task : Task) (hcoherent : tools.Coherent treeSitter)
    (hsound : ¬ tools.Poisoned) (hrequest : parseRequest args = .ok request)
    (hextract : SymbolExtractor.extractFresh treeSitter request.content request.language
      = .ok symbols) :
  (handleGetSymbols treeSitter task args tools).1 = .ok (symbolsResult args request symbols)
  := by
  obtain ⟨extractor, -, hanswer⟩ :=
    answerSymbols_eq hcoherent hsound task request (symbolsResult args request)
  rw [handleGetSymbols, forRequest, hrequest]
  dsimp only
  rw [hanswer, hextract]
  rfl

/-- The value has the symbols of the filtered list, and every requested symbol of the forest, at any
depth, is one of them or nested in one of them. -/
structure ReachesNested (types : List Json) (symbols kept : List CodeSymbol) (answer : Json) :
    Prop where
  listed : answer.get "symbols" = some (.array (symbolsToJson kept))
  reached : ((everySymbol symbols).filter (fun sym => Requested types sym)).Sublist
    (everySymbol kept)

/-- Every symbol at the top of the answer has one of the types asked for; and all symbols of these
types are in the answer, at some depth, exactly when each tree of the forest that has one has one
at its root. -/
theorem filter_reaches_iff (treeSitter : TreeSitter) (task : Task) {tools : ParseTools}
    {args : Json} {types : List Json} {request : ParseRequest} {symbols : List CodeSymbol}
    (hcoherent : tools.Coherent treeSitter) (hsound : ¬ tools.Poisoned)
    (hrequest : parseRequest args = .ok request)
    (hextract : SymbolExtractor.extractFresh treeSitter request.content request.language
      = .ok symbols)
    (htypes : (args.get "symbol_types").bind Json.asArray = some types) :
  ∃ answer kept, (handleGetSymbols treeSitter task args tools).1 = .ok answer
    ∧ answer.get "symbols" = some (.array (symbolsToJson kept))
    ∧ (∀ sym ∈ kept, Requested types sym)
    ∧ (ReachesNested types symbols kept answer
      ↔ ∀ root ∈ symbols, ∀ sym ∈ root.subtree, Requested types sym → Requested types root)
  := by
  have hget : (symbolsResult args request symbols).get "symbols"
      = some (.array (symbolsToJson (retainTypes args symbols))) := by
    rw [symbolsResult, Json.get_collect]
    rfl
  refine ⟨_, _, handleGetSymbols_eq task hcoherent hsound hrequest hextract, hget, ?_, ?_⟩
  · intro sym hsym
    rw [retainTypes_eq htypes] at hsym
    apply of_decide_eq_true (List.mem_filter.mp hsym).2
  · have hkept := retainTypes_eq htypes symbols
    rw [← filter_everySymbol_sublist_iff (Requested types), ← hkept]
    constructor
    · intro hreaches
      apply hreaches.reached
    · intro hreached
      exact ⟨hget, hreached⟩

section Method

/-- A Python class with a method. -/
def classSource : String :=
  "class A:\n  def f(self): pass"

def methodNode : Node :=
  .mk "function_definition" none ⟨11, 28, ⟨1, 2⟩, ⟨1, 19⟩⟩
    [.mk "identifier" (some "name") ⟨15, 16, ⟨1, 6⟩, ⟨1, 7⟩⟩ [],
      .mk "parameters" (some "parameters") ⟨16, 22, ⟨1, 7⟩, ⟨1, 13⟩⟩ []]

def classNode : Node :=
  .mk "class_definition" none ⟨0, 28, ⟨0, 0⟩, ⟨1, 19⟩⟩
    [.mk "identifier" (some "name") ⟨6, 7, ⟨0, 6⟩, ⟨0, 7⟩⟩ [],
      .mk "block" (some "body") ⟨11, 28, ⟨1, 2⟩, ⟨1, 19⟩⟩ [methodNode]]

/-- A Tree-sitter that parses every text as `classSource`. -/
def classTreeSitter : TreeSitter where
  setLanguage _ := .ok ()
  parse _ _ := some (.mk "module" none ⟨0, 28, ⟨0, 0⟩, ⟨1, 19⟩⟩ [classNode])
  toSexp _ := ""

def methodSymbol : CodeSymbol :=
  .mk "f" .method ⟨1, 2, 1, 19⟩ (some "(self)") []

def classSymbol : CodeSymbol :=
  .mk "A" .class_ ⟨0, 0, 1, 19⟩ none [methodSymbol]

theorem extractFresh_classSource :
  SymbolExtractor.extractFresh classTreeSitter classSource "python" = .ok [classSymbol]
  := by
  have hmethod : buildSymbol classSource .python methodNode .method = .ok (some methodSymbol) := by
    rw [buildSymbol]
    rfl
  have hclass : buildSymbol classSource .python classNode .class_ = .ok (some classSymbol) := by
    rw [buildSymbol]
    have hname : extractName classSource classNode .class_ .python = .ok (some "A") := by
      rfl
    have hcontainer : isContainer .class_ = true := rfl
    have hkind : classifyNestedNode methodNode.kind .python = some .method := rfl
    have hbody : (bodyOf classNode).children.attach
        = [⟨methodNode, List.mem_cons_self⟩] := rfl
    simp only [hname, pure_bind, hcontainer, if_true, hbody, List.filterMapM_cons, hkind, hmethod]
    rfl
  have hkind : nodeKindToSymbol "class_definition" .python = some .class_ := rfl
  have hsymbols : collectSymbols (.mk "module" none ⟨0, 28, ⟨0, 0⟩, ⟨1, 19⟩⟩ [classNode]) classSource
      .python = .ok [classSymbol] := by
    have hsymbol : symbolOfNode classSource .python classNode = .ok (some classSymbol) := by
      rw [symbolOfNode, classNode, Node.kind, hkind]
      apply hclass
    rw [classNode] at hsymbol
    simp only [collectSymbols, classNode, Node.children, Node.kind, collectChildSymbols,
      collectNodeSymbols, hsymbol]
    rfl
  rw [← hsymbols]
  rfl

theorem mem_subtree_method :
  methodSymbol ∈ classSymbol.subtree
  := by
  rw [CodeSymbol.subtree_eq_cons]
  apply List.mem_cons_of_mem _ List.mem_cons_self

/-- The arguments of a call that asks for the methods of `classSource`. -/
def methodArgs : Json :=
  .object [("content", .string classSource), ("language", .string "python"),
    ("symbol_types", .array [.string "method"])]

theorem parseRequest_methodArgs :
  parseRequest methodArgs = .ok ⟨"", classSource, "python"⟩
  := rfl

/-- The method is not found: the class that it is nested in is not asked for. -/
theorem filter_reaches_iff_method :
  ∃ answer kept,
    (handleGetSymbols classTreeSitter ⟨0, ""⟩ methodArgs new).1 = .ok answer
      ∧ answer.get "symbols" = some (.array (symbolsToJson kept))
      ∧ ¬ ReachesNested [.string "method"] [classSymbol] kept answer
  := by
  obtain ⟨answer, kept, hanswer, hlisted, -, hiff⟩ := filter_reaches_iff classTreeSitter ⟨0, ""⟩
    coherent_new not_poisoned_new parseRequest_methodArgs extractFresh_classSource rfl
  use answer, kept, hanswer, hlisted
  rw [hiff]
  intro hroots
  have hclass := hroots classSymbol List.mem_cons_self methodSymbol mem_subtree_method
    List.mem_cons_self
  have hkinds : "class" ≠ "method" := by decide
  apply hkinds (Json.string.inj (List.mem_singleton.mp hclass))

/-- A call that asks for the methods of a class answers with nothing. -/
theorem not_reaches_method :
  ¬ ∀ (treeSitter : TreeSitter) (task : Task) (args : Json) (types : List Json)
      (request : ParseRequest) (symbols : List CodeSymbol) (answer : Json),
      parseRequest args = .ok request →
      SymbolExtractor.extractFresh treeSitter request.content request.language = .ok symbols →
      (args.get "symbol_types").bind Json.asArray = some types →
      (handleGetSymbols treeSitter task args new).1 = .ok answer →
        ∃ kept, ReachesNested types symbols kept answer
  := by
  intro hall
  have hanswer := handleGetSymbols_eq ⟨0, ""⟩ coherent_new not_poisoned_new parseRequest_methodArgs
    extractFresh_classSource
  obtain ⟨kept, hlisted, hreached⟩ := hall classTreeSitter ⟨0, ""⟩ methodArgs [.string "method"] _ _
    _ parseRequest_methodArgs extractFresh_classSource rfl hanswer
  have hnone : (symbolsResult methodArgs ⟨"", classSource, "python"⟩ [classSymbol]).get "symbols"
      = some (.array []) := by
    rw [symbolsResult, Json.get_collect]
    rfl
  cases kept with
  | nil =>
      have hlength := hreached.length_le
      have hfound : methodSymbol ∈ (everySymbol [classSymbol]).filter
          (fun sym => Requested [.string "method"] sym) := by
        apply List.mem_filter.mpr
        constructor
        · apply mem_everySymbol.mpr
          use classSymbol, List.mem_cons_self, mem_subtree_method
        · apply decide_eq_true
          apply List.mem_cons_self
      apply absurd (List.length_pos_of_mem hfound)
      apply Nat.not_lt_of_le hlength
  | cons sym kept =>
      rw [hnone] at hlisted
      cases hlisted

end Method

end ParseTools

end OrchestraRag
