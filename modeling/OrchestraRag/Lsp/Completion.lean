import Mathlib.Data.String.Basic
import OrchestraRag.Library.Firsts
import OrchestraRag.Lsp.Store
import OrchestraRag.Parser.Forest

/-!
# Completion

Completion goes through the symbols of all open documents, keeps the first symbol with every
name that starts with the prefix, and sorts what it kept by name.  The documents come in the
order of a hash map.  Sorting makes the names independent of it, but not the kind that is kept
with a name: that is so exactly when all documents agree on it (`orderIndependent_iff`).  In a
given order, the list is exact (`complete_exact`).

Which characters are alphanumeric is given from outside.
-/

namespace OrchestraRag

/-- A single completion candidate. -/
structure CompletionItem where
  label : String
  kind : String
  deriving DecidableEq

/-! ### Candidates -/

/-- The candidate a symbol is. -/
def CodeSymbol.completionItem (sym : CodeSymbol) : CompletionItem :=
  ⟨sym.name, sym.kind.toString⟩

/-- `text.starts_with(start)`. -/
def startsWith (text start : String) : Bool :=
  start.toList.isPrefixOf text.toList

mutual

def collectSymbol (start : String) (acc : List String × List CompletionItem) :
    CodeSymbol → List String × List CompletionItem
  | .mk name kind _ _ children =>
      let item : CompletionItem := ⟨name, kind.toString⟩
      collectCompletions start
        (if startsWith name start then Firsts.push CompletionItem.label acc item else acc) children

/-- Walk some symbols and their children and collect completions for the names that start with
`start` and were not seen before. -/
def collectCompletions (start : String) (acc : List String × List CompletionItem) :
    List CodeSymbol → List String × List CompletionItem
  | [] => acc
  | sym :: symbols => collectCompletions start (collectSymbol start acc sym) symbols

end

/-- `ORDER BY` label. -/
def byLabel (a b : CompletionItem) : Bool :=
  a.label ≤ b.label

/-- Completion candidates from the symbols of all documents, without duplicate labels and sorted
by label. -/
def complete (allSymbols : List (List CodeSymbol)) (start : String) : List CompletionItem :=
  (allSymbols.foldl (collectCompletions start) ([], [])).2.mergeSort byLabel

section Cursor

variable (isAlphanumeric : Char → Bool)

/-- Extract the word immediately before the cursor. -/
def wordBeforeCursor (content : String) (line col : UInt32) : String :=
  match (Utf8.lines content.toList)[line.toNat]? with
  | none => ""
  | some lineChars =>
      let startChars := lineChars.take col.toNat
      String.ofList (startChars.reverse.takeWhile (fun c => isAlphanumeric c || c == '_')).reverse

/-- The prefix to complete: the word before the cursor, if it is not given. -/
def LspStore.completionPrefix (path : String) (line col : UInt32)
    (prefixOverride : Option String) : LspM String :=
  match prefixOverride with
  | some start => pure start
  | none => do
      match ← LspM.docsGet path with
      | some doc => pure (wordBeforeCursor isAlphanumeric doc.content line col)
      | none => pure ""

/-- Completion candidates at a position of a document. -/
def LspStore.complete (path : String) (line col : UInt32) (prefixOverride : Option String) :
    LspM (List CompletionItem) := do
  let start ← LspStore.completionPrefix isAlphanumeric path line col prefixOverride
  let allDocs ← LspM.docsAll
  pure (OrchestraRag.complete (allDocs.map Document.symbols) start)

end Cursor

/-! ### What is kept -/

mutual

/-- The candidates a symbol and its children give, with duplicates. -/
def symbolCandidates (start : String) : CodeSymbol → List CompletionItem
  | .mk name kind _ _ children =>
      (if startsWith name start then [⟨name, kind.toString⟩] else []) ++ candidates start children

def candidates (start : String) : List CodeSymbol → List CompletionItem
  | [] => []
  | sym :: symbols => symbolCandidates start sym ++ candidates start symbols

end

mutual

theorem collectSymbol_eq (start : String) (acc : List String × List CompletionItem) :
  ∀ sym, collectSymbol start acc sym
    = (symbolCandidates start sym).foldl (Firsts.push CompletionItem.label) acc
  | .mk name kind range detail children => by
      rw [collectSymbol, symbolCandidates, collectCompletions_eq start _ children,
        List.foldl_append]
      split
      · rfl
      · rfl

/-- The walk pushes the candidates one after another. -/
theorem collectCompletions_eq (start : String) (acc : List String × List CompletionItem) :
  ∀ symbols, collectCompletions start acc symbols
    = (candidates start symbols).foldl (Firsts.push CompletionItem.label) acc
  | [] => rfl
  | sym :: symbols => by
      rw [collectCompletions, candidates, List.foldl_append, collectSymbol_eq start acc sym,
        collectCompletions_eq start _ symbols]

end

theorem complete_eq (allSymbols : List (List CodeSymbol)) (start : String) :
  complete allSymbols start
    = (Firsts.firsts CompletionItem.label (allSymbols.flatMap (candidates start))).mergeSort byLabel
  := by
  rw [complete, Firsts.firsts, List.foldl_flatMap]
  congr 3
  funext acc symbols
  apply collectCompletions_eq

theorem pairwise_complete (allSymbols : List (List CodeSymbol)) (start : String) :
  (complete allSymbols start).Pairwise (fun a b => byLabel a b)
  := by
  rw [complete_eq]
  apply List.pairwise_mergeSort
  · intro a b c hab hbc
    simp only [byLabel, decide_eq_true_eq] at *
    apply hab.trans hbc
  · intro a b
    simp only [byLabel, Bool.or_eq_true, decide_eq_true_eq]
    apply le_total

/-- Completion answers the same exactly when the first candidate with every label is. -/
theorem complete_eq_iff {allSymbols allSymbols' : List (List CodeSymbol)} {start : String} :
  complete allSymbols start = complete allSymbols' start ↔
    ∀ label, allSymbols.findSome? (fun symbols =>
        (candidates start symbols).find? (fun item => item.label = label))
      = allSymbols'.findSome? (fun symbols =>
        (candidates start symbols).find? (fun item => item.label = label))
  := by
  simp only [← List.find?_flatMap]
  rw [← Firsts.perm_firsts_iff]
  have hperm (allSymbols : List (List CodeSymbol)) : (complete allSymbols start).Perm
      (Firsts.firsts CompletionItem.label (allSymbols.flatMap (candidates start))) := by
    rw [complete_eq]
    apply List.mergeSort_perm
  constructor
  · intro h
    apply (hperm allSymbols).symm.trans
    rw [h]
    apply hperm
  · intro h
    have hsame := (hperm allSymbols).trans (h.trans (hperm allSymbols').symm)
    apply List.Perm.eq_of_pairwise _ (pairwise_complete _ _) (pairwise_complete _ _) hsame
    intro a b ha hb hab hba
    simp only [byLabel, decide_eq_true_eq] at hab hba
    apply List.inj_on_of_nodup_map (Firsts.nodup_firsts (allSymbols.flatMap (candidates start)))
      ((hperm allSymbols).mem_iff.mp ha) (h.mem_iff.mpr ((hperm allSymbols').mem_iff.mp hb))
      (le_antisymm hab hba)

/-! ### The list -/

mutual

theorem symbolCandidates_eq (start : String) :
  ∀ sym : CodeSymbol, symbolCandidates start sym
    = (sym.subtree.filter (fun sym => startsWith sym.name start)).map CodeSymbol.completionItem
  | .mk name kind range detail children => by
      rw [symbolCandidates, CodeSymbol.subtree, candidates_eq start children, List.filter_cons]
      cases hstarts : startsWith name start with
      | true =>
          have hname : startsWith (CodeSymbol.mk name kind range detail children).name start
              = true := hstarts
          rw [if_pos hname, List.map_cons]
          rfl
      | false =>
          have hname : ¬ startsWith (CodeSymbol.mk name kind range detail children).name start
              = true := by
            intro htrue
            cases hstarts.symm.trans htrue
          rw [if_neg hname]
          rfl

/-- The candidates are the symbols at any depth whose names start so, in preorder. -/
theorem candidates_eq (start : String) :
  ∀ symbols : List CodeSymbol, candidates start symbols
    = ((everySymbol symbols).filter (fun sym => startsWith sym.name start)).map
      CodeSymbol.completionItem
  | [] => rfl
  | sym :: symbols => by
      rw [candidates, everySymbol, symbolCandidates_eq start sym, candidates_eq start symbols,
        List.filter_append, List.map_append]

end

/-- The candidates of all documents. -/
theorem flatMap_candidates (allSymbols : List (List CodeSymbol)) (start : String) :
  allSymbols.flatMap (candidates start)
    = ((allSymbols.flatMap everySymbol).filter (fun sym => startsWith sym.name start)).map
      CodeSymbol.completionItem
  := by
  induction allSymbols with
  | nil => rfl
  | cons symbols allSymbols ih =>
      rw [List.flatMap_cons, List.flatMap_cons, ih, candidates_eq, List.filter_append,
        List.map_append]

theorem mem_complete {allSymbols : List (List CodeSymbol)} {start : String}
    {item : CompletionItem} :
  item ∈ complete allSymbols start
    ↔ (allSymbols.flatMap (candidates start)).find? (fun other => other.label = item.label)
      = some item
  := by
  rw [complete_eq, List.mem_mergeSort, Firsts.mem_firsts_iff]

/-- The labels are sorted, and there are no two of them the same. -/
theorem strict_complete (allSymbols : List (List CodeSymbol)) (start : String) :
  ((complete allSymbols start).map CompletionItem.label).Pairwise (· < ·)
  := by
  have hnodup : ((complete allSymbols start).map CompletionItem.label).Nodup := by
    rw [complete_eq, ((List.mergeSort_perm _ _).map _).nodup_iff]
    apply Firsts.nodup_firsts
  have hsorted : ((complete allSymbols start).map CompletionItem.label).Pairwise (· ≤ ·) := by
    rw [List.pairwise_map]
    apply (pairwise_complete allSymbols start).imp
    intro a b hab
    apply of_decide_eq_true hab
  apply (hsorted.and hnodup).imp
  rintro a b ⟨hle, hne⟩
  apply lt_of_le_of_ne hle hne

/-- The labels are the names, at any depth, that start so. -/
theorem mem_labels_complete {allSymbols : List (List CodeSymbol)} {start label : String} :
  label ∈ (complete allSymbols start).map CompletionItem.label
    ↔ startsWith label start ∧ ∃ sym ∈ allSymbols.flatMap everySymbol, sym.name = label
  := by
  rw [complete_eq, ((List.mergeSort_perm _ _).map _).mem_iff, Firsts.mem_map_firsts_iff,
    flatMap_candidates, List.map_map, List.mem_map]
  constructor
  · rintro ⟨sym, hsym, rfl⟩
    obtain ⟨hsym, hstarts⟩ := List.mem_filter.mp hsym
    exact ⟨hstarts, sym, hsym, rfl⟩
  · rintro ⟨hstarts, sym, hsym, rfl⟩
    exact ⟨sym, List.mem_filter.mpr ⟨hsym, hstarts⟩, rfl⟩

/-- A completion is the first symbol with its name. -/
theorem find?_of_mem_complete {allSymbols : List (List CodeSymbol)} {start : String}
    {item : CompletionItem} (h : item ∈ complete allSymbols start) :
  ((allSymbols.flatMap everySymbol).find? (fun sym => sym.name = item.label)).map
      CodeSymbol.completionItem
    = some item
  := by
  have hstarts := (mem_labels_complete.mp (List.mem_map_of_mem h)).1
  rw [mem_complete, flatMap_candidates, List.find?_map, List.find?_filter] at h
  rw [← h]
  congr 2
  funext sym
  apply decide_eq_decide.mpr
  constructor
  · intro hname
    use hname ▸ hstarts, decide_eq_true hname
  · rintro ⟨-, hname⟩
    apply of_decide_eq_true hname

/-- Completion lists exactly the names, at any depth of any document, that start with the prefix,
in strictly increasing order, each with the kind of the first symbol of this name. -/
theorem complete_exact (allSymbols : List (List CodeSymbol)) (start : String) :
  ((complete allSymbols start).map CompletionItem.label).Pairwise (· < ·)
    ∧ (∀ label, label ∈ (complete allSymbols start).map CompletionItem.label
      ↔ startsWith label start ∧ ∃ sym ∈ allSymbols.flatMap everySymbol, sym.name = label)
    ∧ ∀ item ∈ complete allSymbols start, ∃ sym : CodeSymbol,
      (allSymbols.flatMap everySymbol).find? (fun sym => sym.name = item.label) = some sym
        ∧ item.kind = sym.kind.toString
  := by
  use strict_complete allSymbols start
  constructor
  · intro label
    apply mem_labels_complete
  · intro item hitem
    obtain ⟨sym, hfirst, hsame⟩ := Option.map_eq_some_iff.mp (find?_of_mem_complete hitem)
    use sym, hfirst
    rw [← hsame]
    rfl

/-! ### Runs -/

namespace LspStore

section Runs

variable {treeSitter : TreeSitter} {isAlphanumeric : Char → Bool} {s s' : LspStore} {path : String}
  {line col : UInt32} {prefixOverride : Option String}

/-- The prefix that is completed in a store. -/
def prefixAt (isAlphanumeric : Char → Bool) (s : LspStore) (path : String) (line col : UInt32)
    (prefixOverride : Option String) : String :=
  match prefixOverride with
  | some start => start
  | none =>
      match s.docs.documents.get path with
      | some doc => wordBeforeCursor isAlphanumeric doc.content line col
      | none => ""

theorem get_of_not_poisoned (h : s.docs.poisoned = false) (path : String) :
  s.docs.get path = .ok (s.docs.documents.get path)
  := by
  rw [DocumentStore.get, h]
  rfl

theorem exec_completionPrefix (h : s.docs.poisoned = false) {r : Outcome String String} :
  Program.Exec (LspOp.Step treeSitter)
      (completionPrefix isAlphanumeric path line col prefixOverride).run s r s'
    ↔ r = .ok (s.prefixAt isAlphanumeric path line col prefixOverride) ∧ s' = s
  := by
  cases prefixOverride with
  | some start => exact Program.exec_ret
  | none =>
      have hget {x : Outcome String (Option Document)} {s₁ : LspStore} :
          Program.Exec (LspOp.Step treeSitter) (LspM.docsGet path) s x s₁
            ↔ x = .ok (s.docs.documents.get path) ∧ s₁ = s := by
        rw [← get_of_not_poisoned h]
        exact Program.exec_call
      apply Iff.trans Program.exec_fallible_bind
      rw [prefixAt]
      constructor
      · rintro (⟨found, s₁, hfound, hrest⟩ | ⟨e, -, hfound⟩)
        · obtain ⟨hdoc, rfl⟩ := hget.mp hfound
          cases hdoc
          cases hdoc : s₁.docs.documents.get path with
          | none =>
              rw [hdoc] at hrest
              apply Program.exec_ret.mp hrest
          | some doc =>
              rw [hdoc] at hrest
              apply Program.exec_ret.mp hrest
        · cases (hget.mp hfound).1
      · rintro ⟨rfl, rfl⟩
        refine Or.inl ⟨_, s', hget.mpr ⟨rfl, rfl⟩, ?_⟩
        cases hdoc : s'.docs.documents.get path with
        | none => exact Program.exec_ret.mpr ⟨rfl, rfl⟩
        | some doc => exact Program.exec_ret.mpr ⟨rfl, rfl⟩

/-- Completion answers from the documents in one of their orders. -/
theorem exec_complete (h : s.docs.poisoned = false) {r : Outcome String (List CompletionItem)} :
  Program.Exec (LspOp.Step treeSitter)
      (complete isAlphanumeric path line col prefixOverride).run s r s'
    ↔ s' = s ∧ ∃ docs : List Document, docs.Perm s.docs.documents.values
      ∧ r = .ok (OrchestraRag.complete (docs.map Document.symbols)
        (s.prefixAt isAlphanumeric path line col prefixOverride))
  := by
  apply Iff.trans Program.exec_fallible_bind
  constructor
  · rintro (⟨start, s₁, hstart, hrest⟩ | ⟨e, -, hstart⟩)
    · obtain ⟨hstart, rfl⟩ := (exec_completionPrefix h).mp hstart
      cases hstart
      rcases Program.exec_fallible_bind.mp hrest with ⟨docs, s₂, hdocs, hret⟩ | ⟨e, -, hdocs⟩
      · obtain ⟨hall, rfl⟩ := Program.exec_call.mp hdocs
        obtain ⟨docs', hok, hperm⟩ := hall.ok h
        cases hok
        obtain ⟨rfl, rfl⟩ := Program.exec_ret.mp hret
        exact ⟨rfl, docs, hperm, rfl⟩
      · obtain ⟨hall, -⟩ := Program.exec_call.mp hdocs
        obtain ⟨docs', hok, -⟩ := hall.ok h
        cases hok
    · cases ((exec_completionPrefix h).mp hstart).1
  · rintro ⟨rfl, docs, hperm, rfl⟩
    refine Or.inl ⟨_, s', (exec_completionPrefix h).mpr ⟨rfl, rfl⟩, ?_⟩
    apply Program.exec_fallible_bind.mpr
    refine Or.inl ⟨docs, s', ?_, Program.exec_ret.mpr ⟨rfl, rfl⟩⟩
    apply Program.exec_call.mpr
    refine ⟨?_, rfl⟩
    rw [DocumentStore.AllDocuments, h]
    exact ⟨docs, rfl, hperm⟩

theorem exec_completionPrefix_poisoned (h : s.docs.poisoned = true) {r : Outcome String String}
    (hrun : Program.Exec (LspOp.Step treeSitter)
      (completionPrefix isAlphanumeric path line col none).run s r s') :
  r = .error DocumentStore.lockPoisoned
  := by
  have hpoison : s.docs.get path = .error DocumentStore.lockPoisoned := by
    rw [DocumentStore.get, h]
    rfl
  rcases Program.exec_fallible_bind.mp hrun with ⟨found, s₁, hget, -⟩ | ⟨e, rfl, hget⟩
  · obtain ⟨hfound, -⟩ := Program.exec_call.mp hget
    rw [hpoison] at hfound
    cases hfound
  · obtain ⟨hfound, -⟩ := Program.exec_call.mp hget
    rw [hpoison] at hfound
    cases hfound
    rfl

/-- Under a poisoned lock completion fails. -/
theorem exec_complete_poisoned (h : s.docs.poisoned = true)
    {r : Outcome String (List CompletionItem)}
    (hrun : Program.Exec (LspOp.Step treeSitter)
      (complete isAlphanumeric path line col prefixOverride).run s r s') :
  r = .error DocumentStore.lockPoisoned
  := by
  have hdocs {start : String} {s₁ s₂ : LspStore} (hs : s₁.docs.poisoned = true)
      (hrest : Program.Exec (LspOp.Step treeSitter)
        (LspM.docsAll >>= fun allDocs : List Document =>
          pure (OrchestraRag.complete (allDocs.map Document.symbols) start) :
          LspM (List CompletionItem)) s₁ r s₂) :
      r = .error DocumentStore.lockPoisoned := by
    rcases Program.exec_fallible_bind.mp hrest with ⟨docs, s₃, hall, -⟩ | ⟨e, rfl, hall⟩
    · cases (Program.exec_call.mp hall).1.error hs
    · obtain ⟨herror, -⟩ := Program.exec_call.mp hall
      cases herror.error hs
      rfl
  cases prefixOverride with
  | some start =>
      rcases Program.exec_fallible_bind.mp hrun with ⟨start', s₁, hstart, hrest⟩ | ⟨e, -, hstart⟩
      · obtain ⟨-, rfl⟩ := Program.exec_ret.mp hstart
        apply hdocs h hrest
      · cases (Program.exec_ret.mp hstart).1
  | none =>
      rcases Program.exec_fallible_bind.mp hrun with ⟨start', s₁, hstart, -⟩ | ⟨e, rfl, hstart⟩
      · cases exec_completionPrefix_poisoned h hstart
      · cases exec_completionPrefix_poisoned h hstart
        rfl

end Runs

/-- All runs of completion from a store return the same, in whatever order it yields its
documents. -/
def OrderIndependent (treeSitter : TreeSitter) (isAlphanumeric : Char → Bool) (s : LspStore)
    (path : String) (line col : UInt32) (prefixOverride : Option String) : Prop :=
  ∀ (r r' : Outcome String (List CompletionItem)) (s₁ s₂ : LspStore),
    Program.Exec (LspOp.Step treeSitter)
      (complete isAlphanumeric path line col prefixOverride).run s r s₁ →
    Program.Exec (LspOp.Step treeSitter)
      (complete isAlphanumeric path line col prefixOverride).run s r' s₂ →
    r = r'

/-- The first candidate of a document with a label. -/
def firstCandidate (start label : String) (doc : Document) : Option CompletionItem :=
  (candidates start doc.symbols).find? (fun item => item.label = label)

theorem label_of_firstCandidate {start label : String} {doc : Document} {item : CompletionItem}
    (h : firstCandidate start label doc = some item) :
  item.label = label
  := by
  have hlabel := List.find?_some h
  apply of_decide_eq_true hlabel

/-- The completions of documents tell the first candidate with each label. -/
theorem complete_documents_eq_iff {start : String} {docs docs' : List Document} :
  OrchestraRag.complete (docs.map Document.symbols) start
      = OrchestraRag.complete (docs'.map Document.symbols) start
    ↔ ∀ label, docs.findSome? (firstCandidate start label)
      = docs'.findSome? (firstCandidate start label)
  := by
  rw [complete_eq_iff]
  simp only [List.findSome?_map]
  exact Iff.rfl

/-- Candidates with one label differ in their kinds only. -/
theorem firstCandidate_ext {start label : String} {doc doc' : Document} {item item' : CompletionItem}
    (h : firstCandidate start label doc = some item)
    (h' : firstCandidate start label doc' = some item') (hkind : item.kind = item'.kind) :
  item = item'
  := by
  obtain ⟨itemLabel, itemKind⟩ := item
  obtain ⟨itemLabel', itemKind'⟩ := item'
  obtain rfl : itemLabel = label := label_of_firstCandidate h
  obtain rfl : itemLabel' = itemLabel := label_of_firstCandidate h'
  obtain rfl : itemKind = itemKind' := hkind
  rfl

/-- Completion does not depend on the order of the documents exactly when the lock is poisoned, or
when any two documents in which a label occurs agree on the kind it has first. -/
theorem orderIndependent_iff (treeSitter : TreeSitter) (isAlphanumeric : Char → Bool)
    (s : LspStore) (path : String) (line col : UInt32) (prefixOverride : Option String) :
  OrderIndependent treeSitter isAlphanumeric s path line col prefixOverride
    ↔ s.docs.poisoned = true
      ∨ ∀ doc ∈ s.docs.documents.values, ∀ doc' ∈ s.docs.documents.values,
        ∀ label item item',
        firstCandidate (s.prefixAt isAlphanumeric path line col prefixOverride) label doc
          = some item →
        firstCandidate (s.prefixAt isAlphanumeric path line col prefixOverride) label doc'
          = some item' →
        item.kind = item'.kind
  := by
  cases hpoisoned : s.docs.poisoned with
  | true =>
      simp only [true_or, iff_true]
      intro r r' s₁ s₂ hr hr'
      rw [exec_complete_poisoned hpoisoned hr, exec_complete_poisoned hpoisoned hr']
  | false =>
      simp only [Bool.false_eq_true, false_or]
      constructor
      · intro h doc hdoc doc' hdoc' label item item' hitem hitem'
        have hperms : ∀ docs docs' : List Document, docs.Perm s.docs.documents.values →
            docs'.Perm s.docs.documents.values →
            docs.findSome? (firstCandidate
                (s.prefixAt isAlphanumeric path line col prefixOverride) label)
              = docs'.findSome? (firstCandidate
                (s.prefixAt isAlphanumeric path line col prefixOverride) label) := by
          intro docs docs' hdocs hdocs'
          apply complete_documents_eq_iff.mp
          apply Except.ok.inj
          apply h _ _ s s ((exec_complete hpoisoned).mpr ⟨rfl, docs, hdocs, rfl⟩)
            ((exec_complete hpoisoned).mpr ⟨rfl, docs', hdocs', rfl⟩)
        rw [findSome?_perm_iff.mp hperms doc hdoc doc' hdoc' item item' hitem hitem']
      · intro h r r' s₁ s₂ hr hr'
        obtain ⟨-, docs, hdocs, rfl⟩ := (exec_complete hpoisoned).mp hr
        obtain ⟨-, docs', hdocs', rfl⟩ := (exec_complete hpoisoned).mp hr'
        apply congrArg Except.ok
        apply complete_documents_eq_iff.mpr
        intro label
        refine findSome?_perm_iff.mpr ?_ docs docs' hdocs hdocs'
        intro doc hdoc doc' hdoc' item item' hitem hitem'
        apply firstCandidate_ext hitem hitem'
        apply h doc hdoc doc' hdoc' label item item' hitem hitem'

/-! ### A name of two kinds -/

/-- A Rust document with a struct. -/
def structDocument : Document where
  path := "shape.rs"
  content := "struct Shape;"
  version := 1
  symbols := [.mk "Shape" .struct ⟨0, 0, 0, 13⟩ none []]
  language := some "rust"

/-- A JavaScript document with a class of the same name. -/
def classDocument : Document where
  path := "shape.js"
  content := "class Shape {}"
  version := 1
  symbols := [.mk "Shape" .class_ ⟨0, 0, 0, 14⟩ none []]
  language := some "javascript"

/-- A store in which both are open. -/
def shapes : LspStore where
  docs := ⟨(Documents.empty.insert structDocument).insert classDocument, .new, false⟩
  index := ⟨[], []⟩

/-- `Shape` is completed as a class or as a struct. -/
theorem not_orderIndependent_shapes :
  ¬ OrderIndependent sampleTreeSitter Char.isAlphanum shapes "shape.rs" 0 0 (some "Sh")
  := by
  intro h
  have hsame := h _ _ shapes shapes
    ((exec_complete rfl).mpr ⟨rfl, [classDocument, structDocument], List.Perm.refl _, rfl⟩)
    ((exec_complete rfl).mpr ⟨rfl, [structDocument, classDocument], List.Perm.swap _ _ _, rfl⟩)
  have hfirst := complete_eq_iff.mp (Except.ok.inj hsame) "Shape"
  revert hfirst
  decide

end LspStore

end OrchestraRag
