import OrchestraRag.Parser.Symbols

/-!
# Forests of symbols

Extraction gives a forest: a list of symbols, each with the symbols nested in it.  `everySymbol`
lists all of them, a symbol before those nested in it.
-/

namespace OrchestraRag

mutual

/-- A symbol and the symbols nested in it, at any depth. -/
def CodeSymbol.subtree : CodeSymbol → List CodeSymbol
  | .mk name kind range detail children =>
      .mk name kind range detail children :: everySymbol children

/-- The symbols of a forest, at any depth. -/
def everySymbol : List CodeSymbol → List CodeSymbol
  | [] => []
  | sym :: symbols => sym.subtree ++ everySymbol symbols

end

theorem CodeSymbol.subtree_eq_cons (sym : CodeSymbol) :
  sym.subtree = sym :: everySymbol sym.children
  := by
  obtain ⟨name, kind, range, detail, children⟩ := sym
  rw [subtree]
  rfl

theorem everySymbol_eq_flatMap (symbols : List CodeSymbol) :
  everySymbol symbols = symbols.flatMap CodeSymbol.subtree
  := by
  induction symbols with
  | nil => rfl
  | cons sym symbols ih =>
      rw [everySymbol, ih]
      rfl

theorem everySymbol_append (symbols symbols' : List CodeSymbol) :
  everySymbol (symbols ++ symbols') = everySymbol symbols ++ everySymbol symbols'
  := by
  rw [everySymbol_eq_flatMap, List.flatMap_append, ← everySymbol_eq_flatMap,
    ← everySymbol_eq_flatMap]

theorem mem_everySymbol {symbols : List CodeSymbol} {sym : CodeSymbol} :
  sym ∈ everySymbol symbols ↔ ∃ root ∈ symbols, sym ∈ root.subtree
  := by
  rw [everySymbol_eq_flatMap]
  apply List.mem_flatMap

/-- There are as many symbols as trees exactly when no symbol is nested in another. -/
theorem length_everySymbol_eq_iff (symbols : List CodeSymbol) :
  (everySymbol symbols).length = symbols.length ↔ ∀ sym ∈ symbols, sym.children = []
  := by
  have hle (symbols : List CodeSymbol) : symbols.length ≤ (everySymbol symbols).length := by
    induction symbols with
    | nil => apply le_rfl
    | cons sym symbols ih =>
        rw [everySymbol, List.length_append, sym.subtree_eq_cons, List.length_cons,
          List.length_cons]
        omega
  induction symbols with
  | nil =>
      apply iff_of_true rfl
      rintro sym ⟨⟩
  | cons sym symbols ih =>
      have hchildren : (everySymbol sym.children).length = 0 ↔ sym.children = [] := by
        rw [List.length_eq_zero_iff]
        constructor
        · intro hnone
          have hlength := hle sym.children
          rw [hnone, List.length_nil, Nat.le_zero, List.length_eq_zero_iff] at hlength
          apply hlength
        · intro hnone
          rw [hnone]
          rfl
      have hsymbols := hle symbols
      rw [List.forall_mem_cons]
      apply Iff.trans _ (and_congr hchildren ih)
      rw [everySymbol, List.length_append, sym.subtree_eq_cons, List.length_cons, List.length_cons]
      omega

end OrchestraRag
