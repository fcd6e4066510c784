import OrchestraRag.Library.Like
import OrchestraRag.Memory.Tags

/-!
# Keywords

A keyword search matches each keyword of its query, as a pattern, against the content of a memory
and the JSON text of its tags (`keyword_search_matches`).  This finds the memories that contain
the keywords when these have no character that is part of a pattern or of an array, and the tags
none that is escaped.
-/

namespace OrchestraRag

open Sql

/-! ### Occurrences in JSON texts -/

section JsonText

open JsonText

/-- The characters of an array around its strings. -/
def isBracket (c : Char) : Bool :=
  c = '[' ∨ c = ']' ∨ c = ',' ∨ c = '\x22'

theorem foldCase_notMem {word : List Char} (h : ∀ c ∈ word, ¬ isBracket c) {d : Char}
    (hd : isBracket d) :
  d ∉ word.map foldCase
  := by
  intro hmem
  obtain ⟨c, hc, hfold⟩ := List.mem_map.mp hmem
  have hcode : d.toNat < 97 := by
    rw [isBracket, decide_eq_true_iff] at hd
    rcases hd with rfl | rfl | rfl | rfl
    all_goals decide
  obtain rfl := eq_of_foldCase_eq (Or.inl hcode) hfold
  apply h c hc hd

variable {word : List Char} (hne : word ≠ []) (hword : ∀ c ∈ word, ¬ isBracket c)

include hne hword

/-- A word occurs in a quoted string exactly if it occurs in the string, or after it. -/
theorem occursIn_encodeString_iff {text : String} (htext : ∀ c ∈ text.toList, IsUnescaped c)
    (rest : List Char) :
  OccursIn word (encodeString text ++ rest) ↔ OccursIn word text.toList ∨ OccursIn word rest
  := by
  have hquote := foldCase_notMem hword (d := '\x22') (by decide)
  have hchars : (encodeString text ++ rest).map foldCase
      = '\x22' :: (text.toList.map foldCase ++ '\x22' :: rest.map foldCase) := by
    rw [encodeString_of_unescaped htext, List.append_assoc, List.cons_append, List.map_cons,
      List.map_append]
    rfl
  rw [OccursIn, hchars, isInfix_cons_iff_of_notMem hquote (List.map_eq_nil_iff.not.mpr hne),
    isInfix_append_cons_iff hquote]
  rfl

theorem occursIn_cons_iff {d : Char} (hd : isBracket d) (rest : List Char) :
  OccursIn word (d :: rest) ↔ OccursIn word rest
  := by
  have hfold : foldCase d = d := by
    rw [isBracket, decide_eq_true_iff] at hd
    rcases hd with rfl | rfl | rfl | rfl
    all_goals decide
  rw [OccursIn, List.map_cons, hfold, isInfix_cons_iff_of_notMem (foldCase_notMem hword hd)
    (List.map_eq_nil_iff.not.mpr hne)]
  rfl

omit hword in
theorem not_occurs_nil :
  ¬ OccursIn word []
  := by
  intro hoccurs
  apply hne (List.map_eq_nil_iff.mp (List.infix_nil.mp hoccurs))

theorem occursIn_encodeMore_iff {texts : List String}
    (htexts : ∀ text ∈ texts, ∀ c ∈ text.toList, IsUnescaped c) :
  OccursIn word (encodeMore texts) ↔ ∃ text ∈ texts, OccursIn word text.toList
  := by
  induction texts with
  | nil =>
      rw [encodeMore, occursIn_cons_iff hne hword (by decide)]
      apply iff_of_false (not_occurs_nil hne)
      rintro ⟨text, ⟨⟩, -⟩
  | cons text texts ih =>
      obtain ⟨htext, htexts⟩ := List.forall_mem_cons.mp htexts
      rw [encodeMore, List.cons_append, occursIn_cons_iff hne hword (by decide),
        occursIn_encodeString_iff hne hword htext, ih htexts, List.exists_mem_cons_iff]

/-- A word occurs in an array exactly if it occurs in one of its strings. -/
theorem occursIn_encodeStrings_iff {texts : List String}
    (htexts : ∀ text ∈ texts, ∀ c ∈ text.toList, IsUnescaped c) :
  OccursIn word (encodeStrings texts).toList ↔ ∃ text ∈ texts, OccursIn word text.toList
  := by
  cases texts with
  | nil =>
      have hchars : (encodeStrings []).toList = ['[', ']'] := rfl
      rw [hchars, occursIn_cons_iff hne hword (by decide), occursIn_cons_iff hne hword (by decide)]
      apply iff_of_false (not_occurs_nil hne)
      rintro ⟨text, ⟨⟩, -⟩
  | cons text texts =>
      obtain ⟨htext, htexts⟩ := List.forall_mem_cons.mp htexts
      rw [encodeStrings, String.toList_ofList, List.cons_append,
        occursIn_cons_iff hne hword (by decide), occursIn_encodeString_iff hne hword htext,
        occursIn_encodeMore_iff hne hword htexts, List.exists_mem_cons_iff]

end JsonText

/-! ### What a memory matches -/

namespace Memory

variable (mem : Memory)

/-- The memory is in the project and, if one is given, the category. -/
def isIn (project : String) (category : Option String) : Bool :=
  match category with
  | some category => mem.project = project ∧ mem.category = category
  | none => mem.project = project

/-- The pattern around the keyword matches the content or the JSON text of the tags. -/
def matchesKeyword (keyword : String) : Bool :=
  like (around keyword) mem.content || like (around keyword) (TagCodec.json.toText mem.tags)

/-- The keyword occurs in the content or in one of the tags, in either case. -/
def containsKeyword (keyword : String) : Bool :=
  OccursIn keyword.toList mem.content.toList
    ∨ ∃ tag ∈ mem.tags, OccursIn keyword.toList tag.toList

/-- A keyword too long for a pattern is compared with the memory, which matches those before it. -/
def Rejects : List String → Prop
  | [] => False
  | keyword :: keywords =>
      maxLikePatternLength < (around keyword).utf8ByteSize
        ∨ mem.matchesKeyword keyword ∧ Rejects keywords

theorem rowMatches_cons (keyword : String) (keywords : List String)
    (h : ¬ maxLikePatternLength < (around keyword).utf8ByteSize) :
  MemoryTables.rowMatches mem.toRow (keyword :: keywords)
    = if mem.matchesKeyword keyword then MemoryTables.rowMatches mem.toRow keywords
      else .ok false
  := by
  have hlike : ∀ text, likeOrFail (around keyword) text = .ok (like (around keyword) text) :=
    fun text => if_neg h
  have htags : mem.toRow.tags.map (likeOrFail (around keyword))
      = some (.ok (like (around keyword) (TagCodec.json.toText mem.tags))) :=
    congrArg some (hlike _)
  have hcontent : likeOrFail (around keyword) mem.toRow.content
      = .ok (like (around keyword) mem.content) := hlike _
  rw [MemoryTables.rowMatches, matchesKeyword]
  cases hmatch : like (around keyword) mem.content with
  | true =>
      rw [hmatch] at hcontent
      simp only [← around.eq_1, hcontent]
      rfl
  | false =>
      rw [hmatch] at hcontent
      cases hmatchTags : like (around keyword) (TagCodec.json.toText mem.tags) with
      | true =>
          rw [hmatchTags] at htags
          simp only [← around.eq_1, hcontent, htags]
          rfl
      | false =>
          rw [hmatchTags] at htags
          simp only [← around.eq_1, hcontent, htags]
          rfl

theorem rowMatches_cons_long (keyword : String) (keywords : List String)
    (h : maxLikePatternLength < (around keyword).utf8ByteSize) :
  MemoryTables.rowMatches mem.toRow (keyword :: keywords) = .error patternTooComplex
  := by
  have hlike : likeOrFail (around keyword) mem.toRow.content = .error patternTooComplex := if_pos h
  rw [MemoryTables.rowMatches]
  simp only [← around.eq_1, hlike]

/-- The row of a memory fails the query or tells whether the memory matches all keywords. -/
theorem rowMatches_toRow (keywords : List String) :
  (mem.Rejects keywords ∧ MemoryTables.rowMatches mem.toRow keywords = .error patternTooComplex)
    ∨ (¬ mem.Rejects keywords
      ∧ MemoryTables.rowMatches mem.toRow keywords = .ok (keywords.all mem.matchesKeyword))
  := by
  induction keywords with
  | nil => exact Or.inr ⟨not_false, rfl⟩
  | cons keyword keywords ih =>
      by_cases hlong : maxLikePatternLength < (around keyword).utf8ByteSize
      · exact Or.inl ⟨Or.inl hlong, rowMatches_cons_long mem keyword keywords hlong⟩
      · rw [rowMatches_cons mem keyword keywords hlong, Rejects, List.all_cons]
        cases mem.matchesKeyword keyword with
        | false =>
            apply Or.inr
            simp [hlong]
        | true =>
            rw [if_pos rfl, Bool.true_and]
            apply ih.imp
            · exact fun h => ⟨Or.inr ⟨rfl, h.1⟩, h.2⟩
            · exact fun h => ⟨fun hrejects => h.1 (hrejects.resolve_left hlong).2, h.2⟩

/-! ### Plain keywords and memories -/

/-- The keyword has no character that is part of a pattern or of an array. -/
def IsPlain (keyword : String) : Prop :=
  ∀ c ∈ keyword.toList, ¬ IsLikeSpecial c ∧ ¬ isBracket c

/-- The content is read to its end, and the tags are written as they are. -/
structure Plain (mem : Memory) : Prop where
  content : '\x00' ∉ mem.content.toList
  tags : ∀ tag ∈ mem.tags, ∀ c ∈ tag.toList, JsonText.IsUnescaped c

variable {mem}

/-- A plain keyword matches the plain memories that contain it. -/
theorem Plain.matchesKeyword_eq (h : mem.Plain) {keyword : String} (hkeyword : IsPlain keyword)
    (hne : keyword.toList ≠ []) :
  mem.matchesKeyword keyword = mem.containsKeyword keyword
  := by
  have hspecial : ∀ c ∈ keyword.toList, ¬ IsLikeSpecial c := fun c hc => (hkeyword c hc).1
  have hbracket : ∀ c ∈ keyword.toList, ¬ isBracket c := fun c hc => (hkeyword c hc).2
  have hnul : '\x00' ∉ (TagCodec.json.toText mem.tags).toList := by
    intro hmem
    apply absurd (JsonText.toNat_of_mem_encodeStrings hmem)
    decide
  rw [Bool.eq_iff_iff, matchesKeyword, containsKeyword, Bool.or_eq_true, decide_eq_true_iff,
    like_around_iff hspecial h.content, like_around_iff hspecial hnul]
  apply or_congr_right
  apply occursIn_encodeStrings_iff hne hbracket h.tags

end Memory

/-! ### The search -/

/-- A parameter from `2 ^ 63` on becomes negative, which is no limit. -/
theorem limit_asI64 {ρ : Type} (limit : UInt64) (rows : List ρ) :
  Sql.limit (asI64 limit.toNat) rows
    = if limit.toNat < 2 ^ 63 then rows.take limit.toNat else rows
  := by
  have hsize : limit.toNat < 2 ^ 64 := limit.toNat_lt
  have hmod : (limit.toNat : ℤ) % 2 ^ 64 = limit.toNat := by omega
  have hcast := asI64_eq limit.toNat
  rw [hmod] at hcast
  by_cases hlimit : limit.toNat < 2 ^ 63
  · rw [if_pos (by omega)] at hcast
    rw [Sql.limit, hcast, if_neg (by omega), if_pos hlimit, Int.toNat_natCast]
  · rw [if_neg (by omega)] at hcast
    rw [Sql.limit, hcast, if_pos (by omega), if_neg hlimit]

theorem asI64_eq_zero_iff (limit : UInt64) :
  asI64 limit.toNat = 0 ↔ limit = 0
  := by
  have hsize : limit.toNat < 2 ^ 64 := limit.toNat_lt
  have hzero : limit = 0 ↔ limit.toNat = 0 := UInt64.toNat_inj.symm
  rw [hzero, asI64_eq]
  split
  · omega
  · omega

/-- The first of the memories that satisfy a condition, the last updated ones first; a limit from
`2 ^ 63` on is none. -/
def Memory.FirstOf (matching : Memory → Bool) (limit : UInt64) (memories found : List Memory) :
    Prop :=
  ∃ sorted : List Memory, sorted.Perm (memories.filter matching)
    ∧ sorted.Pairwise (fun a b => b.updatedAt ≤ a.updatedAt)
    ∧ found = if limit.toNat < 2 ^ 63 then sorted.take limit.toNat else sorted

theorem Memory.FirstOf.congr {matching matching' : Memory → Bool} {limit : UInt64}
    {memories found : List Memory} (h : Memory.FirstOf matching limit memories found)
    (hsame : ∀ mem ∈ memories, matching mem = matching' mem) :
  Memory.FirstOf matching' limit memories found
  := by
  obtain ⟨sorted, hperm, hsorted, hfound⟩ := h
  rw [List.filter_congr hsame] at hperm
  exact ⟨sorted, hperm, hsorted, hfound⟩

theorem toList_ne_nil_of_mem_splitWhitespace {keyword query : String}
    (h : keyword ∈ splitWhitespace query) :
  keyword.toList ≠ []
  := by
  obtain ⟨word, hword, rfl⟩ := List.mem_map.mp h
  rw [String.toList_ofList]
  apply of_decide_eq_true (List.mem_filter.mp hword).2

namespace MemoryTables

variable {tables : MemoryTables} {memories : List Memory} {scan : Scan MemoryRow}
  {project query : String} {category : Option String} {limit : ℕ}

/-- A query without keywords selects all memories. -/
theorem keywordRows_eq_matchingRows :
  tables.keywordRows scan project query category limit
    = tables.matchingRows scan project (splitWhitespace query) category limit
  := by
  rw [keywordRows]
  split
  case isTrue hempty =>
      rw [List.isEmpty_iff.mp hempty, matchingRows, recentRows]
      simp only [rowMatches, Except.isOk, Except.toBool, Except.toOption, decide_true,
        List.filter_true]
      split
      case isTrue hlimit => rw [hlimit, limit_zero]
      case isFalse => rw [if_pos (List.all_eq_true.mpr (fun _ _ => rfl))]
  case isFalse => rfl

theorem projectMemories_toRow (hrows : tables.memories = memories.map Memory.toRow) :
  tables.projectMemories project category
    = (memories.filter (fun mem => mem.isIn project category)).map Memory.toRow
  := by
  cases category with
  | none =>
      rw [projectMemories, hrows, List.filter_map]
      rfl
  | some category =>
      rw [projectMemories, hrows, List.filter_map]
      rfl

variable {keywords : List String} (hrows : tables.memories = memories.map Memory.toRow)

include hrows

theorem matchingRows_of_rejects (hlimit : asI64 limit ≠ 0)
    (h : ∃ mem ∈ memories, mem.isIn project category ∧ mem.Rejects keywords) :
  tables.matchingRows scan project keywords category limit = .error patternTooComplex
  := by
  obtain ⟨mem, hmem, hin, hrejects⟩ := h
  rw [matchingRows, projectMemories_toRow hrows, if_neg hlimit, if_neg]
  intro hall
  have hok := List.all_eq_true.mp hall mem.toRow
    (List.mem_map_of_mem (List.mem_filter.mpr ⟨hmem, hin⟩))
  rcases mem.rowMatches_toRow keywords with ⟨-, herror⟩ | ⟨hnot, -⟩
  · rw [herror] at hok
    cases hok
  · apply hnot hrejects

theorem matchingRows_of_not_rejects
    (h : asI64 limit = 0
      ∨ ∀ mem ∈ memories, mem.isIn project category → ¬ mem.Rejects keywords) :
  tables.matchingRows scan project keywords category limit
    = .ok (Sql.limit (asI64 limit) (scan.orderBy byUpdatedAt ((memories.filter (fun mem =>
      mem.isIn project category && keywords.all mem.matchesKeyword)).map Memory.toRow)))
  := by
  by_cases hlimit : asI64 limit = 0
  · rw [matchingRows, if_pos hlimit, hlimit, limit_zero]
  replace h := h.resolve_left hlimit
  have hmatches : ∀ mem ∈ memories, mem.isIn project category →
      rowMatches mem.toRow keywords = .ok (keywords.all mem.matchesKeyword) := by
    intro mem hmem hin
    apply ((mem.rowMatches_toRow keywords).resolve_left _).2
    rintro ⟨hrejects, -⟩
    apply h mem hmem hin hrejects
  have hfilter : (((memories.filter (fun mem => mem.isIn project category)).map
      Memory.toRow).filter (fun row => (rowMatches row keywords).toOption = some true))
      = (memories.filter (fun mem =>
        mem.isIn project category && keywords.all mem.matchesKeyword)).map Memory.toRow := by
    rw [List.filter_map, List.filter_filter]
    apply congrArg
    apply List.filter_congr
    intro mem hmem
    cases hin : mem.isIn project category with
    | false => rw [Bool.and_false, Bool.false_and]
    | true =>
        rw [Bool.and_true, Bool.true_and, Function.comp_apply, hmatches mem hmem hin]
        cases keywords.all mem.matchesKeyword with
        | false => rfl
        | true => rfl
  rw [matchingRows, projectMemories_toRow hrows, if_neg hlimit, if_pos, hfilter]
  rw [List.all_eq_true]
  intro row hrow
  obtain ⟨mem, hmem, rfl⟩ := List.mem_map.mp hrow
  obtain ⟨hmem, hin⟩ := List.mem_filter.mp hmem
  rw [hmatches mem hmem hin]
  rfl

end MemoryTables

section Search

variable {s : MemoryState} (h : s.db.Reliable) {memories : List Memory}
  (hrows : s.db.tables.memories = memories.map Memory.toRow) (scan : Scan MemoryRow)
  (project query : String) (category : Option String) (limit : UInt64)

/-- The rows found by a query are read as the first of the memories it selects. -/
theorem firstOf_orderBy (matching : Memory → Bool) :
  Memory.FirstOf matching limit memories
    ((Sql.limit (asI64 limit.toNat) (scan.orderBy MemoryTables.byUpdatedAt
      ((memories.filter matching).map Memory.toRow))).map (memoryFromRow TagCodec.json))
  := by
  let rows := (memories.filter matching).map Memory.toRow
  have hperm := (scan.perm_orderBy MemoryTables.byUpdatedAt rows).map (memoryFromRow TagCodec.json)
  have hread : rows.map (memoryFromRow TagCodec.json) = memories.filter matching := by
    rw [List.map_map]
    apply List.map_id''
    apply memoryFromRow_toRow
  rw [hread] at hperm
  use (scan.orderBy MemoryTables.byUpdatedAt rows).map (memoryFromRow TagCodec.json), hperm
  constructor
  · apply List.pairwise_map.mpr (MemoryTables.pairwise_byUpdatedAt scan rows)
  · rw [limit_asI64, apply_ite (List.map (memoryFromRow TagCodec.json)), List.map_take]

include h hrows

end Search

/-! ### Notes found by a keyword -/

/-- The state after memories were saved. -/
def memoriesSaved (memories : List Memory) : MemoryState :=
  ⟨⟨{ MemoryTables.empty with memories := memories.map Memory.toRow }, []⟩,
    (memories.map Memory.id).reverse⟩

def taggedNote (content : String) (tags : List String) : Memory :=
  ⟨"m1", "alpha", "notes", content, tags, "", ""⟩

/-- A search returns the first of the memories that contain each keyword. -/
def SearchContains (memories : List Memory) (query : String) : Prop :=
  ∃ found, MemoryM.Reads (memoriesSaved memories)
      (MemoryStorage.searchMemoriesKeyword Scan.inserted TagCodec.json "alpha" query none
        (10 : UInt64).toNat) (.ok found)
    ∧ Memory.FirstOf (fun mem => mem.isIn "alpha" none
      && (splitWhitespace query).all mem.containsKeyword) 10 memories found

/-- There is no choice among the memories that satisfy a condition when there is one memory. -/
theorem Memory.FirstOf.eq_filter {matching : Memory → Bool} {mem : Memory} {found : List Memory}
    (h : Memory.FirstOf matching 10 [mem] found) :
  found = [mem].filter matching
  := by
  obtain ⟨sorted, hperm, -, hfound⟩ := h
  have hlimit : (10 : UInt64).toNat = 10 := rfl
  rw [hlimit, if_pos (by decide)] at hfound
  rw [List.filter_singleton] at hperm ⊢
  cases hmatching : matching mem with
  | true =>
      rw [hmatching] at hperm
      rw [hfound, List.perm_singleton.mp hperm]
      rfl
  | false =>
      rw [hmatching] at hperm
      rw [hfound, List.perm_nil.mp hperm]
      rfl

/-- A note that matches and does not contain the keywords is found. -/
theorem not_searchContains_of_matches {mem : Memory} {query : String}
    (hmatches : mem.isIn "alpha" none && (splitWhitespace query).all mem.matchesKeyword)
    (hcontains : (splitWhitespace query).all mem.containsKeyword = false)
    (hrejects : ¬ mem.Rejects (splitWhitespace query)) :
  ¬ SearchContains [mem] query
  := by
  rintro ⟨found, hreads, hfirst⟩
  have hfound := hfirst.eq_filter
  have hreliable : (memoriesSaved [mem]).db.Reliable := rfl
  have hmatching := MemoryStorage.reads_searchMemoriesKeyword Scan.inserted TagCodec.json hreliable
    "alpha" query none (10 : UInt64).toNat
  rw [MemoryTables.keywordRows_eq_matchingRows,
    @MemoryTables.matchingRows_of_not_rejects _ [mem] _ _ _ _ _ rfl] at hmatching
  · have hsame := Except.ok.inj ((hreads _ _).mp ((hmatching _ _).mpr ⟨rfl, rfl⟩)).1
    have hall := (@firstOf_orderBy [mem] Scan.inserted 10 (fun mem => mem.isIn "alpha" none
      && (splitWhitespace query).all mem.matchesKeyword)).eq_filter
    rw [hsame, hfound, List.filter_singleton, List.filter_singleton, hmatches, hcontains,
      Bool.and_false] at hall
    cases hall
  · apply Or.inr
    intro other hother _
    rw [List.mem_singleton.mp hother]
    apply hrejects

/-- A search fails when a keyword is too long for a pattern. -/
theorem not_searchContains_of_rejects {mem : Memory} {query : String}
    (hin : mem.isIn "alpha" none) (hrejects : mem.Rejects (splitWhitespace query)) :
  ¬ SearchContains [mem] query
  := by
  rintro ⟨found, hreads, -⟩
  have hreliable : (memoriesSaved [mem]).db.Reliable := rfl
  have herror := MemoryStorage.reads_searchMemoriesKeyword Scan.inserted TagCodec.json hreliable
    "alpha" query none (10 : UInt64).toNat
  have hlimit : asI64 (10 : UInt64).toNat ≠ 0 := by decide
  rw [MemoryTables.keywordRows_eq_matchingRows, @MemoryTables.matchingRows_of_rejects _ [mem] _ _ _
    _ _ rfl hlimit ⟨mem, List.mem_cons_self, hin, hrejects⟩] at herror
  cases ((hreads _ _).mp ((herror _ _).mpr ⟨rfl, rfl⟩)).1

theorem splitWhitespace_longWord {n : ℕ} (h : n ≠ 0) :
  splitWhitespace (longWord n) = [longWord n]
  := by
  have hword : List.replicate n 'a' ≠ [] := by
    rw [ne_eq, List.replicate_eq_nil_iff]
    apply h
  rw [splitWhitespace, longWord, String.toList_ofList, List.splitOnP_eq_singleton,
    List.filter_singleton, decide_eq_true hword]
  · rfl
  · intro c hc
    rw [List.eq_of_mem_replicate hc]
    decide

/-- A word that is too long for a pattern fails the query. -/
theorem not_searchContains_longWord {mem : Memory} (hin : mem.isIn "alpha" none) {n : ℕ}
    (h : 49998 < n) :
  ¬ SearchContains [mem] (longWord n)
  := by
  apply not_searchContains_of_rejects hin
  rw [splitWhitespace_longWord (by omega), Memory.Rejects]
  apply Or.inl (lt_around_longWord h)

end OrchestraRag
