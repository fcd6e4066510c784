import Mathlib.Data.List.Dedup
import OrchestraRag.Library.Utf8
import OrchestraRag.Memory.Tables

/-!
# Memories

The calls of `MemoryStorage`.  What a call that reads finds is a function of the tables, named
after it (`MemoryTables.keywordRows` and so on).
-/

namespace OrchestraRag

open Sql

/-- How a list of tags is written as JSON text and read from it. -/
structure TagCodec where
  toText : List String → String
  fromText : String → Option (List String)

/-- A single memory record. -/
structure Memory where
  id : String
  project : String
  category : String
  content : String
  tags : List String
  createdAt : String
  updatedAt : String
  deriving DecidableEq

/-- Parse a memory from a row; tags that cannot be read are none. -/
def memoryFromRow (codec : TagCodec) (row : MemoryRow) : Memory where
  id := row.id
  project := row.project
  category := row.category
  content := row.content
  tags := (row.tags.bind codec.fromText).getD []
  createdAt := row.createdAt
  updatedAt := row.updatedAt

/-- The parts of a text between white space. -/
def splitWhitespace (text : String) : List String :=
  ((text.toList.splitOnP Utf8.isWhitespace).filter (fun word => word ≠ [])).map String.ofList

/-! ### What the queries find -/

namespace MemoryTables

variable (scan : Scan MemoryRow)

/-- The memories of a project, in a category if one is given. -/
def projectMemories (project : String) (category : Option String) (tables : MemoryTables) :
    List MemoryRow :=
  match category with
  | some category =>
      tables.memories.filter (fun row => row.project = project ∧ row.category = category)
  | none => tables.memories.filter (fun row => row.project = project)

/-- `ORDER BY created_at DESC`. -/
def byCreatedAt (a b : MemoryRow) : Bool :=
  b.createdAt ≤ a.createdAt

/-- `ORDER BY updated_at DESC`. -/
def byUpdatedAt (a b : MemoryRow) : Bool :=
  b.updatedAt ≤ a.updatedAt

theorem pairwise_byUpdatedAt (rows : List MemoryRow) :
  (scan.orderBy byUpdatedAt rows).Pairwise (fun a b => b.updatedAt ≤ a.updatedAt)
  := by
  apply Scan.pairwise_orderBy_rel
  · intro a b c hab hbc
    apply String.le_trans hbc hab
  · intro a b
    apply String.le_total

/-- The memory with an id. -/
def memoryRow (id : String) (tables : MemoryTables) : Option MemoryRow :=
  (scan.order (tables.memories.filter (fun row => row.id = id))).head?

/-- The memories of a project, the last created ones first. -/
def listRows (project : String) (category : Option String) (tables : MemoryTables) :
    List MemoryRow :=
  scan.orderBy byCreatedAt (tables.projectMemories project category)

/-- A page of the memories of a project. -/
def pageRows (project : String) (category : Option String) (limit offset : ℕ)
    (tables : MemoryTables) : List MemoryRow :=
  Sql.limit (asI64 limit) (Sql.offset (asI64 offset)
    (scan.orderBy byCreatedAt (tables.projectMemories project category)))

/-- The number of memories of a project in each of its categories. -/
def categoryCounts (project : String) (tables : MemoryTables) : List (String × ℕ) :=
  let categories := (tables.projectMemories project none).map MemoryRow.category
  (categories.dedup.mergeSort (fun a b => a ≤ b)).map (fun category =>
    (category, categories.count category))

/-- The memories of a project, the last updated ones first. -/
def recentRows (project : String) (category : Option String) (limit : ℕ)
    (tables : MemoryTables) : List MemoryRow :=
  Sql.limit (asI64 limit) (scan.orderBy byUpdatedAt (tables.projectMemories project category))

/-- Whether every keyword matches the content or the tags of a row. -/
def rowMatches (row : MemoryRow) : List String → Except String Bool
  | [] => .ok true
  | keyword :: keywords =>
      let pattern := "%" ++ keyword ++ "%"
      match likeOrFail pattern row.content, row.tags.map (likeOrFail pattern) with
      | .error e, _ => .error e
      | .ok true, _ => rowMatches row keywords
      | .ok false, some (.error e) => .error e
      | .ok false, some (.ok true) => rowMatches row keywords
      | .ok false, _ => .ok false

/-- The matching memories of a project, the last updated ones first; the query fails when it
fails on a row. -/
def matchingRows (project : String) (keywords : List String) (category : Option String)
    (limit : ℕ) (tables : MemoryTables) : Except String (List MemoryRow) :=
  let rows := tables.projectMemories project category
  -- A limit of zero ends the query before it looks at a row.
  if asI64 limit = 0
  then .ok []
  else if rows.all (fun row => (rowMatches row keywords).isOk)
  then .ok (Sql.limit (asI64 limit) (scan.orderBy byUpdatedAt
    (rows.filter (fun row => (rowMatches row keywords).toOption = some true))))
  else .error patternTooComplex

/-- The memories that a keyword search finds, or the error of its query. -/
def keywordRows (project query : String) (category : Option String) (limit : ℕ)
    (tables : MemoryTables) : Except String (List MemoryRow) :=
  let keywords := splitWhitespace query
  if keywords.isEmpty then .ok (tables.recentRows scan project category limit)
  else tables.matchingRows scan project keywords category limit

variable {scan} {tables : MemoryTables} {project : String} {category : Option String}

theorem projectMemories_sublist :
  (tables.projectMemories project category).Sublist tables.memories
  := by
  cases category with
  | some category => apply List.filter_sublist
  | none => apply List.filter_sublist

/-- A keyword search selects rows of the table and takes the last updated ones. -/
theorem keywordRows_eq_limit {query : String} {limit : ℕ} {rows : List MemoryRow}
    (h : tables.keywordRows scan project query category limit = .ok rows) :
  ∃ selected : List MemoryRow, selected.Sublist tables.memories
    ∧ rows = Sql.limit (asI64 limit) (scan.orderBy byUpdatedAt selected)
  := by
  rw [keywordRows] at h
  split at h
  · exact ⟨_, projectMemories_sublist, (Except.ok.inj h).symm⟩
  · rw [matchingRows] at h
    split at h
    next hlimit =>
      use [], List.nil_sublist _
      rw [hlimit, limit_zero]
      apply (Except.ok.inj h).symm
    next =>
      split at h
      · exact ⟨_, List.filter_sublist.trans projectMemories_sublist, (Except.ok.inj h).symm⟩
      · cases h

end MemoryTables

/-! ### Calls -/

namespace MemoryStorage

section Calls

variable (scan : Scan MemoryRow) (codec : TagCodec)

/-- Save a new memory; returns its UUID. -/
def saveMemory (project category content : String) (tags : List String) : MemoryM String := do
  let id ← MemoryM.uuid
  let now ← MemoryM.now
  MemoryM.withConnection (Connection.statement (MemoryTables.insertMemory
    { id, project, category, content, tags := some (codec.toText tags), createdAt := now,
      updatedAt := now }))
  pure id

/-- Retrieve a memory by its id. -/
def getMemory (id : String) : MemoryM (Option Memory) :=
  MemoryM.withConnection (Connection.query fun tables =>
    (tables.memoryRow scan id).map (memoryFromRow codec))

/-- Update a memory's content and tags. -/
def updateMemory (id content : String) (tags : List String) : MemoryM Unit := do
  let now ← MemoryM.now
  let update (row : MemoryRow) : MemoryRow :=
    if row.id = id
    then { row with content := content, tags := some (codec.toText tags), updatedAt := now }
    else row
  MemoryM.withConnection (Connection.execute fun tables =>
    { tables with memories := tables.memories.map update })

/-- Delete a memory by its id. -/
def deleteMemory (id : String) : MemoryM Unit :=
  MemoryM.withConnection (Connection.execute fun tables =>
    { tables with memories := tables.memories.filter (fun row => row.id ≠ id) })

/-- List all memories for a project, optionally filtered by category. -/
def listMemories (project : String) (category : Option String) : MemoryM (List Memory) :=
  MemoryM.withConnection (Connection.query fun tables =>
    (tables.listRows scan project category).map (memoryFromRow codec))

/-- List memories for a project with pagination, optionally filtered by category. -/
def listMemoriesPaginated (project : String) (category : Option String) (limit offset : ℕ) :
    MemoryM (List Memory) :=
  MemoryM.withConnection (Connection.query fun tables =>
    (tables.pageRows scan project category limit offset).map (memoryFromRow codec))

/-- Count memories grouped by category for a project. -/
def countByCategory (project : String) : MemoryM (List (String × ℕ)) :=
  MemoryM.withConnection (Connection.query fun tables => tables.categoryCounts project)

/-- Get the most recent memories for a project. -/
def recentMemories (project : String) (limit : ℕ) : MemoryM (List Memory) :=
  listMemoriesPaginated scan codec project none limit 0

/-- Keyword search across memories. -/
def searchMemoriesKeyword (project query : String) (category : Option String) (limit : ℕ) :
    MemoryM (List Memory) :=
  let keywords := splitWhitespace query
  if keywords.isEmpty
  then MemoryM.withConnection (Connection.query fun tables =>
    (tables.recentRows scan project category limit).map (memoryFromRow codec))
  else MemoryM.withConnection (Connection.select fun tables =>
    (tables.matchingRows scan project keywords category limit).map
      (List.map (memoryFromRow codec)))

/-! ### Reading calls -/

variable {s : MemoryState} (h : s.db.Reliable)

include h

theorem reads_getMemory (id : String) :
  MemoryM.Reads s (getMemory scan codec id)
    (.ok ((s.db.tables.memoryRow scan id).map (memoryFromRow codec)))
  := MemoryM.reads_query h _

theorem reads_listMemoriesPaginated (project : String) (category : Option String)
    (limit offset : ℕ) :
  MemoryM.Reads s (listMemoriesPaginated scan codec project category limit offset)
    (.ok ((s.db.tables.pageRows scan project category limit offset).map (memoryFromRow codec)))
  := MemoryM.reads_query h _

theorem reads_countByCategory (project : String) :
  MemoryM.Reads s (countByCategory project) (.ok (s.db.tables.categoryCounts project))
  := MemoryM.reads_query h _

theorem reads_searchMemoriesKeyword (project query : String) (category : Option String)
    (limit : ℕ) :
  MemoryM.Reads s (searchMemoriesKeyword scan codec project query category limit)
    (((s.db.tables.keywordRows scan project query category limit).map
      (List.map (memoryFromRow codec))).mapError ("SQLite error: " ++ ·))
  := by
  rw [searchMemoriesKeyword, MemoryTables.keywordRows]
  split
  · apply MemoryM.reads_query h
  · apply MemoryM.reads_select h

end Calls

end MemoryStorage

end OrchestraRag
