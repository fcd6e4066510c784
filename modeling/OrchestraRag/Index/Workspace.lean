import OrchestraRag.Index.Failure
import OrchestraRag.Library.Sql

/-!
# Workspace data

`index_workspace_data` reads features, notes and docs from the database of Orchestra, and
replaces the documents at their paths, which are below `orchestra://`, one by one.

It deletes only the paths of what it reads, also when it is told to clear first: the documents
below `orchestra://` become those of the records read exactly when none was at another path
before (`resynchronised_iff`).
-/

namespace OrchestraRag

/-! ### The database -/

/-- A value in a row. -/
inductive SqlValue where
  | null
  | integer (n : ℤ)
  | real (f : F64)
  | text (t : String)
  | blob (bytes : List UInt8)
  deriving DecidableEq

namespace SqlValue

/-- The name of the type of a value. -/
def typeName : SqlValue → String
  | null => "Null"
  | integer _ => "Integer"
  | real _ => "Real"
  | text _ => "Text"
  | blob _ => "Blob"

/-- Read a column as text; other types are an error. -/
def getText (index : ℕ) (column : String) : SqlValue → Except String String
  | text t => .ok t
  | value => .error ("Invalid column type " ++ value.typeName ++ " at index: " ++ toString index
      ++ ", name: " ++ column)

/-- Read a column as text, other types as a default. -/
def getTextD (value : SqlValue) (default : String) : String :=
  match value with
  | text t => t
  | _ => default

/-- The condition `NOT LIKE '%deleted%'`.  It does not hold of null; a number is written without
these letters, and a blob is compared byte by byte. -/
def notLikeDeleted : SqlValue → Bool
  | null => false
  | integer _ => true
  | real _ => true
  | text t => !Sql.like "%deleted%" t
  | blob bytes => !Sql.like "%deleted%" (String.ofList (bytes.map (fun b => Char.ofNat b.toNat)))

/-- The condition `= 0`. -/
def isZero : SqlValue → Bool
  | integer n => n = 0
  | real f => f.bits.toNat % 2 ^ 63 = 0
  | _ => false

end SqlValue

structure FeatureRow where
  id : SqlValue
  projectId : SqlValue
  title : SqlValue
  description : SqlValue
  body : SqlValue
  labels : SqlValue
  status : SqlValue
  kind : SqlValue

structure NoteRow where
  id : SqlValue
  projectId : SqlValue
  title : SqlValue
  body : SqlValue
  tags : SqlValue
  deleted : SqlValue

structure DocRow where
  id : SqlValue
  projectId : SqlValue
  title : SqlValue
  body : SqlValue
  tags : SqlValue

/-- A table, with what goes wrong when it is read: the statement cannot be prepared, the query
cannot be started, or it fails after some rows. -/
structure OrchestraTable (ρ : Type) where
  rows : List ρ
  scan : Sql.Scan ρ
  prepare : Option String
  query : Option String
  step : Option (ℕ × String)

/-- The database of Orchestra, with what goes wrong when it is opened. -/
structure OrchestraDb where
  openError : Option String
  busyTimeout : Option String
  features : OrchestraTable FeatureRow
  notes : OrchestraTable NoteRow
  docs : OrchestraTable DocRow

/-- What a call needs from outside: the databases in the file system, and how a JSON value is
read from text and written as text. -/
structure WorkspaceContext where
  databases : String → Option OrchestraDb
  parseJson : String → Option Json
  jsonText : Json → String

/-! ### Records -/

structure WorkspaceRecord where
  path : String
  content : String
  language : String
  symbols : String
  entityType : String
  entityId : String
  projectId : String
  deriving DecidableEq

/-- Parse a JSON array of strings and join with extra tokens into a space-separated string. -/
def buildSymbolsFromLabels (parseJson : String → Option Json) (jsonArray : String)
    (extra : List String) : String :=
  let labels := (((parseJson jsonArray).bind Json.asArray).getD []).filterMap Json.asStr
  " ".intercalate (labels ++ extra.filter (· ≠ ""))

/-- Query the rows of a table that satisfy the `WHERE` clause, and map each to a record; the first
error ends the query. -/
def OrchestraTable.queryMap {ρ : Type} (table : OrchestraTable ρ) (clause : ρ → Bool)
    (mapper : ρ → Except String WorkspaceRecord) : Except String (List WorkspaceRecord) :=
  let rows := table.scan.order (table.rows.filter clause)
  match table.step with
  | none => rows.mapM mapper
  | some (n, e) => do
      let _ ← (rows.take n).mapM mapper
      .error e

/-- Read the records of a table. -/
def OrchestraTable.read {ρ : Type} (table : OrchestraTable ρ) (name : String) (clause : ρ → Bool)
    (mapper : ρ → Except String WorkspaceRecord) : Except String (List WorkspaceRecord) :=
  match table.prepare, table.query with
  | some e, _ => .error ("prepare " ++ name ++ ": " ++ e)
  | none, some e => .error ("query " ++ name ++ ": " ++ e)
  | none, none => (table.queryMap clause mapper).mapError (("read " ++ name ++ " row: ") ++ ·)

/-- The row is of the project, when there is one to look for. -/
def inProject (projectId : Option String) (project : SqlValue) : Bool :=
  match projectId with
  | some pid => project = .text pid
  | none => true

def featureRecord (parseJson : String → Option Json) (row : FeatureRow) :
    Except String WorkspaceRecord := do
  let id ← row.id.getText 0 "id"
  let project ← row.projectId.getText 1 "project_id"
  let title ← row.title.getText 2 "title"
  let description := row.description.getTextD ""
  let body := row.body.getTextD ""
  let labelsJson := row.labels.getTextD "[]"
  let status := row.status.getTextD ""
  let kind := row.kind.getTextD ""
  pure {
    path := "orchestra://features/" ++ id
    content := title ++ "\n\n" ++ description ++ "\n\n" ++ body
    language := "markdown"
    symbols := buildSymbolsFromLabels parseJson labelsJson [status, kind]
    entityType := "features"
    entityId := id
    projectId := project }

/-- The records of notes and docs differ in the name of the table only. -/
def pageRecord (parseJson : String → Option Json) (name : String)
    (id projectId title body tags : SqlValue) : Except String WorkspaceRecord := do
  let id ← id.getText 0 "id"
  let project ← projectId.getText 1 "project_id"
  let title ← title.getText 2 "title"
  let body := body.getTextD ""
  let tagsJson := tags.getTextD "[]"
  pure {
    path := "orchestra://" ++ name ++ "/" ++ id
    content := title ++ "\n\n" ++ body
    language := "markdown"
    symbols := buildSymbolsFromLabels parseJson tagsJson []
    entityType := name
    entityId := id
    projectId := project }

/-- A project is looked for among the features that do not speak of deletion; otherwise all of
them are read. -/
def readFeatures (parseJson : String → Option Json) (db : OrchestraDb)
    (projectId : Option String) : Except String (List WorkspaceRecord) :=
  let clause (row : FeatureRow) :=
    inProject projectId row.projectId
      && (projectId.isNone || row.body.notLikeDeleted)
  db.features.read "features" clause (featureRecord parseJson)

def readNotes (parseJson : String → Option Json) (db : OrchestraDb)
    (projectId : Option String) : Except String (List WorkspaceRecord) :=
  let clause (row : NoteRow) := inProject projectId row.projectId && row.deleted.isZero
  db.notes.read "notes" clause fun row =>
    pageRecord parseJson "notes" row.id row.projectId row.title row.body row.tags

def readDocs (parseJson : String → Option Json) (db : OrchestraDb)
    (projectId : Option String) : Except String (List WorkspaceRecord) :=
  let clause (row : DocRow) := inProject projectId row.projectId
  db.docs.read "docs" clause fun row =>
    pageRecord parseJson "docs" row.id row.projectId row.title row.body row.tags

/-- Read the entities of a type; an unknown type is skipped. -/
def readEntities (parseJson : String → Option Json) (db : OrchestraDb)
    (projectId : Option String) (entityType : String) : Except String (List WorkspaceRecord) :=
  if entityType = "features" then readFeatures parseJson db projectId
  else if entityType = "notes" then readNotes parseJson db projectId
  else if entityType = "docs" then readDocs parseJson db projectId
  else .ok []

/-- Read features, notes, and docs from the Orchestra SQLite DB. -/
def readWorkspaceRecords (parseJson : String → Option Json) (db : OrchestraDb)
    (projectId : Option String) (entityTypes : List String) :
    Except String (List WorkspaceRecord) :=
  match db.openError, db.busyTimeout with
  | some e, _ => .error ("failed to open Orchestra DB read-only: " ++ e)
  | none, some e => .error ("busy_timeout: " ++ e)
  | none, none => do
      let records ← entityTypes.mapM (readEntities parseJson db projectId)
      pure records.flatten

/-! ### The call -/

/-- The types of the entities to index; all three when they are not given. -/
def entityTypes (args : Json) : List String :=
  match (args.get "entity_types").bind Json.asArray with
  | some items => items.filterMap Json.asStr
  | none => ["features", "notes", "docs"]

/-- The records that a call reads. -/
def recordsRead (context : WorkspaceContext) (args : Json) :
    Outcome String (List WorkspaceRecord) :=
  match (args.get "db_path").bind Json.asStr with
  | none => .error (.err ("'db_path' is required. The Orchestra SQLite database is at "
      ++ "~/.orchestra/db/<sha256(workspace)[:16]>.db"))
  | some dbPath =>
      match context.databases dbPath with
      | none => .error (.err ("Orchestra SQLite database not found at '" ++ dbPath ++ "'. "
          ++ "Ensure 'orchestra serve' has been run at least once so the storage plugin "
          ++ "can create the workspace database."))
      | some db =>
          let projectId := (args.get "project_id").bind Json.asStr
          (readWorkspaceRecords context.parseJson db projectId (entityTypes args)).mapError .err

/-- What a call does when it is told to clear first: it logs that documents will be replaced. -/
def warnClearFirst : Bool → IndexM Unit
  | true => pure ()
  | false => pure ()

/-- The document of a record. -/
def WorkspaceContext.document (context : WorkspaceContext) (record : WorkspaceRecord) :
    IndexDocument where
  path := record.path
  content := record.content
  language := record.language
  symbols := record.symbols
  metadata := context.jsonText (.object (SortedMap.collect
    [("entity_type", .string record.entityType), ("entity_id", .string record.entityId),
      ("project_id", .string record.projectId)]))

/-- What the loop over the records counts. -/
structure WorkspaceCounts where
  indexed : ℕ
  errors : ℕ
  errorDetails : List String
  typeCounts : List (String × ℕ)

namespace WorkspaceCounts

def new : WorkspaceCounts :=
  ⟨0, 0, [], []⟩

/-- Count an error; the details of the first 20 are kept. -/
def failed (counts : WorkspaceCounts) (detail : String) : WorkspaceCounts :=
  { counts with
    errors := counts.errors + 1
    errorDetails :=
      if counts.errorDetails.length < 20 then counts.errorDetails ++ [detail]
      else counts.errorDetails }

def added (counts : WorkspaceCounts) (entityType : String) : WorkspaceCounts :=
  { counts with
    indexed := counts.indexed + 1
    typeCounts := SortedMap.insert entityType
      ((counts.typeCounts.lookup entityType).getD 0 + 1) counts.typeCounts }

end WorkspaceCounts

/-- Delete any existing document at the path of a record, which may fail, and add its document;
every 200 documents, commit. -/
def indexRecord (context : WorkspaceContext) (counts : WorkspaceCounts)
    (record : WorkspaceRecord) : IndexM WorkspaceCounts := do
  let _ ← IndexWriter.deleteDocument record.path
  let doc := context.document record
  match ← IndexWriter.addDocument doc.path doc.content doc.language doc.symbols doc.metadata with
  | .ok () =>
      let counts := counts.added record.entityType
      if counts.indexed % 200 = 0 then do
        match ← IndexWriter.commit with
        | .ok () => pure counts
        | .error e => pure (counts.failed
            ("batch commit at " ++ toString counts.indexed ++ ": " ++ e))
      else pure counts
  | .error e => pure (counts.failed (record.path ++ ": " ++ e))

/-- Index the records one by one. -/
def indexRecords (context : WorkspaceContext) (counts : WorkspaceCounts) :
    List WorkspaceRecord → IndexM WorkspaceCounts
  | [] => pure counts
  | record :: records => do
      let counts ← indexRecord context counts record
      indexRecords context counts records

/-- Publish the documents, and answer. -/
def finishWorkspace (totalRead : ℕ) (counts : WorkspaceCounts) : IndexM Json := do
  IndexM.named "final commit failed: " (← IndexWriter.commit)
  IndexM.named "reader reload failed: " (← IndexReader.reload)
  let durationMs : UInt64 ← ExceptT.lift (Program.call IndexOp.elapsedMs)
  let number (n : ℕ) : Json := .number (.posInt (.ofNat n))
  pure (.object (SortedMap.collect
    [("indexed", number counts.indexed),
      ("total_read", number totalRead),
      ("errors", number counts.errors),
      ("duration_ms", .number (.posInt durationMs)),
      ("by_type", .object (counts.typeCounts.map (fun (entityType, n) =>
        (entityType, number n)))),
      ("error_details", .array (counts.errorDetails.map Json.string))]))

/-- What a call does with the records it has read. -/
def indexWorkspaceRecords (context : WorkspaceContext) (records : List WorkspaceRecord) :
    IndexM Json := do
  let counts ← indexRecords context .new records
  finishWorkspace records.length counts

def handleIndexWorkspaceData (context : WorkspaceContext) (args : Json) : IndexM Json := do
  let records ← IndexM.ofOutcome (recordsRead context args)
  warnClearFirst (clearFirst args)
  let counts ← indexRecords context .new records
  finishWorkspace records.length counts

/-! ### What is read -/

/-- The path is below `orchestra://`. -/
def IsOrchestra (path : String) : Prop :=
  "orchestra://".toList <+: path.toList

instance (path : String) : Decidable (IsOrchestra path) :=
  inferInstanceAs (Decidable (_ <+: _))

/-- The record is at the path of its entity. -/
def WorkspaceRecord.Placed (record : WorkspaceRecord) : Prop :=
  record.path = "orchestra://" ++ record.entityType ++ "/" ++ record.entityId

theorem WorkspaceRecord.Placed.isOrchestra {record : WorkspaceRecord} (h : record.Placed) :
  IsOrchestra record.path
  := by
  rw [IsOrchestra, h, String.append_assoc, String.append_assoc, String.toList_append]
  apply List.prefix_append

section Reading

variable {parseJson : String → Option Json} {db : OrchestraDb} {record : WorkspaceRecord}
  {records : List WorkspaceRecord}

theorem placed_featureRecord {row : FeatureRow}
    (h : featureRecord parseJson row = .ok record) :
  record.Placed
  := by
  obtain ⟨id, -, h⟩ := Outcome.bind_eq_ok.mp h
  obtain ⟨project, -, h⟩ := Outcome.bind_eq_ok.mp h
  obtain ⟨title, -, ⟨⟩⟩ := Outcome.bind_eq_ok.mp h
  rfl

theorem placed_pageRecord {name : String} {id projectId title body tags : SqlValue}
    (h : pageRecord parseJson name id projectId title body tags = .ok record) :
  record.Placed
  := by
  obtain ⟨id, -, h⟩ := Outcome.bind_eq_ok.mp h
  obtain ⟨project, -, h⟩ := Outcome.bind_eq_ok.mp h
  obtain ⟨title, -, ⟨⟩⟩ := Outcome.bind_eq_ok.mp h
  rfl

/-- The records of a table come from its rows. -/
theorem of_mem_read {ρ : Type} {table : OrchestraTable ρ} {name : String} {clause : ρ → Bool}
    {mapper : ρ → Except String WorkspaceRecord}
    (h : table.read name clause mapper = .ok records) (hrecord : record ∈ records) :
  ∃ row ∈ table.rows, clause row ∧ mapper row = .ok record
  := by
  rw [OrchestraTable.read] at h
  split at h
  case h_1 => cases h
  case h_2 => cases h
  case h_3 =>
      have hquery := Outcome.of_mapError_eq_ok h
      rw [OrchestraTable.queryMap] at hquery
      split at hquery
      case h_1 =>
          obtain ⟨row, hrow, hmapper⟩ := Outcome.of_mem_mapM hquery hrecord
          rw [(table.scan.perm _).mem_iff, List.mem_filter] at hrow
          exact ⟨row, hrow.1, hrow.2, hmapper⟩
      case h_2 =>
          obtain ⟨-, -, ⟨⟩⟩ := Outcome.bind_eq_ok.mp hquery

theorem placed_readEntities {projectId : Option String} {entityType : String}
    (h : readEntities parseJson db projectId entityType = .ok records)
    (hrecord : record ∈ records) :
  record.Placed
  := by
  rw [readEntities] at h
  split at h
  case isTrue =>
      obtain ⟨row, -, -, hrow⟩ := of_mem_read h hrecord
      apply placed_featureRecord hrow
  case isFalse =>
      split at h
      case isTrue =>
          obtain ⟨row, -, -, hrow⟩ := of_mem_read h hrecord
          apply placed_pageRecord hrow
      case isFalse =>
          split at h
          case isTrue =>
              obtain ⟨row, -, -, hrow⟩ := of_mem_read h hrecord
              apply placed_pageRecord hrow
          case isFalse =>
              cases h
              cases hrecord

theorem placed_readWorkspaceRecords {projectId : Option String} {entityTypes : List String}
    (h : readWorkspaceRecords parseJson db projectId entityTypes = .ok records)
    (hrecord : record ∈ records) :
  record.Placed
  := by
  rw [readWorkspaceRecords] at h
  split at h
  case h_1 => cases h
  case h_2 => cases h
  case h_3 =>
      obtain ⟨found, hfound, ⟨⟩⟩ := Outcome.bind_eq_ok.mp h
      obtain ⟨entities, hentities, hmem⟩ := List.mem_flatten.mp hrecord
      obtain ⟨entityType, -, hread⟩ := Outcome.of_mem_mapM hfound hentities
      apply placed_readEntities hread hmem

/-- Every record that a call reads is at the path of its entity. -/
theorem placed_recordsRead {context : WorkspaceContext} {args : Json}
    (h : recordsRead context args = .ok records) (hrecord : record ∈ records) :
  record.Placed
  := by
  rw [recordsRead] at h
  split at h
  case h_1 => cases h
  case h_2 dbPath hpath =>
      split at h
      case h_1 => cases h
      case h_2 db hdb =>
          apply placed_readWorkspaceRecords (Outcome.of_mapError_eq_ok h) hrecord

end Reading

/-! ### What is left -/

/-- The documents that the writer holds. -/
abbrev IndexState.held (s : IndexState) : List IndexDocument :=
  s.store.current IndexDocument.path

section Upserting

variable {context : WorkspaceContext} {record : WorkspaceRecord} {records : List WorkspaceRecord}
  {counts : WorkspaceCounts} {s s' : IndexState}

/-- Indexing a record replaces the documents at its path. -/
theorem exec_indexRecord {r : Outcome String WorkspaceCounts}
    (h : Program.Exec IndexOp.Reliable (indexRecord context counts record) s r s') :
  r = .ok (counts.added record.entityType)
    ∧ s'.held = Staged.upsert IndexDocument.path s.held (context.document record)
  := by
  obtain ⟨_, s₁, hdelete, h⟩ := Program.exec_step.mp h
  obtain ⟨hs₁, rfl⟩ := IndexOp.store_of_step hdelete
  obtain ⟨_, s₂, hadd, h⟩ := Program.exec_step.mp h
  obtain ⟨hs₂, rfl⟩ := IndexOp.store_of_step hadd
  have hheld : s₂.held = Staged.upsert IndexDocument.path s.held (context.document record) := by
    rw [IndexState.held, hs₂, IndexOp.after, Staged.current_queue, hs₁, IndexOp.after,
      Staged.current_queue]
    rfl
  by_cases hbatch : (counts.added record.entityType).indexed % 200 = 0
  · simp only [hbatch, if_true] at h
    obtain ⟨_, s₃, hcommit, h⟩ := Program.exec_step.mp h
    obtain ⟨hs₃, rfl⟩ := IndexOp.store_of_step hcommit
    obtain ⟨rfl, rfl⟩ := Program.exec_ret.mp h
    use rfl
    rw [IndexState.held, hs₃, IndexOp.after, Staged.current_publish]
    apply hheld
  · simp only [hbatch, if_false] at h
    obtain ⟨rfl, rfl⟩ := Program.exec_ret.mp h
    exact ⟨rfl, hheld⟩

theorem exec_indexRecords {r : Outcome String WorkspaceCounts}
    (h : Program.Exec IndexOp.Reliable (indexRecords context counts records) s r s') :
  r = .ok ((records.map WorkspaceRecord.entityType).foldl WorkspaceCounts.added counts)
    ∧ s'.held = Staged.upsertAll IndexDocument.path s.held (records.map context.document)
  := by
  induction records generalizing counts s with
  | nil =>
      obtain ⟨rfl, rfl⟩ := Program.exec_ret.mp h
      exact ⟨rfl, rfl⟩
  | cons record records ih =>
      rcases Program.exec_fallible_bind.mp h with ⟨counts', s₁, hfirst, hrest⟩ | ⟨e, -, hfirst⟩
      · obtain ⟨⟨⟩, hreplaced⟩ := exec_indexRecord hfirst
        obtain ⟨hcounts, hheld⟩ := ih hrest
        use hcounts
        rw [hheld, hreplaced]
        rfl
      · obtain ⟨⟨⟩, -⟩ := exec_indexRecord hfirst

/-- The answer with these counts. -/
def WorkspaceCounts.answer (counts : WorkspaceCounts) (totalRead : ℕ) (durationMs : UInt64) :
    Json :=
  let number (n : ℕ) : Json := .number (.posInt (.ofNat n))
  .object (SortedMap.collect
    [("indexed", number counts.indexed),
      ("total_read", number totalRead),
      ("errors", number counts.errors),
      ("duration_ms", .number (.posInt durationMs)),
      ("by_type", .object (counts.typeCounts.map (fun (entityType, n) =>
        (entityType, number n)))),
      ("error_details", .array (counts.errorDetails.map Json.string))])

theorem exec_finishWorkspace {totalRead : ℕ} {r : Outcome String Json}
    (h : Program.Exec IndexOp.Reliable (finishWorkspace totalRead counts) s r s') :
  (∃ durationMs, r = .ok (counts.answer totalRead durationMs))
    ∧ s'.store = ⟨s.held, []⟩ ∧ s'.loaded = s'.store.published
  := by
  obtain ⟨_, s₁, hcommit, h⟩ := Program.exec_step.mp h
  obtain ⟨hs₁, rfl⟩ := IndexOp.store_of_step hcommit
  obtain ⟨_, s₂, hreload, h⟩ := Program.exec_step.mp h
  obtain ⟨hs₂, rfl⟩ := IndexOp.store_of_step hreload
  obtain ⟨x, s₃, hclock, h⟩ := Program.exec_step.mp h
  obtain ⟨rfl, rfl⟩ := Program.exec_ret.mp h
  have hloaded : s₂.loaded = s₂.store.published := by
    obtain ⟨⟨t, rfl, rfl | rfl⟩, -⟩ := hreload
    · rfl
    · rfl
  have hsame : s'.store = s₂.store ∧ s'.loaded = s'.store.published := by
    obtain ⟨⟨t, rfl, rfl | rfl⟩, -⟩ := hclock
    · exact ⟨rfl, hloaded⟩
    · exact ⟨rfl, rfl⟩
  refine ⟨⟨_, rfl⟩, ?_, hsame.2⟩
  rw [hsame.1, hs₂, IndexOp.after, hs₁]
  rfl

/-- What a call does with the records it reads does not depend on `clear_first`. -/
theorem handle_of_read {args : Json} (hread : recordsRead context args = .ok records) :
  handleIndexWorkspaceData context args = indexWorkspaceRecords context records
  := by
  rw [handleIndexWorkspaceData, hread]
  cases clearFirst args
  · rfl
  · rfl

/-- The counts of a call that indexed records of these types. -/
abbrev WorkspaceCounts.ofTypes (types : List String) : WorkspaceCounts :=
  types.foldl WorkspaceCounts.added .new

/-- Records are indexed, when no step fails, by replacing the documents of the writer at their
paths. -/
theorem exec_indexWorkspaceRecords {r : Outcome String Json}
    (h : Program.Exec IndexOp.Reliable (indexWorkspaceRecords context records) s r s') :
  (∃ durationMs, r = .ok ((WorkspaceCounts.ofTypes (records.map WorkspaceRecord.entityType)).answer
      records.length durationMs))
    ∧ s'.store = ⟨Staged.upsertAll IndexDocument.path s.held (records.map context.document), []⟩
    ∧ s'.loaded = s'.store.published
  := by
  rcases Program.exec_fallible_bind.mp h with ⟨counts, s₁, hindex, hfinish⟩ | ⟨e, -, hindex⟩
  · obtain ⟨⟨⟩, hheld⟩ := exec_indexRecords hindex
    obtain ⟨hanswer, hstore, hloaded⟩ := exec_finishWorkspace hfinish
    refine ⟨hanswer, ?_, hloaded⟩
    rw [hstore, hheld]
  · obtain ⟨⟨⟩, -⟩ := exec_indexRecords hindex

/-- A call that reads its records and of which no step fails returns, and publishes the documents
of the writer with those at the paths of the records replaced. -/
theorem exec_handleIndexWorkspaceData {args : Json} {r : Outcome String Json}
    (hread : recordsRead context args = .ok records)
    (h : Program.Exec IndexOp.Reliable (handleIndexWorkspaceData context args) s r s') :
  (∃ answer, r = .ok answer)
    ∧ s'.store = ⟨Staged.upsertAll IndexDocument.path s.held (records.map context.document), []⟩
    ∧ s'.loaded = s'.store.published
  := by
  rw [handle_of_read hread] at h
  obtain ⟨⟨durationMs, hanswer⟩, hstore⟩ := exec_indexWorkspaceRecords h
  exact ⟨⟨_, hanswer⟩, hstore⟩

end Upserting

/-! ### What is not removed -/

/-- The step does not delete the documents at `path`. -/
def IndexOp.Retains (path : String) : IndexOp → Prop
  | .deleteDocument path' => path' ≠ path
  | .clear => False
  | _ => True

/-- The document is published, and the writer holds it. -/
structure IndexState.Stores (doc : IndexDocument) (s : IndexState) : Prop where
  published : doc ∈ s.store.published
  held : doc ∈ s.held

theorem IndexState.Stores.moves {doc : IndexDocument} {op : IndexOp} {s s' : IndexState}
    (h : s.Stores doc) (hmoves : op.Moves s s') :
  s'.Stores doc
  := by
  rcases hmoves with rfl | rfl | ⟨-, rfl | rfl⟩
  · apply h
  · exact ⟨h.published, h.held⟩
  · exact ⟨h.published, h.published⟩
  · exact ⟨h.held, h.held⟩

/-- A step keeps a document whose path it does not delete, whether it fails or not. -/
theorem IndexState.Stores.step {doc : IndexDocument} {op : IndexOp} {s s' : IndexState}
    {x : IndexAns op} (hop : op.Retains doc.path) (h : s.Stores doc) (hstep : op.Step s x s') :
  s'.Stores doc
  := by
  obtain ⟨t, heffect, hs'⟩ := hstep
  have ht : t.Stores doc := by
    rcases IndexOp.effect_cases heffect with hmoves | ⟨change, hqueues, hmoves⟩
    · apply h.moves hmoves
    · have hqueued : (s.queue change).Stores doc := by
        constructor
        · apply h.published
        · rw [IndexState.held, IndexState.queue, Staged.current_queue]
          cases change with
          | delete path =>
              obtain rfl := IndexOp.eq_delete_of_deleted (IndexOp.deleted_of_queues hqueues)
              apply List.mem_filter.mpr ⟨h.held, decide_eq_true (Ne.symm hop)⟩
          | add added => apply List.mem_append_left _ h.held
          | deleteAll =>
              obtain rfl := IndexOp.eq_clear_of_queues hqueues
              cases hop
      apply hqueued.moves hmoves
  rcases hs' with rfl | rfl
  · apply ht
  · exact ⟨ht.published, ht.held⟩

section Retaining

variable {context : WorkspaceContext} {records : List WorkspaceRecord} {path : String}

theorem retains_indexRecord (counts : WorkspaceCounts) {record : WorkspaceRecord}
    (hpath : record.path ≠ path) :
  Program.Uses (IndexOp.Retains path) (indexRecord context counts record)
  := by
  apply @Program.Uses.step IndexOp IndexAns _ _ (.deleteDocument record.path) _ hpath
  intro _
  apply @Program.Uses.step IndexOp IndexAns _ _ (.addDocument (context.document record)) _ trivial
  rintro (e | ⟨⟩)
  · apply Program.Uses.ret
  · by_cases hbatch : (counts.added record.entityType).indexed % 200 = 0
    · simp only [hbatch, if_true]
      apply @Program.Uses.step IndexOp IndexAns _ _ .commit _ trivial
      rintro (e | ⟨⟩)
      · apply Program.Uses.ret
      · apply Program.Uses.ret
    · simp only [hbatch, if_false]
      apply Program.Uses.ret

theorem retains_indexRecords (counts : WorkspaceCounts)
    (hpath : ∀ record ∈ records, record.path ≠ path) :
  Program.Uses (IndexOp.Retains path) (indexRecords context counts records)
  := by
  induction records generalizing counts with
  | nil => apply Program.Uses.ret
  | cons record records ih =>
      apply Program.uses_fallible_bind
      · apply retains_indexRecord counts (hpath record List.mem_cons_self)
      · intro counts'
        apply ih counts' (fun record' hrecord' => hpath record' (List.mem_cons_of_mem _ hrecord'))

theorem retains_finishWorkspace (totalRead : ℕ) (counts : WorkspaceCounts) :
  Program.Uses (IndexOp.Retains path) (finishWorkspace totalRead counts)
  := by
  apply @Program.Uses.step IndexOp IndexAns _ _ .commit _ trivial
  rintro (e | ⟨⟩)
  · apply Program.Uses.ret
  apply @Program.Uses.step IndexOp IndexAns _ _ .reload _ trivial
  rintro (e | ⟨⟩)
  · apply Program.Uses.ret
  apply @Program.Uses.step IndexOp IndexAns _ _ .elapsedMs _ trivial
  intro durationMs
  apply Program.Uses.ret

/-- A call deletes only the paths of the records it reads. -/
theorem retains_handle {args : Json} (hread : recordsRead context args = .ok records)
    (hpath : ∀ record ∈ records, record.path ≠ path) :
  Program.Uses (IndexOp.Retains path) (handleIndexWorkspaceData context args)
  := by
  rw [handle_of_read hread]
  apply Program.uses_fallible_bind
  · apply retains_indexRecords _ hpath
  · apply retains_finishWorkspace

/-- A call that returns has read its records. -/
theorem read_of_exec {R : Semantics IndexOp IndexAns IndexState} {args answer : Json}
    {s s' : IndexState}
    (h : Program.Exec R (handleIndexWorkspaceData context args) s (.ok answer) s') :
  ∃ records, recordsRead context args = .ok records
  := by
  rcases hread : recordsRead context args with e | records
  · rw [handleIndexWorkspaceData, hread] at h
    obtain ⟨⟨⟩, -⟩ := Program.exec_ret.mp h
  · exact ⟨records, rfl⟩

end Retaining

/-! ### Resynchronisation -/

/-- The documents below `orchestra://` that are published are those of the records, and the
others are as they were. -/
structure Resynchronised (context : WorkspaceContext) (records : List WorkspaceRecord)
    (s s' : IndexState) : Prop where
  records : ∀ doc, doc ∈ s'.store.published ∧ IsOrchestra doc.path
    ↔ doc ∈ records.map context.document
  others : s'.store.published.filter (fun doc => ¬ IsOrchestra doc.path)
    = s.store.published.filter (fun doc => ¬ IsOrchestra doc.path)

/-- Every document below `orchestra://` that the writer holds is at the path of a record, records
with the same path are the same document, and nothing is queued that concerns other documents. -/
structure Covered (context : WorkspaceContext) (records : List WorkspaceRecord)
    (s : IndexState) : Prop where
  paths : ∀ doc ∈ s.held, IsOrchestra doc.path → ∃ record ∈ records, record.path = doc.path
  alike : ∀ record ∈ records, ∀ record' ∈ records, record.path = record'.path →
    context.document record = context.document record'
  others : s.held.filter (fun doc => ¬ IsOrchestra doc.path)
    = s.store.published.filter (fun doc => ¬ IsOrchestra doc.path)

section Resynchronising

variable {context : WorkspaceContext} {records : List WorkspaceRecord} {args answer : Json}
  {s s' : IndexState}

theorem has_document {path : String} :
  Staged.Has IndexDocument.path path (records.map context.document)
    ↔ ∃ record ∈ records, record.path = path
  := by
  constructor
  · rintro ⟨doc, hdoc, hpath⟩
    obtain ⟨record, hrecord, rfl⟩ := List.mem_map.mp hdoc
    exact ⟨record, hrecord, hpath⟩
  · rintro ⟨record, hrecord, hpath⟩
    exact ⟨_, List.mem_map_of_mem hrecord, hpath⟩

/-- Of a call no step of which fails, the documents below `orchestra://` are those of the records
exactly when those of the writer were covered by them. -/
theorem resynchronised_iff_covered (hread : recordsRead context args = .ok records)
    (h : Program.Exec IndexOp.Reliable (handleIndexWorkspaceData context args) s (.ok answer) s') :
  Resynchronised context records s s' ↔ Covered context records s
  := by
  obtain ⟨-, hstore, -⟩ := exec_handleIndexWorkspaceData hread h
  have hpublished : s'.store.published
      = Staged.upsertAll IndexDocument.path s.held (records.map context.document) := by
    rw [hstore]
  have horchestra : ∀ doc ∈ records.map context.document, IsOrchestra doc.path := by
    intro doc hdoc
    obtain ⟨record, hrecord, rfl⟩ := List.mem_map.mp hdoc
    apply (placed_recordsRead hread hrecord).isOrchestra
  have hrecords := Staged.upsertAll_eq_iff s.held IsOrchestra horchestra
  have hothers : s'.store.published.filter (fun doc => ¬ IsOrchestra doc.path)
      = s.held.filter (fun doc => ¬ IsOrchestra doc.path) := by
    rw [hpublished]
    apply Staged.filter_upsertAll (fun path => ¬ IsOrchestra path)
    intro doc hdoc hnot
    apply hnot (horchestra doc hdoc)
  rw [← hpublished] at hrecords
  constructor
  · intro hsync
    obtain ⟨hpaths, halike⟩ := hrecords.mp hsync.records
    constructor
    · intro doc hdoc hpath
      apply has_document.mp (hpaths doc hdoc hpath)
    · intro record hrecord record' hrecord' hpath
      apply halike _ (List.mem_map_of_mem hrecord) _ (List.mem_map_of_mem hrecord') hpath
    · rw [← hothers, hsync.others]
  · intro hcovered
    constructor
    · apply hrecords.mpr
      constructor
      · intro doc hdoc hpath
        apply has_document.mpr (hcovered.paths doc hdoc hpath)
      · intro doc hdoc doc' hdoc' hpath
        obtain ⟨record, hrecord, rfl⟩ := List.mem_map.mp hdoc
        obtain ⟨record', hrecord', rfl⟩ := List.mem_map.mp hdoc'
        apply hcovered.alike record hrecord record' hrecord' hpath
    · rw [hothers, hcovered.others]

/-- A document below `orchestra://` that is not at the path of a record is still there after the
call, whichever of its steps fail. -/
theorem left_over (hread : recordsRead context args = .ok records)
    {r : Outcome String Json}
    (h : Program.Exec IndexOp.Step (handleIndexWorkspaceData context args) s r s')
    {doc : IndexDocument} (hdoc : s.Stores doc)
    (hpath : ∀ record ∈ records, record.path ≠ doc.path) :
  s'.Stores doc
  := by
  have hkept : ∀ op (t : IndexState) x t', IndexOp.Retains doc.path op → t.Stores doc →
      op.Step t x t' → t'.Stores doc := by
    intro op t x t' hop ht hstep
    apply ht.step hop hstep
  apply Program.Exec.invariant_of_uses hkept h (retains_handle hread hpath) hdoc

end Resynchronising

/-- The documents below `orchestra://` become those of the records that a call reads exactly when
those that the writer held were covered by them, when no step of the call fails.  One that is not
at the path of a record is left over, also when steps fail, and whether the call is told to clear
first or not. -/
theorem resynchronised_iff (context : WorkspaceContext) (args : Json) :
  (∀ (s s' : IndexState) (answer : Json),
      Program.Exec IndexOp.Reliable (handleIndexWorkspaceData context args) s (.ok answer) s' →
        ∃ records, recordsRead context args = .ok records
          ∧ s'.loaded = s'.store.published
          ∧ (Resynchronised context records s s' ↔ Covered context records s))
    ∧ ∀ (s s' : IndexState) (answer : Json) (doc : IndexDocument),
      Program.Exec IndexOp.Step (handleIndexWorkspaceData context args) s (.ok answer) s' →
      s.Stores doc → IsOrchestra doc.path →
        ∃ records, recordsRead context args = .ok records
          ∧ ((∀ record ∈ records, record.path ≠ doc.path) →
            s'.Stores doc ∧ ¬ Resynchronised context records s s')
  := by
  constructor
  · intro s s' answer h
    obtain ⟨records, hread⟩ := read_of_exec h
    use records, hread
    exact ⟨(exec_handleIndexWorkspaceData hread h).2.2, resynchronised_iff_covered hread h⟩
  · intro s s' answer doc h hdoc horchestra
    obtain ⟨records, hread⟩ := read_of_exec h
    use records, hread
    intro hpath
    have hleft := left_over hread h hdoc hpath
    use hleft
    intro hsync
    obtain ⟨record, hrecord, rfl⟩ :=
      List.mem_map.mp ((hsync.records doc).mp ⟨hleft.published, horchestra⟩)
    apply hpath record hrecord rfl

theorem reliable_total (op : IndexOp) (s : IndexState) :
  ∃ x s', IndexOp.Reliable op s x s'
  := by
  cases op with
  | deleteDocument path => exact ⟨_, _, reliable_delete s path⟩
  | addDocument doc => exact ⟨_, _, reliable_add s doc⟩
  | commit => exact ⟨_, _, reliable_commit s⟩
  | clear =>
      use (Except.ok () : Except String Unit), (s.queue .deleteAll).publish
      exact ⟨⟨_, rfl, Or.inl rfl⟩, fun _ => rfl⟩
  | reload =>
      use (Except.ok () : Except String Unit), s.reload
      exact ⟨⟨_, rfl, Or.inl rfl⟩, fun _ => rfl⟩
  | collectFiles root exclude extensions =>
      use (Except.ok [] : Except String (List CollectedFile)), s
      exact ⟨⟨_, rfl, Or.inl rfl⟩, fun _ => ⟨[], rfl⟩⟩
  | elapsedMs =>
      use (0 : UInt64), s
      exact ⟨⟨_, rfl, Or.inl rfl⟩, fun _ => trivial⟩

/-- A call that reads its records returns when no step fails. -/
theorem exists_exec {context : WorkspaceContext} {args : Json} {records : List WorkspaceRecord}
    (hread : recordsRead context args = .ok records) (s : IndexState) :
  ∃ answer s',
    Program.Exec IndexOp.Reliable (handleIndexWorkspaceData context args) s (.ok answer) s'
      ∧ s'.store
        = ⟨Staged.upsertAll IndexDocument.path s.held (records.map context.document), []⟩
  := by
  obtain ⟨r, s', h⟩ :=
    Program.exec_total reliable_total (handleIndexWorkspaceData context args) s
  obtain ⟨⟨answer, rfl⟩, hstore, -⟩ := exec_handleIndexWorkspaceData hread h
  exact ⟨answer, s', h, hstore⟩

section SetupNote

/-- A table that is read without errors. -/
def OrchestraTable.readable {ρ : Type} (rows : List ρ) : OrchestraTable ρ :=
  ⟨rows, Sql.Scan.inserted, none, none, none⟩

/-- A database of one note, which is deleted or not. -/
def setupNoteDb (deleted : ℤ) : OrchestraDb where
  openError := none
  busyTimeout := none
  features := .readable []
  notes := .readable
    [⟨.text "note-001", .text "my-project", .text "Setup notes", .text "Run npm install first",
      .text "[]", .integer deleted⟩]
  docs := .readable []

/-- An object of texts is written as JSON. -/
def flatText : Json → String
  | .object fields =>
      let field (entry : String × Json) :=
        "\"" ++ entry.1 ++ "\":\"" ++ (entry.2.asStr.getD "") ++ "\""
      "\x7b" ++ ",".intercalate (fields.map field) ++ "\x7d"
  | _ => ""

def setupNoteContext (deleted : ℤ) : WorkspaceContext where
  databases _ := some (setupNoteDb deleted)
  parseJson text := if text = "[]" then some (.array []) else none
  jsonText := flatText

def clearDataArgs : Json :=
  .object [("clear_first", .bool true), ("db_path", .string "orchestra.db")]

def setupNote : WorkspaceRecord where
  path := "orchestra://" ++ "notes" ++ "/" ++ "note-001"
  content := "Setup notes" ++ "\n\n" ++ "Run npm install first"
  language := "markdown"
  symbols := " ".intercalate []
  entityType := "notes"
  entityId := "note-001"
  projectId := "my-project"

theorem read_setupNote :
  recordsRead (setupNoteContext 0) clearDataArgs = .ok [setupNote]
  := rfl

theorem read_deletedNote :
  recordsRead (setupNoteContext 1) clearDataArgs = .ok []
  := rfl

/-- A note is indexed, and left over by the next call when it has been deleted in between. -/
theorem resynchronised_setupNote :
  ∃ answer s answer' s',
    Program.Exec IndexOp.Reliable (handleIndexWorkspaceData (setupNoteContext 0) clearDataArgs)
        IndexState.empty (.ok answer) s
      ∧ Resynchronised (setupNoteContext 0) [setupNote] IndexState.empty s
      ∧ Program.Exec IndexOp.Reliable (handleIndexWorkspaceData (setupNoteContext 1) clearDataArgs)
        s (.ok answer') s'
      ∧ ¬ Resynchronised (setupNoteContext 1) [] s s'
  := by
  obtain ⟨answer, s, h, hstore⟩ := exists_exec read_setupNote IndexState.empty
  obtain ⟨answer', s', h', -⟩ := exists_exec read_deletedNote s
  have hstored : s.Stores ((setupNoteContext 0).document setupNote) := by
    constructor
    · rw [hstore]
      apply List.mem_cons_self
    · rw [IndexState.held, hstore]
      apply List.mem_cons_self
  refine ⟨answer, s, answer', s', h, ?_, h', ?_⟩
  · obtain ⟨records, hread, -, hiff⟩ :=
      (resynchronised_iff (setupNoteContext 0) clearDataArgs).1 IndexState.empty s answer h
    obtain rfl : records = [setupNote] := Except.ok.inj (hread.symm.trans read_setupNote)
    apply hiff.mpr
    constructor
    · rintro doc ⟨⟩
    · intro record hrecord record' hrecord' _
      rw [List.mem_singleton.mp hrecord, List.mem_singleton.mp hrecord']
    · rfl
  · obtain ⟨records, hread, hleft⟩ :=
      (resynchronised_iff (setupNoteContext 1) clearDataArgs).2 s s' answer'
        ((setupNoteContext 0).document setupNote) (h'.mono (fun _ _ _ _ hstep => hstep.1)) hstored
        (placed_recordsRead read_setupNote List.mem_cons_self).isOrchestra
    obtain rfl : records = [] := Except.ok.inj (hread.symm.trans read_deletedNote)
    apply (hleft _).2
    rintro record ⟨⟩

/-- The document of a note that was deleted since the last call is still published after a call
that is told to clear first. -/
theorem not_resynchronised_deletedNote :
  ¬ ∀ (context context' : WorkspaceContext) (args args' answer answer' : Json)
      (records : List WorkspaceRecord) (s s' : IndexState),
      Program.Exec IndexOp.Reliable (handleIndexWorkspaceData context args) IndexState.empty
        (.ok answer) s →
      clearFirst args' = true → args'.get "project_id" = none → args'.get "entity_types" = none →
      recordsRead context' args' = .ok records →
      Program.Exec IndexOp.Reliable (handleIndexWorkspaceData context' args') s (.ok answer') s' →
        Resynchronised context' records s s'
  := by
  intro hall
  obtain ⟨answer, s, h, hstore⟩ := exists_exec read_setupNote IndexState.empty
  obtain ⟨answer', s', h', hstore'⟩ := exists_exec read_deletedNote s
  have hsync := hall _ _ _ _ _ _ _ s s' h rfl rfl rfl read_deletedNote h'
  have hmem : (setupNoteContext 0).document setupNote ∈ s'.store.published := by
    rw [hstore', IndexState.held, hstore]
    apply List.mem_cons_self
  have horchestra := (placed_recordsRead read_setupNote List.mem_cons_self).isOrchestra
  cases (hsync.records _).mp ⟨hmem, horchestra⟩

end SetupNote

end OrchestraRag
