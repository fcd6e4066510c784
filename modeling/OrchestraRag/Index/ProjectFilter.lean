import Mathlib.Data.List.Perm.Subperm
import OrchestraRag.Index.Workspace

/-!
# The records of a project

Reading the records of a project selects the rows of the project in its queries.  Of notes and
docs these are the records of the project among all; features whose body is null or speaks of
deletion are left out, so that the two differ exactly if the project has one
(`read_project_iff`).
-/

namespace OrchestraRag

section Reading

variable {ρ : Type} {table : OrchestraTable ρ} {name : String}
  {clause narrowed ofProject : ρ → Bool} {mapper : ρ → Except String WorkspaceRecord}
  {records : List WorkspaceRecord} {isProject : WorkspaceRecord → Bool}

/-- What a query that yields all its rows maps them to. -/
theorem queryMap_eq_ok_iff :
  table.queryMap clause mapper = .ok records
    ↔ table.step = none
      ∧ (∀ row ∈ table.rows.filter clause, ((mapper row).toOption).isSome)
      ∧ records = (table.scan.order (table.rows.filter clause)).filterMap
        (fun row => (mapper row).toOption)
  := by
  have hscan := table.scan.perm (table.rows.filter clause)
  rw [OrchestraTable.queryMap]
  split
  case h_1 hstep =>
      rw [Outcome.mapM_eq_ok_iff, hstep]
      simp only [hscan.mem_iff, true_and]
  case h_2 n e hstep =>
      constructor
      · intro h
        obtain ⟨-, -, ⟨⟩⟩ := Outcome.bind_eq_ok.mp h
      · rintro ⟨hnone, -⟩
        rw [hstep] at hnone
        cases hnone

/-- What a table that is read without errors yields. -/
theorem read_eq_ok_iff :
  table.read name clause mapper = .ok records
    ↔ (table.prepare = none ∧ table.query = none ∧ table.step = none)
      ∧ (∀ row ∈ table.rows.filter clause, ((mapper row).toOption).isSome)
      ∧ records = (table.scan.order (table.rows.filter clause)).filterMap
        (fun row => (mapper row).toOption)
  := by
  rw [OrchestraTable.read]
  split
  case h_1 e _ hprepare =>
      constructor
      · rintro ⟨⟩
      · rintro ⟨⟨hnone, -⟩, -⟩
        rw [hprepare] at hnone
        cases hnone
  case h_2 e _ hstart =>
      constructor
      · rintro ⟨⟩
      · rintro ⟨⟨-, hnone, -⟩, -⟩
        rw [hstart] at hnone
        cases hnone
  case h_3 hprepare hstart =>
      rw [hprepare, hstart]
      constructor
      · intro h
        obtain ⟨hstep, hrest⟩ := queryMap_eq_ok_iff.mp (Outcome.of_mapError_eq_ok h)
        exact ⟨⟨rfl, rfl, hstep⟩, hrest⟩
      · rintro ⟨⟨-, -, hstep⟩, hrest⟩
        rw [queryMap_eq_ok_iff.mpr ⟨hstep, hrest⟩]
        rfl

/-- The records of a project are those of its rows. -/
theorem filter_filterMap_mapper
    (hmapper : ∀ row record, mapper row = .ok record → isProject record = ofProject row)
    (rows : List ρ) :
  (rows.filterMap (fun row => (mapper row).toOption)).filter isProject
    = (rows.filter ofProject).filterMap (fun row => (mapper row).toOption)
  := by
  rw [List.filter_filterMap, List.filterMap_filter]
  apply List.filterMap_congr
  intro row _
  cases hrow : mapper row with
  | error e => simp [Except.toOption]
  | ok record => simp [Except.toOption, Option.filter, hmapper row record hrow]

/-- A query that selects rows of a project reads records of the project, and all of them exactly
if it selects all rows of the project. -/
theorem read_narrowed {all : List WorkspaceRecord} (h : table.read name clause mapper = .ok all)
    (hclause : ∀ row, narrowed row → clause row ∧ ofProject row)
    (hmapper : ∀ row record, mapper row = .ok record → isProject record = ofProject row) :
  ∃ selected, table.read name narrowed mapper = .ok selected
    ∧ selected.Subperm (all.filter isProject)
    ∧ (selected.length = (all.filter isProject).length
      ↔ ∀ row ∈ table.rows, clause row → ofProject row → narrowed row)
  := by
  obtain ⟨hsound, hsome, rfl⟩ := read_eq_ok_iff.mp h
  let ofRow (row : ρ) : Option WorkspaceRecord := (mapper row).toOption
  let rows := (table.rows.filter clause).filter ofProject
  have hrows : ∀ row ∈ rows, (ofRow row).isSome := by
    intro row hrow
    apply hsome row (List.mem_of_mem_filter hrow)
  have hnarrowed : table.rows.filter narrowed = rows.filter narrowed := by
    rw [List.filter_filter, List.filter_filter]
    apply List.filter_congr
    intro row _
    rw [Bool.eq_iff_iff, Bool.and_eq_true, Bool.and_eq_true]
    have himp := hclause row
    tauto
  have hall : (((table.scan.order (table.rows.filter clause)).filterMap ofRow).filter
      isProject).Perm (rows.filterMap ofRow) := by
    have hperm := ((table.scan.perm (table.rows.filter clause)).filterMap ofRow).filter isProject
    rw [filter_filterMap_mapper hmapper (table.rows.filter clause)] at hperm
    apply hperm
  have hsome' : ∀ row ∈ table.rows.filter narrowed, (ofRow row).isSome := by
    rw [hnarrowed]
    intro row hrow
    apply hrows row (List.mem_of_mem_filter hrow)
  have hfiltered : ((table.scan.order (table.rows.filter narrowed)).filterMap ofRow).Perm
      ((rows.filter narrowed).filterMap ofRow) := by
    rw [← hnarrowed]
    apply (table.scan.perm _).filterMap
  refine ⟨_, read_eq_ok_iff.mpr ⟨hsound, hsome', rfl⟩, ?_, ?_⟩
  · apply hfiltered.subperm.trans
    apply (List.filter_sublist.filterMap ofRow).subperm.trans hall.symm.subperm
  · rw [hfiltered.length_eq, hall.length_eq, List.filterMap_length_eq_length.mpr hrows,
      List.filterMap_length_eq_length.mpr (fun row hrow => hrows row (List.mem_of_mem_filter hrow)),
      List.length_filter_eq_length_iff]
    simp only [rows, List.mem_filter, and_imp]

end Reading

section Project

variable {parseJson : String → Option Json} {db : OrchestraDb} {project : String}

/-- The record is of the project. -/
def isOfProject (project : String) (record : WorkspaceRecord) : Bool :=
  record.projectId = project

/-- Every feature of the project has a body that does not speak of deletion. -/
def FeaturesKept (db : OrchestraDb) (project : String) : Prop :=
  ∀ row ∈ db.features.rows, row.projectId = .text project → row.body.notLikeDeleted

theorem isOfProject_of_getText {value : SqlValue} {text column : String} {index : ℕ}
    (h : value.getText index column = .ok text) :
  decide (text = project) = inProject (some project) value
  := by
  cases value with
  | text t =>
      obtain rfl := Except.ok.inj h
      simp [inProject]
  | null => cases h
  | integer n => cases h
  | real f => cases h
  | blob bytes => cases h

theorem isOfProject_featureRecord {row : FeatureRow} {record : WorkspaceRecord}
    (h : featureRecord parseJson row = .ok record) :
  isOfProject project record = inProject (some project) row.projectId
  := by
  obtain ⟨id, -, h⟩ := Outcome.bind_eq_ok.mp h
  obtain ⟨text, htext, h⟩ := Outcome.bind_eq_ok.mp h
  obtain ⟨title, -, ⟨⟩⟩ := Outcome.bind_eq_ok.mp h
  apply isOfProject_of_getText htext

theorem isOfProject_pageRecord {name : String} {id projectId title body tags : SqlValue}
    {record : WorkspaceRecord}
    (h : pageRecord parseJson name id projectId title body tags = .ok record) :
  isOfProject project record = inProject (some project) projectId
  := by
  obtain ⟨id, -, h⟩ := Outcome.bind_eq_ok.mp h
  obtain ⟨text, htext, h⟩ := Outcome.bind_eq_ok.mp h
  obtain ⟨title, -, ⟨⟩⟩ := Outcome.bind_eq_ok.mp h
  apply isOfProject_of_getText htext

/-- The records selected for a project are among those of it, and are all of them exactly if
`kept`. -/
structure Narrows (project : String) (all selected : List WorkspaceRecord) (kept : Prop) :
    Prop where
  subperm : selected.Subperm (all.filter (isOfProject project))
  length_iff : selected.length = (all.filter (isOfProject project)).length ↔ kept

theorem Narrows.append {all all' selected selected' : List WorkspaceRecord} {kept kept' : Prop}
    (h : Narrows project all selected kept) (h' : Narrows project all' selected' kept') :
  Narrows project (all ++ all') (selected ++ selected') (kept ∧ kept')
  := by
  have hle := h.subperm.length_le
  have hle' := h'.subperm.length_le
  constructor
  · rw [List.filter_append]
    apply h.subperm.append h'.subperm
  · rw [List.filter_append, List.length_append, List.length_append, ← h.length_iff,
      ← h'.length_iff]
    omega

theorem narrows_readFeatures {all : List WorkspaceRecord}
    (h : readFeatures parseJson db none = .ok all) :
  ∃ selected, readFeatures parseJson db (some project) = .ok selected
    ∧ Narrows project all selected (FeaturesKept db project)
  := by
  have hclause : ∀ row : FeatureRow,
      (inProject (some project) row.projectId && (false || row.body.notLikeDeleted)) →
        (inProject none row.projectId && (true || row.body.notLikeDeleted))
          ∧ inProject (some project) row.projectId := by
    intro row hrow
    use rfl
    apply (Bool.and_eq_true_iff.mp hrow).1
  obtain ⟨selected, hselected, hsubperm, hlength⟩ := read_narrowed h hclause
    (fun row record => isOfProject_featureRecord)
  use selected, hselected, hsubperm
  rw [hlength]
  constructor
  · intro hall row hrow hproject
    have := hall row hrow rfl (by rw [inProject, decide_eq_true hproject])
    apply (Bool.and_eq_true_iff.mp this).2
  · intro hkept row hrow _ hproject
    rw [hproject, Bool.true_and]
    apply hkept row hrow (of_decide_eq_true hproject)

theorem narrows_readNotes {all : List WorkspaceRecord}
    (h : readNotes parseJson db none = .ok all) :
  ∃ selected, readNotes parseJson db (some project) = .ok selected
    ∧ Narrows project all selected True
  := by
  have hclause : ∀ row : NoteRow,
      (inProject (some project) row.projectId && row.deleted.isZero) →
        (inProject none row.projectId && row.deleted.isZero)
          ∧ inProject (some project) row.projectId := by
    intro row hrow
    obtain ⟨hproject, hdeleted⟩ := Bool.and_eq_true_iff.mp hrow
    exact ⟨hdeleted, hproject⟩
  obtain ⟨selected, hselected, hsubperm, hlength⟩ := read_narrowed h hclause
    (fun row record => isOfProject_pageRecord)
  use selected, hselected, hsubperm
  rw [hlength]
  apply iff_of_true _ trivial
  intro row _ hdeleted hproject
  rw [hproject]
  apply hdeleted

theorem narrows_readDocs {all : List WorkspaceRecord}
    (h : readDocs parseJson db none = .ok all) :
  ∃ selected, readDocs parseJson db (some project) = .ok selected
    ∧ Narrows project all selected True
  := by
  have hclause : ∀ row : DocRow, inProject (some project) row.projectId →
      inProject none row.projectId ∧ inProject (some project) row.projectId := by
    intro row hproject
    exact ⟨rfl, hproject⟩
  obtain ⟨selected, hselected, hsubperm, hlength⟩ := read_narrowed h hclause
    (fun row record => isOfProject_pageRecord)
  use selected, hselected, hsubperm
  rw [hlength]
  apply iff_of_true _ trivial
  intro row _ _ hproject
  apply hproject

theorem narrows_readEntities {entityType : String} {all : List WorkspaceRecord}
    (h : readEntities parseJson db none entityType = .ok all) :
  ∃ selected, readEntities parseJson db (some project) entityType = .ok selected
    ∧ Narrows project all selected (entityType = "features" → FeaturesKept db project)
  := by
  rw [readEntities] at h ⊢
  by_cases hfeatures : entityType = "features"
  · rw [if_pos hfeatures] at h ⊢
    obtain ⟨selected, hselected, hsubperm, hlength⟩ := narrows_readFeatures h
    refine ⟨selected, hselected, hsubperm, hlength.trans ?_⟩
    simp [hfeatures]
  · rw [if_neg hfeatures] at h ⊢
    have hkept : True ↔ (entityType = "features" → FeaturesKept db project) := by
      simp [hfeatures]
    split at h
    case isTrue hnotes =>
        rw [if_pos hnotes]
        obtain ⟨selected, hselected, hsubperm, hlength⟩ := narrows_readNotes h
        exact ⟨selected, hselected, hsubperm, hlength.trans hkept⟩
    case isFalse hnotes =>
        rw [if_neg hnotes]
        split at h
        case isTrue hdocs =>
            rw [if_pos hdocs]
            obtain ⟨selected, hselected, hsubperm, hlength⟩ := narrows_readDocs h
            exact ⟨selected, hselected, hsubperm, hlength.trans hkept⟩
        case isFalse hdocs =>
            rw [if_neg hdocs]
            obtain rfl := Except.ok.inj h
            exact ⟨[], rfl, List.Subperm.refl _, iff_of_true rfl (hkept.mp trivial)⟩

theorem narrows_mapM {entityTypes : List String} {all : List (List WorkspaceRecord)}
    (h : entityTypes.mapM (readEntities parseJson db none) = .ok all) :
  ∃ selected, entityTypes.mapM (readEntities parseJson db (some project)) = .ok selected
    ∧ Narrows project all.flatten selected.flatten
      ("features" ∈ entityTypes → FeaturesKept db project)
  := by
  induction entityTypes generalizing all with
  | nil =>
      obtain rfl := Except.ok.inj h
      exact ⟨[], rfl, List.Subperm.refl _, iff_of_true rfl (by simp)⟩
  | cons entityType entityTypes ih =>
      rw [List.mapM_cons] at h
      obtain ⟨first, hfirst, h⟩ := Outcome.bind_eq_ok.mp h
      obtain ⟨rest, hrest, ⟨⟩⟩ := Outcome.bind_eq_ok.mp h
      obtain ⟨selected, hselected, hnarrows⟩ := narrows_readEntities hfirst
      obtain ⟨selecteds, hselecteds, hnarrows'⟩ := ih hrest
      obtain ⟨hsubperm, hlength⟩ := hnarrows.append hnarrows'
      use selected :: selecteds
      constructor
      · rw [List.mapM_cons, hselected, hselecteds]
        rfl
      · use hsubperm
        refine hlength.trans ?_
        rw [List.mem_cons, or_imp, eq_comm (b := entityType)]

theorem narrows_readWorkspaceRecords {types : List String} {all : List WorkspaceRecord}
    (h : readWorkspaceRecords parseJson db none types = .ok all) :
  ∃ selected, readWorkspaceRecords parseJson db (some project) types = .ok selected
    ∧ Narrows project all selected ("features" ∈ types → FeaturesKept db project)
  := by
  rw [readWorkspaceRecords] at h ⊢
  split at h
  case h_1 hopen => cases h
  case h_2 hopen hbusy => cases h
  case h_3 hopen hbusy =>
      obtain ⟨records, hrecords, ⟨⟩⟩ := Outcome.bind_eq_ok.mp h
      obtain ⟨selected, hselected, hnarrows⟩ := narrows_mapM hrecords
      use selected.flatten
      rw [hselected]
      exact ⟨rfl, hnarrows⟩

/-- The records read for a project are those of it among all exactly if features are not read, or
the body of each feature of the project is kept. -/
theorem read_project_iff {types : List String} {all : List WorkspaceRecord}
    (h : readWorkspaceRecords parseJson db none types = .ok all) :
  (∃ selected, readWorkspaceRecords parseJson db (some project) types = .ok selected
      ∧ selected.Perm (all.filter (isOfProject project)))
    ↔ ("features" ∈ types → FeaturesKept db project)
  := by
  obtain ⟨selected, hselected, hnarrows⟩ := narrows_readWorkspaceRecords h
  rw [← hnarrows.length_iff, hselected]
  constructor
  · rintro ⟨records, ⟨⟩, hperm⟩
    apply hperm.length_eq
  · intro hlength
    use selected, rfl
    apply hnarrows.subperm.perm_of_length_le hlength.ge

end Project

section AuthFeature

/-- A database of one feature with a body. -/
def authFeatureDb (body : SqlValue) : OrchestraDb where
  openError := none
  busyTimeout := none
  features := .readable
    [⟨.text "FEAT-ABC", .text "my-project", .text "Auth feature", .text "Login flow", body,
      .text "[]", .text "in-progress", .text "feature"⟩]
  notes := .readable []
  docs := .readable []

def authFeature (body : String) : WorkspaceRecord where
  path := "orchestra://features/" ++ "FEAT-ABC"
  content := "Auth feature" ++ "\n\n" ++ "Login flow" ++ "\n\n" ++ body
  language := "markdown"
  symbols := " ".intercalate ["in-progress", "feature"]
  entityType := "features"
  entityId := "FEAT-ABC"
  projectId := "my-project"

/-- A feature is read for its project. -/
theorem read_project_authFeature :
  ∃ selected,
    readWorkspaceRecords (fun _ => none) (authFeatureDb (.text "Implements JWT"))
        (some "my-project") ["features"] = .ok selected
      ∧ selected.Perm ([authFeature "Implements JWT"].filter (isOfProject "my-project"))
  := by
  have hall : readWorkspaceRecords (fun _ => none) (authFeatureDb (.text "Implements JWT")) none
      ["features"] = .ok [authFeature "Implements JWT"] := rfl
  apply (read_project_iff hall).mpr
  rintro - row hrow -
  obtain rfl := List.mem_singleton.mp hrow
  rfl

/-- A feature that speaks of deletion is read among all, but not for its project. -/
theorem not_read_project_deletedSessions :
  ¬ ∀ (parseJson : String → Option Json) (db : OrchestraDb) (project : String)
      (types : List String) (all : List WorkspaceRecord),
      readWorkspaceRecords parseJson db none types = .ok all →
        ∃ selected, readWorkspaceRecords parseJson db (some project) types = .ok selected
          ∧ selected.Perm (all.filter (isOfProject project))
  := by
  intro hall
  obtain ⟨selected, hselected, hperm⟩ := hall (fun _ => none)
    (authFeatureDb (.text "Purges deleted sessions")) "my-project" ["features"]
    [authFeature "Purges deleted sessions"] rfl
  obtain rfl : [] = selected := Except.ok.inj hselected
  cases hperm.nil_eq

end AuthFeature

end OrchestraRag
