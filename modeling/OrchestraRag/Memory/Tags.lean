import OrchestraRag.Library.JsonText
import OrchestraRag.Memory.Acknowledged

/-!
# Tags

The tags of a memory are stored as JSON text, from which they are read back
(`memoryFromRow_toRow`).  `update_memory` writes the tags it is given, and none when it is given
none, so that an update without tags keeps those of the memory exactly if it had none
(`updateMemory_framed_iff`).
-/

namespace OrchestraRag

open Sql

/-! ### Storing tags -/

/-- Tags are a JSON array of strings. -/
def TagCodec.json : TagCodec :=
  ⟨JsonText.encodeStrings, JsonText.decodeStrings⟩

theorem TagCodec.json_injective {tags tags' : List String}
    (h : TagCodec.json.toText tags = TagCodec.json.toText tags') :
  tags = tags'
  := by
  have hread := congrArg JsonText.decodeStrings h
  apply Option.some.inj
  rw [← JsonText.decodeStrings_encodeStrings tags, ← JsonText.decodeStrings_encodeStrings tags']
  apply hread

/-- The row of a memory. -/
def Memory.toRow (mem : Memory) : MemoryRow where
  id := mem.id
  project := mem.project
  category := mem.category
  content := mem.content
  tags := some (TagCodec.json.toText mem.tags)
  createdAt := mem.createdAt
  updatedAt := mem.updatedAt

/-- A memory is read from its row. -/
theorem memoryFromRow_toRow (mem : Memory) :
  memoryFromRow TagCodec.json mem.toRow = mem
  := by
  have htags : TagCodec.json.fromText (TagCodec.json.toText mem.tags) = some mem.tags :=
    JsonText.decodeStrings_encodeStrings mem.tags
  rw [memoryFromRow, Memory.toRow, Option.bind_some, htags]
  rfl

/-! ### The frame of an update -/

/-- An update of the memory with the id may change the content, the time and, if tags are given,
the tags of its row. -/
structure MemoryRow.Framed (id : String) (args : Json) (row row' : MemoryRow) : Prop where
  id_eq : row'.id = row.id
  project_eq : row'.project = row.project
  category_eq : row'.category = row.category
  createdAt_eq : row'.createdAt = row.createdAt
  tags_eq : args.get "tags" = none → row'.tags = row.tags
  other : row.id ≠ id → row' = row

/-- An update of the memory with the id leaves all tables but the memories, and there all but what
it may change. -/
structure MemoryTables.Framed (id : String) (args : Json) (tables tables' : MemoryTables) :
    Prop where
  sessions : tables'.sessions = tables.sessions
  observations : tables'.observations = tables.observations
  summaries : tables'.summaries = tables.summaries
  embeddings : tables'.embeddings = tables.embeddings
  memories : List.Forall₂ (MemoryRow.Framed id args) tables.memories tables'.memories

section Update

variable {codec : TagCodec} {id content now : String} {args : Json} {s s' : MemoryState}

theorem MemoryRow.Framed.refl (row : MemoryRow) :
  row.Framed id args row
  := ⟨rfl, rfl, rfl, rfl, fun _ => rfl, fun _ => rfl⟩

theorem MemoryTables.Framed.refl (tables : MemoryTables) :
  tables.Framed id args tables
  := ⟨rfl, rfl, rfl, rfl, List.forall₂_same.mpr (fun row _ => MemoryRow.Framed.refl row)⟩

/-- No tags are given by arguments without them. -/
theorem tagsOf_eq_nil (h : args.get "tags" = none) :
  tagsOf args = []
  := by
  rw [tagsOf, h]
  rfl

/-- An update stays within its frame exactly if tags are given or the memory has none. -/
theorem framed_updateMemory_iff {tables : MemoryTables} :
  tables.Framed id args (tables.updateMemory codec now id content (tagsOf args))
    ↔ args.get "tags" ≠ none
      ∨ ∀ row ∈ tables.memories, row.id = id → row.tags = some (codec.toText [])
  := by
  constructor
  · intro h
    by_cases htags : args.get "tags" = none
    · apply Or.inr
      intro row hrow hid
      have hframed := List.forall₂_same.mp (List.forall₂_map_right_iff.mp h.memories) row hrow
      have hkept := hframed.tags_eq htags
      rw [if_pos hid, tagsOf_eq_nil htags] at hkept
      apply hkept.symm
    · apply Or.inl htags
  · intro h
    refine ⟨rfl, rfl, rfl, rfl, ?_⟩
    apply List.forall₂_map_right_iff.mpr
    apply List.forall₂_same.mpr
    intro row hrow
    by_cases hid : row.id = id
    · rw [if_pos hid]
      refine ⟨rfl, rfl, rfl, rfl, ?_, fun hother => absurd hid hother⟩
      intro htags
      rw [tagsOf_eq_nil htags]
      apply (h.resolve_left (not_not_intro htags) row hrow hid).symm
    · rw [if_neg hid]
      apply MemoryRow.Framed.refl

/-- A call whose statement does not fail updates the memory. -/
theorem exists_runs_updateMemory (hfault : s.db.nextFault = none)
    (hid : (args.index "memory_id").asStr = some id)
    (hcontent : (args.index "content").asStr = some content) :
  ∃ now s', (MemoryTools.updateMemory codec args).Runs s (.ok success) s'
    ∧ s'.db.tables = s.db.tables.updateMemory codec now id content (tagsOf args)
  := by
  let s' : MemoryState :=
    ⟨s.db.after (s.db.tables.updateMemory codec "" id content (tagsOf args)), s.issued⟩
  use "", s'
  have hexecute : (MemoryM.withConnection (Connection.execute
      (MemoryTables.updateMemory codec "" id content (tagsOf args)))).Runs s (.ok ()) s' :=
    MemoryM.runs_execute.mpr ⟨rfl, Or.inl ⟨hfault, rfl, rfl⟩⟩
  have hcall : (MemoryStorage.updateMemory codec id content (tagsOf args)).Runs s (.ok ()) s' :=
    MemoryM.runs_bind.mpr (Or.inl ⟨"", s, MemoryM.runs_now.mpr ⟨⟨"", rfl⟩, rfl⟩, hexecute⟩)
  constructor
  · rw [MemoryTools.updateMemory, requiredStr_bind_eq hid, requiredStr_bind_eq hcontent]
    apply MemoryM.runs_bind.mpr
    apply Or.inl
    refine ⟨(), s', ?_, MemoryM.runs_pure.mpr ⟨rfl, rfl⟩⟩
    apply MemoryM.runs_named.mpr ⟨.ok (), hcall, rfl⟩
  · rfl

/-- A call succeeds only if its statement does not fail. -/
theorem nextFault_of_runs_updateMemory {answer : Json}
    (hid : (args.index "memory_id").asStr = some id)
    (hcontent : (args.index "content").asStr = some content)
    (h : (MemoryTools.updateMemory codec args).Runs s (.ok answer) s') :
  s.db.nextFault = none
  := by
  rw [MemoryTools.updateMemory, requiredStr_bind_eq hid, requiredStr_bind_eq hcontent] at h
  rcases MemoryM.of_runs_answer h with ⟨_, -, hcall⟩ | ⟨e, he, -⟩
  · obtain ⟨now, hcall⟩ := MemoryM.of_runs_now_bind hcall
    obtain ⟨-, ⟨hfault, -⟩ | ⟨e, -, he, -⟩⟩ := MemoryM.runs_execute.mp hcall
    · apply hfault
    · cases he
  · cases he

end Update

/-- In every state, `update_memory` changes no more than it may exactly if tags are given, or the
call fails, or the memory has no tags. -/
theorem updateMemory_framed_iff (codec : TagCodec) (s : MemoryState) {id : String} {args : Json}
    (hid : (args.index "memory_id").asStr = some id) :
  (∀ r s', (MemoryTools.updateMemory codec args).Runs s r s' →
      s.db.tables.Framed id args s'.db.tables)
    ↔ args.get "tags" ≠ none ∨ (args.index "content").asStr = none ∨ s.db.nextFault ≠ none
      ∨ ∀ row ∈ s.db.tables.memories, row.id = id → row.tags = some (codec.toText [])
  := by
  constructor
  · intro h
    by_cases hfault : s.db.nextFault = none
    · cases hcontent : (args.index "content").asStr with
      | none => exact Or.inr (Or.inl rfl)
      | some content =>
          obtain ⟨now, s', hruns, htables⟩ :=
            @exists_runs_updateMemory codec id content args s hfault hid hcontent
          have hframed := h _ s' hruns
          rw [htables] at hframed
          apply (framed_updateMemory_iff.mp hframed).imp_right
          exact fun htags => Or.inr (Or.inr htags)
    · exact Or.inr (Or.inr (Or.inl hfault))
  · intro h r s' hruns
    obtain ⟨-, ⟨-, htables⟩ | ⟨id', content, now, hid', hcontent, rfl, htables⟩⟩ :=
      MemoryTools.of_runs_updateMemory hruns
    · rw [htables]
      apply MemoryTables.Framed.refl
    · obtain rfl := Option.some.inj (hid'.symm.trans hid)
      rw [htables]
      apply framed_updateMemory_iff.mpr
      rcases h with htags | hnone | hfault | htags
      · apply Or.inl htags
      · rw [hcontent] at hnone
        cases hnone
      · apply absurd (nextFault_of_runs_updateMemory hid hcontent hruns) hfault
      · apply Or.inr htags

/-! ### A tagged note -/

def taggedArgs (tags : List String) : Json :=
  .object [("category", .string "notes"), ("content", .string "first"),
    ("project", .string "alpha"), ("tags", .array (tags.map Json.string))]

/-- The state after a note with tags was saved. -/
def taggedSaved (tags : List String) : MemoryState where
  db :=
    { tables :=
        { MemoryTables.empty with
          memories := [Memory.toRow ⟨"m1", "alpha", "notes", "first", tags, "", ""⟩] }
      faults := [] }
  issued := ["m1"]

/-- An update of the note, with tags or without. -/
def retagArgs : Option (List String) → Json
  | some tags => .object [("content", .string "second"), ("memory_id", .string "m1"),
      ("tags", .array (tags.map Json.string))]
  | none => .object [("content", .string "second"), ("memory_id", .string "m1")]

theorem tagsOf_taggedArgs (tags : List String) :
  tagsOf (taggedArgs tags) = tags
  := by
  have hget : (taggedArgs tags).get "tags" = some (.array (tags.map Json.string)) := rfl
  rw [tagsOf, hget, Option.bind_some, Json.asArray, Option.getD_some, List.filterMap_map]
  apply List.filterMap_some

theorem reached_taggedSaved (tags : List String) :
  Reached F32 TagCodec.json (taggedSaved tags)
  := by
  apply Relation.ReflTransGen.single
  use .saveMemory, taggedArgs tags, .ok (.object [("memory_id", .string "m1")])
  refine Program.exec_step.mpr ⟨"m1", _, ⟨List.not_mem_nil, rfl⟩, ?_⟩
  refine Program.exec_step.mpr ⟨"", _, rfl, ?_⟩
  refine Program.exec_step.mpr ⟨.ok (), taggedSaved tags, ⟨?_, rfl⟩, ?_⟩
  · rw [tagsOf_taggedArgs]
    rfl
  · apply Program.exec_ret.mpr
    exact ⟨rfl, rfl⟩

/-- An update with tags changes no more than it may. -/
theorem updateMemory_framed_retagged :
  ∃ r s', (MemoryTools.updateMemory TagCodec.json (retagArgs (some ["auth"]))).Runs
      (taggedSaved ["auth"]) r s'
    ∧ (taggedSaved ["auth"]).db.tables.Framed "m1" (retagArgs (some ["auth"])) s'.db.tables
  := by
  have hid : ((retagArgs (some ["auth"])).index "memory_id").asStr = some "m1" := rfl
  obtain ⟨now, s', hruns, -⟩ :=
    @exists_runs_updateMemory TagCodec.json "m1" "second" (retagArgs (some ["auth"]))
      (taggedSaved ["auth"]) rfl hid rfl
  use .ok success, s', hruns
  apply (updateMemory_framed_iff TagCodec.json (taggedSaved ["auth"]) hid).mpr _ _ s' hruns
  apply Or.inl
  rintro ⟨⟩

/-- An update without tags clears those of the note. -/
theorem not_updateMemory_framed_untagged :
  ¬ ∀ (s : MemoryState) (id : String) (args : Json), Reached F32 TagCodec.json s → s.HasMemory id →
      (args.index "memory_id").asStr = some id →
      ∀ r s', (MemoryTools.updateMemory TagCodec.json args).Runs s r s' →
        s.db.tables.Framed id args s'.db.tables
  := by
  intro hall
  have hmemory : (taggedSaved ["auth"]).HasMemory "m1" := ⟨_, List.mem_cons_self, rfl⟩
  obtain ⟨now, s', hruns, htables⟩ :=
    @exists_runs_updateMemory TagCodec.json "m1" "second" (retagArgs none) (taggedSaved ["auth"])
      rfl rfl rfl
  have hframed := hall _ "m1" (retagArgs none) (reached_taggedSaved ["auth"]) hmemory rfl _ s' hruns
  rw [htables] at hframed
  have hnone := (framed_updateMemory_iff.mp hframed).resolve_left (not_not_intro rfl) _
    List.mem_cons_self rfl
  cases TagCodec.json_injective (Option.some.inj hnone)

end OrchestraRag
