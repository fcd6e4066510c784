import Mathlib.Data.List.Dedup
import Mathlib.Data.List.Induction
import OrchestraRag.Library.Latest
import OrchestraRag.Protocol.Handler

/-!
# The tools of the plugin

A registry is what the sequence of registrations makes it: a tool is called by the handler that
was registered last under its name, and listed once, with the definition registered last
(`registered_latest`).

The plugin registers its tools group by group, depending on what it was given.  No two tools have
the same name, so that each call reaches its own handler, and with an index, a database and a
language store the tools are those of the manifest (`provides_manifest`).
-/

namespace OrchestraRag

open Latest

/-! ### Registrations -/

namespace ToolRegistry

variable {σ : Type}

/-- Check if a tool exists. -/
def hasTool (registry : ToolRegistry σ) (name : String) : Bool :=
  (registry.tools.lookup name).isSome

/-- Register tools one after another. -/
def registerAll (tools : List (RegisteredTool σ)) (registry : ToolRegistry σ) : ToolRegistry σ :=
  tools.foldl (fun registry tool => registry.register tool.definition tool.handler) registry

theorem registerAll_concat (tools : List (RegisteredTool σ)) (tool : RegisteredTool σ)
    (registry : ToolRegistry σ) :
  registry.registerAll (tools ++ [tool])
    = (registry.registerAll tools).register tool.definition tool.handler
  := by
  rw [registerAll, List.foldl_append]
  rfl

/-- Under each name there is the tool that was registered last. -/
theorem lookup_registerAll (tools : List (RegisteredTool σ)) (name : String) :
  (new.registerAll tools).tools.lookup name
    = latest (fun tool => tool.definition.name = name) tools
  := by
  induction tools using List.reverseRecOn with
  | nil => rfl
  | append_singleton tools tool ih =>
      rw [registerAll_concat, latest_concat, register]
      split
      case isTrue hname => rw [hname, AList.lookup_insert]
      case isFalse hname =>
          rw [AList.lookup_insert_ne (fun h => hname h.symm), ih]

theorem mem_entries_registerAll {tools : List (RegisteredTool σ)} {name : String}
    {tool : RegisteredTool σ} :
  ⟨name, tool⟩ ∈ (new.registerAll tools).tools.entries
    ↔ latest (fun tool => tool.definition.name = name) tools = some tool
  := by
  rw [← lookup_registerAll]
  apply AList.mem_lookup_iff.symm

/-- The keys are the names of the definitions. -/
theorem map_name_listDefinitions (tools : List (RegisteredTool σ)) :
  (new.registerAll tools).listDefinitions.map ToolDefinition.name
    = (new.registerAll tools).tools.keys
  := by
  rw [listDefinitions, List.map_map, AList.keys, List.keys]
  apply List.map_congr_left
  rintro ⟨name, tool⟩ hentry
  apply (of_latest (mem_entries_registerAll.mp hentry)).2

theorem mem_keys_registerAll {tools : List (RegisteredTool σ)} {name : String} :
  name ∈ (new.registerAll tools).tools.keys ↔ ∃ tool ∈ tools, tool.definition.name = name
  := by
  rw [← latest_isSome, ← lookup_registerAll, AList.lookup_isSome]
  rfl

theorem perm_keys_registerAll (tools : List (RegisteredTool σ)) :
  (new.registerAll tools).tools.keys.Perm
    (tools.map (fun tool => tool.definition.name)).dedup
  := by
  rw [List.perm_ext_iff_of_nodup (AList.keys_nodup _) (List.nodup_dedup _)]
  intro name
  rw [mem_keys_registerAll, List.mem_dedup, List.mem_map]

/-- After any registrations, calls, definitions and the number of tools are those of the tools that
were registered last under their names. -/
theorem registered_latest (tools : List (RegisteredTool σ)) :
  (∀ name args services, (new.registerAll tools).call name args services
      = match latest (fun tool => tool.definition.name = name) tools with
        | some tool => tool.handler args services
        | none => (.error (.err ("tool not found: " ++ name)), services))
    ∧ (∀ definition, definition ∈ (new.registerAll tools).listDefinitions
      ↔ ∃ tool, latest (fun tool => tool.definition.name = definition.name) tools = some tool
        ∧ tool.definition = definition)
    ∧ ((new.registerAll tools).listDefinitions.map ToolDefinition.name).Nodup
    ∧ (new.registerAll tools).toolCount
      = (tools.map (fun tool => tool.definition.name)).dedup.length
    ∧ ∀ name, (new.registerAll tools).hasTool name
      ↔ name ∈ tools.map (fun tool => tool.definition.name)
  := by
  refine ⟨?_, ?_, ?_, ?_, ?_⟩
  · intro name args services
    cases hlatest : latest (fun tool : RegisteredTool σ => tool.definition.name = name) tools <;>
      simp only [call, lookup_registerAll, hlatest]
  · intro definition
    rw [listDefinitions, List.mem_map]
    constructor
    · rintro ⟨⟨name, tool⟩, hentry, rfl⟩
      have hlatest := mem_entries_registerAll.mp hentry
      have hname := (of_latest hlatest).2
      use tool
      rw [hname]
      exact ⟨hlatest, rfl⟩
    · rintro ⟨tool, hlatest, rfl⟩
      exact ⟨_, mem_entries_registerAll.mpr hlatest, rfl⟩
  · rw [map_name_listDefinitions]
    apply AList.keys_nodup
  · rw [← (perm_keys_registerAll tools).length_eq, toolCount, AList.keys, List.keys,
      List.length_map]
  · intro name
    rw [hasTool, lookup_registerAll, latest_isSome, List.mem_map]

end ToolRegistry

/-! ### The plugin -/

/-- The tools that `health::register`, `parse::register` and the other groups register, in their
order. -/
def healthTools : List String :=
  ["health_check"]

def parseTools : List String :=
  ["parse_file", "get_symbols", "get_imports"]

def searchTools : List String :=
  ["index_file", "search", "delete_from_index", "clear_index", "get_index_stats", "search_symbols"]

def directoryTools : List String :=
  ["index_directory"]

def workspaceDataTools : List String :=
  ["index_workspace_data"]

def memoryTools : List String :=
  ["save_memory", "search_memory", "get_context", "list_memories", "get_memory", "update_memory",
    "delete_memory", "start_session", "save_observation", "get_project_summary", "end_session"]

def lspTools : List String :=
  ["lsp_open_document", "lsp_close_document", "lsp_update_document", "lsp_goto_definition",
    "lsp_find_references", "lsp_hover", "lsp_complete", "lsp_diagnostics", "lsp_workspace_symbols",
    "lsp_build_index"]

/-- `provides_tools` of the manifest. -/
def providesTools : List String :=
  ["health_check", "parse_file", "get_symbols", "get_imports", "index_file", "search",
    "delete_from_index", "clear_index", "get_index_stats", "search_symbols", "index_directory",
    "index_workspace_data", "save_memory", "search_memory", "get_context", "list_memories",
    "get_memory", "update_memory", "delete_memory", "save_observation", "get_project_summary",
    "start_session", "end_session", "lsp_open_document", "lsp_close_document",
    "lsp_update_document", "lsp_goto_definition", "lsp_find_references", "lsp_hover",
    "lsp_complete", "lsp_diagnostics", "lsp_workspace_symbols", "lsp_build_index"]

/-- What the plugin registers under each name: a definition with that name, and a handler. -/
structure PluginTools (σ : Type) where
  tool : String → RegisteredTool σ
  name_tool : ∀ name, (tool name).definition.name = name

/-- What the plugin was given. -/
structure PluginParts where
  indexPath : Bool
  memoryPool : Bool
  lspPool : Bool

namespace PluginTools

variable {σ : Type} (tools : PluginTools σ)

/-- Register the tools of a group. -/
def registerGroup (names : List String) (registry : ToolRegistry σ) : ToolRegistry σ :=
  registry.registerAll (names.map tools.tool)

/-- Register all tools of the parts that are there. -/
def registerAllToolsWithLsp (parts : PluginParts) (registry : ToolRegistry σ) : ToolRegistry σ :=
  let registry := tools.registerGroup healthTools registry
  let registry := tools.registerGroup parseTools registry
  let registry :=
    if parts.indexPath then
      tools.registerGroup workspaceDataTools (tools.registerGroup directoryTools
        (tools.registerGroup searchTools registry))
    else registry
  let registry :=
    if parts.memoryPool then tools.registerGroup memoryTools registry else registry
  if parts.lspPool then tools.registerGroup lspTools registry else registry

/-- The names that are registered, in order. -/
def names (parts : PluginParts) : List String :=
  healthTools ++ parseTools
    ++ (if parts.indexPath then searchTools ++ directoryTools ++ workspaceDataTools else [])
    ++ (if parts.memoryPool then memoryTools else [])
    ++ (if parts.lspPool then lspTools else [])

theorem registerGroup_registerGroup (names names' : List String) (registry : ToolRegistry σ) :
  tools.registerGroup names' (tools.registerGroup names registry)
    = tools.registerGroup (names ++ names') registry
  := by
  simp only [registerGroup, ToolRegistry.registerAll, List.map_append, List.foldl_append]

theorem registerAllToolsWithLsp_eq (parts : PluginParts) (registry : ToolRegistry σ) :
  tools.registerAllToolsWithLsp parts registry = tools.registerGroup (names parts) registry
  := by
  rcases parts with ⟨_ | _, _ | _, _ | _⟩
  all_goals
    simp only [registerAllToolsWithLsp, registerGroup_registerGroup, names, if_true, if_false,
      Bool.false_eq_true, List.append_nil, List.append_assoc]

/-- Whatever the plugin was given, no two of its tools have the same name, and all are of the
manifest. -/
theorem names_subperm (parts : PluginParts) :
  (names parts).Nodup ∧ names parts ⊆ providesTools
  := by
  obtain ⟨index, memory, lsp⟩ := parts
  revert index memory lsp
  decide

/-- A tool of the plugin is the only one with its name. -/
theorem latest_tool (parts : PluginParts) (name : String) :
  latest (fun tool => tool.definition.name = name) ((names parts).map tools.tool)
    = if name ∈ names parts then some (tools.tool name) else none
  := by
  split
  case isTrue hname =>
      apply latest_eq_some_of_unique (List.mem_map_of_mem hname) (tools.name_tool name)
      intro tool htool hsame
      obtain ⟨name', -, rfl⟩ := List.mem_map.mp htool
      rw [tools.name_tool name'] at hsame
      rw [hsame]
  case isFalse hname =>
      rw [latest_eq_none]
      intro tool htool hsame
      obtain ⟨name', hname', rfl⟩ := List.mem_map.mp htool
      rw [tools.name_tool name'] at hsame
      rw [hsame] at hname'
      cases hname hname'

/-- A call reaches the handler that was written for its name. -/
theorem call_registerAllToolsWithLsp (parts : PluginParts) (name : String) (args : Json)
    (services : σ) :
  (tools.registerAllToolsWithLsp parts .new).call name args services
    = if name ∈ names parts then (tools.tool name).handler args services
      else (.error (.err ("tool not found: " ++ name)), services)
  := by
  rw [tools.registerAllToolsWithLsp_eq, registerGroup, ToolRegistry.call,
    ToolRegistry.lookup_registerAll, tools.latest_tool]
  by_cases hname : name ∈ names parts
  · rw [if_pos hname, if_pos hname]
  · rw [if_neg hname, if_neg hname]

end PluginTools

open PluginTools in
/-- Whatever the plugin was given, its tools are listed once each, are of the manifest, and a call
reaches the handler that was written for its name; with all parts the tools are those of the
manifest. -/
theorem provides_manifest {σ : Type} (tools : PluginTools σ) (parts : PluginParts) :
  (((tools.registerAllToolsWithLsp parts .new).listDefinitions.map ToolDefinition.name).Perm
      (names parts)
    ∧ names parts ⊆ providesTools
    ∧ (∀ name args services, (tools.registerAllToolsWithLsp parts .new).call name args services
      = if name ∈ names parts then (tools.tool name).handler args services
        else (.error (.err ("tool not found: " ++ name)), services))
    ∧ (parts = ⟨true, true, true⟩ → (names parts).Perm providesTools))
  := by
  obtain ⟨hnodup, hsubset⟩ := names_subperm parts
  have hnames : ((names parts).map tools.tool).map (fun tool => tool.definition.name)
      = names parts := by
    rw [List.map_map]
    conv_rhs => rw [← List.map_id (names parts)]
    apply List.map_congr_left
    intro name _
    apply tools.name_tool
  refine ⟨?_, hsubset, tools.call_registerAllToolsWithLsp parts, ?_⟩
  · rw [tools.registerAllToolsWithLsp_eq, registerGroup]
    have hperm := ToolRegistry.perm_keys_registerAll ((names parts).map tools.tool)
    rw [hnames, hnodup.dedup] at hperm
    rw [ToolRegistry.map_name_listDefinitions]
    apply hperm
  · rintro rfl
    decide

end OrchestraRag
