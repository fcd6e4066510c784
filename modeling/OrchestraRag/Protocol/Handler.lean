import Mathlib.Data.List.AList
import OrchestraRag.Library.Outcome
import OrchestraRag.Protocol.Struct

/-!
# Requests, tools and responses

A `RequestHandler` dispatches a `PluginRequest` to a lifecycle handler or to a tool of its
`ToolRegistry` and makes the `PluginResponse`.  A tool is any function of its arguments and
of the services behind it (the indexes, the documents, the database), which it may change;
it returns a result or an error, or it panics, and then there is no response.

The arguments of a tool call arrive as a `Struct`.  They are read as the caller wrote them
exactly when no number in them is an integer (`wireFaithful_iff_integerFree`).
-/

namespace OrchestraRag

open Prost

/-! ### Messages -/

structure ToolDefinition where
  name : String
  description : String
  inputSchema : Option Struct

structure ToolRequest where
  toolName : String
  arguments : Option Struct

structure ToolResponse where
  success : Bool
  result : Option Struct
  errorCode : String
  errorMessage : String

structure RegistrationResult where
  accepted : Bool
  rejectReason : String

structure BootResult where
  ready : Bool
  error : String

structure ShutdownResult where
  clean : Bool

namespace HealthResult

inductive Status where
  | unspecified
  | healthy
  | degraded
  | unhealthy

end HealthResult

structure HealthResult where
  status : HealthResult.Status
  message : String
  details : List (String × String)

structure PromptArgument where
  name : String
  description : String
  required : Bool

structure PromptDefinition where
  name : String
  description : String
  arguments : List PromptArgument

structure ContentBlock where
  type : String
  text : String

structure PromptMessage where
  role : String
  content : Option ContentBlock

structure PromptGetResponse where
  description : String
  messages : List PromptMessage

/-- The payload of a request.  What a handler only logs is left out. -/
inductive Request where
  | register
  | boot
  | shutdown
  | health
  | listTools
  | toolCall (req : ToolRequest)
  | listPrompts
  | promptGet
  | storageRead
  | storageWrite
  | storageDelete
  | storageList
  | streamStart
  | streamCancel
  | subscribe
  | unsubscribe
  | publish

/-- The payload of a response, of the kinds the handler makes. -/
inductive Response where
  | register (result : RegistrationResult)
  | boot (result : BootResult)
  | shutdown (result : ShutdownResult)
  | health (result : HealthResult)
  | toolCall (response : ToolResponse)
  | listTools (tools : List ToolDefinition)
  | listPrompts (prompts : List PromptDefinition)
  | promptGet (response : PromptGetResponse)

structure PluginRequest where
  requestId : String
  request : Option Request

structure PluginResponse where
  requestId : String
  response : Option Response

/-! ### Tools -/

/-- A tool handler reads its arguments and acts on the services. -/
abbrev ToolHandler (σ : Type) :=
  Json → σ → Outcome String Json × σ

structure RegisteredTool (σ : Type) where
  definition : ToolDefinition
  handler : ToolHandler σ

/-- The tools by name, in the order in which the hash map yields them. -/
structure ToolRegistry (σ : Type) where
  tools : AList (fun _ : String => RegisteredTool σ)

namespace ToolRegistry

variable {σ : Type}

def new : ToolRegistry σ :=
  ⟨∅⟩

/-- Register a tool with its definition and handler. -/
def register (registry : ToolRegistry σ) (definition : ToolDefinition) (handler : ToolHandler σ) :
    ToolRegistry σ :=
  ⟨registry.tools.insert definition.name ⟨definition, handler⟩⟩

/-- Call a tool by name with the given arguments. -/
def call (registry : ToolRegistry σ) (name : String) (args : Json) (services : σ) :
    Outcome String Json × σ :=
  match registry.tools.lookup name with
  | some tool => tool.handler args services
  | none => (.error (.err ("tool not found: " ++ name)), services)

/-- List all tool definitions. -/
def listDefinitions (registry : ToolRegistry σ) : List ToolDefinition :=
  registry.tools.entries.map (fun e => e.2.definition)

/-- Return the number of registered tools. -/
def toolCount (registry : ToolRegistry σ) : ℕ :=
  registry.tools.entries.length

theorem call_register (registry : ToolRegistry σ) (definition : ToolDefinition)
    (handler : ToolHandler σ) :
  (registry.register definition handler).call definition.name = handler
  := by
  funext args services
  rw [call, register, AList.lookup_insert]

end ToolRegistry

/-! ### Dispatch -/

structure RequestHandler (σ : Type) where
  toolRegistry : ToolRegistry σ
  booted : Bool
  services : σ

/-- The arguments a tool is called with. -/
def toolCallArguments (req : ToolRequest) : Json :=
  (req.arguments.map structToJson).getD (.object [])

namespace RequestHandler

variable {σ : Type} (handler : RequestHandler σ)

def handleRegister : Response :=
  .register { accepted := true, rejectReason := "" }

def handleBoot : Response × RequestHandler σ :=
  (.boot { ready := true, error := "" }, { handler with booted := true })

def handleShutdown : Response × RequestHandler σ :=
  (.shutdown { clean := true }, { handler with booted := false })

def handleHealth : Response :=
  .health
    { status := if handler.booted then .healthy else .degraded
      message := if handler.booted then "all services running" else "plugin not yet booted"
      details := SortedMap.collect
        [("booted", toString handler.booted),
          ("tools_count", toString handler.toolRegistry.toolCount)] }

def handleListTools : Response :=
  .listTools handler.toolRegistry.listDefinitions

/-- Call a tool and make the response; there is none when the tool panics. -/
def handleToolCall (req : ToolRequest) : Option Response × RequestHandler σ :=
  let (outcome, services) :=
    handler.toolRegistry.call req.toolName (toolCallArguments req) handler.services
  let response := match outcome with
    | .ok result => some <| .toolCall
        { success := true, result := some (jsonToStruct result), errorCode := "",
          errorMessage := "" }
    | .error (.err message) => some <| .toolCall
        { success := false, result := none, errorCode := "tool_error", errorMessage := message }
    | .error .panicked => none
  (response, { handler with services := services })

def handleListPrompts : Response :=
  .listPrompts []

def handlePromptGet : Response :=
  .promptGet { description := "", messages := [] }

def handleUnsupported (operation : String) : Response :=
  .toolCall
    { success := false, result := none, errorCode := "unsupported",
      errorMessage := operation ++ " is not supported by engine.rag" }

/-- Route a typed request to its handler. -/
def dispatch : Request → Option Response × RequestHandler σ
  | .register => (some handleRegister, handler)
  | .boot => handler.handleBoot.map some id
  | .shutdown => handler.handleShutdown.map some id
  | .health => (some handler.handleHealth, handler)
  | .listTools => (some handler.handleListTools, handler)
  | .toolCall req => handler.handleToolCall req
  | .listPrompts => (some handleListPrompts, handler)
  | .promptGet => (some handlePromptGet, handler)
  | .storageRead => (some (handleUnsupported "storage_read"), handler)
  | .storageWrite => (some (handleUnsupported "storage_write"), handler)
  | .storageDelete => (some (handleUnsupported "storage_delete"), handler)
  | .storageList => (some (handleUnsupported "storage_list"), handler)
  | _ => (some (handleUnsupported "unknown"), handler)

/-- Dispatch a request to the correct handler and make its response. -/
def handleRequest (request : PluginRequest) : Option PluginResponse × RequestHandler σ :=
  let (response, handler) := match request.request with
    | some req => handler.dispatch req
    | none => (some <| .toolCall
        { success := false, result := none, errorCode := "invalid_request",
          errorMessage := "request contained no payload" }, handler)
  (response.map (fun r => { requestId := request.requestId, response := some r }), handler)

/-- The tool a request calls, if any, returns. -/
def Returns (request : PluginRequest) : Prop :=
  ∀ req, request.request = some (.toolCall req) → ¬ (handler.toolRegistry.call req.toolName
    (toolCallArguments req) handler.services).1.Panicked

theorem dispatch_returns (req : Request)
    (h : ∀ call, req = .toolCall call → ¬ (handler.toolRegistry.call call.toolName
      (toolCallArguments call) handler.services).1.Panicked) :
  ∃ response, (handler.dispatch req).1 = some response
  := by
  cases req with
  | toolCall call =>
      have hcall := h call rfl
      rw [dispatch, handleToolCall]
      cases hout : handler.toolRegistry.call call.toolName (toolCallArguments call)
        handler.services with
      | mk outcome services =>
          rw [hout] at hcall
          rcases outcome with (message | _) | result
          · exact ⟨_, rfl⟩
          · exact absurd rfl hcall
          · exact ⟨_, rfl⟩
  | _ => exact ⟨_, rfl⟩

/-- Every request whose tool returns has a response, with the id of the request. -/
theorem handleRequest_returns {request : PluginRequest} (h : handler.Returns request) :
  ∃ response, (handler.handleRequest request).1 = some response
    ∧ response.requestId = request.requestId
  := by
  rw [handleRequest]
  cases hreq : request.request with
  | none => exact ⟨_, rfl, rfl⟩
  | some req =>
      have hcall : ∀ call, req = .toolCall call → ¬ (handler.toolRegistry.call call.toolName
          (toolCallArguments call) handler.services).1.Panicked := by
        intro call hcall
        apply h call
        rw [hreq, hcall]
      obtain ⟨response, hresponse⟩ := handler.dispatch_returns req hcall
      use { requestId := request.requestId, response := some response }
      simp [hresponse]

end RequestHandler

/-! ### Arguments over the wire -/

/-- A field a tool cannot do without. -/
def required {α : Type} (field : String) : Option α → Except String α
  | some value => .ok value
  | none => .error ("missing required field: " ++ field)

/-- The position arguments of `lsp_goto_definition`: a path, a line and a column. -/
def gotoDefinitionArguments (args : Json) : Except String (String × UInt32 × UInt32) := do
  let path ← required "path" (args.index "path").asStr
  let line ← required "line" (args.index "line").asU64
  let col ← required "col" (args.index "col").asU64
  pure (path, line.toUInt32, col.toUInt32)

namespace Json

/-- A tool called over the wire reads the same at every path of its arguments as a tool
called with `args`. -/
def WireFaithful (args : Json) : Prop :=
  ∀ toolName path, (toolCallArguments ⟨toolName, some (jsonToStruct args)⟩).readAt path
    = args.readAt path

theorem toolCallArguments_jsonToStruct (toolName : String) (fields : List (String × Json)) :
  toolCallArguments ⟨toolName, some (jsonToStruct (object fields))⟩ = (object fields).wire
  := structToJson_jsonToStruct fields

/-- No accessor reads an integer from a value made from a protobuf one. -/
theorem asU64_valueToJson (v : Value) :
  (valueToJson v).asU64 = none
  := by
  cases v with
  | numberValue f =>
      rw [valueToJson, ofF64]
      split <;> rfl
  | _ => simp [valueToJson, asU64]

/-- No tool called over the wire reads an unsigned integer from its arguments, whatever the
caller sent. -/
theorem asU64_toolCallArguments (req : ToolRequest) (key : String) :
  ((toolCallArguments req).index key).asU64 = none
  := by
  rw [toolCallArguments]
  cases req.arguments with
  | none => rfl
  | some s =>
      rw [Option.map_some, Option.getD_some, structToJson, index, get]
      cases h : (SortedMap.collect (fieldsToJson s.fields)).lookup key with
      | none => rfl
      | some v =>
          obtain ⟨l₁, l₂, hfields, -⟩ := List.lookup_eq_some_iff.mp h
          have hmem : (key, v) ∈ fieldsToJson s.fields := by
            apply SortedMap.mem_collect
            simp [hfields]
          rw [fieldsToJson_eq_map] at hmem
          obtain ⟨e, -, he⟩ := List.mem_map.mp hmem
          obtain ⟨-, rfl⟩ := Prod.mk.inj he
          apply asU64_valueToJson

/-- `lsp_goto_definition` called over the wire finds no line, whatever the caller sent. -/
theorem gotoDefinitionArguments_toolCallArguments (req : ToolRequest) :
  gotoDefinitionArguments (toolCallArguments req) = .error "missing required field: path"
    ∨ gotoDefinitionArguments (toolCallArguments req) = .error "missing required field: line"
  := by
  rw [gotoDefinitionArguments, asU64_toolCallArguments _ "line"]
  cases ((toolCallArguments req).index "path").asStr with
  | none => exact Or.inl rfl
  | some path => exact Or.inr rfl

/-- No accessor reads an integer from a number that crossed the wire. -/
theorem readAt_wire_number {v : Json} (hv : v.WellFormed) {path : List Step} {n : Number}
    (h : v.at? path = some (number n)) :
  (v.wire.readAt path).asU64 = none ∧ (v.wire.readAt path).asI64 = none
  := by
  rw [readAt, wire_at? hv, h, Option.map_some, Option.getD_some]
  rcases wire_number n with ⟨f, hn⟩ | hn
  · rw [hn]
    exact ⟨rfl, rfl⟩
  · rw [hn]
    exact ⟨rfl, rfl⟩

/-- The arguments of a tool call are read as they were written exactly when none of their
numbers is an integer. -/
theorem wireFaithful_iff_integerFree {fields : List (String × Json)}
    (hwf : (object fields).WellFormed) :
  (object fields).WireFaithful ↔ (object fields).IntegerFree
  := by
  constructor
  · intro hfaithful path n hn hint
    have hreads := hfaithful "" path
    rw [toolCallArguments_jsonToStruct] at hreads
    obtain ⟨hu, hi⟩ := readAt_wire_number hwf hn
    rw [hreads, readAt, hn] at hu hi
    rcases Number.asU64_or_asI64_of_isInteger hint with h | h
    · apply h hu
    · apply h hi
  · intro hfree toolName path
    rw [toolCallArguments_jsonToStruct, wire_of_integerFree hwf hfree]

/-- The arguments `{"filter": {"paths": ["src"], "score": 0.5}, "query": "main"}`. -/
def filterFields : List (String × Json) :=
  [("filter", object [("paths", array [string "src"]),
      ("score", number (.float ⟨0x3fe0000000000000⟩))]),
    ("query", string "main")]

/-- Names and a score cross the wire unchanged. -/
theorem wireFaithful_filter :
  (object filterFields).WellFormed
    ∧ ((object filterFields).WireFaithful ↔ (object filterFields).IntegerFree)
  := by
  have hwf : (object filterFields).WellFormed := by
    have hpaths : (array [string "src"]).WellFormed := by
      simp [WellFormed, WellFormedItems]
    have hscore : (number (.float ⟨0x3fe0000000000000⟩)).WellFormed := by
      rw [WellFormed]
      decide
    simp only [filterFields, wellFormed_object, List.forall_mem_cons]
    exact ⟨by decide, ⟨by decide, hpaths, hscore, List.forall_mem_nil _⟩, trivial,
      List.forall_mem_nil _⟩
  exact ⟨hwf, wireFaithful_iff_integerFree hwf⟩

/-- The position `{"col": 0, "line": 1, "path": "src/main.rs"}`. -/
def mainPosition : Json :=
  object [("col", number (.posInt 0)), ("line", number (.posInt 1)),
    ("path", string "src/main.rs")]

/-- A call of `lsp_goto_definition` that succeeds on its arguments fails on them over the
wire. -/
theorem not_wireFaithful_mainPosition :
  gotoDefinitionArguments mainPosition = .ok ("src/main.rs", 1, 0)
    ∧ gotoDefinitionArguments
        (toolCallArguments ⟨"lsp_goto_definition", some (jsonToStruct mainPosition)⟩)
      = .error "missing required field: line"
    ∧ ¬ mainPosition.WireFaithful
  := by
  constructor
  · rfl
  constructor
  · rfl
  · intro h
    have hline := congrArg Reads.asU64 (h "lsp_goto_definition" [.key "line"])
    cases hline

end Json

end OrchestraRag
