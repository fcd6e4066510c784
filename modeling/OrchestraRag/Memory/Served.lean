import OrchestraRag.Memory.Durable
import OrchestraRag.Protocol.Connection

/-!
# The memory tools over connections

When the tools of a handler are the memory tools, and others that leave the memory tables alone,
all streams that are served at once do to the tables what direct calls of the memory tools would do
that run at once (`run_memory`).  What holds after every run of such calls holds for the peers: once
a stream carries the answer that something was saved, it stays saved, whatever other streams ask for
and whichever statements fail (`delivered_stays`).
-/

universe u

namespace OrchestraRag

open Program

/-! ### The handler -/

/-- The call of the memory tool with the name, if there is one. -/
def MemoryCall.ofTool (name : String) (args : Json) : Option MemoryCall :=
  match name with
  | "save_memory" => some (.write .saveMemory args)
  | "search_memory" => some (.read .searchMemory args)
  | "get_context" => some (.read .getContext args)
  | "list_memories" => some (.read .listMemories args)
  | "get_memory" => some (.getMemory args)
  | "update_memory" => some (.write .updateMemory args)
  | "delete_memory" => some (.write .deleteMemory args)
  | "start_session" => some (.write .startSession args)
  | "save_observation" => some (.write .saveObservation args)
  | "get_project_summary" => some (.read .getProjectSummary args)
  | "end_session" => some (.write .endSession args)
  | _ => none

/-- They are the memory tools that are registered. -/
theorem MemoryCall.ofTool_isSome_iff (name : String) (args : Json) :
  (ofTool name args).isSome ↔ name ∈ memoryTools
  := by
  unfold ofTool
  split
  all_goals simp_all [memoryTools]

section Handler

variable {F : Type} [SingleFloat F] (sorting : SortBy) (orders : Orders F) (codec : TagCodec)
  {Op : Type u} {Ans : Op → Type}

/-- The memory tools, and other tools that are programs on a state of their own. -/
def memoryHandler (definitions : List ToolDefinition)
    (others : String → Json → Program Op Ans (Outcome String Json)) :
    SharedHandler (MemoryOp ⊕ Op) (Sum.elim MemoryAns Ans) where
  definitions := definitions
  callTool name args :=
    match MemoryCall.ofTool name args with
    | some call => Outcome.ofResult <$> (call.program sorting orders codec).onFirst
    | none => (others name args).onSecond

/-- The call of a stream.  A stream that asks for no memory tool is as a call without arguments,
which fails before it does anything. -/
def StreamRequest.memoryCall : StreamRequest → MemoryCall
  | some (_, .tool name fields) =>
      (MemoryCall.ofTool name (.object (fields.getD []))).getD (.getMemory .null)
  | _ => .getMemory .null

/-! ### Runs -/

variable {sorting orders codec} {definitions : List ToolDefinition}
  {others : String → Json → Program Op Ans (Outcome String Json)}

/-- The outcome of a stream that asks for a memory tool is the result of the call. -/
def StreamRequest.Comes (outcome : Option (Outcome String Json)) (result : Except String Json)
    (stream : StreamRequest) : Prop :=
  ∀ requestId name fields call, stream = some (requestId, .tool name fields) →
    MemoryCall.ofTool name (.object (fields.getD [])) = some call →
      outcome = some (.ofResult result)

/-- On the memory tables a stream does what its call does. -/
theorem StreamRequest.projects_program (stream : StreamRequest) :
  Projects (fun outcome result => stream.Comes outcome result)
    (stream.program (memoryHandler sorting orders codec definitions others).callTool)
    (stream.memoryCall.program sorting orders codec)
  := by
  rcases stream with _ | ⟨requestId, ⟨name, fields⟩ | ⟨request, hother⟩⟩
  · apply Projects.ret
    rintro _ _ _ _ ⟨⟩
  · rw [program, SessionRequest.program, memoryCall, memoryHandler]
    cases hcall : MemoryCall.ofTool name (.object (fields.getD [])) with
    | some call =>
        simp only [hcall]
        apply Projects.map_left (Q := fun outcome result => outcome = Outcome.ofResult result)
        · apply (projects_onFirst (Q := Eq) (fun _ => rfl) _).map_left
          rintro result _ rfl
          rfl
        · rintro outcome result rfl requestId name fields call - -
          rfl
    | none =>
        simp only [hcall]
        apply Projects.map_left (Q := fun _ _ => True) (projects_onSecond (fun _ => trivial) _)
        rintro outcome result - _ _ _ call ⟨⟩ hsome
        rw [hcall] at hsome
        cases hsome
  · apply Projects.ret
    rintro _ _ _ _ ⟨⟩

/-- Streams that are served at once do to the memory tables what their calls do that run at once,
and a stream that asks for a memory tool carries the result of its call. -/
theorem run_memory {σ : Type} {R : Semantics Op Ans σ} {requests : Codec PluginRequest}
    {responses : Codec PluginResponse} {s : MemoryState} {t : σ} {booted : Bool}
    {streams : List StreamRequest} {recvs : List Bytes}
    (hrecvs : List.Forall₂ (fun stream recv => stream.Arrives requests recv) streams recvs)
    {c : Pool ((MemoryOp ⊕ Op) ⊕ BootedOp) (Sum.elim (Sum.elim MemoryAns Ans) BootedAns)
      (StreamOutcome × SendStream) ((MemoryState × σ) × Bool)}
    (h : Pool.Run ((MemoryOp.Step.prod R).prod BootedOp.Step) Pool.anyStep
      ⟨((s, t), booted), (memoryHandler sorting orders codec definitions others).handleConnection
        requests responses recvs⟩ c) :
  ∃ pool : MemoryPool, Pool.Run MemoryOp.Step Pool.anyStep
      ⟨s, (streams.map StreamRequest.memoryCall).map (MemoryCall.program sorting orders codec)⟩ pool
    ∧ pool.state = c.state.1.1
    ∧ ∀ (i : ℕ) requestId name fields call result,
      streams[i]? = some (some (requestId, .tool name fields)) →
      MemoryCall.ofTool name (.object (fields.getD [])) = some call →
      c.threads[i]? = some (.ret result) →
      ∃ answer, pool.threads[i]? = some (.ret answer)
        ∧ Delivered responses requestId (some (.ofResult answer)) result.2
  := by
  obtain ⟨direct, hdirect, hprojects⟩ :=
    h.project (SharedHandler.projects_handleConnection (s, t) booted hrecvs)
  have hstart : Pool.Projects
      (fun i outcome result => ∀ stream, streams[i]? = some stream → stream.Comes outcome result)
      ⟨(s, t), streams.map
        (StreamRequest.program (memoryHandler sorting orders codec definitions others).callTool)⟩
      ⟨s, (streams.map StreamRequest.memoryCall).map
        (MemoryCall.program sorting orders codec)⟩ := by
    refine ⟨rfl, ?_⟩
    intro i program hi
    rw [List.getElem?_map] at hi
    obtain ⟨stream, hstream, rfl⟩ := Option.map_eq_some_iff.mp hi
    refine ⟨stream.memoryCall.program sorting orders codec, ?_, ?_⟩
    · rw [List.getElem?_map, List.getElem?_map, hstream]
      rfl
    · apply stream.projects_program.mono
      intro outcome result hcomes stream' hstream'
      rw [hstream] at hstream'
      obtain rfl := Option.some.inj hstream'
      apply hcomes
  obtain ⟨pool, hpool, hmemory⟩ := hdirect.project hstart
  refine ⟨pool, hpool, ?_, ?_⟩
  · rw [hmemory.state, hprojects.state]
  · intro i requestId name fields call result hstream hcall hresult
    obtain ⟨q, hq, hi⟩ := hprojects.threads i _ hresult
    obtain ⟨outcome, rfl, hdelivered⟩ := hi.returned
    obtain ⟨q', hq', hi'⟩ := hmemory.threads i _ hq
    obtain ⟨answer, rfl, hcomes⟩ := hi'.returned
    have hdelivered := hdelivered _ hstream
    rw [hcomes _ hstream requestId name fields call rfl hcall] at hdelivered
    exact ⟨answer, hq', hdelivered⟩

/-- Whatever streams are served at once, and whichever statements fail, once the peer of a stream
that asked a tool to save something can read that it succeeded, what the answer says to have saved
is in the tables; so are memories, unless a stream asks to delete some. -/
theorem delivered_stays {σ : Type} {R : Semantics Op Ans σ} {requests : Codec PluginRequest}
    {responses : Codec PluginResponse} {s : MemoryState} {t : σ} {booted : Bool}
    {streams : List StreamRequest} {recvs : List Bytes}
    (hrecvs : List.Forall₂ (fun stream recv => stream.Arrives requests recv) streams recvs)
    {c : Pool ((MemoryOp ⊕ Op) ⊕ BootedOp) (Sum.elim (Sum.elim MemoryAns Ans) BootedAns)
      (StreamOutcome × SendStream) ((MemoryState × σ) × Bool)}
    (h : Pool.Run ((MemoryOp.Step.prod R).prod BootedOp.Step) Pool.anyStep
      ⟨((s, t), booted), (memoryHandler sorting orders codec definitions others).handleConnection
        requests responses recvs⟩ c)
    {i : ℕ} {requestId name : String} {fields : Option (List (String × Json))} {tool : MemoryWrite}
    {args : Json} (hstream : streams[i]? = some (some (requestId, .tool name fields)))
    (htool : MemoryCall.ofTool name (.object (fields.getD [])) = some (.write tool args))
    {result : StreamOutcome × SendStream} (hresult : c.threads[i]? = some (.ret result))
    {requestId' : String} {answered : Prost.Struct}
    (hreads : result.2.Acknowledges responses requestId' answered) :
  requestId' = requestId ∧ ∃ answer, answered = jsonToStruct answer
    ∧ tool.Recorded (∀ args, .write .deleteMemory args ∉ streams.map StreamRequest.memoryCall)
      s.db.tables args answer c.state.1.1.db.tables
  := by
  obtain ⟨pool, hrun, hstate, hreturned⟩ := run_memory hrecvs h
  obtain ⟨outcome, hpool, hdelivered⟩ :=
    hreturned i requestId name fields (.write tool args) result hstream htool hresult
  obtain ⟨hid, answer, hsucceeds, hanswered⟩ := hdelivered.of_acknowledges hreads
  have hok : outcome = .ok answer := by
    rcases outcome with e | answer'
    · cases hsucceeds
    · cases hsucceeds
      rfl
  have hmemory : (streams.map StreamRequest.memoryCall)[i]? = some (.write tool args) := by
    rw [List.getElem?_map, hstream, Option.map_some, StreamRequest.memoryCall, htool]
    rfl
  refine ⟨hid, answer, hanswered, ?_⟩
  rw [← hstate]
  rw [hok] at hpool
  exact MemoryCall.recorded_of_run hrun hmemory hpool

end Handler

/-! ### A note over the wire -/

def saveFields : List (String × Json) :=
  [("category", .string "notes"), ("content", .string "first"), ("project", .string "alpha")]

/-- A call of `save_memory`, and its protobuf encoding. -/
def saveRequest : SessionRequest :=
  .tool "save_memory" (some saveFields)

def saveRequestBytes : Bytes :=
  [0x0a, 1] ++ "r".toUTF8.data.toList ++ [0xa2, 0x01, 76, 0x0a, 11]
    ++ "save_memory".toUTF8.data.toList ++ [0x12, 61, 0x0a, 19, 0x0a, 8]
    ++ "category".toUTF8.data.toList ++ [0x12, 7, 0x1a, 5] ++ "notes".toUTF8.data.toList
    ++ [0x0a, 18, 0x0a, 7] ++ "content".toUTF8.data.toList ++ [0x12, 7, 0x1a, 5]
    ++ "first".toUTF8.data.toList ++ [0x0a, 18, 0x0a, 7] ++ "project".toUTF8.data.toList
    ++ [0x12, 7, 0x1a, 5] ++ "alpha".toUTF8.data.toList

/-- The result with the id of the memory, and the encoding of its response. -/
def savedStruct : Prost.Struct :=
  ⟨[("memory_id", .stringValue "m1")]⟩

def savedResponseBytes : Bytes :=
  [0x0a, 1] ++ "r".toUTF8.data.toList ++ [0xa2, 0x01, 23, 0x08, 1, 0x12, 19, 0x0a, 17, 0x0a, 9]
    ++ "memory_id".toUTF8.data.toList ++ [0x12, 4, 0x1a, 2] ++ "m1".toUTF8.data.toList

/-- A codec for this response. -/
def savedCodec : Codec PluginResponse where
  encode
    | ⟨"r", some (.toolCall ⟨true, some ⟨[("memory_id", .stringValue "m1")]⟩, "", ""⟩)⟩ =>
        savedResponseBytes
    | _ => []
  decode bytes :=
    if bytes = savedResponseBytes then some (acknowledgement "r" savedStruct) else none

theorem savedCodec_unique {r : PluginResponse} (h : savedCodec.encode r = savedResponseBytes) :
  r = acknowledgement "r" savedStruct
  := by
  simp only [savedCodec] at h
  split at h
  · rfl
  · cases h

theorem carried_saveRequest :
  saveRequest.Carried
  := by
  have hsave : Json.object saveFields = valueToJson (.structValue
      [("category", .stringValue "notes"), ("content", .stringValue "first"),
        ("project", .stringValue "alpha")]) := rfl
  rintro fields ⟨⟩
  rw [hsave]
  exact ⟨valueToJson_wellFormed _, valueToJson_integerFree _⟩

/-- The note that the peer reads to be saved is there. -/
theorem delivered_stays_note :
  let requests := soleCodec (saveRequest.message "r") saveRequestBytes
  let handler := memoryHandler SortBy.merge insertedOrders noTags [] noteHandler.callTool
  ∃ c result, Pool.Run ((MemoryOp.Step.prod NoteOp.Step).prod BootedOp.Step) Pool.anyStep
      ⟨((noteState [] [] [], []), true),
        handler.handleConnection requests savedCodec [frame saveRequestBytes, []]⟩ c
    ∧ c.threads[0]? = some (.ret result) ∧ result.2.Acknowledges savedCodec "r" savedStruct
    ∧ ∃ answer, savedStruct = jsonToStruct answer
      ∧ MemoryWrite.saveMemory.Recorded
        (∀ args, .write .deleteMemory args
          ∉ [some ("r", saveRequest), none].map StreamRequest.memoryCall)
        MemoryTables.empty (.object saveFields) answer c.state.1.1.db.tables
  := by
  intro requests handler
  have hread : readMessage requests (frame saveRequestBytes)
      = .ok (saveRequest.message "r", []) := by
    apply readMessage_soleCodec
    decide
  have hrecvs : List.Forall₂ (fun stream recv => StreamRequest.Arrives requests recv stream)
      [some ("r", saveRequest), none] [frame saveRequestBytes, []] :=
    List.Forall₂.cons ⟨carried_saveRequest, _, hread⟩
      (List.Forall₂.cons ⟨.readError, rfl⟩ List.Forall₂.nil)
  let results : List (StreamOutcome × SendStream) :=
    [finishStream savedCodec (some (acknowledgement "r" savedStruct)),
      (.err "failed to read PluginRequest" .readError, .fresh)]
  have hrun : Pool.Run ((MemoryOp.Step.prod NoteOp.Step).prod BootedOp.Step) Pool.anyStep
      ⟨((noteState [] [] [], []), true),
        handler.handleConnection requests savedCodec [frame saveRequestBytes, []]⟩
      ⟨((noteState [noteRow "m1" "alpha" "first"] [] ["m1"], []), true), results.map .ret⟩ := by
    rw [SharedHandler.handleConnection, List.map_cons, SharedHandler.handleStream, hread]
    exact Pool.Run.next 0 _ (Pool.Run.next 0 _ (Pool.Run.next 0 _ Pool.Run.refl rfl trivial
        (Semantics.prod_inl (Semantics.prod_inl (step_uuid "m1" List.not_mem_nil))) rfl)
      rfl trivial (Semantics.prod_inl (Semantics.prod_inl (step_now ""))) rfl)
      rfl trivial (Semantics.prod_inl (Semantics.prod_inl step_insert)) rfl
  have hreads : (finishStream savedCodec (some (acknowledgement "r" savedStruct))).2.Acknowledges
      savedCodec "r" savedStruct := by
    constructor
    · rfl
    · intro r hr
      apply savedCodec_unique hr
  refine ⟨_, _, hrun, rfl, hreads, ?_⟩
  exact (delivered_stays hrecvs hrun (i := 0) rfl rfl rfl hreads).2

end OrchestraRag
