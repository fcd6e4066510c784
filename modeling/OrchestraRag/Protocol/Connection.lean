import OrchestraRag.Library.Projection
import OrchestraRag.Protocol.Session

/-!
# Connections

Every stream of a connection is handled by a task of its own.  The tasks of all connections run at
once and share the handler: its flag, which is atomic, and the tools, which are programs.  A task
that runs on its own does what `handleStream` does (`exec_handleStream`).  However the tasks
interleave, they do to the services what the tools do when they are called directly and run at
once, and every stream carries what its own request came to (`connection_transparent`).
-/

universe u

namespace OrchestraRag

open Program

/-! ### The handler that tasks share -/

/-- An operation on the flag `booted`. -/
inductive BootedOp where
  | store (value : Bool)
  | load

abbrev BootedAns : BootedOp → Type
  | .store _ => Unit
  | .load => Bool

def BootedOp.Step : Semantics BootedOp BootedAns Bool
  | .store value, _, _, booted' => booted' = value
  | .load, booted, x, booted' => x = booted ∧ booted' = booted

/-- A program on the services and the flag. -/
abbrev StreamTask (Op : Type u) (Ans : Op → Type) (α : Type) : Type u :=
  Program (Op ⊕ BootedOp) (Sum.elim Ans BootedAns) α

/-- The tools of a handler, as programs on the services. -/
structure SharedHandler (Op : Type u) (Ans : Op → Type) where
  definitions : List ToolDefinition
  callTool : String → Json → Program Op Ans (Outcome String Json)

/-- The response to a call of a tool; there is none when the tool panics. -/
def toolResponse : Outcome String Json → Option Response
  | .ok result => some <| .toolCall
      { success := true, result := some (jsonToStruct result), errorCode := "",
        errorMessage := "" }
  | .error (.err message) => some <| .toolCall
      { success := false, result := none, errorCode := "tool_error", errorMessage := message }
  | .error .panicked => none

/-- The response to a request for the health of a handler with a number of tools. -/
def healthResponse (toolCount : ℕ) (booted : Bool) : Response :=
  .health
    { status := if booted then .healthy else .degraded
      message := if booted then "all services running" else "plugin not yet booted"
      details := SortedMap.collect
        [("booted", toString booted), ("tools_count", toString toolCount)] }

/-- Write the response, if there is one, and finish. -/
def finishStream (responses : Codec PluginResponse) :
    Option PluginResponse → StreamOutcome × SendStream
  | none => (.panicked, .fresh)
  | some response =>
      match writeMessage responses .fresh response with
      | .error e => (.err "failed to write PluginResponse" e, .fresh)
      | .ok send => (.ok, send.finish)

/-- What is read is handled, and then the stream is finished. -/
theorem handleStream_eq {σ : Type} {requests : Codec PluginRequest}
    {responses : Codec PluginResponse} {handler : RequestHandler σ} {recv rest : Bytes}
    {request : PluginRequest} (hread : readMessage requests recv = .ok (request, rest)) :
  handleStream requests responses handler recv
    = ((finishStream responses (handler.handleRequest request).1).1,
        (finishStream responses (handler.handleRequest request).1).2,
        (handler.handleRequest request).2)
  := by
  rw [handleStream, hread]
  rcases hhandle : handler.handleRequest request with ⟨_ | response, handler'⟩
  · simp only [hhandle, finishStream]
  · simp only [hhandle, finishStream]
    cases writeMessage responses SendStream.fresh response with
    | error e => rfl
    | ok send => rfl

namespace SharedHandler

variable {Op : Type u} {Ans : Op → Type} (handler : SharedHandler Op Ans)

/-- Route a typed request to its handler. -/
def dispatch : Request → StreamTask Op Ans (Option Response)
  | .register => pure (some RequestHandler.handleRegister)
  | .boot => (fun _ => some (.boot { ready := true, error := "" })) <$> second (BootedOp.store true)
  | .shutdown => (fun _ => some (.shutdown { clean := true })) <$> second (BootedOp.store false)
  | .health => (fun booted => some (healthResponse handler.definitions.length booted))
      <$> second BootedOp.load
  | .listTools => pure (some (.listTools handler.definitions))
  | .toolCall req =>
      toolResponse <$> (handler.callTool req.toolName (toolCallArguments req)).onFirst
  | .listPrompts => pure (some RequestHandler.handleListPrompts)
  | .promptGet => pure (some RequestHandler.handlePromptGet)
  | .storageRead => pure (some (RequestHandler.handleUnsupported "storage_read"))
  | .storageWrite => pure (some (RequestHandler.handleUnsupported "storage_write"))
  | .storageDelete => pure (some (RequestHandler.handleUnsupported "storage_delete"))
  | .storageList => pure (some (RequestHandler.handleUnsupported "storage_list"))
  | _ => pure (some (RequestHandler.handleUnsupported "unknown"))

/-- Dispatch a request to the correct handler and make its response. -/
def handleRequest (request : PluginRequest) : StreamTask Op Ans (Option PluginResponse) :=
  Option.map (fun r => { requestId := request.requestId, response := some r }) <$>
    match request.request with
    | some req => handler.dispatch req
    | none => pure (some <| .toolCall
        { success := false, result := none, errorCode := "invalid_request",
          errorMessage := "request contained no payload" })

variable (requests : Codec PluginRequest) (responses : Codec PluginResponse)

/-- The task of a stream, given by the bytes that arrive on it. -/
def handleStream (recv : Bytes) : StreamTask Op Ans (StreamOutcome × SendStream) :=
  match readMessage requests recv with
  | .error e => pure (.err "failed to read PluginRequest" e, .fresh)
  | .ok (request, _) => finishStream responses <$> handler.handleRequest request

/-- The tasks of the streams of all connections. -/
def handleConnection (recvs : List Bytes) : List (StreamTask Op Ans (StreamOutcome × SendStream)) :=
  recvs.map (handler.handleStream requests responses)

/-! ### One task -/

section Exec

variable {handler requests responses} {σ : Type} {R : Semantics Op Ans σ}
  {plain : RequestHandler σ}

variable (handler R plain) in
/-- The tools of a handler do what the programs do. -/
structure Implements : Prop where
  definitions : plain.toolRegistry.listDefinitions = handler.definitions
  call : ∀ name args services, Exec R (handler.callTool name args) services
    (plain.toolRegistry.call name args services).1 (plain.toolRegistry.call name args services).2

theorem exec_dispatch (h : handler.Implements R plain) (request : Request) :
  Exec (R.prod BootedOp.Step) (handler.dispatch request) (plain.services, plain.booted)
    (plain.dispatch request).1
    ((plain.dispatch request).2.services, (plain.dispatch request).2.booted)
  := by
  cases request with
  | boot => exact exec_map.mpr ⟨(), exec_second.mpr ⟨rfl, rfl⟩, rfl⟩
  | shutdown => exact exec_map.mpr ⟨(), exec_second.mpr ⟨rfl, rfl⟩, rfl⟩
  | health =>
      apply exec_map.mpr
      use plain.booted, exec_second.mpr ⟨⟨rfl, rfl⟩, rfl⟩
      rw [← h.definitions, ToolRegistry.listDefinitions, List.length_map]
      rfl
  | listTools =>
      rw [dispatch, ← h.definitions]
      exact Exec.ret
  | toolCall req =>
      have hcall := h.call req.toolName (toolCallArguments req) plain.services
      rw [RequestHandler.dispatch, RequestHandler.handleToolCall]
      rcases hplain : plain.toolRegistry.call req.toolName (toolCallArguments req)
        plain.services with ⟨outcome, services⟩
      rw [hplain] at hcall
      apply exec_map.mpr
      use outcome, exec_onFirst.mpr ⟨hcall, rfl⟩
      rcases outcome with (message | _) | result
      · rfl
      · rfl
      · rfl
  | _ => exact Exec.ret

theorem exec_handleRequest (h : handler.Implements R plain) (request : PluginRequest) :
  Exec (R.prod BootedOp.Step) (handler.handleRequest request) (plain.services, plain.booted)
    (plain.handleRequest request).1
    ((plain.handleRequest request).2.services, (plain.handleRequest request).2.booted)
  := by
  obtain ⟨requestId, request⟩ := request
  apply exec_map.mpr
  cases request with
  | none => exact ⟨_, Exec.ret, rfl⟩
  | some req => exact ⟨_, exec_dispatch h req, rfl⟩

/-- A task that runs on its own does what `handleStream` does. -/
theorem exec_handleStream (h : handler.Implements R plain) (recv : Bytes) :
  let served := OrchestraRag.handleStream requests responses plain recv
  Exec (R.prod BootedOp.Step) (handler.handleStream requests responses recv)
    (plain.services, plain.booted) (served.1, served.2.1)
    (served.2.2.services, served.2.2.booted)
  := by
  cases hread : readMessage requests recv with
  | error e =>
      rw [handleStream, OrchestraRag.handleStream, hread]
      exact Exec.ret
  | ok read =>
      obtain ⟨request, rest⟩ := read
      rw [handleStream, hread, handleStream_eq hread]
      exact exec_map.mpr ⟨_, exec_handleRequest h request, rfl⟩

end Exec

end SharedHandler

/-! ### What the peer means -/

/-- What a task does to the services when the tool is called directly. -/
def SessionRequest.program {Op : Type u} {Ans : Op → Type}
    (callTool : String → Json → Program Op Ans (Outcome String Json)) :
    SessionRequest → Program Op Ans (Option (Outcome String Json))
  | .tool name fields => some <$> callTool name (.object (fields.getD []))
  | .other _ _ => pure none

/-- What the peer means by a stream: a request with its id, or nothing that can be read. -/
abbrev StreamRequest : Type :=
  Option (String × SessionRequest)

namespace StreamRequest

/-- The bytes are those of the request. -/
def Arrives (requests : Codec PluginRequest) (recv : Bytes) : StreamRequest → Prop
  | some (requestId, request) => request.Carried
      ∧ ∃ rest, readMessage requests recv = .ok (request.message requestId, rest)
  | none => ∃ e, readMessage requests recv = .error e

/-- The stream carries what the request came to. -/
def Delivered (responses : Codec PluginResponse) (outcome : Option (Outcome String Json))
    (send : SendStream) : StreamRequest → Prop
  | some (requestId, _) => OrchestraRag.Delivered responses requestId outcome send
  | none => send = .fresh

def program {Op : Type u} {Ans : Op → Type}
    (callTool : String → Json → Program Op Ans (Outcome String Json)) :
    StreamRequest → Program Op Ans (Option (Outcome String Json))
  | some (_, request) => request.program callTool
  | none => pure none

end StreamRequest

/-! ### Tasks and direct calls -/

/-- The response to what a request came to. -/
def Responds (response : Option Response) : Option (Outcome String Json) → Prop
  | some outcome => response = toolResponse outcome
  | none => response.isSome

section Delivery

variable {responses : Codec PluginResponse}

theorem sends_finishStream (response : PluginResponse) :
  Sends responses response (finishStream responses (some response)).2
  := by
  rcases Nat.lt_or_ge maxMessageSize (responses.encode response).length with hlong | hfits
  · rw [finishStream, writeMessage_of_gt responses hlong]
    apply sends_of_gt hlong
  · rw [finishStream, writeMessage_of_le responses hfits]
    apply sends_of_le hfits

/-- The stream that is finished with a response carries what the request came to. -/
theorem Responds.delivered {response : Option Response} {outcome : Option (Outcome String Json)}
    (h : Responds response outcome) (requestId : String) :
  Delivered responses requestId outcome (finishStream responses
    (response.map (fun r => { requestId, response := some r }))).2
  := by
  rcases outcome with _ | (message | _) | result
  · obtain ⟨r, rfl⟩ := Option.isSome_iff_exists.mp h
    exact ⟨_, rfl, sends_finishStream _⟩
  · obtain rfl := h
    apply sends_finishStream
  · obtain rfl := h
    rfl
  · obtain rfl := h
    apply sends_finishStream

theorem frame_inj {data data' : Bytes} (h : frame data = frame data') :
  data = data'
  := by
  apply (List.append_inj h _).2
  rfl

/-- The response to a call that succeeded. -/
def acknowledgement (requestId : String) (result : Prost.Struct) : PluginResponse :=
  { requestId
    response := some (.toolCall
      { success := true, result := some result, errorCode := "", errorMessage := "" }) }

variable (responses) in
/-- The peer reads that its call succeeded with a result: the stream holds the frame of that
response, and of no other one. -/
def SendStream.Acknowledges (send : SendStream) (requestId : String) (result : Prost.Struct) :
    Prop :=
  send.written = frame (responses.encode (acknowledgement requestId result))
    ∧ ∀ r, responses.encode r = responses.encode (acknowledgement requestId result) →
      r = acknowledgement requestId result

/-- A peer reads that its call succeeded only if it did, and with its own id. -/
theorem Delivered.of_acknowledges {requestId requestId' : String} {result : Prost.Struct}
    {outcome : Outcome String Json} {send : SendStream}
    (h : Delivered responses requestId (some outcome) send)
    (hreads : send.Acknowledges responses requestId' result) :
  requestId' = requestId ∧ ∃ answer, outcome = .ok answer ∧ result = jsonToStruct answer
  := by
  obtain ⟨hwritten, hunique⟩ := hreads
  -- a stream that holds a frame holds the one of the response that was sent
  have hsent : ∀ response, Sends responses response send →
      response = acknowledgement requestId' result := by
    rintro response ⟨hfits, hlong⟩
    apply hunique
    rcases Nat.lt_or_ge maxMessageSize (responses.encode response).length with hsize | hsize
    · cases (hlong hsize).symm.trans hwritten
    · apply frame_inj ((hfits hsize).1.symm.trans hwritten)
  rcases outcome with (message | _) | answer
  · cases hsent _ h
  · obtain rfl : send = .fresh := h
    cases hwritten
  · cases hsent _ h
    exact ⟨rfl, answer, rfl, rfl⟩

end Delivery

namespace SharedHandler

variable {Op : Type u} {Ans : Op → Type} {handler : SharedHandler Op Ans}
  {requests : Codec PluginRequest} {responses : Codec PluginResponse}

/-- On the services a request does what the call of its tool does. -/
theorem projects_handleRequest {request : SessionRequest} (h : request.Carried)
    (requestId : String) :
  Projects (fun response outcome => Delivered responses requestId outcome
      (finishStream responses response).2)
    (handler.handleRequest (request.message requestId)) (request.program handler.callTool)
  := by
  apply Projects.map_left (Q := Responds)
  · cases request with
    | tool name fields =>
        rw [SessionRequest.message, SessionRequest.payload]
        simp only
        rw [dispatch, h.arguments, SessionRequest.program]
        apply Projects.map_right (Q := fun response outcome => response = toolResponse outcome)
        · apply (projects_onFirst (Q := Eq) (fun _ => rfl) _).map_left
          rintro outcome _ rfl
          rfl
        · intro response outcome hresponse
          apply hresponse
    | other request hother =>
        rcases request with _ | request
        · exact Projects.ret rfl
        · cases request with
          | toolCall call => cases hother call rfl
          | boot => exact Projects.second (fun _ => Projects.ret rfl)
          | shutdown => exact Projects.second (fun _ => Projects.ret rfl)
          | health => exact Projects.second (fun _ => Projects.ret rfl)
          | _ => exact Projects.ret rfl
  · intro response outcome hresponds
    apply hresponds.delivered requestId

/-- On the services the task of a stream does what the direct call does, and it leaves on the stream
what that comes to. -/
theorem projects_handleStream {stream : StreamRequest} {recv : Bytes}
    (h : stream.Arrives requests recv) :
  Projects (fun result outcome => stream.Delivered responses outcome result.2)
    (handler.handleStream requests responses recv) (stream.program handler.callTool)
  := by
  rcases stream with _ | ⟨requestId, request⟩
  · obtain ⟨e, hread⟩ := h
    rw [handleStream, hread]
    exact Projects.ret rfl
  · obtain ⟨hcarried, rest, hread⟩ := h
    rw [handleStream, hread]
    apply (projects_handleRequest hcarried requestId).map_left
    intro response outcome hdelivered
    apply hdelivered

/-- The tasks of the streams project to the direct calls. -/
theorem projects_handleConnection {σ : Type} (services : σ) (booted : Bool)
    {streams : List StreamRequest} {recvs : List Bytes}
    (hrecvs : List.Forall₂ (fun stream recv => stream.Arrives requests recv) streams recvs) :
  Pool.Projects
    (fun i result outcome => ∀ stream, streams[i]? = some stream →
      stream.Delivered responses outcome result.2)
    ⟨(services, booted), handler.handleConnection requests responses recvs⟩
    ⟨services, streams.map (StreamRequest.program handler.callTool)⟩
  := by
  refine ⟨rfl, ?_⟩
  intro i task hi
  rw [handleConnection, List.getElem?_map] at hi
  obtain ⟨recv, hrecv, rfl⟩ := Option.map_eq_some_iff.mp hi
  obtain ⟨hlength, rfl⟩ := List.getElem?_eq_some_iff.mp hrecv
  have hstream : i < streams.length := by
    rw [hrecvs.length_eq]
    apply hlength
  refine ⟨streams[i].program handler.callTool, ?_, ?_⟩
  · rw [List.getElem?_map, List.getElem?_eq_getElem hstream]
    rfl
  · apply (projects_handleStream (hrecvs.get hstream hlength)).mono
    rintro result outcome hdelivered stream hsome
    rw [List.getElem?_eq_getElem hstream] at hsome
    obtain rfl := Option.some.inj hsome
    apply hdelivered

end SharedHandler

/-- However the tasks of the streams interleave, they do to the services what the tools do when they
are called directly and run at once, and every stream whose task has ended carries what its own
request came to. -/
theorem connection_transparent {Op : Type u} {Ans : Op → Type} {σ : Type} {R : Semantics Op Ans σ}
    {requests : Codec PluginRequest} {responses : Codec PluginResponse}
    (handler : SharedHandler Op Ans) {services : σ} {booted : Bool} {streams : List StreamRequest}
    {recvs : List Bytes}
    (hrecvs : List.Forall₂ (fun stream recv => stream.Arrives requests recv) streams recvs)
    {c : Pool (Op ⊕ BootedOp) (Sum.elim Ans BootedAns) (StreamOutcome × SendStream) (σ × Bool)}
    (h : Pool.Run (R.prod BootedOp.Step) Pool.anyStep
      ⟨(services, booted), handler.handleConnection requests responses recvs⟩ c) :
  ∃ direct, Pool.Run R Pool.anyStep
      ⟨services, streams.map (StreamRequest.program handler.callTool)⟩ direct
    ∧ direct.state = c.state.1
    ∧ ∀ (i : ℕ) stream result, streams[i]? = some stream → c.threads[i]? = some (.ret result) →
      ∃ outcome, direct.threads[i]? = some (.ret outcome)
        ∧ stream.Delivered responses outcome result.2
  := by
  obtain ⟨direct, hrun, hprojects⟩ :=
    h.project (SharedHandler.projects_handleConnection services booted hrecvs)
  refine ⟨direct, hrun, hprojects.state, ?_⟩
  intro i stream result hstream hresult
  obtain ⟨q, hq, hprojects⟩ := hprojects.threads i _ hresult
  obtain ⟨outcome, rfl, hdelivered⟩ := hprojects.returned
  exact ⟨outcome, hq, hdelivered stream hstream⟩

/-! ### A note and a stream that cannot be read -/

/-- An operation that takes a note. -/
inductive NoteOp where
  | note (args : Json)

def NoteOp.Step : Semantics NoteOp (fun _ => Unit) (List Json)
  | .note args, notes, _, notes' => notes' = notes ++ [args]

/-- Under every name, a tool that notes its arguments. -/
def noteHandler : SharedHandler NoteOp (fun _ => Unit) where
  definitions := []
  callTool _ args := (fun _ => .ok (.object [])) <$> Program.call (NoteOp.note args)

/-- The note is taken, while another stream ends without a request. -/
theorem connection_transparent_note :
  let requests := soleCodec (noteRequest.message "r") noteRequestBytes
  let responses := soleCodec noteResponse noteResponseBytes
  ∃ c, Pool.Run (NoteOp.Step.prod BootedOp.Step) Pool.anyStep
      ⟨([], true), noteHandler.handleConnection requests responses [frame noteRequestBytes, []]⟩ c
    ∧ c.Returned ∧ c.state.1 = [.object noteFields]
    ∧ ∃ direct, Pool.Run NoteOp.Step Pool.anyStep
        ⟨[], [some ("r", noteRequest), none].map (StreamRequest.program noteHandler.callTool)⟩
        direct
      ∧ direct.state = c.state.1
      ∧ ∀ (i : ℕ) stream result, [some ("r", noteRequest), none][i]? = some stream →
        c.threads[i]? = some (.ret result) →
        ∃ outcome, direct.threads[i]? = some (.ret outcome)
          ∧ StreamRequest.Delivered responses outcome result.2 stream
  := by
  intro requests responses
  have hrecvs : List.Forall₂ (fun stream recv => StreamRequest.Arrives requests recv stream)
      [some ("r", noteRequest), none] [frame noteRequestBytes, []] :=
    List.Forall₂.cons ⟨carried_noteRequest, _, read_noteRequest⟩
      (List.Forall₂.cons ⟨.readError, rfl⟩ List.Forall₂.nil)
  let results : List (StreamOutcome × SendStream) :=
    [finishStream responses (some noteResponse),
      (.err "failed to read PluginRequest" .readError, .fresh)]
  have hrun : Pool.Run (NoteOp.Step.prod BootedOp.Step) Pool.anyStep
      ⟨([], true), noteHandler.handleConnection requests responses [frame noteRequestBytes, []]⟩
      ⟨([.object noteFields], true), results.map .ret⟩ := by
    rw [SharedHandler.handleConnection, List.map_cons, SharedHandler.handleStream,
      read_noteRequest]
    exact Pool.Run.next 0 _ Pool.Run.refl rfl trivial (Semantics.prod_inl (x := ()) rfl) rfl
  refine ⟨_, hrun, Pool.returned_map_ret _ results, rfl, ?_⟩
  exact connection_transparent noteHandler hrecvs hrun

end OrchestraRag
