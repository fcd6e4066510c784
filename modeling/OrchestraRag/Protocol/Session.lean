import OrchestraRag.Protocol.Registry
import OrchestraRag.Protocol.RoundTrip
import OrchestraRag.Protocol.Server

/-!
# Sessions

A peer sends requests, each on a stream of its own, and the streams are served one after another.
Apart from the numbers that a `Struct` cannot carry, the transport is transparent: tools are called
with the arguments that the peer meant, act on the services as if they had been called directly,
and each stream carries the frame of what its own call came to (`session_transparent`).
-/

namespace OrchestraRag

/-! ### Streams one after another -/

section Streams

variable {σ : Type} (requests : Codec PluginRequest) (responses : Codec PluginResponse)

/-- Serve the streams of a connection in turn, given by the bytes that arrive on them. -/
def serveStreams (handler : RequestHandler σ) : List Bytes → List SendStream × RequestHandler σ
  | [] => ([], handler)
  | recv :: recvs =>
      let (_, send, handler) := handleStream requests responses handler recv
      let (sends, handler) := serveStreams handler recvs
      (send :: sends, handler)

end Streams

/-! ### What the peer means -/

/-- A request as the peer means it: a tool with the fields of its arguments, if there are any, or
anything else that is not a call of a tool, such as no payload. -/
inductive SessionRequest where
  | tool (name : String) (fields : Option (List (String × Json)))
  | other (request : Option Request) (h : ∀ call, request ≠ some (.toolCall call))

namespace SessionRequest

def payload : SessionRequest → Option Request
  | .tool name fields => some <| .toolCall
      { toolName := name, arguments := fields.map (fun fields => jsonToStruct (.object fields)) }
  | .other request _ => request

/-- The message of a request. -/
def message (requestId : String) (request : SessionRequest) : PluginRequest :=
  { requestId, request := request.payload }

section Calls

variable {σ : Type} (callTool : String → Json → σ → Outcome String Json × σ)

/-- What the request comes to when the tool is called directly. -/
def call (services : σ) : SessionRequest → Option (Outcome String Json) × σ
  | .tool name fields => (callTool name (.object (fields.getD [])) services).map some id
  | .other _ _ => (none, services)

/-- Call the tools of a session directly. -/
def callAll : List SessionRequest → σ → List (Option (Outcome String Json)) × σ
  | [], services => ([], services)
  | request :: session, services =>
      let (outcome, services) := request.call callTool services
      let (outcomes, services) := callAll session services
      (outcome :: outcomes, services)

end Calls

/-- The arguments are a value the program can hold, without integers. -/
def Carried : SessionRequest → Prop
  | .tool _ fields => ∀ given ∈ fields, (Json.object given).WellFormed
      ∧ (Json.object given).IntegerFree
  | .other _ _ => True

end SessionRequest

section Delivery

variable (responses : Codec PluginResponse)

/-- The stream holds the frame of the response, from which it can be read, and is finished; it
holds nothing if the response is too long. -/
def Sends (response : PluginResponse) (send : SendStream) : Prop :=
  ((responses.encode response).length ≤ maxMessageSize →
      send.written = frame (responses.encode response) ∧ send.finished
      ∧ (responses.Inverts response → readMessage responses send.written = .ok (response, [])))
    ∧ (maxMessageSize < (responses.encode response).length → send.written = [])

/-- What the stream of a request holds after its tool was called. -/
def Delivered (requestId : String) (outcome : Option (Outcome String Json)) (send : SendStream) :
    Prop :=
  match outcome with
  | some (.ok result) => Sends responses
      { requestId, response := some (.toolCall
          { success := true, result := some (jsonToStruct result), errorCode := "",
            errorMessage := "" }) } send
  | some (.error (.err message)) => Sends responses
      { requestId, response := some (.toolCall
          { success := false, result := none, errorCode := "tool_error",
            errorMessage := message }) } send
  | some (.error .panicked) => send = .fresh
  | none => ∃ response, response.requestId = requestId ∧ Sends responses response send

variable {responses}

/-- A response that fits is written in a frame. -/
theorem sends_of_le {response : PluginResponse}
    (h : (responses.encode response).length ≤ maxMessageSize) :
  Sends responses response
    (SendStream.fresh.writeAll (frame (responses.encode response))).finish
  := by
  refine ⟨fun _ => ⟨rfl, rfl, ?_⟩, fun hlong => absurd hlong (Nat.not_lt.mpr h)⟩
  intro hcodec
  have hback := readMessage_frame responses hcodec h []
  rw [List.append_nil] at hback
  apply hback

/-- A response that is too long is not written. -/
theorem sends_of_gt {response : PluginResponse}
    (h : maxMessageSize < (responses.encode response).length) :
  Sends responses response .fresh
  := ⟨fun hfits => absurd h (Nat.not_lt.mpr hfits), fun _ => rfl⟩

end Delivery

/-! ### One request -/

/-- The arguments arrive as they were meant; missing ones are none. -/
theorem SessionRequest.Carried.arguments {name : String} {fields : Option (List (String × Json))}
    (h : (SessionRequest.tool name fields).Carried) :
  toolCallArguments ⟨name, fields.map (fun fields => jsonToStruct (.object fields))⟩
    = .object (fields.getD [])
  := by
  cases fields with
  | none => rfl
  | some fields =>
      obtain ⟨hwell, hfree⟩ := h fields rfl
      rw [Option.map_some, Json.toolCallArguments_jsonToStruct,
        Json.wire_of_integerFree hwell hfree, Option.getD_some]

namespace RequestHandler

variable {σ : Type} {handler : RequestHandler σ} {requestId : String}

/-- A request that calls no tool has a response, and leaves the services and the tools. -/
theorem handleRequest_other {request : Option Request}
    (h : ∀ call, request ≠ some (.toolCall call)) :
  (∃ response, (handler.handleRequest ⟨requestId, request⟩).1 = some ⟨requestId, some response⟩)
    ∧ (handler.handleRequest ⟨requestId, request⟩).2.services = handler.services
    ∧ (handler.handleRequest ⟨requestId, request⟩).2.toolRegistry = handler.toolRegistry
  := by
  rcases request with _ | request
  · exact ⟨⟨_, rfl⟩, rfl, rfl⟩
  · cases request with
    | toolCall call => cases h call rfl
    | _ => exact ⟨⟨_, rfl⟩, rfl, rfl⟩

/-- A tool is called with the arguments that were meant. -/
theorem handleRequest_tool {name : String} {fields : Option (List (String × Json))}
    (h : (SessionRequest.tool name fields).Carried) :
  handler.handleRequest ((SessionRequest.tool name fields).message requestId)
    = match handler.toolRegistry.call name (.object (fields.getD [])) handler.services with
      | (.ok result, services) => (some ⟨requestId, some (.toolCall
          { success := true, result := some (jsonToStruct result), errorCode := "",
            errorMessage := "" })⟩, { handler with services := services })
      | (.error (.err message), services) => (some ⟨requestId, some (.toolCall
          { success := false, result := none, errorCode := "tool_error",
            errorMessage := message })⟩, { handler with services := services })
      | (.error .panicked, services) => (none, { handler with services := services })
  := by
  rw [SessionRequest.message, SessionRequest.payload, handleRequest]
  simp only
  rw [dispatch, handleToolCall, h.arguments]
  rcases handler.toolRegistry.call name (.object (fields.getD [])) handler.services with
    ⟨(message | _) | result, services⟩
  · rfl
  · rfl
  · rfl

end RequestHandler

section Streams

variable {σ : Type} {requests : Codec PluginRequest} {responses : Codec PluginResponse}
  {handler : RequestHandler σ}

/-- The stream of a request that has a response. -/
theorem sends_handleStream {recv rest : Bytes} {request : PluginRequest}
    {response : PluginResponse} (hread : readMessage requests recv = .ok (request, rest))
    (hresponse : (handler.handleRequest request).1 = some response) :
  Sends responses response (handleStream requests responses handler recv).2.1
    ∧ (handleStream requests responses handler recv).2.2 = (handler.handleRequest request).2
  := by
  rcases Nat.lt_or_ge maxMessageSize (responses.encode response).length with hlong | hfits
  · rw [handleStream_of_gt hread hresponse hlong]
    exact ⟨sends_of_gt hlong, rfl⟩
  · rw [handleStream_of_le hread hresponse hfits]
    exact ⟨sends_of_le hfits, rfl⟩

/-- The stream of a request whose tool panics. -/
theorem handleStream_of_panicked {recv rest : Bytes} {request : PluginRequest}
    (hread : readMessage requests recv = .ok (request, rest))
    (hresponse : (handler.handleRequest request).1 = none) :
  (handleStream requests responses handler recv).2
    = (.fresh, (handler.handleRequest request).2)
  := by
  rw [handleStream, hread]
  rcases hhandle : handler.handleRequest request with ⟨response, handler'⟩
  rw [hhandle] at hresponse
  obtain rfl := hresponse
  simp only [hhandle]

/-- A stream delivers what its request comes to, and leaves the services as the call does. -/
theorem delivered_handleStream (handler : RequestHandler σ) {recv rest : Bytes}
    {requestId : String} {request : SessionRequest}
    (hread : readMessage requests recv = .ok (request.message requestId, rest))
    (hcarried : request.Carried) :
  Delivered responses requestId (request.call handler.toolRegistry.call handler.services).1
      (handleStream requests responses handler recv).2.1
    ∧ (handleStream requests responses handler recv).2.2.services
      = (request.call handler.toolRegistry.call handler.services).2
    ∧ (handleStream requests responses handler recv).2.2.toolRegistry = handler.toolRegistry
  := by
  cases request with
  | tool name fields =>
      have hhandle := @RequestHandler.handleRequest_tool σ handler requestId name fields hcarried
      rw [SessionRequest.call]
      rcases hcall : handler.toolRegistry.call name (.object (fields.getD [])) handler.services with
        ⟨(message | _) | result, services⟩
      · rw [hcall] at hhandle
        obtain ⟨hsends, hafter⟩ := sends_handleStream hread (congrArg Prod.fst hhandle)
        rw [hafter, hhandle]
        exact ⟨hsends, rfl, rfl⟩
      · rw [hcall] at hhandle
        rw [handleStream_of_panicked hread (congrArg Prod.fst hhandle), hhandle]
        exact ⟨rfl, rfl, rfl⟩
      · rw [hcall] at hhandle
        obtain ⟨hsends, hafter⟩ := sends_handleStream hread (congrArg Prod.fst hhandle)
        rw [hafter, hhandle]
        exact ⟨hsends, rfl, rfl⟩
  | other request h =>
      obtain ⟨⟨response, hresponse⟩, hservices, htools⟩ := handler.handleRequest_other h
      obtain ⟨hsends, hafter⟩ := sends_handleStream hread hresponse
      rw [hafter]
      exact ⟨⟨_, rfl, hsends⟩, hservices, htools⟩

/-! ### Sessions -/

/-- The streams of a connection deliver what their requests come to. -/
theorem delivered_serveStreams (handler : RequestHandler σ)
    {session : List (String × SessionRequest)} {recvs : List Bytes}
    (hrecvs : List.Forall₂ (fun r recv => ∃ rest,
      readMessage requests recv = .ok (r.2.message r.1, rest)) session recvs)
    (hcarried : ∀ r ∈ session, r.2.Carried) :
  List.Forall₂ (fun r send => Delivered responses r.1.1 r.2 send)
      (session.zip (SessionRequest.callAll handler.toolRegistry.call (session.map Prod.snd)
        handler.services).1) (serveStreams requests responses handler recvs).1
    ∧ (serveStreams requests responses handler recvs).2.services
      = (SessionRequest.callAll handler.toolRegistry.call (session.map Prod.snd)
        handler.services).2
  := by
  induction hrecvs generalizing handler with
  | nil => exact ⟨List.Forall₂.nil, rfl⟩
  | @cons r recv session recvs hfirst _ ih =>
      obtain ⟨requestId, request⟩ := r
      obtain ⟨rest, hread⟩ := hfirst
      obtain ⟨hdelivered, hservices, htools⟩ := @delivered_handleStream σ requests responses handler
        recv rest requestId request hread (hcarried _ List.mem_cons_self)
      obtain ⟨hdelivered', hservices'⟩ :=
        ih (handleStream requests responses handler recv).2.2
          (fun r hr => hcarried r (List.mem_cons_of_mem _ hr))
      rw [hservices, htools] at hdelivered' hservices'
      exact ⟨List.Forall₂.cons hdelivered hdelivered', hservices'⟩

end Streams

/-- Call the tool of the plugin that has the name. -/
def PluginTools.callTool {σ : Type} (tools : PluginTools σ) (parts : PluginParts) (name : String)
    (args : Json) (services : σ) : Outcome String Json × σ :=
  if name ∈ names parts then (tools.tool name).handler args services
  else (.error (.err ("tool not found: " ++ name)), services)

/-- The handler of a plugin that was given some parts. -/
def PluginTools.requestHandler {σ : Type} (tools : PluginTools σ) (parts : PluginParts)
    (booted : Bool) (services : σ) : RequestHandler σ :=
  { toolRegistry := tools.registerAllToolsWithLsp parts .new, booted, services }

/-- Every session with the plugin is served as if its tools had been called directly, one after
another, each by its own name, and each stream carries what its own request came to. -/
theorem session_transparent {σ : Type} {requests : Codec PluginRequest}
    {responses : Codec PluginResponse} (tools : PluginTools σ) (parts : PluginParts)
    (booted : Bool) (services : σ) {session : List (String × SessionRequest)}
    {recvs : List Bytes}
    (hrecvs : List.Forall₂ (fun r recv => ∃ rest,
      readMessage requests recv = .ok (r.2.message r.1, rest)) session recvs)
    (hcarried : ∀ r ∈ session, r.2.Carried) :
  let served := serveStreams requests responses (tools.requestHandler parts booted services) recvs
  let called := SessionRequest.callAll (tools.callTool parts) (session.map Prod.snd) services
  List.Forall₂ (fun r send => Delivered responses r.1.1 r.2 send) (session.zip called.1) served.1
    ∧ served.2.services = called.2
  := by
  have hcall : (tools.requestHandler parts booted services).toolRegistry.call
      = tools.callTool parts := by
    funext name args services
    apply tools.call_registerAllToolsWithLsp
  have hdelivered := @delivered_serveStreams σ requests responses
    (tools.requestHandler parts booted services) session recvs hrecvs hcarried
  rw [hcall] at hdelivered
  apply hdelivered

/-! ### A note taken twice -/

/-- Tools that note their arguments. -/
def noteTools : PluginTools (List Json) where
  tool name := ⟨⟨name, "", none⟩, fun args notes => (.ok (.object []), notes ++ [args])⟩
  name_tool _ := rfl

def noteFields : List (String × Json) :=
  [("text", .string "hi")]

/-- A call of a tool, and its protobuf encoding. -/
def noteRequest : SessionRequest :=
  .tool "get_symbols" (some noteFields)

def noteRequestBytes : Bytes :=
  [0x0a, 1] ++ "r".toUTF8.data.toList ++ [0xa2, 0x01, 29, 0x0a, 11]
    ++ "get_symbols".toUTF8.data.toList ++ [0x12, 14, 0x0a, 12, 0x0a, 4]
    ++ "text".toUTF8.data.toList ++ [0x12, 4, 0x1a, 2] ++ "hi".toUTF8.data.toList

/-- Its response, and its protobuf encoding. -/
def noteResponse : PluginResponse :=
  { requestId := "r"
    response := some <| .toolCall
      { success := true, result := some (jsonToStruct (.object [])), errorCode := "",
        errorMessage := "" } }

def noteResponseBytes : Bytes :=
  [0x0a, 1] ++ "r".toUTF8.data.toList ++ [0xa2, 0x01, 4, 0x08, 1, 0x12, 0]

theorem carried_noteRequest :
  noteRequest.Carried
  := by
  have hnote : Json.object noteFields = valueToJson (.structValue [("text", .stringValue "hi")]) :=
    rfl
  rintro fields ⟨⟩
  rw [hnote]
  exact ⟨valueToJson_wellFormed _, valueToJson_integerFree _⟩

theorem readMessage_soleCodec {M : Type} (msg : M) {data : Bytes}
    (h : data.length ≤ maxMessageSize) :
  readMessage (soleCodec msg data) (frame data) = .ok (msg, [])
  := by
  rw [← List.append_nil (frame data)]
  apply readMessage_frame _ (soleCodec_inverts msg data) h

theorem read_noteRequest :
  readMessage (soleCodec (noteRequest.message "r") noteRequestBytes) (frame noteRequestBytes)
    = .ok (noteRequest.message "r", [])
  := by
  apply readMessage_soleCodec
  decide

/-- Two notes are taken, with the arguments that were meant. -/
theorem session_transparent_notes :
  let served := serveStreams (soleCodec (noteRequest.message "r") noteRequestBytes)
    (soleCodec noteResponse noteResponseBytes)
    (noteTools.requestHandler ⟨false, false, false⟩ true [])
    [frame noteRequestBytes, frame noteRequestBytes]
  List.Forall₂ (fun r send => Delivered (soleCodec noteResponse noteResponseBytes) r.1.1 r.2 send)
      [(("r", noteRequest), some (.ok (.object []))), (("r", noteRequest), some (.ok (.object [])))]
      served.1
    ∧ served.2.services = [.object noteFields, .object noteFields]
  := by
  have hrecvs : List.Forall₂ (fun r recv => ∃ rest,
      readMessage (soleCodec (noteRequest.message "r") noteRequestBytes) recv
        = .ok (r.2.message r.1, rest))
      [("r", noteRequest), ("r", noteRequest)] [frame noteRequestBytes, frame noteRequestBytes] :=
    List.Forall₂.cons ⟨_, read_noteRequest⟩
      (List.Forall₂.cons ⟨_, read_noteRequest⟩ List.Forall₂.nil)
  have hcarried : ∀ r ∈ [("r", noteRequest), ("r", noteRequest)], r.2.Carried := by
    intro r hr
    have hsame : r = ("r", noteRequest) := by
      rcases List.mem_cons.mp hr with h | h
      · apply h
      · apply List.mem_singleton.mp h
    rw [hsame]
    apply carried_noteRequest
  exact @session_transparent _ _ (soleCodec noteResponse noteResponseBytes) noteTools
    ⟨false, false, false⟩ true [] _ _ hrecvs hcarried

end OrchestraRag
