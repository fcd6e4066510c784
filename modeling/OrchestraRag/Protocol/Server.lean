import OrchestraRag.Protocol.Framing
import OrchestraRag.Protocol.Handler

/-!
# One stream, one request, one answer

`handleStream` reads a request from a stream, has it handled and writes the response.  A
request whose tool returns is answered by exactly one frame, after which the stream is
finished, exactly when the encoded response is at most `maxMessageSize` bytes long; a
longer one is not written at all.
-/

namespace OrchestraRag

/-- How the task of a stream ends. -/
inductive StreamOutcome where
  | ok
  | err (context : String) (source : FrameError)
  | panicked
  deriving DecidableEq

section Server

variable {σ : Type} (requests : Codec PluginRequest) (responses : Codec PluginResponse)

/-- Handle a single stream, given by the bytes that arrive on it: read a request, dispatch
it, write the response, finish. -/
def handleStream (handler : RequestHandler σ) (recv : Bytes) :
    StreamOutcome × SendStream × RequestHandler σ :=
  match readMessage requests recv with
  | .error e => (.err "failed to read PluginRequest" e, .fresh, handler)
  | .ok (request, _) =>
      match handler.handleRequest request with
      | (none, handler) => (.panicked, .fresh, handler)
      | (some response, handler) =>
          match writeMessage responses .fresh response with
          | .error e => (.err "failed to write PluginResponse" e, .fresh, handler)
          | .ok send => (.ok, send.finish, handler)

/-- The stream holds exactly one frame, it is a response to the request, and the stream is
finished. -/
def Answered (request : PluginRequest) (send : SendStream) : Prop :=
  ∃ response : PluginResponse, send.written = frame (responses.encode response)
    ∧ readMessage responses send.written = .ok (response, [])
    ∧ response.requestId = request.requestId
    ∧ send.finished

/-- A response written to a fresh stream answers the request with its id. -/
theorem answered_frame {request : PluginRequest} {response : PluginResponse}
    (hid : response.requestId = request.requestId) (hcodec : responses.Inverts response)
    (hsize : (responses.encode response).length ≤ maxMessageSize) :
  Answered responses request
    (SendStream.fresh.writeAll (frame (responses.encode response))).finish
  := by
  have hread := readMessage_frame responses hcodec hsize []
  rw [List.append_nil] at hread
  exact ⟨response, rfl, hread, hid, rfl⟩

/-- The empty stream answers no request. -/
theorem not_answered_fresh (request : PluginRequest) :
  ¬ Answered responses request .fresh
  := by
  rintro ⟨response, -, -, -, hfinished⟩
  cases hfinished

variable {requests responses}

/-- The task of a stream whose request has a response that fits. -/
theorem handleStream_of_le {handler : RequestHandler σ} {recv rest : Bytes}
    {request : PluginRequest} {response : PluginResponse}
    (hread : readMessage requests recv = .ok (request, rest))
    (hresponse : (handler.handleRequest request).1 = some response)
    (hsize : (responses.encode response).length ≤ maxMessageSize) :
  handleStream requests responses handler recv
    = (.ok, (SendStream.fresh.writeAll (frame (responses.encode response))).finish,
        (handler.handleRequest request).2)
  := by
  rw [handleStream, hread]
  rcases hhandle : handler.handleRequest request with ⟨answer, handler'⟩
  rw [hhandle] at hresponse
  cases hresponse
  simp only [hhandle, writeMessage_of_le responses hsize]

/-- The task of a stream whose request has a response that is too long. -/
theorem handleStream_of_gt {handler : RequestHandler σ} {recv rest : Bytes}
    {request : PluginRequest} {response : PluginResponse}
    (hread : readMessage requests recv = .ok (request, rest))
    (hresponse : (handler.handleRequest request).1 = some response)
    (hsize : maxMessageSize < (responses.encode response).length) :
  handleStream requests responses handler recv
    = (.err "failed to write PluginResponse"
          (.messageTooLarge (responses.encode response).length maxMessageSize),
        .fresh, (handler.handleRequest request).2)
  := by
  rw [handleStream, hread]
  rcases hhandle : handler.handleRequest request with ⟨answer, handler'⟩
  rw [hhandle] at hresponse
  cases hresponse
  simp only [hhandle, writeMessage_of_gt responses hsize]

/-- A request whose tool returns has a response with its id.  When the response fits in a
frame, the request is answered; when it does not, nothing is written and the task ends with
the size of the response. -/
theorem handleStream_answers {handler : RequestHandler σ} {recv rest : Bytes}
    {request : PluginRequest} (hread : readMessage requests recv = .ok (request, rest))
    (hreturns : handler.Returns request)
    (hcodec : ∀ response, (handler.handleRequest request).1 = some response →
      responses.Inverts response) :
  ∃ response, (handler.handleRequest request).1 = some response
    ∧ response.requestId = request.requestId
    ∧ ((responses.encode response).length ≤ maxMessageSize →
        (handleStream requests responses handler recv).1 = .ok
        ∧ Answered responses request (handleStream requests responses handler recv).2.1)
    ∧ (maxMessageSize < (responses.encode response).length →
        (handleStream requests responses handler recv).1
          = .err "failed to write PluginResponse"
            (.messageTooLarge (responses.encode response).length maxMessageSize)
        ∧ (handleStream requests responses handler recv).2.1.written = [])
  := by
  obtain ⟨response, hresponse, hid⟩ := handler.handleRequest_returns hreturns
  use response
  constructor
  · apply hresponse
  constructor
  · apply hid
  constructor
  · intro hsize
    rw [handleStream_of_le hread hresponse hsize]
    constructor
    · rfl
    · apply answered_frame responses hid (hcodec response hresponse) hsize
  · intro hsize
    rw [handleStream_of_gt hread hresponse hsize]
    exact ⟨rfl, rfl⟩

end Server

/-! ### Two requests -/

/-- A codec that knows one message, by its encoding. -/
def soleCodec {M : Type} (msg : M) (data : Bytes) : Codec M where
  encode _ := data
  decode bytes := if bytes = data then some msg else none

theorem soleCodec_inverts {M : Type} (msg : M) (data : Bytes) :
  (soleCodec msg data).Inverts msg
  := by
  simp [Codec.Inverts, soleCodec]

/-- The request `r` without a payload, and its protobuf encoding. -/
def emptyRequest : PluginRequest :=
  { requestId := "r", request := none }

def emptyRequestBytes : Bytes :=
  [0x0a, 1, 114]

/-- The response to `emptyRequest`, and its protobuf encoding. -/
def invalidRequest : PluginResponse :=
  { requestId := "r"
    response := some <| .toolCall
      { success := false, result := none, errorCode := "invalid_request",
        errorMessage := "request contained no payload" } }

def invalidRequestBytes : Bytes :=
  [0x0a, 1] ++ "r".toUTF8.data.toList ++ [0xa2, 0x01, 47]
    ++ [0x1a, 15] ++ "invalid_request".toUTF8.data.toList
    ++ [0x22, 28] ++ "request contained no payload".toUTF8.data.toList

/-- A handler without tools. -/
def bareHandler : RequestHandler Unit :=
  { toolRegistry := .new, booted := true, services := () }

/-- A handler without tools answers `emptyRequest`. -/
theorem handleStream_emptyRequest :
  Answered (soleCodec invalidRequest invalidRequestBytes) emptyRequest
    (handleStream (soleCodec emptyRequest emptyRequestBytes)
      (soleCodec invalidRequest invalidRequestBytes) bareHandler (frame emptyRequestBytes)).2.1
  := by
  have hread : readMessage (soleCodec emptyRequest emptyRequestBytes) (frame emptyRequestBytes)
      = .ok (emptyRequest, []) := by
    rw [← List.append_nil (frame emptyRequestBytes)]
    apply readMessage_frame _ (soleCodec_inverts emptyRequest emptyRequestBytes)
    decide
  have hreturns : bareHandler.Returns emptyRequest := by
    intro req hreq
    cases hreq
  have hcodec : ∀ response, (bareHandler.handleRequest emptyRequest).1 = some response →
      (soleCodec invalidRequest invalidRequestBytes).Inverts response := by
    intro response hresponse
    cases hresponse
    apply soleCodec_inverts
  obtain ⟨response, -, -, hfits, -⟩ := handleStream_answers hread hreturns hcodec
  have hsize : invalidRequestBytes.length ≤ maxMessageSize := by
    decide
  apply (hfits hsize).2

/-- A text of 16 MB. -/
def dump : String :=
  String.ofList (List.replicate maxMessageSize 'a')

/-- A handler whose only tool answers with `dump`. -/
def dumpHandler : RequestHandler Unit :=
  { toolRegistry := ToolRegistry.new.register ⟨"dump", "", none⟩
      (fun _ services => (.ok (.string dump), services))
    booted := true
    services := () }

/-- A call of the tool `dump`, and its protobuf encoding. -/
def dumpRequest : PluginRequest :=
  { requestId := "r"
    request := some <| .toolCall { toolName := "dump", arguments := none } }

def dumpRequestBytes : Bytes :=
  [0x0a, 1] ++ "r".toUTF8.data.toList ++ [0xa2, 0x01, 6, 0x0a, 4] ++ "dump".toUTF8.data.toList

/-- The response to `dumpRequest`, and its protobuf encoding. -/
def dumpResponse : PluginResponse :=
  { requestId := "r"
    response := some <| .toolCall
      { success := true, result := some (jsonToStruct (.string dump)), errorCode := "",
        errorMessage := "" } }

def dumpResponseBytes : Bytes :=
  [0x0a, 1] ++ "r".toUTF8.data.toList ++ [0xa2, 0x01, 0x9d, 0x80, 0x80, 0x08]
    ++ [0x08, 1, 0x12, 0x96, 0x80, 0x80, 0x08]
    ++ [0x0a, 0x91, 0x80, 0x80, 0x08, 0x0a, 5] ++ "value".toUTF8.data.toList
    ++ [0x12, 0x85, 0x80, 0x80, 0x08, 0x1a, 0x80, 0x80, 0x80, 0x08]
    ++ List.replicate maxMessageSize 97

/-- A request whose tool succeeds with a long text gets no answer. -/
theorem not_answered_dumpRequest :
  readMessage (soleCodec dumpRequest dumpRequestBytes) (frame dumpRequestBytes)
      = .ok (dumpRequest, [])
    ∧ (dumpHandler.handleRequest dumpRequest).1 = some dumpResponse
    ∧ (soleCodec dumpResponse dumpResponseBytes).Inverts dumpResponse
    ∧ ¬ Answered (soleCodec dumpResponse dumpResponseBytes) dumpRequest
      (handleStream (soleCodec dumpRequest dumpRequestBytes)
        (soleCodec dumpResponse dumpResponseBytes) dumpHandler (frame dumpRequestBytes)).2.1
  := by
  have hread : readMessage (soleCodec dumpRequest dumpRequestBytes) (frame dumpRequestBytes)
      = .ok (dumpRequest, []) := by
    rw [← List.append_nil (frame dumpRequestBytes)]
    apply readMessage_frame _ (soleCodec_inverts dumpRequest dumpRequestBytes)
    decide
  have hresponse : (dumpHandler.handleRequest dumpRequest).1 = some dumpResponse := rfl
  have hsize : maxMessageSize
      < ((soleCodec dumpResponse dumpResponseBytes).encode dumpResponse).length := by
    simp only [soleCodec, dumpResponseBytes, List.length_append, List.length_replicate]
    apply Nat.lt_add_of_pos_left
    decide
  constructor
  · apply hread
  constructor
  · apply hresponse
  constructor
  · apply soleCodec_inverts
  · rw [handleStream_of_gt hread hresponse hsize]
    apply not_answered_fresh

end OrchestraRag
