import OrchestraRag.Protocol.Server

/-!
# Messages one after another on a stream

`SendStream.writeMessage` and `RecvStream.readMessage` are the two ends with the stream as
their state, so that what was written or read before an error stays visible; they do what
`writeMessage` and `readMessage` do (`SendStream.writeMessage_on`,
`RecvStream.readMessage_on`).  The reading end takes a payload exactly from a frame the
writing end may have written (`RecvStream.readPayload_on_ok_iff`), so any number of
messages that were written are read back in order (`framing_exact`).
-/

namespace OrchestraRag

/-- A computation on one end of a stream: it gives a result or an error, and the stream
stays as it is then. -/
abbrev StreamM (σ α : Type) :=
  ExceptT FrameError (StateM σ) α

namespace StreamM

variable {σ α β : Type}

/-- The result of a computation started on a stream, and the stream it leaves. -/
def on (p : StreamM σ α) (stream : σ) : Except FrameError α × σ :=
  p.run.run stream

theorem bind_on_ok {p : StreamM σ α} {k : α → StreamM σ β} {stream stream' : σ} {a : α}
    (h : p.on stream = (.ok a, stream')) :
  (p >>= k).on stream = (k a).on stream'
  := by
  change ExceptT.bindCont k (p.on stream).1 (p.on stream).2 = _
  rw [h]
  rfl

theorem bind_on_error {p : StreamM σ α} {k : α → StreamM σ β} {stream stream' : σ}
    {e : FrameError} (h : p.on stream = (.error e, stream')) :
  (p >>= k).on stream = (.error e, stream')
  := by
  change ExceptT.bindCont k (p.on stream).1 (p.on stream).2 = _
  rw [h]
  rfl

end StreamM

variable {M : Type} (codec : Codec M)

namespace SendStream

/-- Write a message to a stream. -/
def writeMessage (msg : M) : StreamM SendStream Unit := do
  let data := codec.encode msg
  let size := data.length
  if maxMessageSize < size then
    throw (.messageTooLarge size maxMessageSize)
  modify (fun stream => stream.writeAll (toBeBytes size))
  modify (fun stream => stream.writeAll data)

/-- Write messages one after another, up to the first that is refused. -/
def writeMessages : List M → StreamM SendStream Unit
  | [] => pure ()
  | msg :: msgs => do
      writeMessage codec msg
      writeMessages msgs

/-- The stream is as `OrchestraRag.writeMessage` gives it, and as before after an error. -/
theorem writeMessage_on (msg : M) (stream : SendStream) :
  (writeMessage codec msg).on stream
    = match OrchestraRag.writeMessage codec stream msg with
      | .ok written => (.ok (), written)
      | .error e => (.error e, stream)
  := by
  rw [OrchestraRag.writeMessage, writeMessage]
  split
  · rfl
  · rfl

theorem writeMessage_on_of_le {msg : M} (stream : SendStream)
    (h : (codec.encode msg).length ≤ maxMessageSize) :
  (writeMessage codec msg).on stream
    = (.ok (), stream.writeAll (frame (codec.encode msg)))
  := by
  rw [writeMessage_on, writeMessage_of_le codec h]

theorem writeMessage_on_of_gt {msg : M} (stream : SendStream)
    (h : maxMessageSize < (codec.encode msg).length) :
  (writeMessage codec msg).on stream
    = (.error (.messageTooLarge (codec.encode msg).length maxMessageSize), stream)
  := by
  rw [writeMessage_on, writeMessage_of_gt codec h]

/-- Only a message that fits is written. -/
theorem length_le_of_writeMessage_on {msg : M} {stream stream' : SendStream}
    (h : (writeMessage codec msg).on stream = (.ok (), stream')) :
  (codec.encode msg).length ≤ maxMessageSize
  := by
  by_contra hlarge
  rw [writeMessage_on_of_gt codec stream (Nat.not_le.mp hlarge)] at h
  cases h

/-- Messages that fit are written as their frames, one after another. -/
theorem writeMessages_on {msgs : List M} (stream : SendStream)
    (h : ∀ msg ∈ msgs, (codec.encode msg).length ≤ maxMessageSize) :
  (writeMessages codec msgs).on stream
    = (.ok (), stream.writeAll (msgs.flatMap (fun msg => frame (codec.encode msg))))
  := by
  induction msgs generalizing stream with
  | nil =>
      rw [List.flatMap_nil, writeAll, List.append_nil]
      rfl
  | cons msg msgs ih =>
      obtain ⟨hmsg, hmsgs⟩ := List.forall_mem_cons.mp h
      rw [writeMessages, StreamM.bind_on_ok (writeMessage_on_of_le codec stream hmsg), ih _ hmsgs]
      simp [writeAll]

end SendStream

/-- The receiving side of a stream: the bytes that arrive on it and were not read yet. -/
structure RecvStream where
  unread : Bytes
  deriving DecidableEq

namespace RecvStream

/-- Read the next `n` bytes; a stream that ends before them is read to its end. -/
def readExact (n : ℕ) : StreamM RecvStream Bytes := do
  let stream ← get
  if stream.unread.length < n then
    set (RecvStream.mk [])
    throw .readError
  set (RecvStream.mk (stream.unread.drop n))
  return stream.unread.take n

/-- The part of `readMessage` before the message is decoded. -/
def readPayload : StreamM RecvStream Bytes := do
  let header ← readExact 4
  let size := fromBeBytes header
  if maxMessageSize < size then
    throw (.messageTooLarge size maxMessageSize)
  readExact size

/-- Read a message from a stream. -/
def readMessage : StreamM RecvStream M := do
  let buf ← readPayload
  match codec.decode buf with
  | some msg => return msg
  | none => throw .decodeError

/-- Call `readMessage` a number of times. -/
def readMessages : ℕ → StreamM RecvStream (List M)
  | 0 => return []
  | count + 1 => do
      let msg ← readMessage codec
      let msgs ← readMessages count
      return msg :: msgs

theorem readExact_on (n : ℕ) (stream : Bytes) :
  (readExact n).on ⟨stream⟩
    = if stream.length < n then (.error .readError, ⟨[]⟩)
      else (.ok (stream.take n), ⟨stream.drop n⟩)
  := by
  apply (StreamM.bind_on_ok rfl).trans
  dsimp only
  split
  · rfl
  · rfl

theorem readPayload_on (stream : Bytes) :
  readPayload.on ⟨stream⟩
    = if stream.length < 4 then (.error .readError, ⟨[]⟩)
      else if maxMessageSize < fromBeBytes (stream.take 4) then
        (.error (.messageTooLarge (fromBeBytes (stream.take 4)) maxMessageSize), ⟨stream.drop 4⟩)
      else if (stream.drop 4).length < fromBeBytes (stream.take 4) then
        (.error .readError, ⟨[]⟩)
      else
        (.ok ((stream.drop 4).take (fromBeBytes (stream.take 4))),
          ⟨(stream.drop 4).drop (fromBeBytes (stream.take 4))⟩)
  := by
  by_cases hheader : stream.length < 4
  · rw [if_pos hheader]
    apply StreamM.bind_on_error
    rw [readExact_on, if_pos hheader]
  · have hread := readExact_on 4 stream
    rw [if_neg hheader] at hread ⊢
    rw [readPayload, StreamM.bind_on_ok hread]
    dsimp only
    split
    · rfl
    · apply (StreamM.bind_on_ok rfl).trans
      apply readExact_on

/-- A payload is read exactly from a frame that is not too large. -/
theorem readPayload_on_ok_iff (stream payload rest : Bytes) :
  readPayload.on ⟨stream⟩ = (.ok payload, ⟨rest⟩)
    ↔ payload.length ≤ maxMessageSize ∧ stream = frame payload ++ rest
  := by
  rw [readPayload_on]
  constructor
  · intro h
    split_ifs at h with hheader hlarge hshort
    · cases h
    · cases h
    · cases h
    have hlength : (stream.take 4).length = 4 := List.length_take_of_le (Nat.not_lt.mp hheader)
    have hpayload : (stream.drop 4).take (fromBeBytes (stream.take 4)) = payload := by
      apply Except.ok.inj (congrArg Prod.fst h)
    have hrest : (stream.drop 4).drop (fromBeBytes (stream.take 4)) = rest := by
      apply congrArg (fun result => result.2.unread) h
    have hsize : payload.length = fromBeBytes (stream.take 4) := by
      rw [← hpayload, List.length_take_of_le (Nat.not_lt.mp hshort)]
    constructor
    · rw [hsize]
      apply Nat.not_lt.mp hlarge
    · rw [frame, hsize, toBeBytes_fromBeBytes hlength, List.append_assoc, ← hpayload, ← hrest,
        List.take_append_drop, List.take_append_drop]
  · rintro ⟨hsize, rfl⟩
    have htake : (frame payload ++ rest).take 4 = toBeBytes payload.length := by
      rw [frame, List.append_assoc]
      rfl
    have hdrop : (frame payload ++ rest).drop 4 = payload ++ rest := by
      rw [frame, List.append_assoc]
      rfl
    have hheader : fromBeBytes (toBeBytes payload.length) = payload.length := by
      apply fromBeBytes_toBeBytes
      apply lt_of_le_of_lt hsize
      decide
    have hlength : ¬ (frame payload ++ rest).length < 4 := by
      simp [frame, toBeBytes]
    rw [if_neg hlength, htake, hdrop, hheader, if_neg (Nat.not_lt.mpr hsize), if_neg (by simp),
      List.take_left, List.drop_left]

/-- What `readMessage` makes of a payload, and what it makes of a stream without one. -/
theorem readMessage_on (stream : RecvStream) :
  (readMessage codec).on stream
    = match readPayload.on stream with
      | (.ok payload, unread) =>
          (match codec.decode payload with
            | some msg => .ok msg
            | none => .error .decodeError, unread)
      | (.error e, unread) => (.error e, unread)
  := by
  rcases hread : readPayload.on stream with ⟨e | payload, unread⟩
  · rw [readMessage, StreamM.bind_on_error hread]
  · rw [readMessage, StreamM.bind_on_ok hread]
    dsimp only
    cases codec.decode _ with
    | none => rfl
    | some msg => rfl

/-- `OrchestraRag.readMessage` gives the message and the bytes that are then unread. -/
theorem readMessage_eq (stream : Bytes) :
  OrchestraRag.readMessage codec stream
    = ((readMessage codec).on ⟨stream⟩).1.map
        (fun msg => (msg, ((readMessage codec).on ⟨stream⟩).2.unread))
  := by
  rw [readMessage_on, readPayload_on, OrchestraRag.readMessage, OrchestraRag.readExact]
  by_cases hheader : stream.length < 4
  · rw [if_pos hheader, if_pos hheader]
    rfl
  · rw [if_neg hheader, if_neg hheader]
    simp only [bind, Except.bind, List.splitAt_eq]
    by_cases hlarge : maxMessageSize < fromBeBytes (stream.take 4)
    · rw [if_pos hlarge, if_pos hlarge]
      rfl
    · rw [if_neg hlarge, if_neg hlarge, OrchestraRag.readExact]
      by_cases hshort : (stream.drop 4).length < fromBeBytes (stream.take 4)
      · rw [if_pos hshort, if_pos hshort]
        rfl
      · rw [if_neg hshort, if_neg hshort]
        simp only [List.splitAt_eq]
        cases codec.decode _ with
        | none => rfl
        | some msg => rfl

theorem readMessage_on_frame {msg : M} (hcodec : codec.Inverts msg)
    (h : (codec.encode msg).length ≤ maxMessageSize) (rest : Bytes) :
  (readMessage codec).on ⟨frame (codec.encode msg) ++ rest⟩ = (.ok msg, ⟨rest⟩)
  := by
  rw [readMessage_on, (readPayload_on_ok_iff _ _ _).mpr ⟨h, rfl⟩]
  dsimp only
  rw [hcodec]

/-- Messages read from their frames, one after another. -/
theorem readMessages_on_frames {msgs : List M} (hcodec : ∀ msg ∈ msgs, codec.Inverts msg)
    (h : ∀ msg ∈ msgs, (codec.encode msg).length ≤ maxMessageSize) (rest : Bytes) :
  (readMessages codec msgs.length).on ⟨msgs.flatMap (fun msg => frame (codec.encode msg)) ++ rest⟩
    = (.ok msgs, ⟨rest⟩)
  := by
  induction msgs with
  | nil => rfl
  | cons msg msgs ih =>
      obtain ⟨hmsg, hmsgs⟩ := List.forall_mem_cons.mp h
      obtain ⟨hinverts, hrest⟩ := List.forall_mem_cons.mp hcodec
      rw [List.flatMap_cons, List.append_assoc, List.length_cons, readMessages,
        StreamM.bind_on_ok (readMessage_on_frame codec hinverts hmsg _),
        StreamM.bind_on_ok (ih hrest hmsgs)]
      rfl

end RecvStream

/-! ### Both ends -/

/-- Without a payload, the reading stops after the header of a message that is too large, or
at the end of a stream that is too short. -/
theorem RecvStream.readMessage_on_of_noFrame {stream : Bytes}
    (h : ∀ payload rest, payload.length ≤ maxMessageSize → stream ≠ frame payload ++ rest) :
  (readMessage codec).on ⟨stream⟩ = (.error .readError, ⟨[]⟩)
    ∨ (maxMessageSize < fromBeBytes (stream.take 4)
      ∧ (readMessage codec).on ⟨stream⟩
        = (.error (.messageTooLarge (fromBeBytes (stream.take 4)) maxMessageSize),
            ⟨stream.drop 4⟩))
  := by
  have hread := readPayload_on stream
  rw [readMessage_on]
  split_ifs at hread with hheader hlarge hshort
  · rw [hread]
    apply Or.inl rfl
  · rw [hread]
    apply Or.inr ⟨hlarge, rfl⟩
  · rw [hread]
    apply Or.inl rfl
  · obtain ⟨hsize, hframe⟩ := (readPayload_on_ok_iff _ _ _).mp hread
    cases h _ _ hsize hframe

/-- The two ends agree: what was written is read back in order and nothing after it, a
message that does not fit leaves no byte on the stream, and from any bytes a payload is taken
exactly where the writing end may have written it. -/
theorem framing_exact (hcodec : ∀ msg, codec.Inverts msg) :
  (∀ (msgs : List M) (stream : SendStream) (rest : Bytes),
    (∀ msg ∈ msgs, (codec.encode msg).length ≤ maxMessageSize) →
      ∃ sent, (SendStream.writeMessages codec msgs).on stream = (.ok (), stream.writeAll sent)
        ∧ (RecvStream.readMessages codec msgs.length).on ⟨sent ++ rest⟩ = (.ok msgs, ⟨rest⟩))
  ∧ (∀ (msg : M) (stream : SendStream), maxMessageSize < (codec.encode msg).length →
      (SendStream.writeMessage codec msg).on stream
        = (.error (.messageTooLarge (codec.encode msg).length maxMessageSize), stream))
  ∧ (∀ stream payload rest : Bytes, RecvStream.readPayload.on ⟨stream⟩ = (.ok payload, ⟨rest⟩)
      ↔ payload.length ≤ maxMessageSize ∧ stream = frame payload ++ rest)
  ∧ (∀ stream : Bytes,
      (∀ payload rest, payload.length ≤ maxMessageSize → stream ≠ frame payload ++ rest) →
        (RecvStream.readMessage codec).on ⟨stream⟩ = (.error .readError, ⟨[]⟩)
        ∨ (maxMessageSize < fromBeBytes (stream.take 4)
          ∧ (RecvStream.readMessage codec).on ⟨stream⟩
            = (.error (.messageTooLarge (fromBeBytes (stream.take 4)) maxMessageSize),
                ⟨stream.drop 4⟩)))
  ∧ (∀ (msg : M) (stream : SendStream) (rest : Bytes),
      (SendStream.writeMessage codec msg).on stream
          = (.ok (), stream.writeAll (frame (codec.encode msg)))
        ↔ RecvStream.readPayload.on ⟨frame (codec.encode msg) ++ rest⟩
          = (.ok (codec.encode msg), ⟨rest⟩))
  ∧ (∀ (msg : M) (stream stream' : SendStream),
      (SendStream.writeMessage codec msg).on stream = (.ok (), stream') →
        (codec.encode msg).length % 2 ^ 32 = (codec.encode msg).length
        ∧ fromBeBytes (toBeBytes (codec.encode msg).length) = (codec.encode msg).length)
  := by
  refine ⟨?_, ?_, ?_, ?_, ?_, ?_⟩
  · intro msgs stream rest hmsgs
    refine ⟨_, SendStream.writeMessages_on codec stream hmsgs, ?_⟩
    apply RecvStream.readMessages_on_frames codec (fun msg _ => hcodec msg) hmsgs
  · intro msg stream h
    apply SendStream.writeMessage_on_of_gt codec stream h
  · apply RecvStream.readPayload_on_ok_iff
  · intro stream h
    apply RecvStream.readMessage_on_of_noFrame codec h
  · intro msg stream rest
    rw [RecvStream.readPayload_on_ok_iff]
    constructor
    · intro h
      apply And.intro (SendStream.length_le_of_writeMessage_on codec h) rfl
    · intro h
      apply SendStream.writeMessage_on_of_le codec stream h.1
  · intro msg stream stream' h
    have hlt : (codec.encode msg).length < 2 ^ 32 := by
      apply lt_of_le_of_lt (SendStream.length_le_of_writeMessage_on codec h)
      decide
    refine ⟨Nat.mod_eq_of_lt hlt, fromBeBytes_toBeBytes hlt⟩

/-- A health request, and its protobuf encoding. -/
def healthRequest : PluginRequest :=
  { requestId := "r", request := some .health }

def healthRequestBytes : Bytes :=
  [0x0a, 1, 114, 0x6a, 0]

/-- A codec that knows two requests, by their encodings. -/
def requestCodec : Codec { req // req = emptyRequest ∨ req = healthRequest } where
  encode req :=
    match req.val.request with
    | none => emptyRequestBytes
    | some _ => healthRequestBytes
  decode bytes :=
    if bytes = emptyRequestBytes then some ⟨emptyRequest, Or.inl rfl⟩
    else if bytes = healthRequestBytes then some ⟨healthRequest, Or.inr rfl⟩
    else none

/-- Two requests, with one more byte after them. -/
theorem framing_exact_two :
  ∃ sent, (SendStream.writeMessages requestCodec
        [⟨emptyRequest, Or.inl rfl⟩, ⟨healthRequest, Or.inr rfl⟩]).on .fresh
      = (.ok (), SendStream.fresh.writeAll sent)
    ∧ (RecvStream.readMessages requestCodec 2).on ⟨sent ++ [1]⟩
      = (.ok [⟨emptyRequest, Or.inl rfl⟩, ⟨healthRequest, Or.inr rfl⟩], ⟨[1]⟩)
  := by
  have hcodec : ∀ req, requestCodec.Inverts req := by
    rintro ⟨req, rfl | rfl⟩
    · rfl
    · rfl
  apply (framing_exact requestCodec hcodec).1
    [⟨emptyRequest, Or.inl rfl⟩, ⟨healthRequest, Or.inr rfl⟩] .fresh [1]
  intro req hreq
  simp only [List.mem_cons, List.not_mem_nil, or_false] at hreq
  obtain rfl | rfl := hreq
  · decide
  · decide

end OrchestraRag
