import Mathlib.Data.UInt
import Mathlib.Data.List.Basic
import Mathlib.Tactic.Ring

/-!
# Length-delimited frames

A message travels as four bytes of big-endian length followed by its encoding, which is at
most `maxMessageSize` bytes long.  How a message is encoded is a `Codec`, given from
outside.  Reading what was written gives the message back and leaves the bytes after the
frame (`readMessage_frame`).
-/

namespace OrchestraRag

abbrev Bytes := List UInt8

/-- Maximum allowed message size: 16 MB. -/
def maxMessageSize : ℕ :=
  16 * 1024 * 1024

/-- The encoding of the messages of a type. -/
structure Codec (M : Type) where
  encode : M → Bytes
  decode : Bytes → Option M

/-- Decoding what was encoded gives the message back. -/
def Codec.Inverts {M : Type} (codec : Codec M) (m : M) : Prop :=
  codec.decode (codec.encode m) = some m

/-- What ends the reading or the writing of a message. -/
inductive FrameError where
  | messageTooLarge (size max : ℕ)
  | decodeError
  | readError
  deriving DecidableEq

/-- The sending side of a stream: the bytes written to it, and whether it is finished. -/
structure SendStream where
  written : Bytes
  finished : Bool
  deriving DecidableEq

namespace SendStream

/-- A stream to which nothing was written yet. -/
def fresh : SendStream :=
  ⟨[], false⟩

def writeAll (stream : SendStream) (data : Bytes) : SendStream :=
  { stream with written := stream.written ++ data }

def finish (stream : SendStream) : SendStream :=
  { stream with finished := true }

end SendStream

/-! ### Headers -/

/-- `u32::to_be_bytes` of `size as u32`. -/
def toBeBytes (size : ℕ) : Bytes :=
  let n := size % 2 ^ 32
  [UInt8.ofNat (n / 2 ^ 24), UInt8.ofNat (n / 2 ^ 16), UInt8.ofNat (n / 2 ^ 8), UInt8.ofNat n]

/-- `u32::from_be_bytes`. -/
def fromBeBytes (header : Bytes) : ℕ :=
  header.foldl (fun n b => n * 2 ^ 8 + b.toNat) 0

theorem fromBeBytes_toBeBytes {size : ℕ} (h : size < 2 ^ 32) :
  fromBeBytes (toBeBytes size) = size
  := by
  simp only [fromBeBytes, toBeBytes, Nat.mod_eq_of_lt h, List.foldl_cons, List.foldl_nil,
    UInt8.toNat_ofNat']
  omega

theorem toBeBytes_fromBeBytes {header : Bytes} (h : header.length = 4) :
  toBeBytes (fromBeBytes header) = header
  := by
  obtain ⟨a, b, c, d, rfl⟩ := List.length_eq_four.mp h
  have ha := a.toNat_lt
  have hb := b.toNat_lt
  have hc := c.toNat_lt
  have hd := d.toNat_lt
  simp only [toBeBytes, fromBeBytes, List.foldl_cons, List.foldl_nil, List.cons.injEq,
    ← UInt8.toNat_inj, UInt8.toNat_ofNat']
  refine ⟨?_, ?_, ?_, ?_, trivial⟩
  all_goals omega

/-! ### Writing and reading -/

variable {M : Type} (codec : Codec M)

/-- The frame of an encoded message. -/
def frame (data : Bytes) : Bytes :=
  toBeBytes data.length ++ data

/-- Write a message to a stream. -/
def writeMessage (stream : SendStream) (msg : M) : Except FrameError SendStream :=
  let data := codec.encode msg
  let size := data.length
  if maxMessageSize < size then .error (.messageTooLarge size maxMessageSize)
  else .ok ((stream.writeAll (toBeBytes size)).writeAll data)

/-- The next `n` bytes of a stream and the ones after them. -/
def readExact (n : ℕ) (stream : Bytes) : Except FrameError (Bytes × Bytes) :=
  if stream.length < n then .error .readError
  else .ok (stream.splitAt n)

/-- Read a message from a stream, given by the bytes that arrive on it. -/
def readMessage (stream : Bytes) : Except FrameError (M × Bytes) := do
  let (header, stream) ← readExact 4 stream
  let size := fromBeBytes header
  if maxMessageSize < size then
    throw (.messageTooLarge size maxMessageSize)
  let (buf, stream) ← readExact size stream
  match codec.decode buf with
  | some msg => pure (msg, stream)
  | none => throw .decodeError

theorem readExact_append (data rest : Bytes) :
  readExact data.length (data ++ rest) = .ok (data, rest)
  := by
  rw [readExact, if_neg (by simp), List.splitAt_eq, List.take_left, List.drop_left]

/-- A message that fits is written as its frame. -/
theorem writeMessage_of_le {stream : SendStream} {msg : M}
    (h : (codec.encode msg).length ≤ maxMessageSize) :
  writeMessage codec stream msg = .ok (stream.writeAll (frame (codec.encode msg)))
  := by
  have hsize : ¬ maxMessageSize < (codec.encode msg).length := Nat.not_lt.mpr h
  simp [writeMessage, hsize, SendStream.writeAll, frame]

/-- A message that does not fit leaves the stream as it is. -/
theorem writeMessage_of_gt {stream : SendStream} {msg : M}
    (h : maxMessageSize < (codec.encode msg).length) :
  writeMessage codec stream msg
    = .error (.messageTooLarge (codec.encode msg).length maxMessageSize)
  := by
  rw [writeMessage, if_pos h]

/-- Reading a frame gives its message and the bytes that follow. -/
theorem readMessage_frame {msg : M} (hcodec : codec.Inverts msg)
    (h : (codec.encode msg).length ≤ maxMessageSize) (rest : Bytes) :
  readMessage codec (frame (codec.encode msg) ++ rest) = .ok (msg, rest)
  := by
  have hheader : readExact 4 (frame (codec.encode msg) ++ rest)
      = .ok (toBeBytes (codec.encode msg).length, codec.encode msg ++ rest) := by
    rw [frame, List.append_assoc]
    apply readExact_append (toBeBytes _)
  have hsize : fromBeBytes (toBeBytes (codec.encode msg).length) = (codec.encode msg).length := by
    apply fromBeBytes_toBeBytes
    apply lt_of_le_of_lt h
    decide
  have hbuf := readExact_append (codec.encode msg) rest
  simp only [readMessage, hheader, bind, Except.bind, hsize, Nat.not_lt.mpr h, if_false, hbuf]
  rw [hcodec]
  rfl

end OrchestraRag
