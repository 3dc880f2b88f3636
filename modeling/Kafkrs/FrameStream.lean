import Kafkrs.Client
import Kafkrs.FetchFrame
import Kafkrs.Lib.Framing

/-! Frames back to back in one stream. The reader takes them apart at the outer size, the body
decoder at the inner one; the Python client writes the same bytes. -/
namespace Kafkrs.FrameStream

open Lib Wal Wire Client
open FetchFrame (toBeBytes_length)

section Decoding

variable (decode : Bytes → Option Command)

/-- `decode_frame_body`, `decode` being `Command::decode`. -/
def decodeFrameBody (body : Bytes) : Except FrameError Frame :=
  if body.length < 4 then .error (.malformed "body shorter than command_size prefix")
  else
    let cmdEnd := 4 + fromBeBytes (slice body 0 4)
    if body.length < cmdEnd then .error (.malformed "body shorter than declared command_size")
    else
      match decode (slice body 4 cmdEnd) with
      | none => .error .prostError
      | some command => .ok ⟨command, body.drop cmdEnd⟩

def readFrame (buf : Bytes) : Option (Frame × Nat) :=
  if buf.length < 4 then none
  else
    let totalSize := fromBeBytes (slice buf 0 4)
    if maxFrameSize < totalSize ∨ buf.length < 4 + totalSize then none
    else (decodeFrameBody decode (slice buf 4 (4 + totalSize))).toOption.map
      fun frame => (frame, 4 + totalSize)

/-- The frames read off a stream, and how many of its bytes they took. -/
def readFrames (stream : Bytes) : List Frame × Nat := scan (readFrame decode) stream

end Decoding

variable {decode : Bytes → Option Command}

def encoding (frame : Frame) : Bytes := (encodeFrame frame).toOption.getD []

structure Readable (decode : Bytes → Option Command) (frame : Frame) : Prop where
  accepted : ∃ bytes, encodeFrame frame = .ok bytes
  command : decode frame.command.encode = some frame.command

theorem fromBeBytes_toBeBytes {n : Nat} (small : n < 2 ^ 32) :
    fromBeBytes (toBeBytes (UInt32.ofNat n)) = n := by
  rw [fromBeBytes, toBeBytes, List.reverse_reverse, UInt32.toNat_ofNat', Nat.mod_eq_of_lt small]
  exact fromLeBytes_toLeBytes (by omega)

/-- An encoded frame is its outer size and then the body the decoder is given. -/
theorem encodeFrame_ok {frame : Frame} {bytes : Bytes} (encoded : encodeFrame frame = .ok bytes) :
    4 + frame.command.encode.length + frame.payload.length + 4 ≤ maxFrameSize ∧
      bytes = toBeBytes (UInt32.ofNat (4 + frame.command.encode.length + frame.payload.length)) ++
        (toBeBytes (UInt32.ofNat frame.command.encode.length) ++
          (frame.command.encode ++ frame.payload)) := by
  simp only [encodeFrame] at encoded
  split at encoded
  · cases encoded
  next fits =>
    cases encoded
    exact ⟨Nat.not_lt.mp fits, by simp only [List.append_assoc]⟩

/-- A body with its inner size: command and payload come apart where they were joined. -/
theorem decodeFrameBody_joined {command : Command} {payload : Bytes}
    (small : command.encode.length < 2 ^ 32) (inverse : decode command.encode = some command) :
    decodeFrameBody decode
        (toBeBytes (UInt32.ofNat command.encode.length) ++ (command.encode ++ payload)) =
      .ok ⟨command, payload⟩ := by
  have width := toBeBytes_length (UInt32.ofNat command.encode.length)
  have size : slice (toBeBytes (UInt32.ofNat command.encode.length) ++ (command.encode ++ payload))
      0 4 = toBeBytes (UInt32.ofNat command.encode.length) := by
    rw [slice_zero, List.take_left' width]
  have command_slice := slice_middle (toBeBytes (UInt32.ofNat command.encode.length)) command.encode
    payload width (show 4 + _ = 4 + command.encode.length from rfl)
  have whole : (toBeBytes (UInt32.ofNat command.encode.length) ++
      (command.encode ++ payload)).length = 4 + command.encode.length + payload.length := by
    rw [List.length_append, List.length_append, width]
    omega
  have rest : (toBeBytes (UInt32.ofNat command.encode.length) ++ (command.encode ++ payload)).drop
      (4 + command.encode.length) = payload := by
    rw [← List.drop_drop, List.drop_left' width, List.drop_left]
  have prefixed : ¬ 4 + command.encode.length + payload.length < 4 := by omega
  have complete : ¬ 4 + command.encode.length + payload.length < 4 + command.encode.length := by
    omega
  simp only [decodeFrameBody, whole, size, fromBeBytes_toBeBytes small, command_slice, inverse, rest,
    prefixed, complete, ↓reduceIte]

/-- The reader takes an encoded frame off the front of a stream, whatever follows. -/
theorem readFrame_encoded {frame : Frame} {bytes : Bytes} (encoded : encodeFrame frame = .ok bytes)
    (inverse : decode frame.command.encode = some frame.command) (rest : Bytes) :
    readFrame decode (bytes ++ rest) = some (frame, bytes.length) := by
  obtain ⟨fits, shape⟩ := encodeFrame_ok encoded
  rw [maxFrameSize] at fits
  generalize total : 4 + frame.command.encode.length + frame.payload.length = totalSize at *
  generalize body : toBeBytes (UInt32.ofNat frame.command.encode.length) ++
    (frame.command.encode ++ frame.payload) = inner at *
  have width := toBeBytes_length (UInt32.ofNat totalSize)
  have extent : inner.length = totalSize := by
    rw [← body, List.length_append, List.length_append, toBeBytes_length]
    omega
  have layout : bytes ++ rest = toBeBytes (UInt32.ofNat totalSize) ++ (inner ++ rest) := by
    rw [shape, List.append_assoc]
  have length : bytes.length = 4 + totalSize := by
    rw [shape, List.length_append, width, extent]
  have size : slice (toBeBytes (UInt32.ofNat totalSize) ++ (inner ++ rest)) 0 4 =
      toBeBytes (UInt32.ofNat totalSize) := by
    rw [slice_zero, List.take_left' width]
  have body_slice := slice_middle (toBeBytes (UInt32.ofNat totalSize)) inner rest width
    (show 4 + _ = 4 + totalSize by rw [extent])
  have decoded : decodeFrameBody decode inner = .ok frame := by
    rw [← body]
    exact decodeFrameBody_joined (by omega) inverse
  have enough : (bytes ++ rest).length = 4 + totalSize + rest.length := by
    rw [List.length_append, length]
  have prefixed : ¬ 4 + totalSize + rest.length < 4 := by omega
  have complete : ¬ (maxFrameSize < totalSize ∨ 4 + totalSize + rest.length < 4 + totalSize) := by
    rw [maxFrameSize]
    omega
  rw [readFrame, enough, layout, size, fromBeBytes_toBeBytes (by omega), if_neg prefixed,
    if_neg complete, body_slice, decoded, length]
  rfl

theorem readFrame_progress {buf : Bytes} {frame : Frame} {n : Nat}
    (read : readFrame decode buf = some (frame, n)) : 0 < n ∧ n ≤ buf.length := by
  simp only [readFrame] at read
  split at read
  · cases read
  · split at read
    · cases read
    next enough =>
      obtain ⟨_, _, same⟩ := Option.map_eq_some_iff.mp read
      cases same
      omega

theorem encoding_eq {frame : Frame} {bytes : Bytes} (encoded : encodeFrame frame = .ok bytes) :
    encoding frame = bytes := by
  rw [encoding, encoded]
  rfl

theorem reading (decode : Bytes → Option Command) :
    Reading encoding (readFrame decode) (Readable decode) where
  complete frame rest readable := by
    obtain ⟨⟨bytes, encoded⟩, inverse⟩ := readable
    rw [encoding_eq encoded]
    exact readFrame_encoded encoded inverse rest
  progress _ _ _ read := readFrame_progress read

/-- The client writes what the broker's encoder would, and refuses what it refuses. -/
theorem writeRequest_eq (frame : Frame) :
    (writeRequest frame.command.encode frame.payload).toOption = (encodeFrame frame).toOption := by
  have total : 4 + (4 + frame.command.encode.length + frame.payload.length) =
      4 + frame.command.encode.length + frame.payload.length + 4 := by omega
  have payload : (if frame.payload.isEmpty then [] else frame.payload) = frame.payload := by
    split
    next empty => exact (List.isEmpty_iff.mp empty).symm
    next => rfl
  simp only [writeRequest, encodeFrame, total, payload]
  split <;> rfl

theorem mapM_encodeFrame {frames : List Frame} {encodings : List Bytes}
    (accepted : frames.mapM encodeFrame = .ok encodings) :
    encodings.flatten = frames.flatMap encoding ∧
      ∀ frame ∈ frames, ∃ bytes, encodeFrame frame = .ok bytes := by
  induction frames generalizing encodings with
  | nil =>
    cases accepted
    exact ⟨rfl, fun _ member => absurd member List.not_mem_nil⟩
  | cons frame frames ih =>
    rw [List.mapM_cons] at accepted
    obtain ⟨bytes, encoded, later⟩ := Produce.bind_ok.mp accepted
    obtain ⟨encodings, rest, same⟩ := Produce.bind_ok.mp later
    cases same
    obtain ⟨joined, all⟩ := ih rest
    refine ⟨?_, fun other member => ?_⟩
    · rw [List.flatten_cons, joined, List.flatMap_cons, encoding_eq encoded]
    · rcases List.mem_cons.mp member with rfl | old
      · exact ⟨bytes, encoded⟩
      · exact all other old

/-- Frames that are accepted and read back come off their concatenation as they went in, with
nothing left over; the client writes each of them the same, and refuses the same ones. -/
theorem frames_roundtrip {frames : List Frame} {encodings : List Bytes}
    (accepted : frames.mapM encodeFrame = .ok encodings)
    (inverse : ∀ frame ∈ frames, decode frame.command.encode = some frame.command) :
    readFrames decode encodings.flatten = (frames, encodings.flatten.length) ∧
      ∀ frame : Frame, (writeRequest frame.command.encode frame.payload).toOption =
        (encodeFrame frame).toOption := by
  obtain ⟨joined, all⟩ := mapM_encodeFrame accepted
  refine ⟨?_, writeRequest_eq⟩
  rw [joined]
  exact (reading decode).scan_encoded fun frame member => ⟨all frame member, inverse frame member⟩

section Sample

def ping : Command := ⟨7, some .ping⟩

def oneByte : Command := ⟨8, some (.produce ⟨"t", 0, [⟨0, 1, 0, 0⟩]⟩)⟩

def decodeTwo (bytes : Bytes) : Option Command :=
  if bytes = ping.encode then some ping
  else if bytes = oneByte.encode then some oneByte
  else none

theorem frames_roundtrip_two : ∃ stream,
    [⟨ping, []⟩, ⟨oneByte, [255]⟩].mapM encodeFrame = .ok stream ∧
      readFrames decodeTwo stream.flatten = ([⟨ping, []⟩, ⟨oneByte, [255]⟩], stream.flatten.length) ∧
      ∀ frame : Frame, (writeRequest frame.command.encode frame.payload).toOption =
        (encodeFrame frame).toOption := by
  have accepted : ([⟨ping, []⟩, ⟨oneByte, [255]⟩] : List Frame).mapM encodeFrame =
      .ok [encoding ⟨ping, []⟩, encoding ⟨oneByte, [255]⟩] := by decide +kernel
  refine ⟨_, accepted, frames_roundtrip accepted fun frame member => ?_⟩
  simp only [List.mem_cons, List.not_mem_nil, or_false] at member
  rcases member with rfl | rfl <;> decide +kernel

end Sample

end Kafkrs.FrameStream
