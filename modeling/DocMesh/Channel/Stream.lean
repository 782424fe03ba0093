/-
# Streams of frames

The frames of a connection follow each other in one stream of bytes. A message is read as soon as its frame
is complete; where the stream breaks off within a frame, nothing of that frame is read.
-/
import DocMesh.Channel.Frame

namespace DocMesh

/-- What stands at the front of a stream. -/
inductive Arrival where
  /-- A message, and the stream behind it. -/
  | message (m : Message) (rest : Bytes)
  /-- A frame that cannot be read, and the stream behind what was looked at. -/
  | fault (e : ProtocolError) (rest : Bytes)
  /-- A part of a frame, or nothing. -/
  | incomplete
  deriving Inhabited

/-- How the reading of a stream ends. -/
inductive StreamEnd where
  /-- There are no more complete frames. -/
  | closed
  /-- A frame cannot be read. -/
  | fault (e : ProtocolError)
  deriving DecidableEq, Inhabited

namespace FrameCodec

/-- Reads the frame at the front of a stream. The header is judged before the payload has arrived. -/
def arrival (c : FrameCodec) (s : Bytes) : Arrival :=
  match FrameHeader.decode? (s.take FrameHeader.size) with
  | none => .incomplete
  | some h =>
    let rest := s.drop FrameHeader.size
    match c.checkHeader h with
    | .error e => .fault e rest
    | .ok () =>
      let body := rest.take h.length.toNat
      if body.length = h.length.toNat then
        match c.decodeMessage h body with
        | .ok m => .message m (rest.drop h.length.toNat)
        | .error e => .fault e (rest.drop h.length.toNat)
      else .incomplete

theorem length_lt_of_arrival {c : FrameCodec} {s rest : Bytes} {m : Message}
    (h : c.arrival s = .message m rest) : rest.length < s.length := by
  unfold arrival at h
  split at h
  · simp at h
  · rename_i hd hs
    have hlen : 0 < s.length := by
      cases s with
      | nil => simp [FrameHeader.decode?] at hs
      | cons => simp
    split at h
    · simp at h
    · dsimp only at h
      split at h
      · split at h
        · simp only [Arrival.message.injEq] at h
          rw [← h.2]
          simp only [List.length_drop, FrameHeader.size]
          omega
        · simp at h
      · simp at h

/-- The messages of a stream, and how the reading ends. -/
def messages (c : FrameCodec) (s : Bytes) : List Message × StreamEnd :=
  match h : c.arrival s with
  | .message m rest =>
    have := length_lt_of_arrival h
    let (ms, e) := messages c rest
    (m :: ms, e)
  | .fault e _ => ([], .fault e)
  | .incomplete => ([], .closed)
termination_by s.length

end FrameCodec

end DocMesh
