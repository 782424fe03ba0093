/-
# Scripted peers

A scripted peer does not look at what it is asked: it reads one frame after the other, and for each it does
what its script says next. At the end of the script it hangs up.
-/
import DocMesh.Channel.Stream

namespace DocMesh

/-- What a scripted peer does when it has read a frame. -/
inductive Cue where
  /-- It sends a message. -/
  | message (m : Message)
  /-- It sends bytes, which need not be a frame. -/
  | raw (bytes : Bytes)
  /-- It hangs up. -/
  | hangUp
  /-- It does nothing, now and ever after. -/
  | silence
  deriving DecidableEq, Inhabited

/-- What a scripted peer has read. -/
structure Heard where
  /-- The flag in the header of the frame. -/
  flag : UInt8
  /-- The message of the frame. -/
  content : Except ProtocolError Message

/-- A peer that follows a script. -/
structure ScriptedPeer where
  codec : FrameCodec := {}
  /-- What is left of the script. -/
  script : List Cue
  /-- Does the peer do nothing any more? -/
  silent : Bool := false
  /-- What the peer has read. -/
  heard : List Heard := []
  /-- What the peer has sent and the other end has not read. -/
  unread : Bytes := []
  /-- How many messages the peer has sent. -/
  sent : Nat := 0
  deriving Inhabited

namespace ScriptedPeer

/-- Has the peer hung up? -/
def gone (p : ScriptedPeer) : Bool := p.script.isEmpty && !p.silent

/-- What a frame says to the peer. -/
def reading (p : ScriptedPeer) (frame : Bytes) : Option Heard :=
  (FrameHeader.decode? (frame.take FrameHeader.size)).map fun h =>
    ⟨h.flag, p.codec.decodeMessage h (frame.drop FrameHeader.size)⟩

/-- Does what the script says. -/
def perform (p : ScriptedPeer) : Cue → ScriptedPeer
  | .message m =>
    match p.codec.encodeMessage (Envelope.nonceOf p.sent) m with
    | .ok frame => { p with unread := p.unread ++ frame, sent := p.sent + 1 }
    | .error _ => { p with script := [] }
  | .raw bytes => { p with unread := p.unread ++ bytes }
  | .hangUp => { p with script := [] }
  | .silence => { p with script := [], silent := true }

/-- Reads a frame and follows the script. -/
def hear (p : ScriptedPeer) (frame : Bytes) : ScriptedPeer :=
  match p.script with
  | [] => p
  | cue :: script =>
    { p with script := script, heard := p.heard ++ (p.reading frame).toList }.perform cue

end ScriptedPeer

end DocMesh
