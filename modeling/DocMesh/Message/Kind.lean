/-
# Kinds of messages

Every frame names the kind of its content by a code.
-/
import DocMesh.ProtocolError

namespace DocMesh

/-- What a frame holds: a message of one of eight kinds, or a sealed frame. -/
inductive MessageKind where
  /-- A node introduces itself. -/
  | handshakeRequest
  /-- The answer to an introduction. -/
  | handshakeResponse
  /-- A node asks for the latest timestamp of a log. -/
  | clockRequest
  /-- The latest timestamp of a log. -/
  | clockResponse
  /-- A node asks for the entries after a timestamp. -/
  | pullRequest
  /-- The entries asked for. -/
  | changeSet
  /-- Entries for the log of the peer. -/
  | pushRequest
  /-- The answer to pushed entries. -/
  | acknowledgement
  /-- A sealed frame. -/
  | envelope
  deriving DecidableEq, Inhabited

namespace MessageKind

/-- All kinds. -/
def all : List MessageKind :=
  [handshakeRequest, handshakeResponse, clockRequest, clockResponse, pullRequest, changeSet, pushRequest,
    acknowledgement, envelope]

/-- The code of the kind. -/
def code : MessageKind → UInt8
  | handshakeRequest => 1
  | handshakeResponse => 2
  | clockRequest => 3
  | clockResponse => 4
  | pullRequest => 5
  | changeSet => 6
  | pushRequest => 7
  | acknowledgement => 8
  | envelope => 255

/-- The name of the kind in errors. -/
def name : MessageKind → String
  | handshakeRequest => "HandshakeReq"
  | handshakeResponse => "HandshakeRes"
  | clockRequest => "GetClockReq"
  | clockResponse => "ClockRes"
  | pullRequest => "PullChangesReq"
  | changeSet => "ChangeSetRes"
  | pushRequest => "PushChangesReq"
  | acknowledgement => "AckRes"
  | envelope => "SecureEnvelope"

/-- The kind with the given code. -/
def ofCode (n : UInt8) : Except ProtocolError MessageKind :=
  match all.find? (·.code = n) with
  | some k => .ok k
  | none => .error (.unknownMessageKind n)

@[simp] theorem ofCode_code (k : MessageKind) : ofCode k.code = .ok k := by cases k <;> rfl

end MessageKind

end DocMesh
