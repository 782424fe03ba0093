/-
# What answers mean

A node that has sent a request reads the answer as what was asked for. Any other message is an error, and
so is an answer that says that the peer refuses.
-/
import DocMesh.Message.Basic
import DocMesh.Network.Error

namespace DocMesh.Answer

/-- What is said where a peer gives no reason. -/
def noReason : String := "no reason given"

/-- The peer's answer to an introduction that it has accepted. -/
def welcome : Message → Except NetworkError HandshakeResponse
  | .handshakeResponse r =>
    if r.accepted then .ok r else .error (.handshakeRejected (r.reason.getD noReason))
  | m => .error (.unexpected "HandshakeRes" m.name)

/-- The latest timestamp in the peer's log. -/
def clock : Message → Except NetworkError Timestamp
  | .clockResponse t => .ok t
  | m => .error (.unexpected "ClockRes" m.name)

/-- The entries of a change set. -/
def changes : Message → Except NetworkError (List Entry)
  | .changeSet entries =>
    match WireEntry.toEntries entries with
    | .ok entries => .ok entries
    | .error e => .error (.protocol e)
  | m => .error (.unexpected "ChangeSetRes" m.name)

/-- The peer has taken the pushed entries. -/
def taken : Message → Except NetworkError Unit
  | .acknowledgement success reason =>
    if success then .ok () else .error (.pushRejected (reason.getD noReason))
  | m => .error (.unexpected "AckRes" m.name)

end DocMesh.Answer
