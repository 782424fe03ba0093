/-
# Errors of the network

What can go wrong between two nodes, sorted by what a node does about it.
-/
import DocMesh.ProtocolError
import DocMesh.StoreError

namespace DocMesh

/-- How a failure is to be treated. -/
inductive ErrorCategory where
  /-- The connection failed. It is tried again. -/
  | transport
  /-- The peer cannot be trusted, or does not trust this node. -/
  | authorization
  /-- The peer sent what it should not. -/
  | protocol
  /-- The storage of either node failed. -/
  | storage
  /-- The node itself is at fault. -/
  | internal
  deriving DecidableEq, Inhabited

/-- The name of the category. -/
def ErrorCategory.name : ErrorCategory → String
  | transport => "Transport"
  | authorization => "Authorization"
  | protocol => "Protocol"
  | storage => "Storage"
  | internal => "Internal"

/-- What goes wrong between two nodes. -/
inductive NetworkError where
  /-- A connection cannot be used. -/
  | io (detail : String)
  /-- A peer cannot be reached. -/
  | connect (address detail : String)
  /-- The peer has closed the connection. -/
  | closed
  /-- The peer did not answer in time. -/
  | timeout (operation : String)
  /-- The peer has turned this node away. -/
  | handshakeRejected (reason : String)
  | protocol (cause : ProtocolError)
  | store (cause : StoreError)
  /-- The peer did not take the entries. -/
  | pushRejected (reason : String)
  /-- The node cannot run with its configuration. -/
  | config (detail : String)
  /-- A component was stopped for good. -/
  | stopped
  /-- A task of the node failed. -/
  | internal (detail : String)
  deriving DecidableEq, Inhabited

namespace NetworkError

/-- The text of the error. -/
def message : NetworkError → String
  | io detail => "io error: " ++ detail
  | connect address detail => "failed to connect to " ++ address ++ ": " ++ detail
  | closed => "connection closed"
  | timeout operation => operation ++ " timed out"
  | handshakeRejected reason => "handshake rejected: " ++ reason
  | protocol cause => "protocol error: " ++ cause.message
  | store cause => "storage error: " ++ cause.message
  | pushRejected reason => "peer rejected push: " ++ reason
  | config detail => "invalid configuration: " ++ detail
  | stopped => "component stopped"
  | internal detail => "internal error: " ++ detail

/-- How the error is to be treated. -/
def category : NetworkError → ErrorCategory
  | io _ | connect _ _ | closed | timeout _ => .transport
  | handshakeRejected _ => .authorization
  | protocol cause => if cause.isSecurityFailure then .authorization else .protocol
  | store _ | pushRejected _ => .storage
  | config _ | stopped | internal _ => .internal

/-- Is this node at fault, and not the peer or the network? -/
def isLocal : NetworkError → Bool
  | store _ | config _ | stopped | internal _ => true
  | _ => false

/-- May another attempt succeed? -/
def isRetryable (e : NetworkError) : Bool := e.category = .transport

/-- A message arrived where another one was due. -/
def unexpected (expected actual : String) : NetworkError := .protocol (.unexpectedMessage expected actual)

end NetworkError

end DocMesh
