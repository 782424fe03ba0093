/-
# Errors of the replica

What can go wrong with the documents, the log and the registered peers of a node.
-/

namespace DocMesh

/-- What a replica refuses or fails at. -/
inductive StoreError where
  /-- A text is not the JSON text that it should be. -/
  | json (detail : String)
  /-- A peer's address does not have the form `host:port`. -/
  | invalidAddress (address : String)
  /-- No kind of peer has this code. -/
  | unknownPeerKind (code : UInt8)
  /-- The caller asked for something that cannot be. -/
  | invalidArgument (detail : String)
  /-- The storage cannot be read or written. -/
  | storage (detail : String)
  deriving DecidableEq, Inhabited

namespace StoreError

/-- The text of the error. -/
def message : StoreError → String
  | json detail => "json error: " ++ detail
  | invalidAddress address => "invalid peer address: " ++ address
  | unknownPeerKind code => "unknown peer type code: " ++ toString code.toNat
  | invalidArgument detail => "invalid argument: " ++ detail
  | storage detail => "storage error: " ++ detail

end StoreError

end DocMesh
