/-
# Errors of the protocol

What can go wrong while messages are written, read or protected.
-/
import DocMesh.Bytes

namespace DocMesh

/-- What is wrong with a message, a frame or a channel. -/
inductive ProtocolError where
  /-- A message cannot be written. -/
  | encode (detail : String)
  /-- The body of a message is not what its kind asks for. -/
  | decode (detail : String)
  /-- No kind of message has this code. -/
  | unknownMessageKind (code : UInt8)
  /-- A message arrived where another one was due. -/
  | unexpectedMessage (expected actual : String)
  /-- A frame or its content is longer than allowed. -/
  | frameTooLarge (length limit : Nat)
  /-- No way of compression has this flag. -/
  | unknownCompression (flag : UInt8)
  /-- Compressed bytes cannot be restored. -/
  | decompression (detail : String)
  /-- A sealed frame does not have the right form. -/
  | invalidEnvelope (detail : String)
  /-- A sealed frame was not sealed with the right key. -/
  | decryption
  /-- A frame cannot be sealed. -/
  | encryption
  /-- A frame is sealed where it should not be, or the other way around. -/
  | securityMismatch (detail : String)
  /-- No keys can be agreed on. -/
  | keyExchange (detail : String)
  /-- An entry of a message is no entry of a log. -/
  | malformedEntry (detail : String)
  deriving DecidableEq, Inhabited

namespace ProtocolError

/-- The text of the error. -/
def message : ProtocolError → String
  | encode detail => "encode error: " ++ detail
  | decode detail => "decode error: " ++ detail
  | unknownMessageKind code => "unknown message type: 0x" ++ Bytes.hex [code]
  | unexpectedMessage expected actual => "unexpected message: expected " ++ expected ++ ", got " ++ actual
  | frameTooLarge length limit =>
    "frame too large: " ++ toString length ++ " bytes (limit " ++ toString limit ++ ")"
  | unknownCompression flag => "unknown compression flag: " ++ toString flag.toNat
  | decompression detail => "decompression failed: " ++ detail
  | invalidEnvelope detail => "invalid secure envelope: " ++ detail
  | decryption => "decryption failed"
  | encryption => "encryption failed"
  | securityMismatch detail => "channel security mismatch: " ++ detail
  | keyExchange detail => "key exchange failed: " ++ detail
  | malformedEntry detail => "malformed oplog entry: " ++ detail

/-- Does the error mean that the peer cannot be trusted? -/
def isSecurityFailure : ProtocolError → Bool
  | decryption | invalidEnvelope _ | securityMismatch _ | keyExchange _ => true
  | _ => false

end ProtocolError

end DocMesh
