/-
# Peers and seeds on the command line

A peer is given as `id=host:port`, and a document to write before the start as `collection/key=json`. The
collection ends at the first slash, and what stands in front of the JSON text at the first equals sign.
-/
import DocMesh.Json.Reader
import DocMesh.Network.Error
import DocMesh.Peer.Basic

namespace DocMesh

/-! ## Errors -/

/-- What is wrong with a seed. -/
inductive SeedFault where
  /-- There is no equals sign. -/
  | noContent
  /-- There is no slash in front of the equals sign. -/
  | noKey
  /-- The collection or the key is empty. -/
  | emptyName
  /-- The content is not a JSON text. -/
  | notJson (detail : String)
  deriving DecidableEq, Inhabited

/-- The text of the fault. -/
def SeedFault.message : SeedFault → String
  | noContent => "missing '='"
  | noKey => "missing '/' between collection and key"
  | emptyName => "empty collection or key"
  | notJson detail => detail

/-- Why a command fails. -/
inductive CommandError where
  /-- The text does not give a peer. -/
  | invalidPeer (text : String)
  /-- The text does not give a seed. -/
  | invalidSeed (text : String) (fault : SeedFault)
  | store (cause : StoreError)
  | network (cause : NetworkError)
  deriving DecidableEq, Inhabited

/-- The text of the error. -/
def CommandError.message : CommandError → String
  | invalidPeer text => "invalid peer '" ++ text ++ "', expected id=host:port"
  | invalidSeed text fault => "invalid seed '" ++ text ++ "': " ++ fault.message
  | store cause => cause.message
  | network cause => cause.message

/-! ## Splitting -/

/-- The parts of a text before and after the first place of a character. -/
def splitFirst? (separator : Char) : List Char → Option (List Char × List Char)
  | [] => none
  | c :: cs =>
    if c = separator then some ([], cs)
    else (splitFirst? separator cs).map fun (front, back) => (c :: front, back)

/-! ## Peers -/

/-- The static peer that is given as `id=host:port`. -/
def Peer.ofText? (s : String) : Option Peer :=
  match splitFirst? '=' s.toList with
  | none => none
  | some (id, address) =>
    if id.isEmpty then none
    else (Address.parseChars? address).map fun a => ⟨String.ofList id, a.text, 0, .static⟩

/-- The static peer that is given as `id=host:port`. -/
def Peer.parse (s : String) : Except CommandError Peer :=
  match Peer.ofText? s with
  | some p => .ok p
  | none => .error (.invalidPeer s)

/-! ## Seeds -/

/-- A document to write before a node is started. -/
structure Seed where
  collection : String
  key : String
  content : Json
  deriving DecidableEq, Inhabited

namespace Seed

/-- The seed that is given as `collection/key=json`. -/
def ofChars (cs : List Char) : Except SeedFault Seed :=
  match splitFirst? '=' cs with
  | none => .error .noContent
  | some (path, text) =>
    match splitFirst? '/' path with
    | none => .error .noKey
    | some (collection, key) =>
      if collection.isEmpty || key.isEmpty then .error .emptyName
      else
        match Json.parse? (String.ofList text) with
        | some content => .ok ⟨String.ofList collection, String.ofList key, content⟩
        | none => .error (.notJson "not a JSON text")

/-- The seed that is given as `collection/key=json`. -/
def parse (s : String) : Except CommandError Seed :=
  match ofChars s.toList with
  | .ok seed => .ok seed
  | .error fault => .error (.invalidSeed s fault)

end Seed

end DocMesh
