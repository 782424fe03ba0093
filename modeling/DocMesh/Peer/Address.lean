/-
# Addresses of peers

An address is a host and a port. Its text is `host:port`; a host with a colon in it stands in brackets.
-/
import DocMesh.Decimal.Numeral

namespace DocMesh

/-- Where a peer listens. -/
structure Address where
  /-- The name or the number of the host, without brackets. -/
  host : String
  port : UInt16
  deriving DecidableEq, Inhabited

namespace Address

/-- The parts of a text before and after its last colon. -/
def splitLastColon? (cs : List Char) : Option (List Char × List Char) :=
  let tail := cs.reverse.takeWhile (· != ':')
  match cs.reverse.dropWhile (· != ':') with
  | _ :: front => some (front.reverse, tail.reverse)
  | [] => none

/-- A text without the pair of brackets around it; a text without such a pair as it is. -/
def unbracket (cs : List Char) : List Char :=
  match cs with
  | '[' :: rest => if rest.getLast? = some ']' then rest.dropLast else cs
  | _ => cs

/-- The port with the given number. -/
def port? (cs : List Char) : Option UInt16 :=
  (DecimalNumeral.below? 65536 cs).map UInt16.ofNat

/-- The address written as `host:port` or `[host]:port`. A host without a bracket in front holds no colon. -/
def parseChars? (cs : List Char) : Option Address :=
  match splitLastColon? cs with
  | none => none
  | some (front, port) =>
    let host := unbracket front
    if host.isEmpty || (host.contains ':' && cs.head? != some '[') then none
    else (port? port).map (⟨String.ofList host, ·⟩)

/-- The address written as `host:port` or `[host]:port`. -/
def parse? (s : String) : Option Address := parseChars? s.toList

/-- The text of the address. -/
def text (a : Address) : String :=
  if a.host.toList.contains ':' then "[" ++ a.host ++ "]:" ++ toString a.port.toNat
  else a.host ++ ":" ++ toString a.port.toNat

end Address

end DocMesh
