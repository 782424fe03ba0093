/-
# Reading JSON text

Evaluates JSON text: as a value (`Json.parse?`), or as a record with known fields (`Raw.fields?`). Arrays
and objects nest at most `nestingLimit` deep, counted from the outermost one. Only the parts that are
asked for are evaluated: what a record does not know may hold anything of the right grammar.
-/
import DocMesh.Decimal.Evaluation
import DocMesh.Json.Raw

namespace DocMesh

/-- Arrays and objects nest at most this deep. -/
def Json.nestingLimit : Nat := 127

namespace Numeral

/-- Are there neither a point nor an exponent? -/
def integral (n : Numeral) : Bool := n.fraction.isEmpty && n.exponent.isNone

/-- The number without its sign. -/
def decimal (n : Numeral) : Decimal :=
  (Decimal.ofDigits (n.whole.map Raw.digitValue) (n.fraction.map Raw.digitValue)).shift (n.exponent.getD 0)

/-- The value of a number; none if it is too large. An integer in range stays one, all else is a floating-point
number, and so is minus zero. -/
def value? (n : Numeral) : Option JsonNumber :=
  let d := n.decimal
  let signed : Int := if n.negative then -(d.digits : Int) else d.digits
  if n.integral && d.scale == 0 && JsonNumber.inRange signed && !(n.negative && d.digits == 0) then
    some (.integer signed)
  else (d.eval? n.negative).map .real

end Numeral

namespace Raw

/-! ## Values -/

mutual

/-- The value of the text, in which arrays and objects may nest `room` deep. -/
def eval? (room : Nat) : Raw → Option Json
  | null => some .null
  | bool b => some (.bool b)
  | number n => n.value?.map .number
  | string s => (Quoted.decode? s).map .string
  | array items =>
    match room with
    | 0 => none
    | room + 1 => (evalItems? room items).map .array
  | object members =>
    match room with
    | 0 => none
    | room + 1 => (evalMembers? room members).map Json.ofMembers

/-- The values of the items. -/
def evalItems? (room : Nat) : List Raw → Option (List Json)
  | [] => some []
  | v :: vs =>
    match eval? room v, evalItems? room vs with
    | some v, some vs => some (v :: vs)
    | _, _ => none

/-- The members, in the order of the text. -/
def evalMembers? (room : Nat) : List (Bytes × Raw) → Option (List (String × Json))
  | [] => some []
  | (name, v) :: ms =>
    match Quoted.decode? name, eval? room v, evalMembers? room ms with
    | some name, some v, some ms => some ((name, v) :: ms)
    | _, _, _ => none

end

/-! ## Fields of records -/

/-- The text of a string. -/
def text? : Raw → Option String
  | string s => Quoted.decode? s
  | _ => none

/-- The truth value. -/
def bool? : Raw → Option Bool
  | bool b => some b
  | _ => none

/-- The integer, if it is written without point and exponent and lies between the bounds. -/
def int? (low high : Int) : Raw → Option Int
  | number n =>
    match n.value? with
    | some (.integer i) => if low ≤ i ∧ i ≤ high then some i else none
    | _ => none
  | _ => none

/-- The members with their names evaluated. -/
def namedMembers? : List (Bytes × Raw) → Option (List (String × Raw))
  | [] => some []
  | (name, v) :: ms =>
    match Quoted.decode? name, namedMembers? ms with
    | some name, some ms => some ((name, v) :: ms)
    | _, _ => none

/-- The only member of the given name; `none` inside if there is no such member, `none` outside if there are several. -/
def field? (name : String) (members : List (String × Raw)) : Option (Option Raw) :=
  match members.filter (·.1 == name) with
  | [] => some none
  | [(_, v)] => some (some v)
  | _ => none

/-- The fields of a record, in the order of `names`. A record is an object, in which unknown members are passed over
and known ones may stand once, or an array with all fields in order. -/
def fields? (names : List String) : Raw → Option (List (Option Raw))
  | object members => do
    let members ← namedMembers? members
    names.mapM (field? · members)
  | array items => if items.length = names.length then some (items.map some) else none
  | _ => none

/-- The name of a case without data: the name as a string, or an object whose one member has that name and is null. -/
def caseName? : Raw → Option String
  | string s => Quoted.decode? s
  | object [(name, null)] => Quoted.decode? name
  | _ => none

end Raw

namespace Json

/-- The value of a JSON text given as bytes. -/
def parseBytes? (s : Bytes) : Option Json := (Raw.parse? s).bind (Raw.eval? nestingLimit)

/-- The value of a JSON text. -/
def parse? (s : String) : Option Json := parseBytes? (Bytes.ofString s)

end Json

end DocMesh
