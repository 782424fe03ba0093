/-
# JSON values

The values of documents. An object lists its members in ascending order of their names, each name once,
so that objects with the same members are equal as values; `Json.ofMembers` builds one from any list of
members.
-/
import DocMesh.Ordered
import DocMesh.Decimal.Binary64

namespace DocMesh

/-- A JSON number: an integer or a floating-point number. The integer 1 and the number 1.0 are different values. -/
inductive JsonNumber where
  /-- An integer from -2^63 to 2^64 - 1. -/
  | integer (n : Int)
  /-- A floating-point number. -/
  | real (x : Binary64)
  deriving DecidableEq, Inhabited

namespace JsonNumber

/-- Numerical equality within each of the two kinds. -/
def equals : JsonNumber → JsonNumber → Bool
  | integer m, integer n => m == n
  | real x, real y => x.equals y
  | _, _ => false

/-- Is the integer in the range of the integer numbers? -/
def inRange (n : Int) : Bool := Int64.minValue.toInt ≤ n && n < UInt64.size

end JsonNumber

/-- A JSON value. -/
inductive Json where
  | null
  | bool (b : Bool)
  | number (n : JsonNumber)
  | string (s : String)
  | array (items : List Json)
  | object (members : List (String × Json))
  deriving Inhabited

namespace Json

/-- An integer as a value. -/
def ofInt (n : Int) : Json := number (.integer n)

instance : Coe String Json := ⟨string⟩

instance : Coe Bool Json := ⟨bool⟩

/-- The object without members. -/
def emptyObject : Json := object []

/-- The object with the given members. Of two with the same name the later one counts. -/
def ofMembers (members : List (String × Json)) : Json :=
  object (members.foldl (fun ms m => place Prod.fst m ms) [])

/-- The member of an object with the given name. -/
def member? (name : String) : Json → Option Json
  | object members => members.lookup name
  | _ => none

/-- The members of an object. -/
def members? : Json → Option (List (String × Json))
  | object members => some members
  | _ => none

/-- Are the values equal and neither arrays nor objects? -/
def sameScalar : Json → Json → Bool
  | null, null => true
  | bool a, bool b => a == b
  | number a, number b => a.equals b
  | string a, string b => a == b
  | _, _ => false

/-! ## Nesting -/

mutual

/-- How many arrays and objects enclose the innermost value, itself included. -/
def depth : Json → Nat
  | array items => itemsDepth items + 1
  | object members => membersDepth members + 1
  | _ => 0

/-- The greatest depth of the items. -/
def itemsDepth : List Json → Nat
  | [] => 0
  | v :: vs => max (depth v) (itemsDepth vs)

/-- The greatest depth of the members. -/
def membersDepth : List (String × Json) → Nat
  | [] => 0
  | (_, v) :: ms => max (depth v) (membersDepth ms)

end

/-! ## Equality -/

mutual

/-- Decides the equality of values. -/
def decEq : (a b : Json) → Decidable (a = b)
  | null, null => isTrue rfl
  | bool a, bool b => if h : a = b then isTrue (h ▸ rfl) else isFalse (by simpa using h)
  | number a, number b => if h : a = b then isTrue (h ▸ rfl) else isFalse (by simpa using h)
  | string a, string b => if h : a = b then isTrue (h ▸ rfl) else isFalse (by simpa using h)
  | array a, array b =>
    match itemsDecEq a b with
    | isTrue h => isTrue (h ▸ rfl)
    | isFalse h => isFalse (by simpa using h)
  | object a, object b =>
    match membersDecEq a b with
    | isTrue h => isTrue (h ▸ rfl)
    | isFalse h => isFalse (by simpa using h)
  | null, bool _ | null, number _ | null, string _ | null, array _ | null, object _
  | bool _, null | bool _, number _ | bool _, string _ | bool _, array _ | bool _, object _
  | number _, null | number _, bool _ | number _, string _ | number _, array _ | number _, object _
  | string _, null | string _, bool _ | string _, number _ | string _, array _ | string _, object _
  | array _, null | array _, bool _ | array _, number _ | array _, string _ | array _, object _
  | object _, null | object _, bool _ | object _, number _ | object _, string _ | object _, array _ =>
    isFalse (by simp)

/-- Decides the equality of lists of values. -/
def itemsDecEq : (a b : List Json) → Decidable (a = b)
  | [], [] => isTrue rfl
  | [], _ :: _ | _ :: _, [] => isFalse (by simp)
  | a :: as, b :: bs =>
    match decEq a b, itemsDecEq as bs with
    | isTrue h, isTrue hs => isTrue (h ▸ hs ▸ rfl)
    | isFalse h, _ => isFalse (by simp [h])
    | _, isFalse h => isFalse (by simp [h])

/-- Decides the equality of lists of members. -/
def membersDecEq : (a b : List (String × Json)) → Decidable (a = b)
  | [], [] => isTrue rfl
  | [], _ :: _ | _ :: _, [] => isFalse (by simp)
  | (m, a) :: as, (n, b) :: bs =>
    if hn : m = n then
      match decEq a b, membersDecEq as bs with
      | isTrue h, isTrue hs => isTrue (hn ▸ h ▸ hs ▸ rfl)
      | isFalse h, _ => isFalse (by simp [h])
      | _, isFalse h => isFalse (by simp [h])
    else isFalse (by simp [hn])

end

instance : DecidableEq Json := decEq

end Json

end DocMesh
