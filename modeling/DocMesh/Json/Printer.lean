/-
# Writing JSON text

Two layouts: the compact one, without any space, and the indented one, with every item and member on a
line of its own.
-/
import DocMesh.Decimal.Shortest
import DocMesh.Json.Basic
import DocMesh.Json.Quoted

namespace DocMesh

/-- Floating-point numbers are written positionally from 10^-5 to 10^16. -/
def Json.realLayout : DecimalLayout := ⟨16, 4, "+"⟩

/-- The text of a number. -/
def JsonNumber.text : JsonNumber → String
  | integer n => toString n
  | real x => x.text Json.realLayout

namespace Json

/-! ## Compact text -/

mutual

/-- The characters of the compact text of a value. -/
def chars : Json → List Char
  | null => "null".toList
  | bool true => "true".toList
  | bool false => "false".toList
  | number n => n.text.toList
  | string s => Quoted.encode s
  | array items => '[' :: itemsChars items
  | object members => '{' :: membersChars members

/-- The items of an array and the closing bracket. -/
def itemsChars : List Json → List Char
  | [] => [']']
  | [v] => chars v ++ [']']
  | v :: vs => chars v ++ ',' :: itemsChars vs

/-- The members of an object and the closing brace. -/
def membersChars : List (String × Json) → List Char
  | [] => ['}']
  | [(name, v)] => Quoted.encode name ++ ':' :: chars v ++ ['}']
  | (name, v) :: ms => Quoted.encode name ++ ':' :: chars v ++ ',' :: membersChars ms

end

/-- The compact text of a value. -/
def text (v : Json) : String := String.ofList (chars v)

/-! ## Indented text -/

/-- A line break and two blanks for each level. -/
def newLine (level : Nat) : List Char := '\n' :: List.replicate (2 * level) ' '

mutual

/-- The characters of the indented text of a value at the given level. -/
def indentedChars (level : Nat) : Json → List Char
  | array [] => ['[', ']']
  | array items => '[' :: indentedItems (level + 1) items ++ newLine level ++ [']']
  | object [] => ['{', '}']
  | object members => '{' :: indentedMembers (level + 1) members ++ newLine level ++ ['}']
  | v => chars v

/-- The items of an array, each on a line of its own. -/
def indentedItems (level : Nat) : List Json → List Char
  | [] => []
  | [v] => newLine level ++ indentedChars level v
  | v :: vs => newLine level ++ indentedChars level v ++ ',' :: indentedItems level vs

/-- The members of an object, each on a line of its own. -/
def indentedMembers (level : Nat) : List (String × Json) → List Char
  | [] => []
  | [(name, v)] => newLine level ++ Quoted.encode name ++ [':', ' '] ++ indentedChars level v
  | (name, v) :: ms =>
    newLine level ++ Quoted.encode name ++ [':', ' '] ++ indentedChars level v ++
      ',' :: indentedMembers level ms

end

/-- The text of a value with every item and member on a line of its own. -/
def indentedText (v : Json) : String := String.ofList (indentedChars 0 v)

end Json

end DocMesh
