import Lowering.Json.Number
import Lowering.Json.Text

/-!
# Values

A value that was read completely. Members of an object keep the order in which they were written,
and a name may occur twice.

* `Value.render` -- the text of a value, without blanks;
* `Value.depth` -- how deep arrays and objects nest.
-/

namespace Lowering.Json

/-- A complete value. -/
inductive Value where
  | null
  | bool (b : Bool)
  | num (n : Number)
  | str (s : String)
  | arr (items : List Value)
  | obj (members : List (String × Value))

namespace Value

/-- The value of a natural number. -/
def nat (n : Nat) : Value := .num (.ofNat n)

/-- The value of an optional part: absence is written as null. -/
def option {α : Type} (write : α → Value) : Option α → Value
  | none => .null
  | some a => write a

/-- The array of written parts. -/
def list {α : Type} (write : α → Value) (as : List α) : Value := .arr (as.map write)

mutual

/-- The characters of a value. -/
def render : Value → List Char
  | .null => ['n', 'u', 'l', 'l']
  | .bool true => ['t', 'r', 'u', 'e']
  | .bool false => ['f', 'a', 'l', 's', 'e']
  | .num n => n.render
  | .str s => quote s
  | .arr items => '[' :: renderItems items ++ [']']
  | .obj members => '\x7b' :: renderMembers members ++ ['\x7d']

/-- The items of an array, with commas between them. -/
def renderItems : List Value → List Char
  | [] => []
  | [v] => render v
  | v :: rest => render v ++ ',' :: renderItems rest

/-- The members of an object, with commas between them. -/
def renderMembers : List (String × Value) → List Char
  | [] => []
  | [(k, v)] => quote k ++ ':' :: render v
  | (k, v) :: rest => quote k ++ ':' :: render v ++ ',' :: renderMembers rest

end

mutual

/-- How deep arrays and objects nest: zero for a value that is neither. -/
def depth : Value → Nat
  | .arr items => depthItems items + 1
  | .obj members => depthMembers members + 1
  | _ => 0

/-- The depth of the deepest item. -/
def depthItems : List Value → Nat
  | [] => 0
  | v :: rest => max (depth v) (depthItems rest)

/-- The depth of the deepest member. -/
def depthMembers : List (String × Value) → Nat
  | [] => 0
  | (_, v) :: rest => max (depth v) (depthMembers rest)

end

/-- The text of a value. -/
def text (v : Value) : String := String.ofList v.render

end Value

end Lowering.Json
