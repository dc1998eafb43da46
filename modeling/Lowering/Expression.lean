import Lowering.Representation

/-!
# Expressions

An expression becomes one piece of text. Binary operations are always parenthesised. The order in
which parts are lowered decides the numbers of the names that they ask for: an assignment lowers its
right side first, all other forms go from left to right.

* `Expr.lower` -- the text of an expression;
* `lowerArgs` -- the texts of arguments.
-/

namespace Lowering

/-- Parts with commas between them. -/
def commaList (parts : List String) : String := ", ".intercalate parts

/-- Parts in braces. -/
def braced (body : String) : String := "\x7b" ++ body ++ "\x7d"

/-- A call. -/
def callText (function : String) (args : List String) : String :=
  function ++ "(" ++ commaList args ++ ")"

/-- A name. A field without a target is a field of the current object, so its owner has to be the
type whose method is lowered. -/
def lowerIdentifier (c : Context) (receiver : Option TypeId) (name : String) :
    Symbol → Naming String
  | .field owner =>
    if owner.isSome && owner == receiver then return "this->" ++ name
    else
      let ownerName := (owner.map c.program.typeLabel).getD "an external type"
      let receiverName := (receiver.map c.program.typeLabel).getD "the entry point"
      refuse (.broken (.fieldOutsideReceiver name ownerName receiverName))
  | _ => return name

/-- A literal. -/
def lowerLiteral (text : String) : LiteralKind → Naming String
  | .string => return "\"" ++ text ++ "\""
  | .affirmative => return "1"
  | .negative => return "0"
  | .numeric => return text
  | .character => unsupported "CharacterLiteralExpression" ("literal " ++ text)
  | .null => unsupported "NullLiteralExpression" "null has no lowering"

/-- A property as a member. Only an outside property can be read. -/
def lowerProperty (c : Context) (id : PropertyId) : Naming String := do
  let p ← found (c.program.propertyAt id.position)
  if p.isNative then return p.name
  else unsupported "PropertyAccess" ("property " ++ quoted p.name ++ " is not extern")

/-- The current object, for a call without a receiver. -/
def currentObject (receiver : Option TypeId) (method : String) : Naming String :=
  match receiver with
  | some _ => return "this"
  | none => refuse (.broken (.receiverless method))

mutual

/-- The text of an expression. `receiver` is the type whose method is lowered; the entry point has
none. -/
def Expr.lower (c : Context) (receiver : Option TypeId) : Expr → Naming String
  | .invocation target method args => do
    let m ← found (c.program.methodAt method.position)
    if m.isNative then
      let values ← lowerArgs c receiver args
      if m.name = c.options.printPrimitive ∧ args.length = 1 then
        return callText "printf" ("\"%s\\n\"" :: values)
      else
        return callText m.name values
    else
      let self ← lowerTarget c receiver m.name target
      let name ← methodName c.program method.position
      let values ← lowerArgs c receiver args
      return callText name (self :: values)
  | .elementAccess target index => do
    let target ← target.lower c receiver
    let index ← index.lower c receiver
    return target ++ "[" ++ index ++ "]"
  | .collection converted elements =>
    match converted with
    | .array element => do
      let type ← resolve c element
      let values ← lowerElements c receiver elements
      return "(" ++ type.name ++ "[" ++ decimal elements.length ++ "])" ++ braced (commaList values)
    | _ => unsupported "CollectionExpression" "only fixed-size arrays are lowered"
  | .binary left op right => do
    let left ← left.lower c receiver
    let right ← right.lower c receiver
    return "(" ++ left ++ " " ++ op ++ " " ++ right ++ ")"
  | .identifier name symbol => lowerIdentifier c receiver name symbol
  | .implicitCreation _ _ =>
    unsupported "ImplicitObjectCreationExpression"
      "only lowered as the initializer of a local declaration"
  | .creation type constructor args => do
    match ← found (c.representationAt type.position) with
    | .value =>
      let name ← typeName c.program type.position
      let values ← lowerArgs c receiver args
      return "(" ++ name ++ ")" ++ braced (if values.isEmpty then "0" else commaList values)
    | .reference =>
      let name ← match constructor with
        | none => allocatorName c.program type.position
        | some id => constructorName c.program id.position
      let values ← lowerArgs c receiver args
      return callText name values
  | .memberAccess target name symbol =>
    match symbol with
    | .property id => lowerProperty c id
    | .enumMember => return name
    | .field _ => do
      let target ← target.lower c receiver
      return target ++ "." ++ name
    | .method _ | .localVariable | .typeName => target.lower c receiver
  | .literal kind text => lowerLiteral text kind
  | .prefixUnary op operand =>
    if op = "!" ∨ op = "-" then do
      let operand ← operand.lower c receiver
      return op ++ operand
    else unsupported "PrefixUnaryExpression" ("prefix operator " ++ quoted op)
  | .initializer elements => do
    let values ← lowerArgs c receiver elements
    return braced (commaList values)
  | .assignment left op right => do
    let right ← right.lower c receiver
    let left ← left.lower c receiver
    return left ++ " " ++ op ++ " " ++ right
  | .unsupported syntaxKind => unsupported syntaxKind "expression kind is not lowered"

/-- The receiver of a call of a method. -/
def lowerTarget (c : Context) (receiver : Option TypeId) (method : String) :
    Option Expr → Naming String
  | some target => target.lower c receiver
  | none => currentObject receiver method

/-- The texts of arguments, from left to right. -/
def lowerArgs (c : Context) (receiver : Option TypeId) : List Expr → Naming (List String)
  | [] => return []
  | e :: rest => do
    let text ← e.lower c receiver
    let texts ← lowerArgs c receiver rest
    return text :: texts

/-- The texts of the elements of a collection literal, from left to right. -/
def lowerElements (c : Context) (receiver : Option TypeId) : List Element → Naming (List String)
  | [] => return []
  | .single e :: rest => do
    let text ← e.lower c receiver
    let texts ← lowerElements c receiver rest
    return text :: texts
  | .spread _ :: _ => unsupported "SpreadElement" "spread elements are not lowered"

end

end Lowering
