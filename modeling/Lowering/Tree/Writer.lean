import Lowering.Json.Value
import Lowering.Tree

/-!
# Trees as values

The written form of a tree: each node is an object whose first member `kind` names the variant, and
every other part of the node is a member, absent parts being null.

* `TypeRef.toValue`, `Symbol.toValue`, `LiteralKind.name` -- types in use, symbols and literal
  kinds;
* `Expr.toValue`, `Stmt.toValue` -- expressions and statements.
-/

namespace Lowering

open Json

/-- An object with a tag. -/
def node (tag : String) (members : List (String × Value)) : Value :=
  .obj (("kind", .str tag) :: members)

/-- The value of a position. -/
def indexValue (i : UInt32) : Value := .nat i.toNat

/-- The written form of a type in use. -/
def TypeRef.toValue : TypeRef → Value
  | .declared id => node "declared" [("id", indexValue id.index)]
  | .external name => node "external" [("name", .str name)]
  | .array element => node "array" [("element", element.toValue)]

/-- The written form of a symbol. -/
def Symbol.toValue : Symbol → Value
  | .localVariable => node "local" []
  | .field owner => node "field" [("owner", .option (fun id => indexValue id.index) owner)]
  | .property id => node "property" [("property", indexValue id.index)]
  | .enumMember => node "enum_member" []
  | .method id => node "method" [("method", indexValue id.index)]
  | .typeName => node "type" []

/-- The written names of the literal kinds. -/
def LiteralKind.names : List (String × LiteralKind) :=
  [("string", .string), ("true", .affirmative), ("false", .negative), ("numeric", .numeric),
    ("character", .character), ("null", .null)]

/-- The written name of a literal kind. -/
def LiteralKind.name : LiteralKind → String
  | .string => "string"
  | .affirmative => "true"
  | .negative => "false"
  | .numeric => "numeric"
  | .character => "character"
  | .null => "null"

mutual

/-- The written form of an expression. -/
def Expr.toValue : Expr → Value
  | .invocation receiver method args =>
    node "invocation" [("receiver", optionToValue receiver), ("method", indexValue method.index),
      ("args", .arr (listToValue args))]
  | .elementAccess target index =>
    node "element_access" [("target", target.toValue), ("index", index.toValue)]
  | .collection converted elements =>
    node "collection" [("converted_type", converted.toValue),
      ("elements", .arr (elementsToValue elements))]
  | .binary left op right =>
    node "binary" [("left", left.toValue), ("op", .str op), ("right", right.toValue)]
  | .identifier name symbol => node "identifier" [("name", .str name), ("symbol", symbol.toValue)]
  | .implicitCreation args inits =>
    node "implicit_object_creation" [("args", .arr (listToValue args)),
      ("initializers", .arr (initsToValue inits))]
  | .creation type constructor args =>
    node "object_creation" [("ty", indexValue type.index),
      ("constructor", .option (fun id => indexValue id.index) constructor),
      ("args", .arr (listToValue args))]
  | .memberAccess target name symbol =>
    node "member_access" [("target", target.toValue), ("name", .str name),
      ("symbol", symbol.toValue)]
  | .literal kind text => node "literal" [("literal", .str kind.name), ("text", .str text)]
  | .prefixUnary op operand => node "prefix_unary" [("op", .str op), ("operand", operand.toValue)]
  | .initializer elements => node "initializer" [("elements", .arr (listToValue elements))]
  | .assignment left op right =>
    node "assignment" [("left", left.toValue), ("op", .str op), ("right", right.toValue)]
  | .unsupported syntaxKind => node "unsupported" [("syntax_kind", .str syntaxKind)]

/-- The written form of an optional expression. -/
def optionToValue : Option Expr → Value
  | none => .null
  | some e => e.toValue

/-- The written forms of expressions. -/
def listToValue : List Expr → List Value
  | [] => []
  | e :: rest => e.toValue :: listToValue rest

/-- The written form of an element. -/
def Element.toValue : Element → Value
  | .single value => node "expression" [("expr", value.toValue)]
  | .spread value => node "spread" [("expr", value.toValue)]

/-- The written forms of elements. -/
def elementsToValue : List Element → List Value
  | [] => []
  | e :: rest => e.toValue :: elementsToValue rest

/-- The written form of a member's value in a creation. -/
def MemberInit.toValue : MemberInit → Value
  | .mk member value => .obj [("member", .str member), ("value", value.toValue)]

/-- The written forms of members' values in a creation. -/
def initsToValue : List MemberInit → List Value
  | [] => []
  | i :: rest => i.toValue :: initsToValue rest

end

mutual

/-- The written form of a statement. -/
def Stmt.toValue : Stmt → Value
  | .expression value => node "expression" [("expr", value.toValue)]
  | .whileLoop condition body =>
    node "while" [("condition", condition.toValue), ("body", body.toValue)]
  | .block statements => node "block" [("statements", .arr (statementsToValue statements))]
  | .localDecl name type init =>
    node "local_decl" [("name", .str name), ("ty", type.toValue),
      ("initializer", optionToValue init)]
  | .unsupported syntaxKind => node "unsupported" [("syntax_kind", .str syntaxKind)]

/-- The written forms of statements. -/
def statementsToValue : List Stmt → List Value
  | [] => []
  | s :: rest => s.toValue :: statementsToValue rest

end

end Lowering
