import Lowering.Program
import Lowering.Tree.Writer

/-!
# Programs as values

The written form of a program. Every member is written, whether it has its default or not.

* `TypeDecl.toValue` and its kin -- declarations;
* `Program.toValue`, `Program.toJson` -- programs, as a value and as text.
-/

namespace Lowering

open Json

/-- The written name of a type kind. -/
def TypeKind.name : TypeKind → String
  | .classType => "class"
  | .structType => "struct"
  | .enumType => "enum"

/-- The written names of the type kinds. -/
def TypeKind.names : List (String × TypeKind) :=
  [("class", .classType), ("struct", .structType), ("enum", .enumType)]

/-- The written form of a field. -/
def FieldDecl.toValue (f : FieldDecl) : Value :=
  .obj [("type_text", .str f.typeText), ("name", .str f.name)]

/-- The written form of a parameter. -/
def Param.toValue (p : Param) : Value :=
  .obj [("type_text", .str p.typeText), ("name", .str p.name)]

/-- The written form of a type. -/
def TypeDecl.toValue (t : TypeDecl) : Value :=
  .obj [("name", .str t.name), ("kind", .str t.kind.name), ("attributes", .list .str t.attributes),
    ("is_static", .bool t.isStatic), ("fields", .list FieldDecl.toValue t.fields)]

/-- The written form of an optional owner. -/
def ownerToValue (owner : Option TypeId) : Value := .option (fun id => indexValue id.index) owner

/-- The written form of an optional body. -/
def bodyToValue (body : Option (List Stmt)) : Value :=
  .option (fun statements => .arr (statementsToValue statements)) body

/-- The written form of a method. -/
def MethodDecl.toValue (m : MethodDecl) : Value :=
  .obj [("owner", ownerToValue m.owner), ("name", .str m.name), ("is_native", .bool m.isNative),
    ("is_static", .bool m.isStatic), ("params", .list Param.toValue m.params),
    ("return_type", .str m.returnType), ("body", bodyToValue m.body)]

/-- The written form of a constructor. -/
def ConstructorDecl.toValue (c : ConstructorDecl) : Value :=
  .obj [("owner", indexValue c.owner.index), ("params", .list Param.toValue c.params),
    ("body", bodyToValue c.body)]

/-- The written form of a property. -/
def PropertyDecl.toValue (p : PropertyDecl) : Value :=
  .obj [("owner", ownerToValue p.owner), ("name", .str p.name), ("is_native", .bool p.isNative)]

/-- The written form of a program. -/
def Program.toValue (p : Program) : Value :=
  .obj [("types", .list TypeDecl.toValue p.types), ("methods", .list MethodDecl.toValue p.methods),
    ("constructors", .list ConstructorDecl.toValue p.constructors),
    ("properties", .list PropertyDecl.toValue p.properties)]

/-- The text of a program. -/
def Program.toJson (p : Program) : String := p.toValue.text

end Lowering
