import Lowering.Naming

/-!
# Representations

A declared type with the marker attribute is an inline aggregate, used by value. Every other
declared type lives on the heap and is used through a pointer.

* `Representation`, `TypeDecl.representation`, `Context.representationAt` -- the choice;
* `ResolvedType`, `resolve` -- a type in use: its spelling and its representation.
-/

namespace Lowering

/-- How values of a type are held. -/
inductive Representation where
  /-- An inline aggregate. -/
  | value
  /-- A pointer to the heap. -/
  | reference
deriving DecidableEq, Repr

/-- The representation of a type, given the marker attribute. -/
def TypeDecl.representation (t : TypeDecl) (marker : String) : Representation :=
  if t.hasAttribute marker then .value else .reference

namespace Context

/-- The representation of the type at a position. -/
def representationAt (c : Context) (i : Nat) : Except BrokenReference Representation :=
  (c.program.typeAt i).map (·.representation c.options.markerAttribute)

/-- Whether the type at a position is held by value. -/
def isValue (c : Context) (i : Nat) : Bool :=
  match c.representationAt i with
  | .ok .value => true
  | _ => false

end Context

/-- The spelling of an outside type that is a primitive. -/
def primitive? (name : String) : Option String :=
  match name with
  | "Single" => some "float"
  | "Int32" => some "int"
  | "Double" => some "double"
  | "Boolean" => some "int"
  | _ => none

/-- A type in use, resolved: its spelling in the unit, and how its values are held. -/
structure ResolvedType where
  name : String
  isPrimitive : Bool
  representation : Representation
deriving DecidableEq, Repr

/-- Whether values of a resolved type are held inline. -/
def ResolvedType.isValue (t : ResolvedType) : Bool := t.representation = .value

/-- Resolves a type in use. An array has no spelling of its own. -/
def resolve (c : Context) : TypeRef → Naming ResolvedType
  | .declared id => do
    let name ← typeName c.program id.position
    let representation ← found (c.representationAt id.position)
    return { name, isPrimitive := false, representation }
  | .external name =>
    match primitive? name with
    | some spelling =>
      return { name := spelling, isPrimitive := true, representation := .value }
    | none => refuse (.broken (.unmapped name))
  | .array _ =>
    unsupported "ArrayType" "array types only lower as locals and collection literals"

end Lowering
