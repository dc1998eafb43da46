import Lowering.Options
import Lowering.Refusal

/-!
# Looking up declarations

A reference is a position in one of the program's lists. A look-up finds the declaration there or
says that there is none.

* `Program.typeAt`, `Program.methodAt`, `Program.constructorAt`, `Program.propertyAt` -- look-ups;
* `Program.checkOwners` -- every owner is a declared type;
* `Program.constructorsOf`, `Program.typeLabel` -- derived look-ups;
* `Context` -- a program whose owners were checked, with its options.
-/

namespace Lowering

/-- The position that a reference to a type names. -/
def TypeId.position (id : TypeId) : Nat := id.index.toNat

/-- The position that a reference to a method names. -/
def MethodId.position (id : MethodId) : Nat := id.index.toNat

/-- The position that a reference to a constructor names. -/
def ConstructorId.position (id : ConstructorId) : Nat := id.index.toNat

/-- The position that a reference to a property names. -/
def PropertyId.position (id : PropertyId) : Nat := id.index.toNat

/-- The declaration at a position of a list. -/
def declarationAt {α : Type} (kind : DeclKind) (decls : List α) (i : Nat) :
    Except BrokenReference α :=
  match decls[i]? with
  | some d => .ok d
  | none => .error (.undeclared kind i)

namespace Program

/-- The type at a position. -/
def typeAt (p : Program) (i : Nat) : Except BrokenReference TypeDecl :=
  declarationAt .type p.types i

/-- The method at a position. -/
def methodAt (p : Program) (i : Nat) : Except BrokenReference MethodDecl :=
  declarationAt .method p.methods i

/-- The constructor at a position. -/
def constructorAt (p : Program) (i : Nat) : Except BrokenReference ConstructorDecl :=
  declarationAt .constructor p.constructors i

/-- The property at a position. -/
def propertyAt (p : Program) (i : Nat) : Except BrokenReference PropertyDecl :=
  declarationAt .property p.properties i

/-- The owners that declarations name: those of methods, then of properties, then of
constructors. -/
def owners (p : Program) : List TypeId :=
  p.methods.filterMap (·.owner) ++ p.properties.filterMap (·.owner) ++ p.constructors.map (·.owner)

/-- Checks that every owner is a declared type. The first that is not is reported. -/
def checkOwners (p : Program) : Except BrokenReference Unit :=
  p.owners.forM fun owner => do
    let _ ← p.typeAt owner.position

/-- The positions of the constructors of a type, in ascending order. -/
def constructorsOf (p : Program) (type : Nat) : List Nat :=
  (p.constructors.zipIdx.filter fun (c, _) => c.owner.position == type).map (·.2)

/-- The name of a type for messages. A position without a type is named by its label. -/
def typeLabel (p : Program) (id : TypeId) : String :=
  match p.typeAt id.position with
  | .ok t => t.name
  | .error _ => id.label

end Program

/-- Whether a type carries an attribute. -/
def TypeDecl.hasAttribute (t : TypeDecl) (name : String) : Bool := t.attributes.contains name

/-- What a lowering works on. -/
structure Context where
  program : Program
  options : Options := {}

/-- The context of a program whose owners are all declared. -/
def Context.ofProgram (program : Program) (options : Options) : Except Refusal Context :=
  match program.checkOwners with
  | .ok () => .ok { program, options }
  | .error b => .error (.broken b)

end Lowering
