import Lowering.Decimal
import Lowering.Tree

/-!
# Programs

A program is four lists of declarations. A declaration is known by its position in its list, and
every reference between declarations is such a position.

* `TypeDecl`, `MethodDecl`, `ConstructorDecl`, `PropertyDecl` -- the declarations;
* `Program` -- the four lists, with `addType`, `addMethod`, `addConstructor`, `addProperty`, which
  append a declaration and give its position;
* `TypeId.label` and its kin -- positions as text.
-/

namespace Lowering

/-! ## 1. Declarations -/

/-- The forms of a declared type. -/
inductive TypeKind where
  | classType
  | structType
  | enumType
deriving DecidableEq, Repr

/-- A field: the text of its type, and its name. -/
structure FieldDecl where
  typeText : String
  name : String
deriving DecidableEq, Repr

/-- A parameter: the text of its type, and its name. -/
structure Param where
  typeText : String
  name : String
deriving DecidableEq, Repr

/-- A declared type. -/
structure TypeDecl where
  name : String
  kind : TypeKind
  attributes : List String := []
  isStatic : Bool := false
  fields : List FieldDecl := []
deriving DecidableEq, Repr

/-- A declared method. A method of an outside library is native and has no body. -/
structure MethodDecl where
  owner : Option TypeId := none
  name : String
  isNative : Bool := false
  isStatic : Bool := false
  params : List Param := []
  returnType : String := "void"
  body : Option (List Stmt) := none

/-- A declared constructor. -/
structure ConstructorDecl where
  owner : TypeId
  params : List Param := []
  body : Option (List Stmt) := none

/-- A declared property. -/
structure PropertyDecl where
  owner : Option TypeId := none
  name : String
  isNative : Bool := false
deriving DecidableEq, Repr

/-- A program. -/
structure Program where
  types : List TypeDecl := []
  methods : List MethodDecl := []
  constructors : List ConstructorDecl := []
  properties : List PropertyDecl := []

/-! ## 2. Building declarations -/

namespace TypeDecl

/-- A class without members. -/
def classNamed (name : String) : TypeDecl := { name := name, kind := .classType }

/-- A structure without members. -/
def structNamed (name : String) : TypeDecl := { name := name, kind := .structType }

/-- An enumeration. -/
def enumNamed (name : String) : TypeDecl := { name := name, kind := .enumType }

/-- Adds an attribute. -/
def withAttribute (t : TypeDecl) (name : String) : TypeDecl :=
  { t with attributes := t.attributes ++ [name] }

/-- Adds a field. -/
def withField (t : TypeDecl) (typeText name : String) : TypeDecl :=
  { t with fields := t.fields ++ [⟨typeText, name⟩] }

/-- Makes the type static. -/
def asStatic (t : TypeDecl) : TypeDecl := { t with isStatic := true }

end TypeDecl

namespace MethodDecl

/-- A method of a type, with an empty body. -/
def instanceOf (owner : TypeId) (name : String) : MethodDecl :=
  { owner := some owner, name := name, body := some [] }

/-- A method of an outside library. -/
def native (owner : Option TypeId) (name : String) : MethodDecl :=
  { owner := owner, name := name, isNative := true, isStatic := true }

/-- Adds a parameter. -/
def withParam (m : MethodDecl) (typeText name : String) : MethodDecl :=
  { m with params := m.params ++ [⟨typeText, name⟩] }

/-- Sets the text of the result type. -/
def returning (m : MethodDecl) (typeText : String) : MethodDecl := { m with returnType := typeText }

/-- Sets the body. -/
def withBody (m : MethodDecl) (body : List Stmt) : MethodDecl := { m with body := some body }

/-- Makes the method static. -/
def asStatic (m : MethodDecl) : MethodDecl := { m with isStatic := true }

end MethodDecl

/-! ## 3. Building programs -/

/-- The position behind a list of declarations. -/
def nextIndex {α : Type} (decls : List α) : UInt32 := UInt32.ofNat decls.length

namespace Program

/-- Appends a type. -/
def addType (p : Program) (t : TypeDecl) : TypeId × Program :=
  (⟨nextIndex p.types⟩, { p with types := p.types ++ [t] })

/-- Appends a method. -/
def addMethod (p : Program) (m : MethodDecl) : MethodId × Program :=
  (⟨nextIndex p.methods⟩, { p with methods := p.methods ++ [m] })

/-- Appends a constructor. -/
def addConstructor (p : Program) (c : ConstructorDecl) : ConstructorId × Program :=
  (⟨nextIndex p.constructors⟩, { p with constructors := p.constructors ++ [c] })

/-- Appends a property. -/
def addProperty (p : Program) (d : PropertyDecl) : PropertyId × Program :=
  (⟨nextIndex p.properties⟩, { p with properties := p.properties ++ [d] })

end Program

/-! ## 4. Positions as text -/

/-- The label of a type. -/
def TypeId.label (id : TypeId) : String := "type#" ++ decimal id.index.toNat

/-- The label of a method. -/
def MethodId.label (id : MethodId) : String := "method#" ++ decimal id.index.toNat

/-- The label of a constructor. -/
def ConstructorId.label (id : ConstructorId) : String := "constructor#" ++ decimal id.index.toNat

/-- The label of a property. -/
def PropertyId.label (id : PropertyId) : String := "property#" ++ decimal id.index.toNat

end Lowering
