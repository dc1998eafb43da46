import Lowering.Declarations

/-!
# Names in the unit

A declaration gets its name in the unit when the name is first asked for, and keeps it. The name of
a type is its own; all other names end in a running number, which no two of them share. A request
that fails leaves the table as it was.

* `NameKey` -- what can have a name;
* `NameTable` -- the names that were granted, and the next number;
* `Naming` -- actions on a name table that may refuse, and keep the table if they do;
* `typeName`, `methodName`, `constructorName`, `allocatorName` -- the requests.
-/

namespace Lowering

/-- What can have a name in the unit: declarations, and the allocator of a type. -/
inductive NameKey where
  | type (i : Nat)
  | method (i : Nat)
  | constructor (i : Nat)
  | allocator (i : Nat)
deriving DecidableEq, Repr

/-- The names that were granted, the latest first, and the next number. -/
structure NameTable where
  granted : List (NameKey × String) := []
  next : Nat := 0
deriving DecidableEq, Repr

namespace NameTable

/-- The name that was granted to a key. -/
def find? (t : NameTable) (key : NameKey) : Option String := t.granted.lookup key

/-- Grants a name. -/
def grant (t : NameTable) (key : NameKey) (name : String) : NameTable :=
  { t with granted := (key, name) :: t.granted }

end NameTable

/-- An action on a state that may refuse. The state that was reached is kept in both cases. -/
abbrev Act (σ α : Type) := EStateM Refusal σ α

/-- An action on a name table. -/
abbrev Naming (α : Type) := Act NameTable α

/-- Stops with a refusal. -/
def refuse {σ α : Type} (r : Refusal) : Act σ α := throw r

/-- Stops because a construct has no lowering. -/
def unsupported {σ α : Type} (kind detail : String) : Act σ α := refuse (.unsupported kind detail)

/-- Takes the result of a look-up. -/
def found {σ α : Type} : Except BrokenReference α → Act σ α
  | .ok a => pure a
  | .error b => refuse (.broken b)

/-- The granted name of a key, or the name that `make` makes for it now. -/
def remembered (key : NameKey) (make : Naming String) : Naming String := do
  match (← get).find? key with
  | some name => return name
  | none =>
    let name ← make
    modify (·.grant key name)
    return name

/-- A stem with the next number behind it. -/
def numbered (stem : String) : Naming String := do
  let t ← get
  set { t with next := t.next + 1 }
  return stem ++ decimal t.next

/-- The name of a type. An enumeration has none. -/
def typeName (p : Program) (i : Nat) : Naming String :=
  remembered (.type i) do
    let t ← found (p.typeAt i)
    match t.kind with
    | .classType | .structType => return t.name
    | .enumType =>
      unsupported "EnumDeclaration" (quoted t.name ++ " cannot be given a generated name")

/-- The name of a method: owner, method, number. -/
def methodName (p : Program) (i : Nat) : Naming String :=
  remembered (.method i) do
    let m ← found (p.methodAt i)
    match m.owner with
    | none => refuse (.broken (.ownerless m.name))
    | some owner =>
      let t ← found (p.typeAt owner.position)
      numbered (t.name ++ "_" ++ m.name ++ "_")

/-- The name of a user constructor: owner, number. -/
def constructorName (p : Program) (i : Nat) : Naming String :=
  remembered (.constructor i) do
    let c ← found (p.constructorAt i)
    let t ← found (p.typeAt c.owner.position)
    numbered (t.name ++ "_constructor_")

/-- The name of the allocator of a type: type, number. The type is named first. -/
def allocatorName (p : Program) (i : Nat) : Naming String :=
  remembered (.allocator i) do
    let t ← typeName p i
    numbered (t ++ "_defaultConstructor_")

end Lowering
