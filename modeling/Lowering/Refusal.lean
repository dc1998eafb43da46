import Lowering.Decimal

/-!
# Why a program is not lowered

Either the program uses a construct that has no lowering, or its references contradict each other,
which a sound binder never lets happen.

* `BrokenReference` -- the contradictions, with their wording;
* `Refusal` -- the reasons to stop a lowering, with their wording.
-/

namespace Lowering

/-- The kinds of declarations that a position can point at. -/
inductive DeclKind where
  | type
  | method
  | constructor
  | property
deriving DecidableEq, Repr

/-- The word for a kind of declaration. -/
def DeclKind.word : DeclKind → String
  | .type => "type"
  | .method => "method"
  | .constructor => "constructor"
  | .property => "property"

/-- A reference that contradicts the program. -/
inductive BrokenReference where
  /-- A position behind the end of its list. -/
  | undeclared (kind : DeclKind) (index : Nat)
  /-- A field without a target, used where its owner is not the receiver. -/
  | fieldOutsideReceiver (field owner receiver : String)
  /-- A method that belongs to no type. -/
  | ownerless (method : String)
  /-- A call on the current object, where there is none. -/
  | receiverless (method : String)
  /-- A method that has to be lowered and has no body. -/
  | bodiless (method : String)
  /-- An outside type that is no primitive. -/
  | unmapped (name : String)
deriving DecidableEq, Repr

/-- A name between single quotes. -/
def quoted (name : String) : String := "'" ++ name ++ "'"

/-- The wording of a broken reference. -/
def BrokenReference.message : BrokenReference → String
  | .undeclared kind index =>
    kind.word ++ " #" ++ decimal index ++ " is not declared in the program"
  | .fieldOutsideReceiver field owner receiver =>
    "field " ++ quoted field ++ " of " ++ owner ++ " referenced unqualified while lowering " ++
      receiver
  | .ownerless method => "method " ++ quoted method ++ " has no owning type"
  | .receiverless method => "call to " ++ quoted method ++ " has no receiver outside of a type"
  | .bodiless method => "method " ++ quoted method ++ " has no body"
  | .unmapped name => "no primitive mapping for external type " ++ quoted name

/-- A reason to stop a lowering. -/
inductive Refusal where
  /-- A construct without a lowering: its syntax kind, and what is wrong with it. -/
  | unsupported (kind detail : String)
  | broken (reference : BrokenReference)
deriving DecidableEq, Repr

/-- The wording of a refusal. -/
def Refusal.message : Refusal → String
  | .unsupported kind detail => "unsupported construct " ++ kind ++ ": " ++ detail
  | .broken reference => "resolution invariant violated: " ++ reference.message

end Lowering
