import Lowering.Proofs.Faults
import Lowering.Proofs.NameTables

/-!
# The course of a lowering

A lowering asks for names and may be refused in the middle. Which names it asks for, in which order,
and where it stops is fixed by the program: nothing of it depends on the names that were granted.
This file says what the course of every part of a program is.

* `Course` -- the requests in their order, and the refusal that ends them;
* `Expr.course`, `Stmt.course` -- the course of an expression and of a statement;
* `Context.course` -- the course of the whole unit, pass by pass.
-/

namespace Lowering

/-! ## 1. Courses -/

/-- What an action asks for, in order, and the refusal that ends it. -/
structure Course where
  asked : List NameKey := []
  fault : Option Refusal := none
deriving DecidableEq, Repr

namespace Course

/-- One course after another. The second is not entered if the first ends in a refusal. -/
def andThen (a b : Course) : Course :=
  match a.fault with
  | none => { asked := a.asked ++ b.asked, fault := b.fault }
  | some _ => a

instance : Append Course := ⟨andThen⟩

/-- The course of a check. -/
def checked (fault : Option Refusal) : Course := { fault }

/-- A course that ends at once. -/
def refused (r : Refusal) : Course := { fault := some r }

/-- The course of a request. -/
def request (p : Program) (key : NameKey) : Course :=
  match p.stem key with
  | .ok _ => { asked := [key] }
  | .error r => refused r

/-- Courses one after the other. -/
def all (courses : List Course) : Course := courses.foldr (· ++ ·) {}

end Course

/-! ## 2. Expressions -/

/-- The course of a type in use. -/
def resolveCourse (c : Context) : TypeRef → Course
  | .declared id => .request c.program (.type id.position)
  | type => .checked (useFault c.program type)

/-- The key of the function that creates a type held by reference. -/
def creationKey (type : TypeId) : Option ConstructorId → NameKey
  | none => .allocator type.position
  | some id => .constructor id.position

mutual

/-- The course of an expression. -/
def Expr.course (c : Context) (receiver : Option TypeId) : Expr → Course
  | .invocation target method args =>
    match c.program.methodAt method.position with
    | .error b => .refused (.broken b)
    | .ok m =>
      -- the receiver of a native call is dropped
      if m.isNative then argsCourse c receiver args
      else targetCourse c receiver m.name target ++ (.request c.program (.method method.position) ++
        argsCourse c receiver args)
  | .elementAccess target index => target.course c receiver ++ index.course c receiver
  | .collection converted elements =>
    match converted with
    | .array element => resolveCourse c element ++ elementsCourse c receiver elements
    | _ => .refused (.unsupported "CollectionExpression" "only fixed-size arrays are lowered")
  | .binary left _ right => left.course c receiver ++ right.course c receiver
  | .identifier name symbol => .checked (identifierFault c.program receiver name symbol)
  | .implicitCreation _ _ =>
    .refused (.unsupported "ImplicitObjectCreationExpression"
      "only lowered as the initializer of a local declaration")
  | .creation type constructor args =>
    match c.representationAt type.position with
    | .error b => .refused (.broken b)
    | .ok .value => .request c.program (.type type.position) ++ argsCourse c receiver args
    | .ok .reference =>
      .request c.program (creationKey type constructor) ++ argsCourse c receiver args
  | .memberAccess target _ symbol =>
    match symbol with
    | .property id => .checked (propertyFault c.program id)
    | .enumMember => {}
    | .field _ | .method _ | .localVariable | .typeName => target.course c receiver
  | .literal kind text => .checked (literalFault text kind)
  | .prefixUnary op operand =>
    if op = "!" ∨ op = "-" then operand.course c receiver
    else .refused (.unsupported "PrefixUnaryExpression" ("prefix operator " ++ quoted op))
  | .initializer elements => argsCourse c receiver elements
  -- the right side comes first
  | .assignment left _ right => right.course c receiver ++ left.course c receiver
  | .unsupported syntaxKind => .refused (.unsupported syntaxKind "expression kind is not lowered")

/-- The course of the receiver of a call. -/
def targetCourse (c : Context) (receiver : Option TypeId) (method : String) : Option Expr → Course
  | some target => target.course c receiver
  | none => .checked (currentObjectFault receiver method)

/-- The course of arguments. -/
def argsCourse (c : Context) (receiver : Option TypeId) : List Expr → Course
  | [] => {}
  | e :: rest => e.course c receiver ++ argsCourse c receiver rest

/-- The course of the elements of a collection literal. -/
def elementsCourse (c : Context) (receiver : Option TypeId) : List Element → Course
  | [] => {}
  | .single e :: rest => e.course c receiver ++ elementsCourse c receiver rest
  | .spread _ :: _ => .refused (.unsupported "SpreadElement" "spread elements are not lowered")

end

/-! ## 3. Statements -/

/-- The course of the type of a local variable. -/
def localTypeCourse (c : Context) : TypeRef → Course
  | .array element => resolveCourse c element
  | type => resolveCourse c type

/-- The course of assignments to members. -/
def initsCourse (c : Context) (receiver : Option TypeId) : List MemberInit → Course
  | [] => {}
  | .mk _ value :: rest => value.course c receiver ++ initsCourse c receiver rest

/-- The course of what a local variable starts with. -/
def initCourse (c : Context) (receiver : Option TypeId) (name : String) : Option Expr → Course
  | none => {}
  | some (.implicitCreation args inits) =>
    if args.isEmpty then initsCourse c receiver inits
    else .refused (.unsupported "ImplicitObjectCreationExpression"
      ("constructor arguments when initializing " ++ quoted name))
  | some value => value.course c receiver

mutual

/-- The course of a statement. -/
def Stmt.course (c : Context) (receiver : Option TypeId) : Stmt → Course
  | .expression value => value.course c receiver
  | .whileLoop condition body => condition.course c receiver ++ body.course c receiver
  | .block statements => allCourse c receiver statements
  | .localDecl name type init => localTypeCourse c type ++ initCourse c receiver name init
  | .unsupported syntaxKind => .refused (.unsupported syntaxKind "statement kind is not lowered")

/-- The course of statements. -/
def allCourse (c : Context) (receiver : Option TypeId) : List Stmt → Course
  | [] => {}
  | s :: rest => s.course c receiver ++ allCourse c receiver rest

end

/-! ## 4. Units -/

/-- The course of the definition of a type. -/
def typeCourse (c : Context) (i : Nat) (t : TypeDecl) : Course :=
  if c.lowers t then .request c.program (.type i) else {}

/-- The course of the allocator of a type. -/
def allocatorCourse (c : Context) (i : Nat) (t : TypeDecl) : Course :=
  if c.lowers t && !t.isStatic then
    if (c.program.constructorsOf i).isEmpty then
      .request c.program (.type i) ++ .request c.program (.allocator i)
    else .refused (.unsupported "ConstructorDeclaration"
      ("user constructors on " ++ quoted t.name ++ " are not lowered"))
  else {}

/-- The course of the body of a method that has to have one. -/
def bodyCourse (c : Context) (receiver : Option TypeId) (m : MethodDecl) : Course :=
  match m.body with
  | some body => allCourse c receiver body
  | none => .refused (.broken (.bodiless m.name))

/-- The course of a method that is no entry point. Its body has to be there before names are asked
for. -/
def methodCourse (c : Context) (i : Nat) (m : MethodDecl) : Course :=
  match m.owner, m.body with
  | none, _ => .refused (.broken (.ownerless m.name))
  | some _, none => .refused (.broken (.bodiless m.name))
  | some owner, some body =>
    .request c.program (.method i) ++ (.request c.program (.type owner.position) ++
      allCourse c (some owner) body)

/-- The course of the function of a method, if it has one. -/
def functionCourse (c : Context) (i : Nat) (m : MethodDecl) : Course :=
  if m.name = c.options.entryPoint then bodyCourse c none m
  else if m.isNative || m.isStatic then {}
  else methodCourse c i m

/-- The courses of declarations with their positions, one after the other. -/
def eachCourse {α : Type} (course : Nat → α → Course) (i : Nat) (decls : List α) : Course :=
  .all ((decls.zipIdx i).map fun (d, j) => course j d)

/-- The course of the whole unit: types, allocators, functions. -/
def Context.course (c : Context) : Course :=
  eachCourse (typeCourse c) 0 c.program.types ++
    (eachCourse (allocatorCourse c) 0 c.program.types ++
      eachCourse (functionCourse c) 0 c.program.methods)

/-! ## 5. What courses end in -/

namespace Course

variable {a b : Course}

theorem fault_append (a b : Course) : (a ++ b).fault = a.fault.or b.fault := by
  show (andThen a b).fault = _
  unfold andThen
  cases h : a.fault with
  | none => rfl
  | some r => exact h

theorem asked_append (h : a.fault = none) (b : Course) : (a ++ b).asked = a.asked ++ b.asked := by
  show (andThen a b).asked = _
  unfold andThen
  rw [h]

theorem append_of_fault {r : Refusal} (h : a.fault = some r) (b : Course) : a ++ b = a := by
  show andThen a b = _
  unfold andThen
  rw [h]

theorem append_nil (a : Course) : a ++ ({} : Course) = a := by
  show andThen a {} = a
  unfold andThen
  cases h : a.fault with
  | none =>
    cases a
    cases h
    simp
  | some r => rfl

theorem request_ok {p : Program} {key : NameKey} {s : String} (h : p.stem key = .ok s) :
    request p key = { asked := [key] } := by
  unfold request
  rw [h]

theorem request_error {p : Program} {key : NameKey} {r : Refusal} (h : p.stem key = .error r) :
    request p key = refused r := by
  unfold request
  rw [h]

/-- The first refusal of courses that follow one another. -/
theorem fault_all : ∀ courses : List Course, (all courses).fault = courses.findSome? (·.fault)
  | [] => rfl
  | a :: rest => by
      show (a ++ all rest).fault = _
      rw [fault_append, fault_all rest, List.findSome?_cons]
      cases a.fault <;> rfl

end Course

theorem eachCourse_fault_cons {α : Type} (course : Nat → α → Course) (i : Nat) (d : α)
    (rest : List α) :
    (eachCourse course i (d :: rest)).fault =
      (course i d).fault.or (eachCourse course (i + 1) rest).fault := Course.fault_append _ _

end Lowering
