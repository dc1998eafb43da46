import Lowering.CompilationUnit

/-!
# Faults of a program

A check of a program that asks for no names. It goes through the program in the order of a lowering
and gives the first reason to refuse it. Parts that a lowering drops are not looked at: the receiver
of a native call, the target of a property, and the bodies of methods without a function.

* `Expr.fault`, `Stmt.fault` -- the first fault of an expression and of a statement;
* `Context.fault` -- the first fault of a program: user constructors, then methods.
-/

namespace Lowering

/-! ## 1. Parts without sub-expressions -/

/-- The fault of a type that has to have a name: it has to be declared, and no enumeration. -/
def nameFault (p : Program) (i : Nat) : Option Refusal :=
  match p.typeAt i with
  | .error b => some (.broken b)
  | .ok t =>
    match t.kind with
    | .classType | .structType => none
    | .enumType =>
      some (.unsupported "EnumDeclaration" (quoted t.name ++ " cannot be given a generated name"))

/-- The fault of a type in use. -/
def useFault (p : Program) : TypeRef → Option Refusal
  | .declared id => nameFault p id.position
  | .external name => if (primitive? name).isSome then none else some (.broken (.unmapped name))
  | .array _ =>
    some (.unsupported "ArrayType" "array types only lower as locals and collection literals")

/-- The fault of a name: a field without a target has to be one of the current object. -/
def identifierFault (p : Program) (receiver : Option TypeId) (name : String) :
    Symbol → Option Refusal
  | .field owner =>
    if owner.isSome && owner == receiver then none
    else some (.broken (.fieldOutsideReceiver name ((owner.map p.typeLabel).getD "an external type")
      ((receiver.map p.typeLabel).getD "the entry point")))
  | _ => none

/-- The fault of a literal. -/
def literalFault (text : String) : LiteralKind → Option Refusal
  | .character => some (.unsupported "CharacterLiteralExpression" ("literal " ++ text))
  | .null => some (.unsupported "NullLiteralExpression" "null has no lowering")
  | _ => none

/-- The fault of a property: only an outside property can be read. -/
def propertyFault (p : Program) (id : PropertyId) : Option Refusal :=
  match p.propertyAt id.position with
  | .error b => some (.broken b)
  | .ok d =>
    if d.isNative then none
    else some (.unsupported "PropertyAccess" ("property " ++ quoted d.name ++ " is not extern"))

/-- The fault of a call on the current object: there has to be one. -/
def currentObjectFault (receiver : Option TypeId) (method : String) : Option Refusal :=
  if receiver.isSome then none else some (.broken (.receiverless method))

/-- The fault of a method that has to have an owner. -/
def ownerFault (m : MethodDecl) : Option Refusal :=
  if m.owner.isSome then none else some (.broken (.ownerless m.name))

/-- The fault of the function that creates a type held by reference: the user constructor has to be
declared, and without one the type has to have a name. -/
def creatorFault (p : Program) (type : TypeId) : Option ConstructorId → Option Refusal
  | none => nameFault p type.position
  | some id =>
    match p.constructorAt id.position with
    | .error b => some (.broken b)
    | .ok _ => none

/-! ## 2. Expressions -/

mutual

/-- The first fault of an expression. -/
def Expr.fault (c : Context) (receiver : Option TypeId) : Expr → Option Refusal
  | .invocation target method args =>
    match c.program.methodAt method.position with
    | .error b => some (.broken b)
    | .ok m =>
      if m.isNative then argsFault c receiver args
      else (targetFault c receiver m.name target).or ((ownerFault m).or (argsFault c receiver args))
  | .elementAccess target index => (target.fault c receiver).or (index.fault c receiver)
  | .collection converted elements =>
    match converted with
    | .array element => (useFault c.program element).or (elementsFault c receiver elements)
    | _ => some (.unsupported "CollectionExpression" "only fixed-size arrays are lowered")
  | .binary left _ right => (left.fault c receiver).or (right.fault c receiver)
  | .identifier name symbol => identifierFault c.program receiver name symbol
  | .implicitCreation _ _ =>
    some (.unsupported "ImplicitObjectCreationExpression"
      "only lowered as the initializer of a local declaration")
  | .creation type constructor args =>
    match c.representationAt type.position with
    | .error b => some (.broken b)
    | .ok .value => (nameFault c.program type.position).or (argsFault c receiver args)
    | .ok .reference => (creatorFault c.program type constructor).or (argsFault c receiver args)
  | .memberAccess target _ symbol =>
    match symbol with
    | .property id => propertyFault c.program id
    | .enumMember => none
    | .field _ | .method _ | .localVariable | .typeName => target.fault c receiver
  | .literal kind text => literalFault text kind
  | .prefixUnary op operand =>
    if op = "!" ∨ op = "-" then operand.fault c receiver
    else some (.unsupported "PrefixUnaryExpression" ("prefix operator " ++ quoted op))
  | .initializer elements => argsFault c receiver elements
  -- the right side comes first
  | .assignment left _ right => (right.fault c receiver).or (left.fault c receiver)
  | .unsupported syntaxKind => some (.unsupported syntaxKind "expression kind is not lowered")

/-- The first fault of the receiver of a call. -/
def targetFault (c : Context) (receiver : Option TypeId) (method : String) :
    Option Expr → Option Refusal
  | some target => target.fault c receiver
  | none => currentObjectFault receiver method

/-- The first fault of arguments. -/
def argsFault (c : Context) (receiver : Option TypeId) : List Expr → Option Refusal
  | [] => none
  | e :: rest => (e.fault c receiver).or (argsFault c receiver rest)

/-- The first fault of the elements of a collection literal. -/
def elementsFault (c : Context) (receiver : Option TypeId) : List Element → Option Refusal
  | [] => none
  | .single e :: rest => (e.fault c receiver).or (elementsFault c receiver rest)
  | .spread _ :: _ => some (.unsupported "SpreadElement" "spread elements are not lowered")

end

/-! ## 3. Statements -/

/-- The first fault of the type of a local variable. -/
def localTypeFault (p : Program) : TypeRef → Option Refusal
  | .array element => useFault p element
  | type => useFault p type

/-- The first fault of assignments to members. -/
def initsFault (c : Context) (receiver : Option TypeId) : List MemberInit → Option Refusal
  | [] => none
  | .mk _ value :: rest => (value.fault c receiver).or (initsFault c receiver rest)

/-- The first fault of what a local variable starts with. -/
def initFault (c : Context) (receiver : Option TypeId) (name : String) :
    Option Expr → Option Refusal
  | none => none
  | some (.implicitCreation args inits) =>
    if args.isEmpty then initsFault c receiver inits
    else some (.unsupported "ImplicitObjectCreationExpression"
      ("constructor arguments when initializing " ++ quoted name))
  | some value => value.fault c receiver

mutual

/-- The first fault of a statement. -/
def Stmt.fault (c : Context) (receiver : Option TypeId) : Stmt → Option Refusal
  | .expression value => value.fault c receiver
  | .whileLoop condition body => (condition.fault c receiver).or (body.fault c receiver)
  | .block statements => allFault c receiver statements
  | .localDecl name type init => (localTypeFault c.program type).or (initFault c receiver name init)
  | .unsupported syntaxKind => some (.unsupported syntaxKind "statement kind is not lowered")

/-- The first fault of statements. -/
def allFault (c : Context) (receiver : Option TypeId) : List Stmt → Option Refusal
  | [] => none
  | s :: rest => (s.fault c receiver).or (allFault c receiver rest)

end

/-! ## 4. Programs -/

/-- Whether a type that gets an allocator has user constructors. -/
def Context.hasUserConstructors (c : Context) (i : Nat) (t : TypeDecl) : Bool :=
  c.lowers t && !t.isStatic && !(c.program.constructorsOf i).isEmpty

/-- The fault of a type: user constructors are not lowered. -/
def constructorFault (c : Context) (i : Nat) (t : TypeDecl) : Option Refusal :=
  if c.hasUserConstructors i t then
    some (.unsupported "ConstructorDeclaration"
      ("user constructors on " ++ quoted t.name ++ " are not lowered"))
  else none

/-- The first fault of a body that has to be there. -/
def bodyFault (c : Context) (receiver : Option TypeId) (m : MethodDecl) : Option Refusal :=
  match m.body with
  | some body => allFault c receiver body
  | none => some (.broken (.bodiless m.name))

/-- The first fault of a method. One with a function has to have an owner and a body, and the owner
has to have a name. -/
def methodFault (c : Context) (m : MethodDecl) : Option Refusal :=
  if m.name = c.options.entryPoint then bodyFault c none m
  else if m.isNative || m.isStatic then none
  else
    match m.owner, m.body with
    | none, _ => some (.broken (.ownerless m.name))
    | some _, none => some (.broken (.bodiless m.name))
    | some owner, some body =>
      (nameFault c.program owner.position).or (allFault c (some owner) body)

/-- **The first fault of a program**: user constructors of all types, then all methods. -/
def Context.fault (c : Context) : Option Refusal :=
  (c.program.types.zipIdx.findSome? fun (t, i) => constructorFault c i t).or
    (c.program.methods.findSome? (methodFault c))

end Lowering
