/-!
# Bound syntax trees

The tree of a method body after name resolution. Wherever the surface language has a name, the tree
says what the name was bound to: a method, a constructor, a property or a type is given by its
position in the program's list of declarations.

* `TypeId`, `MethodId`, `ConstructorId`, `PropertyId` -- positions of declarations;
* `TypeRef`, `Symbol`, `LiteralKind` -- types in use, and what a name stands for;
* `Expr`, `Stmt` -- expressions and statements, with `kindName` for diagnostics.
-/

namespace Lowering

/-! ## 1. Positions -/

/-- The position of a type among the declared types. -/
structure TypeId where
  index : UInt32
deriving DecidableEq, Repr

/-- The position of a method among the declared methods. -/
structure MethodId where
  index : UInt32
deriving DecidableEq, Repr

/-- The position of a constructor among the declared constructors. -/
structure ConstructorId where
  index : UInt32
deriving DecidableEq, Repr

/-- The position of a property among the declared properties. -/
structure PropertyId where
  index : UInt32
deriving DecidableEq, Repr

/-! ## 2. Types and symbols -/

/-- A type as it is used. -/
inductive TypeRef where
  /-- A type of the program. -/
  | declared (id : TypeId)
  /-- A type from outside the program, by name. -/
  | external (name : String)
  /-- An array. -/
  | array (element : TypeRef)
deriving DecidableEq, Repr

/-- What a name stands for. -/
inductive Symbol where
  | localVariable
  /-- A field, and the type of the program that has it. A field of an outside type has no owner. -/
  | field (owner : Option TypeId)
  | property (id : PropertyId)
  | enumMember
  | method (id : MethodId)
  | typeName
deriving DecidableEq, Repr

/-- The forms of a literal. -/
inductive LiteralKind where
  | string
  | affirmative
  | negative
  | numeric
  | character
  | null
deriving DecidableEq, Repr

/-! ## 3. Expressions -/

mutual

/-- An expression. -/
inductive Expr where
  /-- A call of a method, on a receiver or on the current object. -/
  | invocation (receiver : Option Expr) (method : MethodId) (args : List Expr)
  | elementAccess (target index : Expr)
  /-- A collection literal, with the type that it converts to. -/
  | collection (converted : TypeRef) (elements : List Element)
  | binary (left : Expr) (op : String) (right : Expr)
  | identifier (name : String) (symbol : Symbol)
  /-- A creation whose type follows from its context. -/
  | implicitCreation (args : List Expr) (inits : List MemberInit)
  /-- A creation of a declared type, with the user constructor that it is bound to. -/
  | creation (type : TypeId) (constructor : Option ConstructorId) (args : List Expr)
  | memberAccess (target : Expr) (name : String) (symbol : Symbol)
  | literal (kind : LiteralKind) (text : String)
  | prefixUnary (op : String) (operand : Expr)
  /-- Values in braces. -/
  | initializer (elements : List Expr)
  | assignment (left : Expr) (op : String) (right : Expr)
  /-- Any other form of the surface language. -/
  | unsupported (syntaxKind : String)

/-- An element of a collection literal. -/
inductive Element where
  | single (value : Expr)
  /-- All elements of another collection. -/
  | spread (value : Expr)

/-- The value of one member in a creation. -/
inductive MemberInit where
  | mk (member : String) (value : Expr)

end

namespace Expr

/-- The name of the syntax kind, for diagnostics. -/
def kindName : Expr → String
  | .invocation .. => "InvocationExpression"
  | .elementAccess .. => "ElementAccessExpression"
  | .collection .. => "CollectionExpression"
  | .binary .. => "BinaryExpression"
  | .identifier .. => "IdentifierName"
  | .implicitCreation .. => "ImplicitObjectCreationExpression"
  | .creation .. => "ObjectCreationExpression"
  | .memberAccess .. => "MemberAccessExpression"
  | .literal .. => "LiteralExpression"
  | .prefixUnary .. => "PrefixUnaryExpression"
  | .initializer .. => "InitializerExpression"
  | .assignment .. => "AssignmentExpression"
  | .unsupported syntaxKind => syntaxKind

/-- A local variable. -/
def variableNamed (name : String) : Expr := .identifier name .localVariable

/-- A field of a declared type, without a target. -/
def fieldNamed (name : String) (owner : TypeId) : Expr := .identifier name (.field (some owner))

/-- A numeric literal. -/
def number (text : String) : Expr := .literal .numeric text

/-- A string literal. -/
def string (text : String) : Expr := .literal .string text

/-- A truth literal. -/
def boolean (value : Bool) : Expr :=
  if value then .literal .affirmative "true" else .literal .negative "false"

/-- A call on the current object. -/
def call (method : MethodId) (args : List Expr) : Expr := .invocation none method args

/-- A call on a receiver. -/
def callOn (receiver : Expr) (method : MethodId) (args : List Expr) : Expr :=
  .invocation (some receiver) method args

end Expr

/-! ## 4. Statements -/

/-- A statement. -/
inductive Stmt where
  | expression (value : Expr)
  | whileLoop (condition : Expr) (body : Stmt)
  | block (statements : List Stmt)
  | localDecl (name : String) (type : TypeRef) (init : Option Expr)
  /-- Any other form of the surface language. -/
  | unsupported (syntaxKind : String)

namespace Stmt

/-- The name of the syntax kind, for diagnostics. -/
def kindName : Stmt → String
  | .expression .. => "ExpressionStatement"
  | .whileLoop .. => "WhileStatement"
  | .block .. => "Block"
  | .localDecl .. => "LocalDeclarationStatement"
  | .unsupported syntaxKind => syntaxKind

/-- A local variable with an initial value. -/
def letIn (name : String) (type : TypeRef) (init : Expr) : Stmt := .localDecl name type (some init)

end Stmt

end Lowering
