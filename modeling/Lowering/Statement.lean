import Lowering.Expression
import Lowering.Page

/-!
# Statements

A statement becomes lines on the page. If a part of it is refused, the lines before that part stay
on the page, and the blocks around it stay open.

* `Draft`, `Drafting` -- names and page together, and actions on them;
* `Stmt.lower` -- the lines of a statement;
* `lowerBlock` -- the lines of statements in braces.
-/

namespace Lowering

/-- Runs an action on a part of the state. The part is put back whether the action refuses or
not. -/
def focus {σ τ α : Type} (view : σ → τ) (put : τ → σ → σ) (act : Act τ α) : Act σ α := fun s =>
  match act (view s) with
  | .ok a t => .ok a (put t s)
  | .error r t => .error r (put t s)

/-- A unit while it is written: the names that were granted, and the page. -/
structure Draft where
  names : NameTable := {}
  page : Page := {}
deriving DecidableEq, Repr

/-- An action on a draft. -/
abbrev Drafting (α : Type) := Act Draft α

/-- Asks for names. -/
def onNames {α : Type} (act : Naming α) : Drafting α :=
  focus Draft.names (fun names d => { d with names }) act

/-- Changes the page. -/
def onPage (change : Page → Page) : Drafting Unit :=
  modify fun d => { d with page := change d.page }

/-- Writes a line. -/
def writeLine (s : String) : Drafting Unit := onPage (·.line s)

/-- Runs an action one level deeper. The level is restored even if the action refuses. -/
def indented {α : Type} (act : Drafting α) : Drafting α := fun d =>
  match act { d with page := d.page.indent } with
  | .ok a d => .ok a { d with page := d.page.outdent }
  | .error r d => .error r { d with page := d.page.outdent }

/-- The spelling of the type of a local variable. An array is a pointer to its elements. -/
def localTypeName (c : Context) : TypeRef → Naming String
  | .array element => do
    let t ← resolve c element
    return t.name ++ "*"
  | type => do
    let t ← resolve c type
    return if t.isValue then t.name else t.name ++ "*"

/-- Assigns members of a local variable, one line each. -/
def lowerInits (c : Context) (receiver : Option TypeId) (name : String) :
    List MemberInit → Drafting Unit
  | [] => return ()
  | .mk member value :: rest => do
    let text ← onNames (value.lower c receiver)
    writeLine (name ++ "." ++ member ++ " = " ++ text ++ ";")
    lowerInits c receiver name rest

/-- A local variable. A creation without a type zeroes the variable and assigns its members. -/
def lowerLocal (c : Context) (receiver : Option TypeId) (name : String) (type : TypeRef)
    (init : Option Expr) : Drafting Unit := do
  let typeName ← onNames (localTypeName c type)
  match init with
  | none => writeLine (typeName ++ " " ++ name ++ ";")
  | some (.implicitCreation args inits) =>
    if args.isEmpty then
      writeLine (typeName ++ " " ++ name ++ " = " ++ braced "0" ++ ";")
      lowerInits c receiver name inits
    else
      unsupported "ImplicitObjectCreationExpression"
        ("constructor arguments when initializing " ++ quoted name)
  | some value =>
    let text ← onNames (value.lower c receiver)
    writeLine (typeName ++ " " ++ name ++ " = " ++ text ++ ";")

/-- Whether a statement is a block. -/
def Stmt.isBlock : Stmt → Bool
  | .block _ => true
  | _ => false

mutual

/-- The lines of a statement. -/
def Stmt.lower (c : Context) (receiver : Option TypeId) : Stmt → Drafting Unit
  | .expression value => do
    let text ← onNames (value.lower c receiver)
    writeLine (text ++ ";")
  | .whileLoop condition body => do
    let text ← onNames (condition.lower c receiver)
    writeLine ("while(" ++ text ++ ")")
    if body.isBlock then body.lower c receiver else indented (body.lower c receiver)
  | .block statements => do
    onPage (·.openBlock)
    lowerAll c receiver statements
    onPage (·.closeBlock)
  | .localDecl name type init => lowerLocal c receiver name type init
  | .unsupported syntaxKind => unsupported syntaxKind "statement kind is not lowered"

/-- The lines of statements, one after the other. -/
def lowerAll (c : Context) (receiver : Option TypeId) : List Stmt → Drafting Unit
  | [] => return ()
  | s :: rest => do
    s.lower c receiver
    lowerAll c receiver rest

end

/-- The lines of statements in braces. -/
def lowerBlock (c : Context) (receiver : Option TypeId) (statements : List Stmt) : Drafting Unit :=
  (Stmt.block statements).lower c receiver

end Lowering
