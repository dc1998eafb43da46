import Lowering.Proofs.NameTables

/-!
# Collecting and printing

A unit in two phases, without any state. The first phase collects the keys that need a number, in
the order in which a lowering asks for them. The second prints, given how the keys are spelled.
Neither phase checks anything: what is refused has no keys and no text here.

* `Expr.keys`, `Stmt.keys`, `Context.keys` -- the first phase;
* `Row`, `render` -- lines below a level of indentation, and their text;
* `Expr.text`, `Stmt.rows`, `Context.rows` -- the second phase;
* `Context.unitText` -- the text of the unit.
-/

namespace Lowering

/-! ## 1. Keys of expressions and statements -/

mutual

/-- The numbered keys of an expression. -/
def Expr.keys (c : Context) : Expr → List NameKey
  | .invocation target method args =>
    match c.program.methodAt method.position with
    | .error _ => []
    | .ok m =>
      if m.isNative then argsKeys c args
      else targetKeys c target ++ .method method.position :: argsKeys c args
  | .elementAccess target index => target.keys c ++ index.keys c
  | .collection _ elements => elementsKeys c elements
  | .binary left _ right => left.keys c ++ right.keys c
  | .identifier _ _ => []
  | .implicitCreation _ _ => []
  | .creation type constructor args =>
    match c.representationAt type.position, constructor with
    | .ok .reference, none => .allocator type.position :: argsKeys c args
    | .ok .reference, some id => .constructor id.position :: argsKeys c args
    | _, _ => argsKeys c args
  | .memberAccess target _ symbol =>
    match symbol with
    | .property _ | .enumMember => []
    | _ => target.keys c
  | .literal _ _ => []
  | .prefixUnary _ operand => operand.keys c
  | .initializer elements => argsKeys c elements
  | .assignment left _ right => right.keys c ++ left.keys c
  | .unsupported _ => []

/-- The numbered keys of an explicit receiver. -/
def targetKeys (c : Context) : Option Expr → List NameKey
  | some target => target.keys c
  | none => []

/-- The numbered keys of arguments. -/
def argsKeys (c : Context) : List Expr → List NameKey
  | [] => []
  | e :: rest => e.keys c ++ argsKeys c rest

/-- The numbered keys of the elements of a collection literal. -/
def elementsKeys (c : Context) : List Element → List NameKey
  | [] => []
  | .single e :: rest => e.keys c ++ elementsKeys c rest
  | .spread _ :: rest => elementsKeys c rest

end

/-- The numbered keys of assignments to members. -/
def initsKeys (c : Context) : List MemberInit → List NameKey
  | [] => []
  | .mk _ value :: rest => value.keys c ++ initsKeys c rest

/-- The numbered keys of what a local variable starts with. -/
def initKeys (c : Context) : Option Expr → List NameKey
  | none => []
  | some (.implicitCreation _ inits) => initsKeys c inits
  | some value => value.keys c

mutual

/-- The numbered keys of a statement. -/
def Stmt.keys (c : Context) : Stmt → List NameKey
  | .expression value => value.keys c
  | .whileLoop condition body => condition.keys c ++ body.keys c
  | .block statements => allKeys c statements
  | .localDecl _ _ init => initKeys c init
  | .unsupported _ => []

/-- The numbered keys of statements. -/
def allKeys (c : Context) : List Stmt → List NameKey
  | [] => []
  | s :: rest => s.keys c ++ allKeys c rest

end

/-! ## 2. Keys of units -/

/-- The numbered keys of the body of a method. -/
def bodyKeys (c : Context) (m : MethodDecl) : List NameKey := allKeys c (m.body.getD [])

/-- The key of the allocator of a type, if it has one. -/
def allocatorKeys (c : Context) (i : Nat) (t : TypeDecl) : List NameKey :=
  if c.lowers t && !t.isStatic then [.allocator i] else []

/-- The numbered keys of a method: those of its body for the entry point, its own and those of its
body for a method with a function, and none for others. -/
def functionKeys (c : Context) (i : Nat) (m : MethodDecl) : List NameKey :=
  if m.name = c.options.entryPoint then bodyKeys c m
  else if m.isNative || m.isStatic then []
  else .method i :: bodyKeys c m

/-- **The numbered keys of a unit**, in the order in which a lowering asks for them. -/
def Context.keys (c : Context) : List NameKey :=
  (c.program.types.zipIdx.flatMap fun (t, i) => allocatorKeys c i t) ++
    c.program.methods.zipIdx.flatMap fun (m, i) => functionKeys c i m

/-! ## 3. Rows -/

/-- A row of a page: a line below the level of its surroundings, or an empty one. -/
inductive Row where
  | line (depth : Nat) (text : String)
  | blank
deriving DecidableEq, Repr

/-- A row one level deeper. -/
def Row.deeper : Row → Row
  | .line depth text => .line (depth + 1) text
  | .blank => .blank

/-- The text of a row at a level. -/
def Row.render (level : Nat) : Row → String
  | .line depth text => margin (level + depth) ++ text ++ "\n"
  | .blank => "\n"

/-- The text of rows at a level. -/
def render (level : Nat) : List Row → String
  | [] => ""
  | row :: rest => row.render level ++ render level rest

/-! ## 4. Text of expressions -/

/-- The text of a literal. -/
def literalText (text : String) : LiteralKind → String
  | .string => "\"" ++ text ++ "\""
  | .affirmative => "1"
  | .negative => "0"
  | .numeric => text
  | .character | .null => ""

/-- The text of a name: a field without a target is one of the current object. -/
def identifierText (name : String) : Symbol → String
  | .field _ => "this->" ++ name
  | _ => name

/-- The text of a property. -/
def propertyText (c : Context) (id : PropertyId) : String :=
  match c.program.propertyAt id.position with
  | .ok d => d.name
  | .error _ => ""

/-- The text of a type in use. -/
def typeText (ν : Spelling) : TypeRef → String
  | .declared id => ν (.type id.position)
  | .external name => (primitive? name).getD ""
  | .array _ => ""

mutual

/-- The text of an expression, given the spelling of keys. -/
def Expr.text (c : Context) (ν : Spelling) : Expr → String
  | .invocation target method args =>
    match c.program.methodAt method.position with
    | .error _ => ""
    | .ok m =>
      if m.isNative then
        if m.name = c.options.printPrimitive ∧ args.length = 1 then
          callText "printf" ("\"%s\\n\"" :: argsText c ν args)
        else callText m.name (argsText c ν args)
      else callText (ν (.method method.position)) (targetText c ν target :: argsText c ν args)
  | .elementAccess target index => target.text c ν ++ "[" ++ index.text c ν ++ "]"
  | .collection converted elements =>
    match converted with
    | .array element =>
      "(" ++ typeText ν element ++ "[" ++ decimal elements.length ++ "])" ++
        braced (commaList (elementsText c ν elements))
    | _ => ""
  | .binary left op right => "(" ++ left.text c ν ++ " " ++ op ++ " " ++ right.text c ν ++ ")"
  | .identifier name symbol => identifierText name symbol
  | .implicitCreation _ _ => ""
  | .creation type constructor args =>
    match c.representationAt type.position, constructor with
    | .ok .reference, none => callText (ν (.allocator type.position)) (argsText c ν args)
    | .ok .reference, some id => callText (ν (.constructor id.position)) (argsText c ν args)
    | _, _ =>
      "(" ++ ν (.type type.position) ++ ")" ++
        braced (if args.isEmpty then "0" else commaList (argsText c ν args))
  | .memberAccess target name symbol =>
    match symbol with
    | .property id => propertyText c id
    | .enumMember => name
    | .field _ => target.text c ν ++ "." ++ name
    | .method _ | .localVariable | .typeName => target.text c ν
  | .literal kind text => literalText text kind
  | .prefixUnary op operand => op ++ operand.text c ν
  | .initializer elements => braced (commaList (argsText c ν elements))
  | .assignment left op right => left.text c ν ++ " " ++ op ++ " " ++ right.text c ν
  | .unsupported _ => ""

/-- The text of the receiver of a call. -/
def targetText (c : Context) (ν : Spelling) : Option Expr → String
  | some target => target.text c ν
  | none => "this"

/-- The texts of arguments. -/
def argsText (c : Context) (ν : Spelling) : List Expr → List String
  | [] => []
  | e :: rest => e.text c ν :: argsText c ν rest

/-- The texts of the elements of a collection literal. -/
def elementsText (c : Context) (ν : Spelling) : List Element → List String
  | [] => []
  | .single e :: rest => e.text c ν :: elementsText c ν rest
  | .spread _ :: _ => []

end

/-! ## 5. Rows of statements -/

/-- The text of the type of a local variable. -/
def localTypeText (c : Context) (ν : Spelling) : TypeRef → String
  | .array element => typeText ν element ++ "*"
  | .declared id =>
    if c.isValue id.position then ν (.type id.position) else ν (.type id.position) ++ "*"
  | .external name => (primitive? name).getD ""

/-- One row for each member that gets a value. -/
def initsRows (c : Context) (ν : Spelling) (name : String) : List MemberInit → List Row
  | [] => []
  | .mk member value :: rest =>
    .line 0 (name ++ "." ++ member ++ " = " ++ value.text c ν ++ ";") :: initsRows c ν name rest

/-- The rows of a local variable. -/
def localRows (c : Context) (ν : Spelling) (name : String) (type : TypeRef) : Option Expr → List Row
  | none => [.line 0 (localTypeText c ν type ++ " " ++ name ++ ";")]
  | some (.implicitCreation _ inits) =>
    .line 0 (localTypeText c ν type ++ " " ++ name ++ " = " ++ braced "0" ++ ";") ::
      initsRows c ν name inits
  | some value =>
    [.line 0 (localTypeText c ν type ++ " " ++ name ++ " = " ++ value.text c ν ++ ";")]

mutual

/-- The rows of a statement, given the spelling of keys. -/
def Stmt.rows (c : Context) (ν : Spelling) : Stmt → List Row
  | .expression value => [.line 0 (value.text c ν ++ ";")]
  | .whileLoop condition body =>
    .line 0 ("while(" ++ condition.text c ν ++ ")") ::
      if body.isBlock then body.rows c ν else (body.rows c ν).map Row.deeper
  | .block statements =>
    .line 0 "\x7b" :: ((allRows c ν statements).map Row.deeper ++ [.line 0 "\x7d"])
  | .localDecl name type init => localRows c ν name type init
  | .unsupported _ => []

/-- The rows of statements. -/
def allRows (c : Context) (ν : Spelling) : List Stmt → List Row
  | [] => []
  | s :: rest => s.rows c ν ++ allRows c ν rest

end

/-! ## 6. Rows of units -/

/-- The rows of a type definition: its fields in braces. -/
def structRows (name : String) (fields : List FieldDecl) : List Row :=
  .line 0 ("typedef struct " ++ name ++ " \x7b") ::
    ((fields.map fun f => .line 1 (f.typeText ++ " " ++ f.name ++ ";")) ++
      [.line 0 ("\x7d " ++ name ++ ";"), .blank])

/-- The rows of the definition of a type, if it has one. -/
def typeRows (c : Context) (ν : Spelling) (i : Nat) (t : TypeDecl) : List Row :=
  if c.lowers t then structRows (ν (.type i)) t.fields else []

/-- The rows of an allocator, which gives out zeroed memory for a type. -/
def allocatorBlock (type name : String) : List Row :=
  [.line 0 (type ++ "* " ++ name ++ "()"), .line 0 "\x7b",
    .line 1 ("return (" ++ type ++ "*)calloc(1, sizeof(" ++ type ++ "));"), .line 0 "\x7d", .blank]

/-- The rows of the allocator of a type, if it has one. -/
def allocatorRows (c : Context) (ν : Spelling) (i : Nat) (t : TypeDecl) : List Row :=
  if c.lowers t && !t.isStatic then allocatorBlock (ν (.type i)) (ν (.allocator i)) else []

/-- The rows of a function: its head, and the body in braces. -/
def functionBlock (c : Context) (ν : Spelling) (head : String) (m : MethodDecl) : List Row :=
  .line 0 head :: ((Stmt.block (m.body.getD [])).rows c ν ++ [.blank])

/-- The head of the function of a method. -/
def methodHead (ν : Spelling) (i : Nat) (m : MethodDecl) (owner : TypeId) : String :=
  m.returnType ++ " " ++ ν (.method i) ++ "(" ++
    parameterList (ν (.type owner.position)) m.params ++ ")"

/-- The rows of the function of a method, if it has one. -/
def functionRows (c : Context) (ν : Spelling) (i : Nat) (m : MethodDecl) : List Row :=
  if m.name = c.options.entryPoint then functionBlock c ν "int main()" m
  else if m.isNative || m.isStatic then []
  else
    match m.owner with
    | none => []
    | some owner => functionBlock c ν (methodHead ν i m owner) m

/-- The rows of the whole unit. -/
def Context.rows (c : Context) (ν : Spelling) : List Row :=
  (c.options.headers.map (.line 0)) ++ .blank ::
    ((c.program.types.zipIdx.flatMap fun (t, i) => typeRows c ν i t) ++
      ((c.program.types.zipIdx.flatMap fun (t, i) => allocatorRows c ν i t) ++
        c.program.methods.zipIdx.flatMap fun (m, i) => functionRows c ν i m))

/-- **The text of the unit**, given the spelling of keys. -/
def Context.unitText (c : Context) (ν : Spelling) : String := render 0 (c.rows ν)

end Lowering
