import Lowering.Json.Record
import Lowering.Tree.Writer

/-!
# Reading trees

A node is an object with a member `kind`, or an array whose first item is the tag. The outermost
node of a tree is first read completely, which only checks the grammar and its own tag; the nodes
inside are looked at afterwards. So the parts of a node are read from complete values, in which no
fault of the grammar is left.

* `Shape`, `Part` -- what may stand in a member of a node, and what was read there;
* `Variant` -- a tag, the members that belong to it, and the node that they make;
* `Shape.read` -- a part from a complete value, within a budget of nesting;
* `Shape.outermost` -- an outermost node from a raw value.
-/

namespace Lowering

open Json

/-! ## 1. Parts -/

/-- What may stand in a member of a node. -/
inductive Shape where
  | index
  | optionalIndex
  | text
  | literal
  | symbol
  | typeRef
  | expr
  | optionalExpr
  | exprs
  | element
  | elements
  | init
  | inits
  | stmt
  | stmts
deriving DecidableEq, Repr

/-- A part of a node. -/
inductive Part where
  | index (i : UInt32)
  | optionalIndex (i : Option UInt32)
  | text (s : String)
  | literal (kind : LiteralKind)
  | symbol (s : Symbol)
  | typeRef (t : TypeRef)
  | expr (e : Expr)
  | optionalExpr (e : Option Expr)
  | exprs (es : List Expr)
  | element (e : Element)
  | elements (es : List Element)
  | init (i : MemberInit)
  | inits (is : List MemberInit)
  | stmt (s : Stmt)
  | stmts (ss : List Stmt)

namespace Part

/-- The expression that a part is. -/
def expr? : Part → Option Expr
  | .expr e => some e
  | _ => none

/-- The element that a part is. -/
def element? : Part → Option Element
  | .element e => some e
  | _ => none

/-- The member's value that a part is. -/
def init? : Part → Option MemberInit
  | .init i => some i
  | _ => none

/-- The statement that a part is. -/
def stmt? : Part → Option Stmt
  | .stmt s => some s
  | _ => none

/-- The type that a part is. -/
def typeRef? : Part → Option TypeRef
  | .typeRef t => some t
  | _ => none

/-- The symbol that a part is. -/
def symbol? : Part → Option Symbol
  | .symbol s => some s
  | _ => none

end Part

/-- A member of a node: its name, what stands in it, and what absence means. -/
structure Slot where
  name : String
  shape : Shape
  absent : Option Part := none

/-- A variant of a node: its tag, its members in declared order, and the node that they make. -/
structure Variant where
  tag : String
  slots : List Slot
  build : List Part → Option Part

/-! ## 2. The variants -/

/-- The variants of a type in use. -/
def typeRefVariants : List Variant :=
  [{ tag := "declared", slots := [⟨"id", .index, none⟩],
     build := fun | [.index i] => some (.typeRef (.declared ⟨i⟩)) | _ => none },
   { tag := "external", slots := [⟨"name", .text, none⟩],
     build := fun | [.text s] => some (.typeRef (.external s)) | _ => none },
   { tag := "array", slots := [⟨"element", .typeRef, none⟩],
     build := fun | [.typeRef t] => some (.typeRef (.array t)) | _ => none }]

/-- The variants of a symbol. -/
def symbolVariants : List Variant :=
  [{ tag := "local", slots := [],
     build := fun | [] => some (.symbol .localVariable) | _ => none },
   { tag := "field", slots := [⟨"owner", .optionalIndex, some (.optionalIndex none)⟩],
     build := fun | [.optionalIndex i] => some (.symbol (.field (i.map (⟨·⟩)))) | _ => none },
   { tag := "property", slots := [⟨"property", .index, none⟩],
     build := fun | [.index i] => some (.symbol (.property ⟨i⟩)) | _ => none },
   { tag := "enum_member", slots := [],
     build := fun | [] => some (.symbol .enumMember) | _ => none },
   { tag := "method", slots := [⟨"method", .index, none⟩],
     build := fun | [.index i] => some (.symbol (.method ⟨i⟩)) | _ => none },
   { tag := "type", slots := [],
     build := fun | [] => some (.symbol .typeName) | _ => none }]

/-- The variants of an element of a collection literal. -/
def elementVariants : List Variant :=
  [{ tag := "expression", slots := [⟨"expr", .expr, none⟩],
     build := fun | [.expr e] => some (.element (.single e)) | _ => none },
   { tag := "spread", slots := [⟨"expr", .expr, none⟩],
     build := fun | [.expr e] => some (.element (.spread e)) | _ => none }]

/-- The variants of an expression. -/
def exprVariants : List Variant :=
  [{ tag := "invocation",
     slots := [⟨"receiver", .optionalExpr, some (.optionalExpr none)⟩, ⟨"method", .index, none⟩,
       ⟨"args", .exprs, some (.exprs [])⟩],
     build := fun
       | [.optionalExpr receiver, .index method, .exprs args] =>
         some (.expr (.invocation receiver ⟨method⟩ args))
       | _ => none },
   { tag := "element_access", slots := [⟨"target", .expr, none⟩, ⟨"index", .expr, none⟩],
     build := fun
       | [.expr target, .expr index] => some (.expr (.elementAccess target index))
       | _ => none },
   { tag := "collection",
     slots := [⟨"converted_type", .typeRef, none⟩, ⟨"elements", .elements, none⟩],
     build := fun
       | [.typeRef converted, .elements elements] => some (.expr (.collection converted elements))
       | _ => none },
   { tag := "binary",
     slots := [⟨"left", .expr, none⟩, ⟨"op", .text, none⟩, ⟨"right", .expr, none⟩],
     build := fun
       | [.expr left, .text op, .expr right] => some (.expr (.binary left op right))
       | _ => none },
   { tag := "identifier", slots := [⟨"name", .text, none⟩, ⟨"symbol", .symbol, none⟩],
     build := fun
       | [.text name, .symbol symbol] => some (.expr (.identifier name symbol))
       | _ => none },
   { tag := "implicit_object_creation",
     slots := [⟨"args", .exprs, some (.exprs [])⟩, ⟨"initializers", .inits, some (.inits [])⟩],
     build := fun
       | [.exprs args, .inits inits] => some (.expr (.implicitCreation args inits))
       | _ => none },
   { tag := "object_creation",
     slots := [⟨"ty", .index, none⟩, ⟨"constructor", .optionalIndex, some (.optionalIndex none)⟩,
       ⟨"args", .exprs, some (.exprs [])⟩],
     build := fun
       | [.index type, .optionalIndex constructor, .exprs args] =>
         some (.expr (.creation ⟨type⟩ (constructor.map (⟨·⟩)) args))
       | _ => none },
   { tag := "member_access",
     slots := [⟨"target", .expr, none⟩, ⟨"name", .text, none⟩, ⟨"symbol", .symbol, none⟩],
     build := fun
       | [.expr target, .text name, .symbol symbol] =>
         some (.expr (.memberAccess target name symbol))
       | _ => none },
   { tag := "literal", slots := [⟨"literal", .literal, none⟩, ⟨"text", .text, none⟩],
     build := fun
       | [.literal kind, .text text] => some (.expr (.literal kind text))
       | _ => none },
   { tag := "prefix_unary", slots := [⟨"op", .text, none⟩, ⟨"operand", .expr, none⟩],
     build := fun
       | [.text op, .expr operand] => some (.expr (.prefixUnary op operand))
       | _ => none },
   { tag := "initializer", slots := [⟨"elements", .exprs, none⟩],
     build := fun | [.exprs elements] => some (.expr (.initializer elements)) | _ => none },
   { tag := "assignment",
     slots := [⟨"left", .expr, none⟩, ⟨"op", .text, none⟩, ⟨"right", .expr, none⟩],
     build := fun
       | [.expr left, .text op, .expr right] => some (.expr (.assignment left op right))
       | _ => none },
   { tag := "unsupported", slots := [⟨"syntax_kind", .text, none⟩],
     build := fun | [.text kind] => some (.expr (.unsupported kind)) | _ => none }]

/-- The variants of a statement. -/
def stmtVariants : List Variant :=
  [{ tag := "expression", slots := [⟨"expr", .expr, none⟩],
     build := fun | [.expr e] => some (.stmt (.expression e)) | _ => none },
   { tag := "while", slots := [⟨"condition", .expr, none⟩, ⟨"body", .stmt, none⟩],
     build := fun
       | [.expr condition, .stmt body] => some (.stmt (.whileLoop condition body))
       | _ => none },
   { tag := "block", slots := [⟨"statements", .stmts, none⟩],
     build := fun | [.stmts statements] => some (.stmt (.block statements)) | _ => none },
   { tag := "local_decl",
     slots := [⟨"name", .text, none⟩, ⟨"ty", .typeRef, none⟩,
       ⟨"initializer", .optionalExpr, some (.optionalExpr none)⟩],
     build := fun
       | [.text name, .typeRef type, .optionalExpr init] => some (.stmt (.localDecl name type init))
       | _ => none },
   { tag := "unsupported", slots := [⟨"syntax_kind", .text, none⟩],
     build := fun | [.text kind] => some (.stmt (.unsupported kind)) | _ => none }]

/-- The members of a member's value in a creation, and the part that they make. -/
def initSlots : List Slot := [⟨"member", .text, none⟩, ⟨"value", .expr, none⟩]

/-- A member's value in a creation, from its parts. -/
def buildInit : List Part → Option Part
  | [.text member, .expr value] => some (.init (.mk member value))
  | _ => none

/-! ## 3. Tags -/

/-- The variant with a given tag. -/
def chooseVariant (variants : List Variant) (tag : String) : Except Failure Variant :=
  Reader.choose (variants.map fun v => (v.tag, v)) tag

/-- The tag of an inner node: its name, or its place among the variants. -/
def innerTag (variants : List Variant) : Value → Except Failure Variant
  | .str tag => chooseVariant variants tag
  | .num n =>
    match n.natural? >>= fun i => variants[i]? with
    | some v => .ok v
    | none => .error .shape
  | _ => .error .shape

/-- The tag of an outermost node: its name. -/
def outerTag (variants : List Variant) : Raw → Except Failure Variant
  | .str t => Fault.lift t.read >>= chooseVariant variants
  | v => .error v.reject

/-- Separates the tag from the other members of a node, in written order. `other` reads the values
that are no tag. -/
def splitTag {κ σ τ : Type} (key : κ → Except Failure String) (tag : σ → Except Failure τ)
    (other : σ → Except Failure Value) :
    List (κ × σ) → Option τ → Except Failure (Option τ × List (String × Value))
  | [], found => .ok (found, [])
  | (k, v) :: rest, found => do
    let name ← key k
    if name = "kind" then
      if found.isSome then .error (.mismatch (.duplicate "kind"))
      else
        let t ← tag v
        splitTag key tag other rest (some t)
    else
      let v ← other v
      let (t, members) ← splitTag key tag other rest found
      return (t, (name, v) :: members)

/-! ## 4. Parts from complete values -/

/-- The field of a member of a node. -/
def Slot.field (inner : Shape → Value → Except Failure Part) (s : Slot) : RecordField Value Part :=
  { name := s.name, read := inner s.shape, absent := s.absent }

/-- Makes a node from its parts. -/
def assemble (build : List Part → Option Part) (parts : List Part) : Except Failure Part :=
  match build parts with
  | some p => .ok p
  | none => .error .shape

/-- A record from the members of a complete object. -/
def fromMembers (inner : Shape → Value → Except Failure Part) (slots : List Slot)
    (build : List Part → Option Part) (members : List (String × Value)) : Except Failure Part := do
  let fields := slots.map (Slot.field inner)
  let found ← gather (.ok ·) (fun _ => .ok ()) fields members []
  let parts ← supply found fields
  assemble build parts

/-- A record from the items of a complete array. -/
def fromItems (inner : Shape → Value → Except Failure Part) (slots : List Slot)
    (build : List Part → Option Part) (items : List Value) : Except Failure Part := do
  let parts ← inOrder (.ok ()) (fun rest => if rest.isEmpty then .ok () else .error .shape)
    (slots.map (Slot.field inner)) items
  assemble build parts

/-- An inner node from a complete value. -/
def innerNode (inner : Shape → Value → Except Failure Part) (variants : List Variant) :
    Value → Except Failure Part
  | .obj members => do
    let (tag, members) ← splitTag (.ok ·) (innerTag variants) (.ok ·) members none
    match tag with
    | none => .error (.mismatch (.missing "kind"))
    | some v => fromMembers inner v.slots v.build members
  | .arr [] => .error (.mismatch (.missing "kind"))
  | .arr (tag :: items) => do
    let v ← innerTag variants tag
    fromItems inner v.slots v.build items
  | _ => .error .shape

/-- The items of a complete array, each of one shape. -/
def innerList {α : Type} (inner : Shape → Value → Except Failure Part) (shape : Shape)
    (get? : Part → Option α) : List Value → Except Failure (List α)
  | [] => .ok []
  | v :: rest => do
    let p ← inner shape v
    match get? p with
    | none => .error .shape
    | some a =>
      let as ← innerList inner shape get? rest
      return a :: as

/-- A position from a complete value. -/
def innerIndex : Value → Except Failure UInt32
  | .num n =>
    match n.natural? with
    | some k => if k < UInt32.size then .ok (UInt32.ofNat k) else .error .shape
    | none => .error .shape
  | _ => .error .shape

/-- A literal kind from a complete value: its name, or an object whose only member has the name and
holds nothing, which is written as null or as an object without members. -/
def innerLiteral : Value → Except Failure LiteralKind
  | .str name => Reader.choose LiteralKind.names name
  | .obj [(name, payload)] => do
    let kind ← Reader.choose LiteralKind.names name
    match payload with
    | .null | .obj [] => return kind
    | _ => .error .shape
  | _ => .error .shape

/-- A part of a given shape from a complete value. The parts inside are read by `inner`. -/
def Shape.readWith (inner : Shape → Value → Except Failure Part) :
    Shape → Value → Except Failure Part
  | .index, v => .index <$> innerIndex v
  | .optionalIndex, .null => .ok (.optionalIndex none)
  | .optionalIndex, v => (fun i => .optionalIndex (some i)) <$> innerIndex v
  | .text, .str s => .ok (.text s)
  | .text, _ => .error .shape
  | .literal, v => .literal <$> innerLiteral v
  | .symbol, v => innerNode inner symbolVariants v
  | .typeRef, v => innerNode inner typeRefVariants v
  | .expr, v => innerNode inner exprVariants v
  | .optionalExpr, .null => .ok (.optionalExpr none)
  | .optionalExpr, v => do
    let p ← innerNode inner exprVariants v
    match p.expr? with
    | some e => return .optionalExpr (some e)
    | none => .error .shape
  | .exprs, .arr vs => .exprs <$> innerList inner .expr Part.expr? vs
  | .exprs, _ => .error .shape
  | .element, v => innerNode inner elementVariants v
  | .elements, .arr vs => .elements <$> innerList inner .element Part.element? vs
  | .elements, _ => .error .shape
  | .init, .obj members => fromMembers inner initSlots buildInit members
  | .init, .arr items => fromItems inner initSlots buildInit items
  | .init, _ => .error .shape
  | .inits, .arr vs => .inits <$> innerList inner .init Part.init? vs
  | .inits, _ => .error .shape
  | .stmt, v => innerNode inner stmtVariants v
  | .stmts, .arr vs => .stmts <$> innerList inner .stmt Part.stmt? vs
  | .stmts, _ => .error .shape

/-- A part of a given shape from a complete value that nests less deep than `budget`. -/
def Shape.read : Nat → Shape → Value → Except Failure Part
  | 0 => fun _ _ => .error (.fault .malformed)
  | budget + 1 => Shape.readWith (Shape.read budget)

/-! ## 5. Outermost nodes -/

/-- The values of the items of a raw array, and its end. -/
def settledItems (room : Nat) (ending : Ending) (items : List Raw) : Except Failure (List Value) :=
  Fault.lift (Raw.settleItems room ending items)

/-- An outermost node from a raw value. -/
def outerNode (variants : List Variant) : Reader Part := fun room v =>
  match v with
  | .obj members ending =>
    match room with
    | 0 => .error (.fault .malformed)
    | room + 1 => do
      let (tag, members) ← splitTag (fun k => Fault.lift k.read) (outerTag variants)
        (fun v => Fault.lift (v.settle room)) members none
      Fault.check ending.fault?
      match tag with
      | none => .error (.mismatch (.missing "kind"))
      | some v => fromMembers (Shape.read (room + 1)) v.slots v.build members
  | .arr items ending =>
    match room, items with
    | 0, _ => .error (.fault .malformed)
    | _ + 1, [] => do
      Fault.check ending.fault?
      .error (.mismatch (.missing "kind"))
    | room + 1, tag :: items => do
      let v ← outerTag variants tag
      let items ← settledItems room ending items
      fromItems (Shape.read (room + 1)) v.slots v.build items
  | v => .error v.reject

/-- An outermost node that is known by a part. -/
def outermost {α : Type} (variants : List Variant) (get? : Part → Option α) : Reader α :=
  (outerNode variants).andThen fun p =>
    match get? p with
    | some a => .ok a
    | none => .error .shape

/-- Reads a statement. -/
def Stmt.reader : Reader Stmt := outermost stmtVariants Part.stmt?

/-- Reads an expression. -/
def Expr.reader : Reader Expr := outermost exprVariants Part.expr?

/-- Reads a type in use. -/
def TypeRef.reader : Reader TypeRef := outermost typeRefVariants Part.typeRef?

/-- Reads a symbol. -/
def Symbol.reader : Reader Symbol := outermost symbolVariants Part.symbol?

end Lowering
