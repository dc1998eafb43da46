import Lowering.Proofs.Follows
import Lowering.Proofs.Plan

/-!
# Expressions follow their course

The lowering of an expression asks for exactly the names of its course, in this order, is refused
where the course ends, and otherwise returns the text that the plan prints with the names it got.

* `resolve_follows` -- types in use;
* `Expr.lower_follows`, `lowerArgs_follows` -- expressions and arguments.
-/

namespace Lowering

variable (c : Context) (receiver : Option TypeId)

/-! ## 1. Parts without sub-expressions -/

/-- A type in use with its spelling. -/
def resolvedType (ν : Spelling) : TypeRef → ResolvedType
  | .declared id =>
    { name := ν (.type id.position)
      isPrimitive := false
      representation := if c.isValue id.position then .value else .reference }
  | type => { name := typeText ν type, isPrimitive := true, representation := .value }

theorem resolvedType_name (ν : Spelling) (type : TypeRef) :
    (resolvedType c ν type).name = typeText ν type := by
  cases type <;> rfl

theorem representationAt_of_isValue {i : Nat} {r : Representation}
    (h : c.representationAt i = .ok r) :
    (if c.isValue i then Representation.value else .reference) = r := by
  unfold Context.isValue
  rw [h]
  cases r <;> rfl

/-- A type that is not declared is refused when its name is asked for. -/
theorem stem_of_undeclared {i : Nat} {b : BrokenReference} (h : c.representationAt i = .error b) :
    c.program.stem (.type i) = .error (.broken b) := by
  unfold Context.representationAt at h
  cases ht : c.program.typeAt i with
  | error b' =>
    rw [ht] at h
    cases h
    simp [Program.stem, Program.typeStem, ht]
  | ok d =>
    rw [ht] at h
    cases h

theorem resolve_follows (type : TypeRef) :
    Asks c.program (resolve c type) (resolveCourse c type) fun ν => resolvedType c ν type := by
  cases type with
  | declared id =>
    have hname : Asks c.program (typeName c.program id.position)
        (.request c.program (.type id.position)) fun ν => ν (.type id.position) :=
      request_follows c.program (.type id.position)
    simp only [resolve, resolveCourse, resolvedType]
    cases hr : c.representationAt id.position with
    | ok r =>
      simp only [found_ok_bind, representationAt_of_isValue c hr]
      exact hname.andReturn fun name => ResolvedType.mk name false r
    | error b =>
      rw [Course.request_error (stem_of_undeclared c hr)] at hname ⊢
      exact hname.bindRefused rfl
  | external name =>
    simp only [resolve, resolveCourse, useFault, resolvedType, typeText]
    cases hp : primitive? name with
    | none => exact Follows.refuse _
    | some spelling => exact Follows.pure _
  | array element => exact Follows.refuse _

theorem lowerIdentifier_follows (name : String) (symbol : Symbol) :
    Asks c.program (lowerIdentifier c receiver name symbol)
      (.checked (identifierFault c.program receiver name symbol)) fun _ =>
        identifierText name symbol := by
  cases symbol with
  | field owner =>
    simp only [lowerIdentifier, identifierFault, identifierText]
    split
    · exact Follows.pure _
    · exact Follows.refuse _
  | localVariable => exact Follows.pure _
  | property id => exact Follows.pure _
  | enumMember => exact Follows.pure _
  | method id => exact Follows.pure _
  | typeName => exact Follows.pure _

theorem lowerLiteral_follows (kind : LiteralKind) (text : String) :
    Asks c.program (lowerLiteral text kind) (.checked (literalFault text kind))
      fun _ => literalText text kind := by
  cases kind with
  | character => exact Follows.refuse _
  | null => exact Follows.refuse _
  | string => exact Follows.pure _
  | affirmative => exact Follows.pure _
  | negative => exact Follows.pure _
  | numeric => exact Follows.pure _

theorem lowerProperty_follows (id : PropertyId) :
    Asks c.program (lowerProperty c id) (.checked (propertyFault c.program id))
      fun _ => propertyText c id := by
  unfold lowerProperty propertyFault propertyText
  cases c.program.propertyAt id.position with
  | error b => exact Follows.refuse _
  | ok d =>
    rw [found_ok_bind]
    by_cases h : d.isNative = true
    · simp only [h, ↓reduceIte]
      exact Follows.pure _
    · simp only [h, Bool.false_eq_true, ↓reduceIte]
      exact Follows.refuse _

theorem argsText_isEmpty (ν : Spelling) (args : List Expr) :
    (argsText c ν args).isEmpty = args.isEmpty := by
  cases args <;> simp [argsText]

/-! ## 2. Expressions -/

mutual

/-- **The lowering of an expression follows its course** and returns the text that the plan
prints. -/
theorem Expr.lower_follows : ∀ e : Expr,
    Asks c.program (e.lower c receiver) (e.course c receiver) fun ν => e.text c ν
  | .invocation target method args => by
      simp only [Expr.lower, Expr.course, Expr.text]
      cases c.program.methodAt method.position with
      | error b => exact Follows.refuse _
      | ok m =>
        rw [found_ok_bind]
        by_cases hm : m.isNative = true
        · simp only [hm, ↓reduceIte]
          by_cases hp : m.name = c.options.printPrimitive ∧ args.length = 1
          · simp only [hp, and_self, ↓reduceIte]
            exact (lowerArgs_follows args).andReturn fun values =>
              callText "printf" ("\"%s\\n\"" :: values)
          · simp only [hp, ↓reduceIte]
            exact (lowerArgs_follows args).andReturn fun values => callText m.name values
        · simp only [hm, Bool.false_eq_true, ↓reduceIte]
          exact (lowerTarget_follows m.name target).bind fun self =>
            (request_follows c.program (.method method.position)).bind fun name =>
              (lowerArgs_follows args).andReturn fun values => callText name (self :: values)
  | .elementAccess target index => by
      simp only [Expr.lower, Expr.course, Expr.text]
      exact (Expr.lower_follows target).bind fun target =>
        (Expr.lower_follows index).andReturn fun index => target ++ "[" ++ index ++ "]"
  | .collection converted elements => by
      cases converted with
      | array element =>
        simp only [Expr.lower, Expr.course, Expr.text]
        have h := (resolve_follows c element).bind fun type =>
          (lowerElements_follows elements).andReturn fun values =>
            "(" ++ type.name ++ "[" ++ decimal elements.length ++ "])" ++ braced (commaList values)
        simp only [resolvedType_name] at h
        exact h
      | declared id => simp only [Expr.lower, Expr.course]; exact Follows.refuse _
      | external name => simp only [Expr.lower, Expr.course]; exact Follows.refuse _
  | .binary left op right => by
      simp only [Expr.lower, Expr.course, Expr.text]
      exact (Expr.lower_follows left).bind fun left =>
        (Expr.lower_follows right).andReturn fun right =>
          "(" ++ left ++ " " ++ op ++ " " ++ right ++ ")"
  | .identifier name symbol => by
      simp only [Expr.lower, Expr.course, Expr.text]
      exact lowerIdentifier_follows c receiver name symbol
  | .implicitCreation args inits => by
      simp only [Expr.lower, Expr.course]
      exact Follows.refuse _
  | .creation type constructor args => by
      simp only [Expr.lower, Expr.course, Expr.text]
      cases c.representationAt type.position with
      | error b => exact Follows.refuse _
      | ok r =>
        rw [found_ok_bind]
        cases r with
        | value =>
          have h := (request_follows c.program (.type type.position)).bind fun name =>
            (lowerArgs_follows args).andReturn fun values =>
              "(" ++ name ++ ")" ++ braced (if values.isEmpty then "0" else commaList values)
          simp only [argsText_isEmpty] at h
          exact h
        | reference =>
          cases constructor with
          | none =>
            exact (request_follows c.program (.allocator type.position)).bind fun name =>
              (lowerArgs_follows args).andReturn fun values => callText name values
          | some id =>
            exact (request_follows c.program (.constructor id.position)).bind fun name =>
              (lowerArgs_follows args).andReturn fun values => callText name values
  | .memberAccess target name symbol => by
      cases symbol with
      | property id =>
        simp only [Expr.lower, Expr.course, Expr.text]
        exact lowerProperty_follows c id
      | enumMember => simp only [Expr.lower, Expr.course, Expr.text]; exact Follows.pure _
      | field owner =>
        simp only [Expr.lower, Expr.course, Expr.text]
        exact (Expr.lower_follows target).andReturn fun target => target ++ "." ++ name
      | method id => simp only [Expr.lower, Expr.course, Expr.text]; exact Expr.lower_follows target
      | localVariable =>
        simp only [Expr.lower, Expr.course, Expr.text]
        exact Expr.lower_follows target
      | typeName => simp only [Expr.lower, Expr.course, Expr.text]; exact Expr.lower_follows target
  | .literal kind text => by
      simp only [Expr.lower, Expr.course, Expr.text]
      exact lowerLiteral_follows c kind text
  | .prefixUnary op operand => by
      simp only [Expr.lower, Expr.course, Expr.text]
      by_cases hop : op = "!" ∨ op = "-"
      · simp only [hop, ↓reduceIte]
        exact (Expr.lower_follows operand).andReturn fun operand => op ++ operand
      · simp only [hop, ↓reduceIte]
        exact Follows.refuse _
  | .initializer elements => by
      simp only [Expr.lower, Expr.course, Expr.text]
      exact (lowerArgs_follows elements).andReturn fun values => braced (commaList values)
  | .assignment left op right => by
      simp only [Expr.lower, Expr.course, Expr.text]
      exact (Expr.lower_follows right).bind fun right =>
        (Expr.lower_follows left).andReturn fun left => left ++ " " ++ op ++ " " ++ right
  | .unsupported syntaxKind => by
      simp only [Expr.lower, Expr.course]
      exact Follows.refuse _

theorem lowerTarget_follows (method : String) : ∀ target : Option Expr,
    Asks c.program (lowerTarget c receiver method target) (targetCourse c receiver method target)
      fun ν => targetText c ν target
  | some target => by
      simp only [lowerTarget, targetCourse, targetText]
      exact Expr.lower_follows target
  | none => by
      simp only [lowerTarget, targetCourse, targetText, currentObject]
      cases receiver with
      | none => exact Follows.refuse _
      | some owner => exact Follows.pure _

theorem lowerArgs_follows : ∀ args : List Expr,
    Asks c.program (lowerArgs c receiver args) (argsCourse c receiver args) fun ν =>
      argsText c ν args
  | [] => by
      simp only [lowerArgs, argsCourse, argsText]
      exact Follows.pure _
  | e :: rest => by
      simp only [lowerArgs, argsCourse, argsText]
      exact (Expr.lower_follows e).bind fun text =>
        (lowerArgs_follows rest).andReturn fun texts => text :: texts

theorem lowerElements_follows : ∀ elements : List Element,
    Asks c.program (lowerElements c receiver elements) (elementsCourse c receiver elements)
      fun ν => elementsText c ν elements
  | [] => by
      simp only [lowerElements, elementsCourse, elementsText]
      exact Follows.pure _
  | .single e :: rest => by
      simp only [lowerElements, elementsCourse, elementsText]
      exact (Expr.lower_follows e).bind fun text =>
        (lowerElements_follows rest).andReturn fun texts => text :: texts
  | .spread e :: rest => by
      simp only [lowerElements, elementsCourse]
      exact Follows.refuse _

end

end Lowering
