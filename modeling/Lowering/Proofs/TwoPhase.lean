import Lowering.Proofs.Numbering
import Lowering.Proofs.UnitCourse

/-!
# Lowering is collecting and printing

Names are granted in the middle of a lowering, and the text is written while they are granted. A
fresh generator still writes what two phases without any state write: collect the numbered keys of
the unit, number them in the order of their first occurrences, and print.

* `Course.Collects` -- the numbered keys that a course without a fault asks for;
* `Expr.course_collects`, `Stmt.course_collects`, `Context.course_collects` -- they are those of the
  plan;
* `generate_eq_collect_then_print` -- a fresh run is the plan printed with the plan's numbers.
-/

namespace Lowering

/-! ## 1. The numbered keys of a course -/

/-- A course that ends without a fault asks for these numbered keys. -/
def Course.Collects (course : Course) (keys : List NameKey) : Prop :=
  course.fault = none → course.asked.filter NameKey.isNumbered = keys

namespace Course.Collects

variable {a b : Course} {ks ks' : List NameKey} {p : Program}

theorem nil : Collects {} [] := fun _ => rfl

theorem checked (fault : Option Refusal) : (Course.checked fault).Collects [] := fun _ => rfl

theorem refused (r : Refusal) (ks : List NameKey) : (Course.refused r).Collects ks :=
  fun h => nomatch h

/-- A check before a course leaves its keys. -/
theorem guarded {b : Prop} [Decidable b] (h : a.Collects ks) (r : Refusal) :
    (if b then a else Course.refused r).Collects ks := by
  split
  · exact h
  · exact refused r ks

theorem append (ha : a.Collects ks) (hb : b.Collects ks') : (a ++ b).Collects (ks ++ ks') := by
  intro h
  rw [fault_append, Option.or_eq_none_iff] at h
  rw [asked_append h.1, List.filter_append, ha h.1, hb h.2]

theorem request (p : Program) (key : NameKey) :
    (Course.request p key).Collects ([key].filter NameKey.isNumbered) := by
  intro h
  cases hs : p.stem key with
  | ok s => rw [request_ok hs]
  | error r =>
    rw [request_error hs] at h
    cases h

end Course.Collects

variable (c : Context) (receiver : Option TypeId)

theorem resolveCourse_collects (type : TypeRef) : (resolveCourse c type).Collects [] := by
  cases type with
  | declared id => exact .request c.program (.type id.position)
  | external name => exact .checked _
  | array element => exact .checked _

mutual

/-- **The numbered keys of the course of an expression** are those of the plan. -/
theorem Expr.course_collects : ∀ e : Expr, (e.course c receiver).Collects (e.keys c)
  | .invocation target method args => by
      simp only [Expr.course, Expr.keys]
      cases c.program.methodAt method.position with
      | error b => exact .refused _ _
      | ok m =>
        by_cases hm : m.isNative = true
        · simp only [hm, ↓reduceIte]
          exact argsCourse_collects args
        · simp only [hm, Bool.false_eq_true, ↓reduceIte]
          exact (targetCourse_collects m.name target).append
            ((Course.Collects.request c.program (.method method.position)).append
              (argsCourse_collects args))
  | .elementAccess target index => (Expr.course_collects target).append (Expr.course_collects index)
  | .collection converted elements => by
      cases converted with
      | array element =>
        exact (resolveCourse_collects c element).append (elementsCourse_collects elements)
      | declared id => exact .refused _ _
      | external name => exact .refused _ _
  | .binary left _ right => (Expr.course_collects left).append (Expr.course_collects right)
  | .identifier _ _ => .checked _
  | .implicitCreation _ _ => .refused _ _
  | .creation type constructor args => by
      simp only [Expr.course, Expr.keys]
      cases c.representationAt type.position with
      | error b => exact .refused _ _
      | ok r =>
        cases r with
        | value =>
          exact (Course.Collects.request c.program (.type type.position)).append
            (argsCourse_collects args)
        | reference =>
          cases constructor with
          | none =>
            exact (Course.Collects.request c.program (.allocator type.position)).append
              (argsCourse_collects args)
          | some id =>
            exact (Course.Collects.request c.program (.constructor id.position)).append
              (argsCourse_collects args)
  | .memberAccess target name symbol => by
      cases symbol with
      | property id => exact .checked _
      | enumMember => exact .nil
      | _ => exact Expr.course_collects target
  | .literal _ _ => .checked _
  | .prefixUnary _ operand => (Expr.course_collects operand).guarded _
  | .initializer elements => argsCourse_collects elements
  | .assignment left _ right => (Expr.course_collects right).append (Expr.course_collects left)
  | .unsupported _ => .refused _ _

theorem targetCourse_collects (method : String) : ∀ target : Option Expr,
    (targetCourse c receiver method target).Collects (targetKeys c target)
  | some target => Expr.course_collects target
  | none => .checked _

theorem argsCourse_collects :
    ∀ args : List Expr, (argsCourse c receiver args).Collects (argsKeys c args)
  | [] => .nil
  | e :: rest => (Expr.course_collects e).append (argsCourse_collects rest)

theorem elementsCourse_collects : ∀ elements : List Element,
    (elementsCourse c receiver elements).Collects (elementsKeys c elements)
  | [] => .nil
  | .single e :: rest => (Expr.course_collects e).append (elementsCourse_collects rest)
  | .spread _ :: _ => .refused _ _

end

theorem initsCourse_collects : ∀ inits : List MemberInit,
    (initsCourse c receiver inits).Collects (initsKeys c inits)
  | [] => .nil
  | .mk _ value :: rest =>
    (Expr.course_collects c receiver value).append (initsCourse_collects rest)

theorem initCourse_collects (name : String) (init : Option Expr) :
    (initCourse c receiver name init).Collects (initKeys c init) := by
  cases init with
  | none => exact .nil
  | some value =>
    cases value with
    | implicitCreation args inits => exact (initsCourse_collects c receiver inits).guarded _
    | _ => exact Expr.course_collects c receiver _

theorem localTypeCourse_collects (type : TypeRef) : (localTypeCourse c type).Collects [] := by
  cases type with
  | array element => exact resolveCourse_collects c element
  | declared id => exact resolveCourse_collects c (.declared id)
  | external name => exact resolveCourse_collects c (.external name)

mutual

/-- **The numbered keys of the course of a statement** are those of the plan. -/
theorem Stmt.course_collects : ∀ s : Stmt, (s.course c receiver).Collects (s.keys c)
  | .expression value => Expr.course_collects c receiver value
  | .whileLoop condition body =>
      (Expr.course_collects c receiver condition).append (Stmt.course_collects body)
  | .block statements => allCourse_collects statements
  | .localDecl name type init =>
      (localTypeCourse_collects c type).append (initCourse_collects c receiver name init)
  | .unsupported _ => .refused _ _

theorem allCourse_collects : ∀ statements : List Stmt,
    (allCourse c receiver statements).Collects (allKeys c statements)
  | [] => .nil
  | s :: rest => (Stmt.course_collects s).append (allCourse_collects rest)

end

theorem typeCourse_collects (i : Nat) (t : TypeDecl) : (typeCourse c i t).Collects [] := by
  unfold typeCourse
  split
  · exact .request c.program (.type i)
  · exact .nil

theorem allocatorCourse_collects (i : Nat) (t : TypeDecl) :
    (allocatorCourse c i t).Collects (allocatorKeys c i t) := by
  unfold allocatorCourse allocatorKeys
  split
  · exact ((Course.Collects.request c.program (.type i)).append
      (.request c.program (.allocator i))).guarded _
  · exact .nil

theorem bodyCourse_collects (m : MethodDecl) :
    (bodyCourse c receiver m).Collects (bodyKeys c m) := by
  unfold bodyCourse bodyKeys
  cases m.body with
  | none => exact .refused _ _
  | some body => exact allCourse_collects c receiver body

theorem methodCourse_collects (i : Nat) (m : MethodDecl) :
    (methodCourse c i m).Collects (.method i :: bodyKeys c m) := by
  unfold methodCourse bodyKeys
  cases m.owner with
  | none => exact .refused _ _
  | some owner =>
    cases m.body with
    | none => exact .refused _ _
    | some body =>
      exact (Course.Collects.request c.program (.method i)).append
        ((Course.Collects.request c.program (.type owner.position)).append
          (allCourse_collects c (some owner) body))

theorem functionCourse_collects (i : Nat) (m : MethodDecl) :
    (functionCourse c i m).Collects (functionKeys c i m) := by
  unfold functionCourse functionKeys
  split
  · exact bodyCourse_collects c none m
  · split
    · exact .nil
    · exact methodCourse_collects c i m

theorem eachCourse_collects {α : Type} {course : Nat → α → Course} {keys : Nat → α → List NameKey}
    (h : ∀ i d, (course i d).Collects (keys i d)) (i : Nat) (decls : List α) :
    (eachCourse course i decls).Collects ((decls.zipIdx i).flatMap fun (d, j) => keys j d) := by
  induction decls generalizing i with
  | nil => exact .nil
  | cons d rest ih => exact (h i d).append (ih (i + 1))

/-- **The numbered keys of the course of a unit** are those of the plan. -/
theorem Context.course_collects : c.course.Collects c.keys := by
  have htypes := eachCourse_collects (typeCourse_collects c) 0 c.program.types
  have hunit := htypes.append
    ((eachCourse_collects (allocatorCourse_collects c) 0 c.program.types).append
      (eachCourse_collects (functionCourse_collects c) 0 c.program.methods))
  have hnone : (c.program.types.zipIdx.flatMap fun _ => ([] : List NameKey)) = [] := by simp
  rw [hnone] at hunit
  exact hunit

/-! ## 2. Fresh runs -/

/-- After a fresh run without a fault the table has the plan's numbers. -/
theorem namesAfter_numbers (hf : c.course.fault = none) :
    Numbers c.program c.keys (Generator.namesAfter { context := c }) := by
  have hn := Numbers.askAll c.course.asked (Numbers.empty c.program) (defineUnit_follows c).stemmed
  rw [List.nil_append, c.course_collects hf] at hn
  exact hn

/-- The names after a fresh run print as the plan's numbers do. -/
theorem unitText_namesAfter (hf : c.course.fault = none) :
    c.unitText (Generator.namesAfter { context := c }).spelling =
      c.unitText (spellingOf c.program c.keys) := by
  refine c.unitText_congr hf fun k hk => ?_
  obtain ⟨s, hs⟩ := (defineUnit_follows c).stemmed k hk
  obtain ⟨name, hname⟩ := NameTable.find?_askAll_of_mem {} hk hs
  have hsound := NameTable.Sound.askAll c.program c.course.asked (NameTable.Sound.empty c.program)
  exact (namesAfter_numbers c hf).spelling_eq hsound hname

/-- A fresh run that writes a text has no fault, and writes the plan with the plan's numbers. -/
theorem generate_fresh {code : String} (h : (Generator.generate { context := c }).1 = .ok code) :
    c.course.fault = none ∧ code = c.unitText (spellingOf c.program c.keys) := by
  have hsound : NameTable.Sound c.program {} := NameTable.Sound.empty c.program
  cases hf : c.course.fault with
  | none =>
    rw [Generator.generate_of_ok (g := { context := c }) hsound hf] at h
    exact ⟨rfl, (Except.ok.inj h).symm.trans (unitText_namesAfter c hf)⟩
  | some r =>
    rw [Generator.generate_of_fault (g := { context := c }) hsound hf] at h
    cases h

/-- **Lowering is collecting and printing.** What a fresh generator writes is the plan printed with
the numbers of first occurrences among the keys of the plan. The table has exactly these names for
numbered keys then, and counts as many as there are distinct keys. -/
theorem generate_eq_collect_then_print {p : Program} {o : Options} {g : Generator} {code : String}
    (hg : Generator.ofProgram p o = .ok g) (hrun : g.generate.1 = .ok code) :
    let c : Context := { program := p, options := o }
    code = c.unitText (spellingOf p c.keys) ∧
      (∀ key, key.isNumbered = true →
        g.generate.2.names.find? key =
          if key ∈ c.keys then some (spellingOf p c.keys key) else none) ∧
      g.generate.2.names.next = c.keys.eraseDups.length := by
  intro c
  obtain ⟨-, rfl⟩ := Generator.eq_of_ofProgram hg
  obtain ⟨hf, hcode⟩ := generate_fresh c hrun
  have hnumbers := namesAfter_numbers c hf
  rw [Generator.generate_names (g := { context := c }) (NameTable.Sound.empty p)]
  exact ⟨hcode, hnumbers.found, hnumbers.next⟩

/-- A program whose second method is called before the first: the right side of an assignment comes
first. -/
def ship : Program where
  types := [.classNamed "Ship"]
  methods := [
    { name := "Main", isStatic := true, body := some [
        .letIn "s" (.declared ⟨0⟩) (.creation ⟨0⟩ none []),
        .expression (.assignment (.callOn (.variableNamed "s") ⟨1⟩ []) "="
          (.callOn (.variableNamed "s") ⟨2⟩ []))] },
    .instanceOf ⟨0⟩ "steer",
    (MethodDecl.instanceOf ⟨0⟩ "thrust").withBody [.expression (.call ⟨1⟩ [])]]

/-- The ship is lowered, and `steer` has the number behind `thrust`. -/
theorem ship_collected_then_printed :
    let c : Context := { program := ship, options := { headers := [] } }
    let g : Generator := { context := c }
    Generator.ofProgram ship { headers := [] } = .ok g ∧
      g.generate.1 = .ok
        ("\ntypedef struct Ship \x7b\n\x7d Ship;\n\nShip* Ship_defaultConstructor_0()\n\x7b\n" ++
          "    return (Ship*)calloc(1, sizeof(Ship));\n\x7d\n\nint main()\n\x7b\n" ++
          "    Ship* s = Ship_defaultConstructor_0();\n" ++
          "    Ship_steer_2(s) = Ship_thrust_1(s);\n\x7d\n\n" ++
          "void Ship_steer_2(Ship *this)\n\x7b\n\x7d\n\nvoid Ship_thrust_1(Ship *this)\n\x7b\n" ++
          "    Ship_steer_2(this);\n\x7d\n\n") ∧
      g.generate.2.names.find? (.method 1) = some "Ship_steer_2" ∧
      g.generate.2.names.next = 3 := by
  intro c g
  have hg : Generator.ofProgram ship { headers := [] } = .ok g := rfl
  have hok := Generator.generate_of_ok (g := g) (NameTable.Sound.empty ship) (by decide +kernel)
  obtain ⟨hcode, hfound, hnext⟩ := generate_eq_collect_then_print hg hok
  rw [hcode] at hok
  refine ⟨hg, hok.trans (congrArg Except.ok ?_), (hfound (.method 1) rfl).trans ?_, hnext.trans ?_⟩
  · decide +kernel
  · decide +kernel
  · decide +kernel

end Lowering
