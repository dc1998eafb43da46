import Lowering.Proofs.Callees

/-!
# Where the parts of a unit stand

A body is lowered part by part: a statement lowers its statements and expressions, and an expression
lowers its operands. Some operands are dropped: the receiver of a native call, and the target of a
property or of an enumeration member. This file has the parts that are lowered, and what holds for
each of them in a unit that is written: the course of the part is taken in the course of the unit,
and the text of the part stands in a row of the unit.

* `Course.Part` -- a course that is taken inside of another one;
* `Expr.parts`, `Expr.LoweredIn` -- the operands that are lowered, and all expressions below;
* `Stmt.parts`, `Stmt.exprs`, `Stmt.LoweredIn` -- the same for statements;
* `Context.EmitsStmt`, `Context.EmitsExpr` -- what is lowered in the bodies of a unit;
* `Asks.settledIn`, `Asks.settled` -- what such a part gives on the names of the finished course or
  unit.
-/

namespace Lowering

/-! ## 1. Parts of courses -/

/-- **A course is taken inside of another one**: if the other ends without a refusal, so does this
one, and all that it asks for is asked for there. -/
def Course.Part (part whole : Course) : Prop :=
  whole.fault = none → part.fault = none ∧ ∀ k ∈ part.asked, k ∈ whole.asked

namespace Course.Part

variable {a b d : Course}

theorem refl (a : Course) : Part a a := fun h => ⟨h, fun _ hk => hk⟩

theorem trans (h : Part a b) (h' : Part b d) : Part a d := by
  intro hf
  obtain ⟨hb, hasked'⟩ := h' hf
  obtain ⟨ha, hasked⟩ := h hb
  exact ⟨ha, fun k hk => hasked' k (hasked k hk)⟩

theorem left (h : Part a b) (d : Course) : Part a (b ++ d) := by
  intro hf
  rw [Course.fault_append, Option.or_eq_none_iff] at hf
  obtain ⟨ha, hasked⟩ := h hf.1
  refine ⟨ha, fun k hk => ?_⟩
  rw [Course.asked_append hf.1]
  exact List.mem_append_left _ (hasked k hk)

theorem right (b : Course) (h : Part a d) : Part a (b ++ d) := by
  intro hf
  rw [Course.fault_append, Option.or_eq_none_iff] at hf
  obtain ⟨ha, hasked⟩ := h hf.2
  refine ⟨ha, fun k hk => ?_⟩
  rw [Course.asked_append hf.1]
  exact List.mem_append_right _ (hasked k hk)

/-- Nothing has to be taken inside of a course that is refused. -/
theorem ofRefused (a : Course) (r : Refusal) : Part a (.refused r) := fun hf => nomatch hf

theorem inAll : ∀ {courses : List Course}, a ∈ courses → Part a (.all courses)
  | [], h => nomatch h
  | first :: rest, h => by
      show Part a (first ++ .all rest)
      rcases List.mem_cons.mp h with rfl | h
      · exact (refl a).left _
      · exact (inAll h).right _

/-- The course of a declaration is taken in the pass over all of them. -/
theorem inEach {α : Type} {course : Nat → α → Course} {decls : List α} {i : Nat} {d : α}
    (h : decls[i]? = some d) : Part (course i d) (eachCourse course 0 decls) := by
  have hmem : (d, i) ∈ decls.zipIdx := List.mem_zipIdx_iff_getElem?.mpr h
  exact inAll (List.mem_map.mpr ⟨(d, i), hmem, rfl⟩)

end Course.Part

/-! ## 2. Expressions -/

/-- The expression of an element that is lowered. -/
def Element.single? : Element → Option Expr
  | .single e => some e
  | .spread _ => none

/-- **The operands that are lowered with an expression.** -/
def Expr.parts (c : Context) : Expr → List Expr
  | .invocation target method args =>
    match c.program.methodAt method.position with
    | .error _ => []
    | .ok m => if m.isNative then args else target.toList ++ args
  | .elementAccess target index => [target, index]
  | .collection _ elements => elements.filterMap Element.single?
  | .binary left _ right => [left, right]
  | .identifier _ _ => []
  | .implicitCreation _ _ => []
  | .creation _ _ args => args
  | .memberAccess target _ symbol =>
    match symbol with
    | .property _ | .enumMember => []
    | .field _ | .method _ | .localVariable | .typeName => [target]
  | .literal _ _ => []
  | .prefixUnary _ operand => [operand]
  | .initializer elements => elements
  | .assignment left _ right => [right, left]
  | .unsupported _ => []

/-- **An expression is lowered with another one**: it is that one, or is lowered with an operand of
it. -/
inductive Expr.LoweredIn (c : Context) (e : Expr) : Expr → Prop
  | self : LoweredIn c e e
  | part {whole part : Expr} (h : part ∈ whole.parts c) (hp : LoweredIn c e part) :
      LoweredIn c e whole

section Expressions

variable {c : Context} {ν : Spelling} {receiver : Option TypeId}

theorem args_course {args : List Expr} {e : Expr} (h : e ∈ args) :
    Course.Part (e.course c receiver) (argsCourse c receiver args) := by
  induction args with
  | nil => cases h
  | cons first rest ih =>
    rw [argsCourse]
    rcases List.mem_cons.mp h with rfl | h
    · exact (Course.Part.refl _).left _
    · exact (ih h).right _

theorem elements_course : ∀ {elements : List Element}, ∀ e ∈ elements.filterMap Element.single?,
    Course.Part (e.course c receiver) (elementsCourse c receiver elements)
  | [], _, h => nomatch h
  | .single first :: rest, e, h => by
      rw [elementsCourse]
      rcases List.mem_cons.mp h with he | h
      · rw [he]
        exact (Course.Part.refl _).left _
      · exact (elements_course e h).right _
  | .spread first :: rest, e, _ => by
      rw [elementsCourse]
      exact .ofRefused _ _

/-- **The course of an operand is taken in the course of the expression.** -/
theorem Expr.parts_course {e part : Expr} (h : part ∈ e.parts c) :
    Course.Part (part.course c receiver) (e.course c receiver) := by
  cases e with
  | invocation target method args =>
    simp only [Expr.parts, Expr.course] at h ⊢
    cases hm : c.program.methodAt method.position with
    | error b =>
      rw [hm] at h
      cases h
    | ok m =>
      rw [hm] at h
      by_cases hn : m.isNative = true
      · simp only [hn, ↓reduceIte] at h ⊢
        exact args_course h
      · simp only [hn, Bool.false_eq_true, ↓reduceIte, List.mem_append] at h ⊢
        rcases h with h | h
        · cases target with
          | none => cases h
          | some target =>
            rw [List.mem_singleton.mp h]
            exact (Course.Part.refl _).left _
        · exact ((args_course h).right _).right _
  | elementAccess target index =>
    simp only [Expr.parts, Expr.course, List.mem_cons, List.not_mem_nil, or_false] at h ⊢
    rcases h with rfl | rfl
    · exact (Course.Part.refl _).left _
    · exact (Course.Part.refl _).right _
  | collection converted elements =>
    cases converted with
    | array element =>
      simp only [Expr.course]
      exact (elements_course part h).right _
    | declared id => exact .ofRefused _ _
    | external name => exact .ofRefused _ _
  | binary left op right =>
    simp only [Expr.parts, Expr.course, List.mem_cons, List.not_mem_nil, or_false] at h ⊢
    rcases h with rfl | rfl
    · exact (Course.Part.refl _).left _
    · exact (Course.Part.refl _).right _
  | identifier name symbol => cases h
  | implicitCreation args inits => cases h
  | creation type constructor args =>
    simp only [Expr.course]
    cases c.representationAt type.position with
    | error b => exact .ofRefused _ _
    | ok r =>
      cases r with
      | value => exact (args_course h).right _
      | reference => exact (args_course h).right _
  | memberAccess target name symbol =>
    cases symbol with
    | property id => cases h
    | enumMember => cases h
    | field _ | method _ | localVariable | typeName =>
      rw [List.mem_singleton.mp h]
      exact .refl _
  | literal kind text => cases h
  | prefixUnary op operand =>
    rw [List.mem_singleton.mp h]
    simp only [Expr.course]
    split
    · exact .refl _
    · exact .ofRefused _ _
  | initializer elements =>
    simp only [Expr.course]
    exact args_course h
  | assignment left op right =>
    simp only [Expr.parts, Expr.course, List.mem_cons, List.not_mem_nil, or_false] at h ⊢
    rcases h with rfl | rfl
    · exact (Course.Part.refl _).left _
    · exact (Course.Part.refl _).right _
  | unsupported syntaxKind => cases h

theorem Mentions.trans {a b d : String} (h : Mentions a b) (h' : Mentions b d) : Mentions a d := by
  obtain ⟨before', after', rfl⟩ := h'
  obtain ⟨before, after, rfl⟩ := h
  exact ⟨before ++ before', after' ++ after, by simp only [String.append_assoc]⟩

theorem args_mention {args : List Expr} {e : Expr} (h : e ∈ args) :
    e.text c ν ∈ argsText c ν args := by
  induction args with
  | nil => cases h
  | cons first rest ih =>
    rw [argsText]
    rcases List.mem_cons.mp h with rfl | h
    · exact List.mem_cons_self
    · exact List.mem_cons_of_mem _ (ih h)

theorem elements_mention :
    ∀ {elements : List Element}, (elementsCourse c receiver elements).fault = none →
    ∀ e ∈ elements.filterMap Element.single?, e.text c ν ∈ elementsText c ν elements
  | [], _, _, h => nomatch h
  | .single first :: rest, hf, e, h => by
      rw [elementsCourse, Course.fault_append, Option.or_eq_none_iff] at hf
      rw [elementsText]
      rcases List.mem_cons.mp h with he | h
      · rw [he]
        exact List.mem_cons_self
      · exact List.mem_cons_of_mem _ (elements_mention hf.2 e h)
  | .spread first :: rest, hf, _, _ => by
      rw [elementsCourse] at hf
      cases hf

theorem Mentions.inCall {function a : String} {args : List String} (h : a ∈ args) :
    Mentions (callText function args) a :=
  ((Mentions.commaList h (.refl a)).right _).left _

theorem Mentions.inBraces {a : String} {parts : List String} (h : a ∈ parts) :
    Mentions (braced (Lowering.commaList parts)) a :=
  ((Mentions.commaList h (.refl a)).right _).left _

/-- **The text of an operand stands in the text of the expression.** -/
theorem Expr.parts_text {e part : Expr} (hf : (e.course c receiver).fault = none)
    (h : part ∈ e.parts c) : Mentions (e.text c ν) (part.text c ν) := by
  cases e with
  | invocation target method args =>
    simp only [Expr.parts, Expr.text] at h ⊢
    cases hm : c.program.methodAt method.position with
    | error b =>
      rw [hm] at h
      cases h
    | ok m =>
      rw [hm] at h
      by_cases hn : m.isNative = true
      · simp only [hn, ↓reduceIte] at h ⊢
        have harg : part.text c ν ∈ argsText c ν args := args_mention h
        split
        · exact .inCall (List.mem_cons_of_mem _ harg)
        · exact .inCall harg
      · simp only [hn, Bool.false_eq_true, ↓reduceIte, List.mem_append] at h ⊢
        rcases h with h | h
        · cases target with
          | none => cases h
          | some target =>
            rw [List.mem_singleton.mp h]
            exact .inCall List.mem_cons_self
        · exact .inCall (List.mem_cons_of_mem _ (args_mention h))
  | elementAccess target index =>
    simp only [Expr.parts, Expr.text, List.mem_cons, List.not_mem_nil, or_false] at h ⊢
    rcases h with rfl | rfl
    · exact (((Mentions.refl _).left _).left _).left _
    · exact ((Mentions.refl _).right _).left _
  | collection converted elements =>
    cases converted with
    | array element =>
      simp only [Expr.course, Course.fault_append, Option.or_eq_none_iff] at hf
      exact (Mentions.inBraces (elements_mention hf.2 part h)).right _
    | declared id => cases hf
    | external name => cases hf
  | binary left op right =>
    simp only [Expr.parts, Expr.text, List.mem_cons, List.not_mem_nil, or_false] at h ⊢
    rcases h with rfl | rfl
    · exact ((((((Mentions.refl _).right _).left _).left _).left _).left _).left _
    · exact ((Mentions.refl _).right _).left _
  | identifier name symbol => cases h
  | implicitCreation args inits => cases h
  | creation type constructor args =>
    have harg : part.text c ν ∈ argsText c ν args := args_mention h
    have hargs : args.isEmpty = false := by
      cases args with
      | nil => cases h
      | cons first rest => rfl
    simp only [Expr.text, hargs]
    split
    · exact .inCall harg
    · exact .inCall harg
    · exact (Mentions.inBraces harg).right _
  | memberAccess target name symbol =>
    cases symbol with
    | property id => cases h
    | enumMember => cases h
    | field owner =>
      rw [List.mem_singleton.mp h]
      exact ((Mentions.refl _).left _).left _
    | method _ | localVariable | typeName =>
      rw [List.mem_singleton.mp h]
      exact .refl _
  | literal kind text => cases h
  | prefixUnary op operand =>
    rw [List.mem_singleton.mp h]
    exact (Mentions.refl _).right _
  | initializer elements => exact .inBraces (args_mention h)
  | assignment left op right =>
    simp only [Expr.parts, Expr.text, List.mem_cons, List.not_mem_nil, or_false] at h ⊢
    rcases h with rfl | rfl
    · exact (Mentions.refl _).right _
    · exact ((((Mentions.refl _).left _).left _).left _).left _
  | unsupported syntaxKind => cases h

/-- The course of an expression is taken wherever it is lowered. -/
theorem Expr.LoweredIn.course {e whole : Expr} (h : e.LoweredIn c whole) :
    Course.Part (e.course c receiver) (whole.course c receiver) := by
  induction h with
  | self => exact .refl _
  | part h _ ih => exact ih.trans (Expr.parts_course h)

/-- The text of an expression stands wherever it is lowered. -/
theorem Expr.LoweredIn.mentions {e whole : Expr} (h : e.LoweredIn c whole)
    (hf : (whole.course c receiver).fault = none) : Mentions (whole.text c ν) (e.text c ν) := by
  induction h with
  | self => exact .refl _
  | part h _ ih => exact (Expr.parts_text hf h).trans (ih (Expr.parts_course h hf).1)

end Expressions

/-! ## 3. Statements -/

/-- The value of a member. -/
def MemberInit.value : MemberInit → Expr
  | .mk _ value => value

/-- The expressions that are lowered with what a local variable starts with. -/
def initExprs : Option Expr → List Expr
  | none => []
  | some (.implicitCreation _ inits) => inits.map MemberInit.value
  | some value => [value]

/-- The expressions that a statement lowers itself. -/
def Stmt.exprs : Stmt → List Expr
  | .expression value => [value]
  | .whileLoop condition _ => [condition]
  | .block _ => []
  | .localDecl _ _ init => initExprs init
  | .unsupported _ => []

/-- The statements that a statement lowers. -/
def Stmt.parts : Stmt → List Stmt
  | .whileLoop _ body => [body]
  | .block statements => statements
  | .expression _ | .localDecl _ _ _ | .unsupported _ => []

/-- **A statement is lowered with another one**: it is that one, or is lowered with a statement of
it. -/
inductive Stmt.LoweredIn (s : Stmt) : Stmt → Prop
  | self : LoweredIn s s
  | part {whole part : Stmt} (h : part ∈ whole.parts) (hp : LoweredIn s part) : LoweredIn s whole

section Statements

variable {c : Context} {ν : Spelling} {receiver : Option TypeId}

theorem all_course {statements : List Stmt} {s : Stmt} (h : s ∈ statements) :
    Course.Part (s.course c receiver) (allCourse c receiver statements) := by
  induction statements with
  | nil => cases h
  | cons first rest ih =>
    rw [allCourse]
    rcases List.mem_cons.mp h with rfl | h
    · exact (Course.Part.refl _).left _
    · exact (ih h).right _

theorem inits_course : ∀ {inits : List MemberInit}, ∀ e ∈ inits.map MemberInit.value,
    Course.Part (e.course c receiver) (initsCourse c receiver inits)
  | [], _, h => nomatch h
  | .mk member first :: rest, e, h => by
      rw [initsCourse]
      rcases List.mem_cons.mp h with he | h
      · rw [he]
        exact (Course.Part.refl _).left _
      · exact (inits_course e h).right _

theorem init_course {name : String} {init : Option Expr} {e : Expr} (h : e ∈ initExprs init) :
    Course.Part (e.course c receiver) (initCourse c receiver name init) := by
  cases init with
  | none => cases h
  | some value =>
    cases value with
    | implicitCreation args inits =>
      show Course.Part _ (if args.isEmpty = true then _ else _)
      split
      · exact inits_course e h
      · exact .ofRefused _ _
    | _ =>
      rw [List.mem_singleton.mp h]
      exact .refl _

theorem Stmt.exprs_course {s : Stmt} {e : Expr} (h : e ∈ s.exprs) :
    Course.Part (e.course c receiver) (s.course c receiver) := by
  cases s with
  | expression value =>
    rw [List.mem_singleton.mp h]
    exact .refl _
  | whileLoop condition body =>
    rw [List.mem_singleton.mp h]
    exact (Course.Part.refl _).left _
  | block statements => cases h
  | localDecl name type init => exact (init_course h).right _
  | unsupported syntaxKind => cases h

theorem Stmt.parts_course {s part : Stmt} (h : part ∈ s.parts) :
    Course.Part (part.course c receiver) (s.course c receiver) := by
  cases s with
  | whileLoop condition body =>
    rw [List.mem_singleton.mp h]
    exact (Course.Part.refl _).right _
  | block statements => exact all_course h
  | expression _ | localDecl _ _ _ | unsupported _ => cases h

/-- The course of a statement is taken wherever it is lowered. -/
theorem Stmt.LoweredIn.course {s whole : Stmt} (h : s.LoweredIn whole) :
    Course.Part (s.course c receiver) (whole.course c receiver) := by
  induction h with
  | self => exact .refl _
  | part h _ ih => exact ih.trans (Stmt.parts_course h)

/-- The texts of rows, whatever their level is. -/
def rowTexts (rows : List Row) : List String := rows.map Row.text

theorem rowTexts_deeper (rows : List Row) : rowTexts (rows.map Row.deeper) = rowTexts rows := by
  unfold rowTexts
  rw [List.map_map]
  refine List.map_congr_left fun row _ => ?_
  cases row <;> rfl

theorem rowTexts_append (rows rows' : List Row) :
    rowTexts (rows ++ rows') = rowTexts rows ++ rowTexts rows' := List.map_append

theorem all_rows {statements : List Stmt} {s : Stmt} (h : s ∈ statements) :
    ∀ line ∈ rowTexts (s.rows c ν), line ∈ rowTexts (allRows c ν statements) := by
  intro line hline
  induction statements with
  | nil => cases h
  | cons first rest ih =>
    rw [allRows, rowTexts_append]
    rcases List.mem_cons.mp h with rfl | h
    · exact List.mem_append_left _ hline
    · exact List.mem_append_right _ (ih h)

/-- The rows of a statement stand among the rows of the statement that it is lowered with. -/
theorem Stmt.parts_rows {s part : Stmt} (h : part ∈ s.parts) :
    ∀ line ∈ rowTexts (part.rows c ν), line ∈ rowTexts (s.rows c ν) := by
  intro line hline
  cases s with
  | whileLoop condition body =>
    rw [List.mem_singleton.mp h] at hline
    refine List.mem_cons_of_mem _ ?_
    split
    · exact hline
    · show line ∈ rowTexts _
      rw [rowTexts_deeper]
      exact hline
  | block statements =>
    refine List.mem_cons_of_mem _ ?_
    show line ∈ rowTexts _
    rw [rowTexts_append, rowTexts_deeper]
    exact List.mem_append_left _ (all_rows h line hline)
  | expression _ | localDecl _ _ _ | unsupported _ => cases h

theorem Stmt.LoweredIn.rows {s whole : Stmt} (h : s.LoweredIn whole) :
    ∀ line ∈ rowTexts (s.rows c ν), line ∈ rowTexts (whole.rows c ν) := by
  induction h with
  | self => exact fun _ hline => hline
  | part h _ ih => exact fun line hline => Stmt.parts_rows h line (ih line hline)

theorem inits_rows (name : String) : ∀ {inits : List MemberInit}, ∀ e ∈ inits.map MemberInit.value,
    ∃ line ∈ rowTexts (initsRows c ν name inits), Mentions line (e.text c ν)
  | [], _, h => nomatch h
  | .mk member first :: rest, e, h => by
      rw [initsRows]
      rcases List.mem_cons.mp h with he | h
      · rw [he]
        exact ⟨_, List.mem_cons_self, ((Mentions.refl _).right _).left _⟩
      · obtain ⟨line, hline, hmention⟩ := inits_rows name e h
        exact ⟨line, List.mem_cons_of_mem _ hline, hmention⟩

/-- The text of an expression that a statement lowers itself stands in a row of the statement. -/
theorem Stmt.exprs_rows {s : Stmt} {e : Expr} (h : e ∈ s.exprs) :
    ∃ line ∈ rowTexts (s.rows c ν), Mentions line (e.text c ν) := by
  cases s with
  | expression value =>
    rw [List.mem_singleton.mp h]
    exact ⟨_, List.mem_cons_self, (Mentions.refl _).left _⟩
  | whileLoop condition body =>
    rw [List.mem_singleton.mp h]
    exact ⟨_, List.mem_cons_self, ((Mentions.refl _).right _).left _⟩
  | block statements => cases h
  | localDecl name type init =>
    cases init with
    | none => cases h
    | some value =>
      cases value with
      | implicitCreation args inits =>
        obtain ⟨line, hline, hmention⟩ := inits_rows (c := c) (ν := ν) name e h
        exact ⟨line, List.mem_cons_of_mem _ hline, hmention⟩
      | _ =>
        rw [List.mem_singleton.mp h]
        exact ⟨_, List.mem_cons_self, ((Mentions.refl _).right _).left _⟩
  | unsupported syntaxKind => cases h

end Statements

/-! ## 4. Units -/

/-- The receiver that the body of a method is lowered for. The entry point has none. -/
def Context.receiverOf (c : Context) (m : MethodDecl) : Option TypeId :=
  if m.name = c.options.entryPoint then none else m.owner

/-- **A statement is lowered in a unit**, for a receiver: it is lowered with the body of a method
that becomes a function. -/
def Context.EmitsStmt (c : Context) (receiver : Option TypeId) (s : Stmt) : Prop :=
  ∃ m ∈ c.program.methods, c.hasFunction m = true ∧ c.receiverOf m = receiver ∧
    ∃ body, m.body = some body ∧ s.LoweredIn (.block body)

/-- **An expression is lowered in a unit**, for a receiver: it is lowered with an expression of a
statement that is. -/
def Context.EmitsExpr (c : Context) (receiver : Option TypeId) (e : Expr) : Prop :=
  ∃ s value, c.EmitsStmt receiver s ∧ value ∈ s.exprs ∧ e.LoweredIn c value

section Units

variable {c : Context} {ν : Spelling} {receiver : Option TypeId}

/-- The course of a body is taken in the course of its method. -/
theorem body_course {m : MethodDecl} {body : List Stmt} (i : Nat) (hm : c.hasFunction m = true)
    (hb : m.body = some body) :
    Course.Part (allCourse c (c.receiverOf m) body) (functionCourse c i m) := by
  unfold functionCourse Context.receiverOf
  by_cases he : m.name = c.options.entryPoint
  · rw [if_pos he, if_pos he, bodyCourse, hb]
    exact .refl _
  · have hn : (m.isNative || m.isStatic) = false := by
      simpa [Context.hasFunction, he] using hm
    rw [if_neg he, if_neg he, hn, methodCourse, hb]
    cases m.owner with
    | none => exact .ofRefused _ _
    | some owner => exact ((Course.Part.refl _).right _).right _

/-- The course of a method is taken in the course of the unit. -/
theorem function_course {m : MethodDecl} {i : Nat} (hi : c.program.methods[i]? = some m) :
    Course.Part (functionCourse c i m) c.course := by
  have hpass : Course.Part (functionCourse c i m)
      (eachCourse (functionCourse c) 0 c.program.methods) :=
    .inEach hi
  exact (hpass.right _).right _

/-- **What is lowered in a unit is taken in its course.** -/
theorem Context.EmitsStmt.course {s : Stmt} (h : c.EmitsStmt receiver s) :
    Course.Part (s.course c receiver) c.course := by
  obtain ⟨m, hm, hfunction, rfl, body, hb, hs⟩ := h
  obtain ⟨i, hi⟩ := List.getElem?_of_mem hm
  exact hs.course.trans ((body_course i hfunction hb).trans (function_course hi))

theorem Context.EmitsExpr.course {e : Expr} (h : c.EmitsExpr receiver e) :
    Course.Part (e.course c receiver) c.course := by
  obtain ⟨s, value, hs, hvalue, he⟩ := h
  exact he.course.trans ((Stmt.exprs_course hvalue).trans hs.course)

/-- A method that becomes a function has its body below a head. -/
theorem functionRows_eq_block {m : MethodDecl} {i : Nat} (hf : (functionCourse c i m).fault = none)
    (hm : c.hasFunction m = true) : ∃ head, functionRows c ν i m = functionBlock c ν head m := by
  unfold functionCourse at hf
  unfold functionRows
  by_cases he : m.name = c.options.entryPoint
  · rw [if_pos he]
    exact ⟨_, rfl⟩
  · have hn : (m.isNative || m.isStatic) = false := by
      simpa [Context.hasFunction, he] using hm
    rw [if_neg he, hn] at hf ⊢
    unfold methodCourse at hf
    cases hown : m.owner with
    | none =>
      rw [hown] at hf
      cases hf
    | some owner => exact ⟨_, rfl⟩

/-- **What is lowered in a unit stands in its rows.** -/
theorem Context.EmitsStmt.rows (hf : c.course.fault = none) {s : Stmt}
    (h : c.EmitsStmt receiver s) : ∀ line ∈ rowTexts (s.rows c ν), line ∈ rowTexts (c.rows ν) := by
  intro line hline
  obtain ⟨m, hm, hfunction, rfl, body, hb, hs⟩ := h
  obtain ⟨i, hi⟩ := List.getElem?_of_mem hm
  obtain ⟨row, hrow, rfl⟩ := List.mem_map.mp (hs.rows line hline)
  obtain ⟨head, hrows⟩ := functionRows_eq_block (ν := ν) (function_course hi hf).1 hfunction
  have hin : row ∈ functionRows c ν i m := by
    rw [hrows, functionBlock, hb]
    exact List.mem_cons_of_mem _ (List.mem_append_left _ hrow)
  have hmem : (m, i) ∈ c.program.methods.zipIdx := List.mem_zipIdx_iff_getElem?.mpr hi
  refine List.mem_map_of_mem ?_
  refine List.mem_append_right _ (List.mem_cons_of_mem _ (List.mem_append_right _ ?_))
  exact List.mem_append_right _ (List.mem_flatMap.mpr ⟨(m, i), hmem, hin⟩)

theorem Context.EmitsExpr.mentions (hf : c.course.fault = none) {e : Expr}
    (h : c.EmitsExpr receiver e) : ∃ line ∈ rowTexts (c.rows ν), Mentions line (e.text c ν) := by
  obtain ⟨s, value, hs, hvalue, he⟩ := h
  obtain ⟨line, hline, hmention⟩ := Stmt.exprs_rows (c := c) (ν := ν) hvalue
  have hfault := (Stmt.exprs_course hvalue (hs.course hf).1).1
  exact ⟨line, hs.rows hf line hline, hmention.trans (he.mentions hfault)⟩

/-- **On the names of a course that is taken to its end**, an action whose course is taken there
gives its result at once. -/
theorem Asks.settledIn {α : Type} {p : Program} {act : Naming α} {course whole : Course}
    {result : Spelling → α} {t : NameTable} (h : Asks p act course result) (hp : course.Part whole)
    (hf : whole.fault = none) (ht : t.Sound p) :
    let table := t.askAll p whole.asked
    act table = .ok (result table.spelling) table := by
  intro table
  have hsound : table.Sound p := NameTable.Sound.askAll p whole.asked ht
  obtain ⟨hfault, hasked⟩ := hp hf
  have hagain : table.askAll p course.asked = table :=
    NameTable.askAll_of_subset ht whole.asked course.asked hasked
  have hrun := h.ends hfault table () hsound
  rw [hagain] at hrun
  exact hrun

/-- **On the names of a finished unit**, an action whose course is taken there gives its result at
once. -/
theorem Asks.settled {α : Type} {act : Naming α} {course : Course} {result : Spelling → α}
    (h : Asks c.program act course result) (hp : course.Part c.course)
    (hf : c.course.fault = none) :
    let table := Generator.namesAfter { context := c }
    act table = .ok (result table.spelling) table :=
  h.settledIn hp hf (NameTable.Sound.empty c.program)

end Units

end Lowering
