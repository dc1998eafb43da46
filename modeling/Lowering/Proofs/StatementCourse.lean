import Lowering.Proofs.ExpressionCourse

/-!
# Statements follow their course

The lowering of a statement asks for the names of its course. If it is not refused, it leaves the
page at the level where it found it, with the rows of the plan below what was there.

* `Page.write` -- rows at the level of a page, with the laws of lines and blocks;
* `Writes` -- an action on a draft follows a course and writes rows;
* `Stmt.lower_follows`, `lowerBlock_follows` -- statements and blocks.
-/

namespace Lowering

/-! ## 1. Rows on a page -/

theorem render_append (level : Nat) : ∀ rows rows' : List Row,
    render level (rows ++ rows') = render level rows ++ render level rows'
  | [], _ => by simp [render]
  | row :: rest, rows' => by
      simp only [List.cons_append, render]
      rw [render_append level rest rows', String.append_assoc]

theorem render_deeper (level : Nat) : ∀ rows : List Row,
    render level (rows.map Row.deeper) = render (level + 1) rows
  | [] => rfl
  | row :: rest => by
      have hrow : row.deeper.render level = row.render (level + 1) := by
        cases row with
        | line depth text =>
          simp only [Row.deeper, Row.render]
          rw [Nat.add_right_comm]
          rfl
        | blank => rfl
      simp only [List.map_cons, render]
      rw [hrow, render_deeper level rest]

namespace Page

/-- Writes rows at the level. -/
def write (p : Page) (rows : List Row) : Page := { p with text := p.text ++ render p.level rows }

theorem write_nil (p : Page) : p.write [] = p := by
  simp [write, render]

theorem write_write (p : Page) (rows rows' : List Row) :
    (p.write rows).write rows' = p.write (rows ++ rows') := by
  simp only [write, render_append, String.append_assoc]

theorem line_eq (p : Page) (s : String) : p.line s = p.write [.line 0 s] := by
  simp [line, write, render, Row.render, String.append_assoc]

theorem blank_eq (p : Page) : p.blank = p.write [.blank] := by
  simp [blank, write, render, Row.render]

/-- Rows between an indentation and its end are one level deeper. -/
theorem indented_eq (p : Page) (rows : List Row) :
    (p.indent.write rows).outdent = p.write (rows.map Row.deeper) := by
  simp only [write, indent, outdent, render_deeper, Nat.add_sub_cancel]

/-- Rows between braces are one level deeper. -/
theorem block_eq (p : Page) (rows : List Row) :
    (p.openBlock.write rows).closeBlock =
      p.write (.line 0 "\x7b" :: (rows.map Row.deeper ++ [.line 0 "\x7d"])) := by
  unfold openBlock closeBlock
  rw [indented_eq, line_eq, line_eq, write_write, write_write]
  rfl

end Page

/-! ## 2. Actions on a draft -/

variable {α : Type} {p : Program} {course course₁ course₂ : Course}

/-- **An action on a draft follows a course and writes rows.** -/
abbrev Writes (p : Program) (act : Drafting Unit) (course : Course) (rows : Spelling → List Row) :
    Prop :=
  Follows p Draft.mk act course (fun _ => ()) fun ν page => page.write (rows ν)

section Focus

variable {σ τ : Type} {view : σ → τ} {put : τ → σ → σ} {act : Act τ α} {x : σ} {y : τ}

theorem focus_ok {a : α} (h : act (view x) = .ok a y) : focus view put act x = .ok a (put y x) := by
  unfold focus
  rw [h]

theorem focus_error {r : Refusal} (h : act (view x) = .error r y) :
    focus view put act x = .error r (put y x) := by
  unfold focus
  rw [h]

end Focus

theorem onNames_follows {act : Naming α} {result : Spelling → α} (h : Asks p act course result) :
    Follows p Draft.mk (onNames act) course result fun _ => id where
  stemmed := h.stemmed
  reads hf ν ν' hν := ⟨(h.reads hf ν ν' hν).1, rfl⟩
  ends hf t _ ht := focus_ok (h.ends hf t () ht)
  stops r hr t page ht := by
    obtain ⟨_, hrun⟩ := h.stops r hr t () ht
    exact ⟨page, focus_error hrun⟩

theorem onPage_follows (change : Page → Page) :
    Follows p Draft.mk (onPage change) {} (fun _ => ()) fun _ => change where
  stemmed _ hk := nomatch hk
  reads _ _ _ _ := ⟨rfl, rfl⟩
  ends _ _ _ _ := rfl
  stops _ h := nomatch h

theorem writeLine_follows (s : String) : Writes p (writeLine s) {} fun _ => [.line 0 s] :=
  (onPage_follows (·.line s)).of_eq rfl (fun _ => rfl) fun _ page => page.line_eq s

theorem blank_follows : Writes p (onPage (·.blank)) {} fun _ => [.blank] :=
  (onPage_follows (·.blank)).of_eq rfl (fun _ => rfl) fun _ page => page.blank_eq

theorem Writes.nil : Writes p (pure ()) {} fun _ => [] :=
  (Follows.pure ()).of_eq rfl (fun _ => rfl) fun _ page => (page.write_nil).symm

/-- Rows of one action below the rows of another. -/
theorem Writes.andThen {act last : Drafting Unit} {rows rows' : Spelling → List Row}
    (h₁ : Writes p act course₁ rows) (h₂ : Writes p last course₂ rows') :
    Writes p (act >>= fun _ => last) (course₁ ++ course₂) fun ν => rows ν ++ rows' ν :=
  (Follows.andThen h₁ h₂).of_eq rfl (fun _ => rfl) fun _ page => page.write_write _ _

/-- A line that is made of names. -/
theorem Asks.line {act : Naming α} {result : Spelling → α} (h : Asks p act course result)
    (f : α → String) :
    Writes p (onNames act >>= fun a => writeLine (f a)) course fun ν => [.line 0 (f (result ν))] :=
  ((onNames_follows h).bind fun a => writeLine_follows (f a)).of_eq (Course.append_nil course)
    (fun _ => rfl) fun _ _ => rfl

/-- A line that is made of names, and more rows below it. -/
theorem Asks.lineThen {act : Naming α} {result : Spelling → α} {last : Drafting Unit}
    {rows : Spelling → List Row} (h : Asks p act course₁ result) (f : α → String)
    (hl : Writes p last course₂ rows) :
    Writes p (onNames act >>= fun a => writeLine (f a) >>= fun _ => last) (course₁ ++ course₂)
      fun ν => .line 0 (f (result ν)) :: rows ν :=
  (onNames_follows h).bind fun a => (writeLine_follows (f a)).andThen hl

/-- An action one level deeper. -/
theorem indented_follows {act : Drafting Unit} {rows : Spelling → List Row}
    (h : Writes p act course rows) :
    Writes p (indented act) course fun ν => (rows ν).map Row.deeper := by
  have hin : Follows p Draft.mk (indented act) course (fun _ => ())
      fun ν page => (page.indent.write (rows ν)).outdent := by
    refine ⟨h.stemmed, fun hf ν ν' hν => ?_, fun hf t page ht => ?_, fun r hr t page ht => ?_⟩
    · have heffect := (h.reads hf ν ν' hν).2
      exact ⟨rfl, funext fun page => congrArg Page.outdent (congrFun heffect page.indent)⟩
    · unfold indented
      rw [h.ends hf t page.indent ht]
    · obtain ⟨page', hrun⟩ := h.stops r hr t page.indent ht
      refine ⟨page'.outdent, ?_⟩
      unfold indented
      rw [hrun]
  exact hin.of_eq rfl (fun _ => rfl) fun ν page => page.indented_eq (rows ν)

/-- Rows in braces. -/
theorem block_follows {act : Drafting Unit} {rows : Spelling → List Row}
    (h : Writes p act course rows) :
    Writes p (do onPage (·.openBlock); act; onPage (·.closeBlock)) course
      fun ν => .line 0 "\x7b" :: ((rows ν).map Row.deeper ++ [.line 0 "\x7d"]) :=
  ((onPage_follows (·.openBlock)).andThen (Follows.andThen h (onPage_follows (·.closeBlock)))).of_eq
    (Course.append_nil course) (fun _ => rfl) fun ν page => page.block_eq (rows ν)

/-! ## 3. Statements -/

variable (c : Context) (receiver : Option TypeId)

theorem localTypeName_follows (type : TypeRef) :
    Asks c.program (localTypeName c type) (localTypeCourse c type) fun ν =>
      localTypeText c ν type := by
  cases type with
  | array element =>
    have h := (resolve_follows c element).andReturn fun type => type.name ++ "*"
    simp only [resolvedType_name] at h
    exact h
  | declared id =>
    have h := (resolve_follows c (.declared id)).andReturn fun type =>
      if type.isValue then type.name else type.name ++ "*"
    refine h.of_eq rfl (fun ν => ?_) fun _ _ => rfl
    by_cases hv : c.isValue id.position = true
    · simp only [resolvedType, localTypeText, ResolvedType.isValue, hv, ↓reduceIte]
      rfl
    · simp only [resolvedType, localTypeText, ResolvedType.isValue, hv]
      rfl
  | external name =>
    exact (resolve_follows c (.external name)).andReturn fun type =>
      if type.isValue then type.name else type.name ++ "*"

theorem lowerInits_follows (name : String) : ∀ inits : List MemberInit,
    Writes c.program (lowerInits c receiver name inits) (initsCourse c receiver inits)
      fun ν => initsRows c ν name inits
  | [] => Writes.nil
  | .mk member value :: rest =>
      (Expr.lower_follows c receiver value).lineThen
        (fun text => name ++ "." ++ member ++ " = " ++ text ++ ";") (lowerInits_follows name rest)

theorem lowerLocal_follows (name : String) (type : TypeRef) (init : Option Expr) :
    Writes c.program (lowerLocal c receiver name type init)
      (localTypeCourse c type ++ initCourse c receiver name init)
      fun ν => localRows c ν name type init := by
  have htype := onNames_follows (localTypeName_follows c type)
  cases init with
  | none => exact htype.bind fun typeName => writeLine_follows (typeName ++ " " ++ name ++ ";")
  | some value =>
    cases value with
    | implicitCreation args inits =>
      by_cases hargs : args.isEmpty = true
      · simp only [lowerLocal, initCourse, localRows, hargs, ↓reduceIte]
        exact htype.bind fun typeName =>
          (writeLine_follows (typeName ++ " " ++ name ++ " = " ++ braced "0" ++ ";")).andThen
            (lowerInits_follows c receiver name inits)
      · have hrefuse : ∀ _ : String, Writes c.program
            (unsupported "ImplicitObjectCreationExpression"
              ("constructor arguments when initializing " ++ quoted name))
            (.refused (.unsupported "ImplicitObjectCreationExpression"
              ("constructor arguments when initializing " ++ quoted name)))
            fun ν => localRows c ν name type (some (.implicitCreation args inits)) :=
          fun _ => Follows.refuse _
        simp only [lowerLocal, initCourse, hargs, Bool.false_eq_true, ↓reduceIte]
        exact htype.bind hrefuse
    | _ =>
      exact htype.bind fun typeName => (Expr.lower_follows c receiver _).line
        fun text => typeName ++ " " ++ name ++ " = " ++ text ++ ";"

mutual

/-- **The lowering of a statement follows its course** and writes the rows of the plan. -/
theorem Stmt.lower_follows : ∀ s : Stmt,
    Writes c.program (s.lower c receiver) (s.course c receiver) fun ν => s.rows c ν
  | .expression value => (Expr.lower_follows c receiver value).line (· ++ ";")
  | .whileLoop condition body => by
      simp only [Stmt.lower, Stmt.course, Stmt.rows]
      refine (Expr.lower_follows c receiver condition).lineThen
        (fun text => "while(" ++ text ++ ")") ?_
      by_cases hb : body.isBlock = true
      · simp only [hb, ↓reduceIte]
        exact Stmt.lower_follows body
      · simp only [hb, Bool.false_eq_true, ↓reduceIte]
        exact indented_follows (Stmt.lower_follows body)
  | .block statements => block_follows (lowerAll_follows statements)
  | .localDecl name type init => lowerLocal_follows c receiver name type init
  | .unsupported syntaxKind => Follows.refuse _

theorem lowerAll_follows : ∀ statements : List Stmt,
    Writes c.program (lowerAll c receiver statements) (allCourse c receiver statements)
      fun ν => allRows c ν statements
  | [] => Writes.nil
  | s :: rest => (Stmt.lower_follows s).andThen (lowerAll_follows rest)

end

end Lowering
