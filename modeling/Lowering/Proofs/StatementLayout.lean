import Lowering.Proofs.SessionCourse

/-!
# The layout of statements

The level of a page is raised and lowered while a statement is written: by braces, and by hand
around a loop body without braces. This file shows that none of it is visible from outside. A
statement puts a list of lines on the page, each at a depth of its own, and both the lines and the
depths are the same on every page.

* `Line`, `layLines` -- lines with their depths, and their text at a level;
* `Stmt.lines` -- the lines of a statement, with `LaysOut` for what they are made of;
* `Balanced` -- lines whose braces are matched at equal depth (`Stmt.rows_braced`);
* `statement_laid_out` -- a statement that is lowered puts its lines on any page, and restores the
  level.
-/

namespace Lowering

/-! ## 1. Lines -/

/-- A line and its depth below the level of the page. -/
abbrev Line := Nat × String

namespace Line

/-- A line one level deeper. -/
def deeper (l : Line) : Line := (l.1 + 1, l.2)

/-- The text of a line at a level: four blanks for each level and each depth, the line, and its
end. -/
def lay (level : Nat) (l : Line) : String :=
  String.ofList (List.replicate (4 * (level + l.1)) ' ') ++ l.2 ++ "\n"

end Line

/-- The text of lines at a level. -/
def layLines (level : Nat) (lines : List Line) : String := String.join (lines.map (Line.lay level))

/-- The line of a row, if it is not blank. -/
def Row.toLine? : Row → Option Line
  | .line depth text => some (depth, text)
  | .blank => none

/-- The lines among rows. -/
def rowLines (rows : List Row) : List Line := rows.filterMap Row.toLine?

theorem margin_eq (level : Nat) :
    margin level = String.ofList (List.replicate (4 * level) ' ') := by
  induction level with
  | zero => rfl
  | succ level ih =>
    have hsplit : List.replicate (4 * (level + 1)) ' ' =
        List.replicate 4 ' ' ++ List.replicate (4 * level) ' ' := by
      rw [List.replicate_append_replicate, Nat.mul_add, Nat.add_comm]
    rw [hsplit, String.ofList_append, ← ih]
    rfl

/-- Rows without a blank one are rendered line by line. -/
theorem render_eq_layLines (level : Nat) {rows : List Row} (h : Row.blank ∉ rows) :
    render level rows = layLines level (rowLines rows) := by
  induction rows with
  | nil => rfl
  | cons row rest ih =>
    have hrest := ih fun hmem => h (List.mem_cons_of_mem _ hmem)
    cases row with
    | blank => exact absurd List.mem_cons_self h
    | line depth text =>
      show margin (level + depth) ++ text ++ "\n" ++ render level rest = _
      rw [hrest, margin_eq]
      exact String.join_cons.symm

@[simp] theorem rowLines_append (rows rows' : List Row) :
    rowLines (rows ++ rows') = rowLines rows ++ rowLines rows' := List.filterMap_append

@[simp] theorem rowLines_cons (depth : Nat) (text : String) (rows : List Row) :
    rowLines (.line depth text :: rows) = (depth, text) :: rowLines rows := rfl

@[simp] theorem rowLines_nil : rowLines [] = [] := rfl

@[simp] theorem rowLines_deeper (rows : List Row) :
    rowLines (rows.map Row.deeper) = (rowLines rows).map Line.deeper := by
  induction rows with
  | nil => rfl
  | cons row rest ih =>
    cases row with
    | blank => exact ih
    | line depth text => exact congrArg ((depth + 1, text) :: ·) ih

/-! ## 2. The lines of statements -/

section Lines

variable (c : Context) (ν : Spelling)

/-- **The lines of a statement**, given the spelling of keys. -/
def Stmt.lines (s : Stmt) : List Line := rowLines (s.rows c ν)

/-- The line that gives a member of a variable its value. -/
def MemberInit.assigned (text : Expr → String) (x : String) : MemberInit → Line
  | .mk member e => (0, x ++ "." ++ member ++ " = " ++ text e ++ ";")

/-- **What the lines of statements are made of**, given the texts of expressions and of types. -/
structure LaysOut (text : Expr → String) (type : TypeRef → String) (lines : Stmt → List Line) :
    Prop where
  expression : ∀ e, lines (.expression e) = [(0, text e ++ ";")]
  block : ∀ ss, lines (.block ss) = (0, "\x7b") ::
    ((ss.flatMap lines).map Line.deeper ++ [(0, "\x7d")])
  loopOfBlock : ∀ e ss,
    lines (.whileLoop e (.block ss)) = (0, "while(" ++ text e ++ ")") :: lines (.block ss)
  loopOfOther : ∀ e body, body.isBlock = false →
    lines (.whileLoop e body) = (0, "while(" ++ text e ++ ")") :: (lines body).map Line.deeper
  declared : ∀ x t, lines (.localDecl x t none) = [(0, type t ++ " " ++ x ++ ";")]
  created : ∀ x t args inits, lines (.localDecl x t (some (.implicitCreation args inits))) =
    (0, type t ++ " " ++ x ++ " = \x7b0\x7d;") :: inits.map (MemberInit.assigned text x)
  initialized : ∀ x t e, (∀ args inits, e ≠ .implicitCreation args inits) →
    lines (.localDecl x t (some e)) = [(0, type t ++ " " ++ x ++ " = " ++ text e ++ ";")]

theorem rowLines_all (ss : List Stmt) :
    rowLines (allRows c ν ss) = ss.flatMap (Stmt.lines c ν) := by
  induction ss with
  | nil => rfl
  | cons s rest ih =>
    unfold allRows
    rw [rowLines_append, ih]
    rfl

theorem rowLines_inits (x : String) (inits : List MemberInit) :
    rowLines (initsRows c ν x inits) = inits.map (MemberInit.assigned (Expr.text c ν) x) := by
  induction inits with
  | nil => rfl
  | cons init rest ih =>
    cases init with
    | mk member e => exact congrArg (_ :: ·) ih

theorem Stmt.lines_laysOut : LaysOut (Expr.text c ν) (localTypeText c ν) (Stmt.lines c ν) where
  expression _ := rfl
  block ss := by
    simp only [Stmt.lines, Stmt.rows, rowLines_cons, rowLines_append, rowLines_deeper, rowLines_all,
      rowLines_nil]
  loopOfBlock _ _ := rfl
  loopOfOther e body hb := by
    simp only [Stmt.lines, Stmt.rows, hb, Bool.false_eq_true, ↓reduceIte, rowLines_cons,
      rowLines_deeper]
  declared _ _ := rfl
  created x t args inits := by
    simp only [Stmt.lines, Stmt.rows, localRows, rowLines_cons, rowLines_inits, String.append_assoc]
    rfl
  initialized x t e he := by
    cases e with
    | implicitCreation args inits => exact absurd rfl (he args inits)
    | _ => rfl

end Lines

/-! ## 3. Matched braces -/

/-- **Lines with matched braces.** A line that opens a block and the one that closes it stand at the
same depth, and all lines between them stand deeper. -/
inductive Balanced : List Line → Prop where
  | nil : Balanced []
  | line (depth : Nat) {text : String} (hopen : text ≠ "\x7b") (hclose : text ≠ "\x7d") :
      Balanced [(depth, text)]
  | append {lines lines' : List Line} (h : Balanced lines) (h' : Balanced lines') :
      Balanced (lines ++ lines')
  | block (depth : Nat) {lines : List Line} (h : Balanced lines)
      (hdeep : ∀ l ∈ lines, depth < l.1) :
      Balanced ((depth, "\x7b") :: (lines ++ [(depth, "\x7d")]))

theorem Balanced.deeper {lines : List Line} (h : Balanced lines) :
    Balanced (lines.map Line.deeper) := by
  induction h with
  | nil => exact .nil
  | line depth hopen hclose => exact .line (depth + 1) hopen hclose
  | append _ _ ih ih' =>
    rw [List.map_append]
    exact .append ih ih'
  | block depth _ hdeep ih =>
    have hinner : ∀ l ∈ List.map Line.deeper _, depth + 1 < l.1 := fun l hl => by
      obtain ⟨l', hl', rfl⟩ := List.mem_map.mp hl
      exact Nat.succ_lt_succ (hdeep l' hl')
    rw [List.map_cons, List.map_append]
    exact .block (depth + 1) ih hinner

/-- Lines are still lines a level deeper. -/
theorem noBlank_deeper {rows : List Row} (h : Row.blank ∉ rows) :
    Row.blank ∉ rows.map Row.deeper := by
  intro hmem
  obtain ⟨row, hrow, he⟩ := List.mem_map.mp hmem
  cases row with
  | blank => exact h hrow
  | line depth text => cases he

/-- Rows that are all lines, with matched braces. -/
structure Braced (rows : List Row) : Prop where
  noBlank : Row.blank ∉ rows
  balanced : Balanced (rowLines rows)

namespace Braced

variable {rows rows' : List Row}

theorem nil : Braced [] := ⟨List.not_mem_nil, .nil⟩

theorem append (h : Braced rows) (h' : Braced rows') : Braced (rows ++ rows') where
  noBlank hmem := (List.mem_append.mp hmem).elim h.noBlank h'.noBlank
  balanced := by
    rw [rowLines_append]
    exact h.balanced.append h'.balanced

theorem deeper (h : Braced rows) : Braced (rows.map Row.deeper) where
  noBlank := noBlank_deeper h.noBlank
  balanced := by
    rw [rowLines_deeper]
    exact h.balanced.deeper

theorem block (h : Braced rows) :
    Braced (.line 0 "\x7b" :: (rows.map Row.deeper ++ [.line 0 "\x7d"])) where
  noBlank hmem := by
    rcases List.mem_append.mp ((List.mem_cons.mp hmem).resolve_left nofun) with hmem | hmem
    · exact h.deeper.noBlank hmem
    · exact nomatch List.mem_singleton.mp hmem
  balanced := by
    have hdeep : ∀ l ∈ (rowLines rows).map Line.deeper, 0 < l.1 := fun l hl => by
      obtain ⟨l', -, rfl⟩ := List.mem_map.mp hl
      exact Nat.succ_pos l'.1
    rw [rowLines_cons, rowLines_append, rowLines_deeper]
    exact .block 0 h.balanced.deeper hdeep

/-- A line that ends in a semicolon or in a parenthesis is no brace. -/
theorem line {text last : String} (hlast : last = ";" ∨ last = ")") :
    Braced [.line 0 (text ++ last)] where
  noBlank hmem := nomatch List.mem_singleton.mp hmem
  balanced := by
    have hne : ∀ brace : String, brace = "\x7b" ∨ brace = "\x7d" → text ++ last ≠ brace := by
      rintro brace hbrace he
      have hends : (text ++ last).toList.getLast? = brace.toList.getLast? := by rw [he]
      rcases hlast with rfl | rfl <;> rcases hbrace with rfl | rfl <;>
        simp [String.toList_append] at hends
    exact .line 0 (hne _ (.inl rfl)) (hne _ (.inr rfl))

end Braced

section Statements

variable (c : Context) (ν : Spelling)

theorem initsRows_braced (x : String) (inits : List MemberInit) :
    Braced (initsRows c ν x inits) := by
  induction inits with
  | nil => exact .nil
  | cons init rest ih =>
    cases init with
    | mk member e => exact (Braced.line (.inl rfl)).append ih

theorem localRows_braced (x : String) (t : TypeRef) (init : Option Expr) :
    Braced (localRows c ν x t init) := by
  cases init with
  | none => exact Braced.line (.inl rfl)
  | some e =>
    cases e with
    | implicitCreation args inits =>
      exact (Braced.line (.inl rfl)).append (initsRows_braced c ν x inits)
    | _ => exact Braced.line (.inl rfl)

mutual

/-- **The braces of a statement are matched.** -/
theorem Stmt.rows_braced : ∀ s : Stmt, Braced (s.rows c ν)
  | .expression e => .line (.inl rfl)
  | .whileLoop e body => by
      have hhead : Braced [.line 0 ("while(" ++ e.text c ν ++ ")")] := .line (.inr rfl)
      have hbody := Stmt.rows_braced body
      unfold Stmt.rows
      split
      · exact hhead.append hbody
      · exact hhead.append hbody.deeper
  | .block ss => (allRows_braced ss).block
  | .localDecl x t init => localRows_braced c ν x t init
  | .unsupported _ => .nil

theorem allRows_braced : ∀ ss : List Stmt, Braced (allRows c ν ss)
  | [] => .nil
  | s :: rest => (Stmt.rows_braced s).append (allRows_braced rest)

end

end Statements

/-! ## 4. Statements on a page -/

/-- A page with the rows of a statement has its lines at the level of the page, and the level it
had. -/
theorem Page.write_eq_lay (c : Context) (ν : Spelling) (s : Stmt) (page : Page) :
    page.write (s.rows c ν) =
      { text := page.text ++ layLines page.level (s.lines c ν), level := page.level } := by
  unfold Page.write Stmt.lines
  rw [render_eq_layLines page.level (s.rows_braced c ν).noBlank]

/-- **Statements are laid out line by line.** If a statement is lowered on one page, it is lowered
on every page with the same names, and the page then has its old text, the lines of the statement
below its level, and its old level. The lines do not depend on the page, they are made of the texts
of the parts as `LaysOut` says, and their braces are matched at equal depth. -/
theorem statement_laid_out {c : Context} {receiver : Option TypeId} {names : NameTable}
    (hnames : Reached c names) {s : Stmt} {start : Page} {d : Draft}
    (hrun : s.lower c receiver { names, page := start } = .ok () d) :
    let ν := d.names.spelling
    (∀ page : Page, s.lower c receiver { names, page } = .ok ()
      { names := d.names
        page := { text := page.text ++ layLines page.level (s.lines c ν), level := page.level } }) ∧
    LaysOut (Expr.text c ν) (localTypeText c ν) (Stmt.lines c ν) ∧ Balanced (s.lines c ν) := by
  intro ν
  have hfollows := s.lower_follows c receiver
  have hf : (s.course c receiver).fault = none := by
    cases hf : (s.course c receiver).fault with
    | none => rfl
    | some r =>
      obtain ⟨page, hstop⟩ := hfollows.stops r hf names start hnames.sound
      cases hstop.symm.trans hrun
  have hends := fun page => hfollows.ends hf names page hnames.sound
  have hd : names.askAll c.program (s.course c receiver).asked = d.names := by
    cases (hends start).symm.trans hrun
    rfl
  rw [hd] at hends
  refine ⟨fun page => ?_, Stmt.lines_laysOut c ν, (s.rows_braced c ν).balanced⟩
  rw [← Page.write_eq_lay]
  exact hends page

/-- A loop without braces around a loop with braces, in which a variable is created bare. -/
def nightWatch : Stmt :=
  .whileLoop (.variableNamed "dark") <| .whileLoop (.variableNamed "calm") <| .block [
    .letIn "log" (.external "Int32") (.implicitCreation [] [.mk "hour" (.number "4")]),
    .expression (.variableNamed "watch")]

/-- The night watch is laid out on an empty page as on a page with text, where all of it stands a
level deeper. -/
theorem nightWatch_laid_out :
    let c : Context := { program := {} }
    let lines : List Line := [(0, "while(dark)"), (1, "while(calm)"), (1, "\x7b"),
      (2, "int log = \x7b0\x7d;"), (2, "log.hour = 4;"), (2, "watch;"), (1, "\x7d")]
    Reached c {} ∧
      nightWatch.lower c none {} = .ok () { page := { text := layLines 0 lines } } ∧
      nightWatch.lower c none { page := { text := "ahoy;\n", level := 1 } } =
        .ok () { page := { text := "ahoy;\n" ++ layLines 1 lines, level := 1 } } ∧
      Balanced lines := by
  intro c lines
  have hlines : nightWatch.lines c ({} : NameTable).spelling = lines := by decide +kernel
  have hrun : nightWatch.lower c none {} = .ok () { page := { text := layLines 0 lines } } := by
    have hends :=
      (nightWatch.lower_follows c none).ends (by decide +kernel) {} {} (NameTable.Sound.empty {})
    have hnames : NameTable.askAll {} {} (nightWatch.course c none).asked = {} := by decide +kernel
    rw [hnames, Page.write_eq_lay, hlines] at hends
    exact hends
  obtain ⟨hpages, -, hbalanced⟩ := statement_laid_out Reached.empty hrun
  rw [hlines] at hpages hbalanced
  exact ⟨.empty, hrun, hpages { text := "ahoy;\n", level := 1 }, hbalanced⟩

end Lowering
