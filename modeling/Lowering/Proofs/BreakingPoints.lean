import Lowering.Proofs.Residues
import Lowering.Proofs.StatementLayout

/-!
# Where a statement breaks off

The lowering of a statement is refused at one point: at an expression, at a type, or at a statement
that has no lowering. Loops and blocks stand around this point, and they treat a refusal
differently: a block is left open, while a loop without braces gives its level back. This file finds
the point on the way into the statement, and reads the page off that way: the lines of what was
lowered before, the lines that open what stands around, and one level for each block.

* `Granted`, `RefusedFor`, `Stmt.Completes` -- how parts of a statement end, whatever was asked for
  before;
* `BreaksAt` -- a statement that is refused at a part of its own, and the lines it has by then;
* `Enclosure`, `enclose` -- a loop or a block around a statement, and a row of them;
* `BreaksOff`, `openLines` -- the point where a statement breaks off, and the lines up to it;
* `refused_statement_broken_off` -- the page after a refused statement.
-/

namespace Lowering

/-! ## 1. How parts of a statement end -/

section Endings

variable {α : Type} (c : Context) (receiver : Option TypeId)

/-- An action on names is granted, whatever names there are. -/
def Granted (act : Naming α) : Prop :=
  ∀ names, Reached c names → ∃ a names', act names = .ok a names'

/-- An action on names is refused, whatever names there are. -/
def RefusedFor (act : Naming α) (r : Refusal) : Prop :=
  ∀ names, Reached c names → ∃ names', act names = .error r names'

/-- A statement is lowered to its end, whatever names there are and on every page. -/
def Stmt.Completes (s : Stmt) : Prop :=
  ∀ names page, Reached c names → ∃ d, s.lower c receiver { names, page } = .ok () d

variable {c receiver} {act : Naming α} {course : Course} {result : Spelling → α}

theorem granted_iff (h : Asks c.program act course result) :
    Granted c act ↔ course.fault = none := by
  constructor
  · intro hgranted
    have hempty : Reached c {} := .empty
    exact (h.ok_iff hempty.sound ()).mp (hgranted {} hempty)
  · intro hf names hnames
    exact (h.ok_iff hnames.sound ()).mpr hf

theorem refusedFor_iff (h : Asks c.program act course result) {r : Refusal} :
    RefusedFor c act r ↔ course.fault = some r := by
  constructor
  · intro hrefused
    have hempty : Reached c {} := .empty
    exact (h.error_iff hempty.sound ()).mp (hrefused {} hempty)
  · intro hf names hnames
    exact (h.error_iff hnames.sound ()).mpr hf

theorem Stmt.completes_iff {s : Stmt} :
    s.Completes c receiver ↔ (s.course c receiver).fault = none := by
  have hfollows := s.lower_follows c receiver
  constructor
  · intro hcompletes
    have hempty : Reached c {} := .empty
    obtain ⟨d, hrun⟩ := hcompletes {} {} hempty
    exact (hfollows.ok_iff hempty.sound {}).mp ⟨(), d, hrun⟩
  · intro hf names page hnames
    exact ⟨_, hfollows.ends hf names page hnames.sound⟩

end Endings

/-! ## 2. Statements that are refused themselves -/

/-- **A statement is refused at a part of its own**, and has written these lines by then. Only a
creation without a type has any: the line of the variable, and one line for each member before the
refused one. -/
inductive BreaksAt (c : Context) (receiver : Option TypeId) (ν : Spelling) :
    Refusal → Stmt → List Line → Prop where
  | expression {r : Refusal} {e : Expr} (h : RefusedFor c (e.lower c receiver) r) :
      BreaksAt c receiver ν r (.expression e) []
  | condition {r : Refusal} {e : Expr} {body : Stmt} (h : RefusedFor c (e.lower c receiver) r) :
      BreaksAt c receiver ν r (.whileLoop e body) []
  | type {r : Refusal} {x : String} {t : TypeRef} {init : Option Expr}
      (h : RefusedFor c (localTypeName c t) r) :
      BreaksAt c receiver ν r (.localDecl x t init) []
  | value {r : Refusal} {x : String} {t : TypeRef} {e : Expr} (ht : Granted c (localTypeName c t))
      (he : ∀ args inits, e ≠ .implicitCreation args inits)
      (h : RefusedFor c (e.lower c receiver) r) :
      BreaksAt c receiver ν r (.localDecl x t (some e)) []
  | arguments {x : String} {t : TypeRef} {args : List Expr} {inits : List MemberInit}
      (ht : Granted c (localTypeName c t)) (hargs : args ≠ []) :
      BreaksAt c receiver ν
        (.unsupported "ImplicitObjectCreationExpression"
          ("constructor arguments when initializing " ++ quoted x))
        (.localDecl x t (some (.implicitCreation args inits))) []
  | member {r : Refusal} {x : String} {t : TypeRef} {written rest : List MemberInit}
      {m : String} {e : Expr} (ht : Granted c (localTypeName c t))
      (hw : ∀ m' e', .mk m' e' ∈ written → Granted c (e'.lower c receiver))
      (h : RefusedFor c (e.lower c receiver) r) :
      BreaksAt c receiver ν r (.localDecl x t
        (some (.implicitCreation [] (written ++ .mk m e :: rest))))
        ((0, localTypeText c ν t ++ " " ++ x ++ " = \x7b0\x7d;") ::
          written.map (MemberInit.assigned (Expr.text c ν) x))
  | kind (syntaxKind : String) :
      BreaksAt c receiver ν (.unsupported syntaxKind "statement kind is not lowered")
        (.unsupported syntaxKind) []

theorem BreaksAt.not_block {c : Context} {receiver : Option TypeId} {ν : Spelling}
    {r : Refusal} {s : Stmt} {own : List Line} (h : BreaksAt c receiver ν r s own) :
    s.isBlock = false := by
  cases h <;> rfl

/-- **What is on a page of a residue**: whole lines and a number of open blocks. -/
structure Residue.Shows (m : Residue) (lines : List Line) (opened : Nat) : Prop where
  noBlank : Row.blank ∉ m.rows
  lines_eq : rowLines m.rows = lines
  opened_eq : m.opened = opened

namespace Residue.Shows

variable {m : Residue} {lines : List Line} {opened : Nat}

theorem empty : Shows {} [] 0 := ⟨List.not_mem_nil, rfl, rfl⟩

theorem below (h : m.Shows lines opened) {rows : List Row} (hrows : Braced rows) :
    (m.below rows).Shows (rowLines rows ++ lines) opened where
  noBlank hmem := (List.mem_append.mp hmem).elim hrows.noBlank h.noBlank
  lines_eq := by
    unfold Residue.below
    rw [rowLines_append, h.lines_eq]
  opened_eq := h.opened_eq

theorem deeper (h : m.Shows lines opened) : m.deeper.Shows (lines.map Line.deeper) opened where
  noBlank := noBlank_deeper h.noBlank
  lines_eq := by
    unfold Residue.deeper
    rw [rowLines_deeper, h.lines_eq]
  opened_eq := h.opened_eq

theorem enclosed (h : m.Shows lines opened) :
    m.enclosed.Shows ((0, "\x7b") :: lines.map Line.deeper) (opened + 1) where
  noBlank hmem := noBlank_deeper h.noBlank ((List.mem_cons.mp hmem).resolve_left nofun)
  lines_eq := by
    unfold Residue.enclosed
    rw [rowLines_cons, rowLines_deeper, h.lines_eq]
  opened_eq := congrArg (· + 1) h.opened_eq

/-- The page with such a residue. -/
theorem leave_eq (h : m.Shows lines opened) (page : Page) :
    page.leave m =
      { text := page.text ++ layLines page.level lines, level := page.level + opened } := by
  unfold Page.leave
  rw [render_eq_layLines page.level h.noBlank, h.lines_eq, h.opened_eq]

end Residue.Shows

section Points

variable {c : Context} {receiver : Option TypeId} {ν : Spelling} {r : Refusal}

/-- Members up to a refused one leave their lines. -/
theorem initsLeft_shows (x m : String) {written : List MemberInit}
    (rest : List MemberInit) {e : Expr}
    (hw : ∀ m' e', .mk m' e' ∈ written → (e'.course c receiver).fault = none)
    (h : (e.course c receiver).fault = some r) :
    (initsCourse c receiver (written ++ .mk m e :: rest)).fault = some r ∧
      (initsLeft c receiver ν x (written ++ .mk m e :: rest)).Shows
        (written.map (MemberInit.assigned (Expr.text c ν) x)) 0 := by
  induction written with
  | nil =>
    refine ⟨?_, ?_⟩
    · show (e.course c receiver ++ initsCourse c receiver rest).fault = some r
      rw [Course.fault_append, h]
      rfl
    · show (Residue.andThen {} (e.course c receiver) _ _).Shows [] 0
      rw [Residue.andThen_of_fault h]
      exact .empty
  | cons first written ih =>
    cases first with
    | mk m' e' =>
      have hfirst := hw m' e' List.mem_cons_self
      obtain ⟨hfault, hshows⟩ := ih fun m'' e'' hmem => hw m'' e'' (List.mem_cons_of_mem _ hmem)
      refine ⟨?_, ?_⟩
      · show (e'.course c receiver ++ initsCourse c receiver (written ++ .mk m e :: rest)).fault =
          some r
        rw [Course.fault_append, hfirst, hfault]
        rfl
      · show (Residue.andThen {} (e'.course c receiver) _ _).Shows _ 0
        rw [Residue.andThen_of_finished hfirst]
        exact hshows.below (.line (.inl rfl))

/-- **What a statement leaves that is refused itself** are its own lines, and no open block. -/
theorem BreaksAt.shows {s : Stmt} {own : List Line} (h : BreaksAt c receiver ν r s own) :
    (s.course c receiver).fault = some r ∧ (s.left c receiver ν).Shows own 0 := by
  have hexpr := fun e : Expr => e.lower_follows c receiver
  have htype := localTypeName_follows c
  cases h with
  | @expression _ e h => exact ⟨(refusedFor_iff (hexpr e)).mp h, .empty⟩
  | @condition _ e body h =>
    have hf := (refusedFor_iff (hexpr e)).mp h
    refine ⟨?_, ?_⟩
    · rw [Stmt.course, Course.fault_append, hf]
      rfl
    · rw [Stmt.left, Residue.andThen_of_fault hf]
      exact .empty
  | @type _ x t init h =>
    have hf := (refusedFor_iff (htype t)).mp h
    refine ⟨?_, ?_⟩
    · rw [Stmt.course, Course.fault_append, hf]
      rfl
    · rw [Stmt.left]
      unfold localLeft
      split
      · split
        · rw [Residue.andThen_of_fault hf]
          exact .empty
        · exact .empty
      · exact .empty
  | @value _ x t e ht he h =>
    have hf := (granted_iff (htype t)).mp ht
    have hv := (refusedFor_iff (hexpr e)).mp h
    cases e with
    | implicitCreation args inits => exact absurd rfl (he args inits)
    | _ =>
      refine ⟨?_, .empty⟩
      rw [Stmt.course, Course.fault_append, hf]
      exact hv
  | @arguments x t args inits ht hargs =>
    have hf := (granted_iff (htype t)).mp ht
    have hempty : args.isEmpty = false := List.isEmpty_eq_false_iff.mpr hargs
    refine ⟨?_, ?_⟩
    · rw [Stmt.course, Course.fault_append, hf, initCourse, hempty]
      rfl
    · rw [Stmt.left, localLeft, hempty]
      exact .empty
  | @member _ x t written rest m e ht hw h =>
    have hf := (granted_iff (htype t)).mp ht
    have hv := (refusedFor_iff (hexpr e)).mp h
    have hwritten : ∀ m' e', .mk m' e' ∈ written → (e'.course c receiver).fault = none :=
      fun m' e' hmem => (granted_iff (hexpr e')).mp (hw m' e' hmem)
    obtain ⟨hfault, hshows⟩ := initsLeft_shows (ν := ν) x m rest hwritten hv
    have hline : localTypeText c ν t ++ " " ++ x ++ " = " ++ braced "0" ++ ";" =
        localTypeText c ν t ++ " " ++ x ++ " = \x7b0\x7d;" := by
      simp only [String.append_assoc]
      rfl
    refine ⟨?_, ?_⟩
    · rw [Stmt.course, Course.fault_append, hf]
      exact hfault
    · show (Residue.andThen {} (localTypeCourse c t) _ _).Shows _ 0
      rw [Residue.andThen_of_finished hf, ← hline]
      exact hshows.below (.line (.inl rfl))
  | kind syntaxKind => exact ⟨rfl, .empty⟩

end Points

/-! ## 3. The way to the point -/

/-- A construct around a statement: a loop, or a block with the statements before and behind. -/
inductive Enclosure where
  | loop (condition : Expr)
  | block (before behind : List Stmt)

namespace Enclosure

/-- A statement in a construct. -/
def around : Enclosure → Stmt → Stmt
  | .loop condition, s => .whileLoop condition s
  | .block before behind, s => .block (before ++ s :: behind)

def isBlock : Enclosure → Bool
  | .loop _ => false
  | .block _ _ => true

/-- All of a construct is lowered that comes before the statement in it. -/
def Passed (c : Context) (receiver : Option TypeId) : Enclosure → Prop
  | .loop condition => Granted c (condition.lower c receiver)
  | .block before _ => ∀ s ∈ before, s.Completes c receiver

end Enclosure

/-- A statement in a row of constructs, the outermost first. -/
def enclose (enclosures : List Enclosure) (s : Stmt) : Stmt := enclosures.foldr Enclosure.around s

theorem enclose_cons (e : Enclosure) (inner : List Enclosure) (s : Stmt) :
    enclose (e :: inner) s = e.around (enclose inner s) := rfl

/-- **Where a statement breaks off**: at a statement in it that is refused itself, after all that
comes before it in the constructs around it was lowered. -/
structure BreaksOff (c : Context) (receiver : Option TypeId) (ν : Spelling) (r : Refusal) (s : Stmt)
    (enclosures : List Enclosure) (point : Stmt) (own : List Line) : Prop where
  whole : s = enclose enclosures point
  passed : ∀ e ∈ enclosures, e.Passed c receiver
  breaks : BreaksAt c receiver ν r point own

/-- Whether the outermost construct of a row is a block. -/
def opensBlock (enclosures : List Enclosure) : Bool := enclosures.head?.any Enclosure.isBlock

/-- **The lines up to a point**: what opens the constructs around it, the statements before it in
blocks, and its own lines. In a block all stands a level deeper, and so it does in a loop whose body
is no block. -/
def openLines (c : Context) (ν : Spelling) (own : List Line) : List Enclosure → List Line
  | [] => own
  | .loop condition :: inner =>
    (0, "while(" ++ condition.text c ν ++ ")") ::
      if opensBlock inner then openLines c ν own inner else
        (openLines c ν own inner).map Line.deeper
  | .block before _ :: inner =>
    (0, "\x7b") :: (before.flatMap (Stmt.lines c ν) ++ openLines c ν own inner).map Line.deeper

theorem isBlock_enclose {s : Stmt} (hs : s.isBlock = false) (enclosures : List Enclosure) :
    (enclose enclosures s).isBlock = opensBlock enclosures := by
  cases enclosures with
  | nil => exact hs
  | cons e inner => cases e <;> rfl

section Ways

variable {c : Context} {receiver : Option TypeId} {ν : Spelling} {r : Refusal}

/-- Statements up to a refused one leave their lines, and what that one leaves. -/
theorem allLeft_shows {before : List Stmt} {s : Stmt} (behind : List Stmt)
    {lines : List Line} {n : Nat} (hb : ∀ b ∈ before, (b.course c receiver).fault = none)
    (hs : (s.course c receiver).fault = some r) (hshows : (s.left c receiver ν).Shows lines n) :
    (allCourse c receiver (before ++ s :: behind)).fault = some r ∧
      (allLeft c receiver ν (before ++ s :: behind)).Shows
        (before.flatMap (Stmt.lines c ν) ++ lines) n := by
  induction before with
  | nil =>
    refine ⟨?_, ?_⟩
    · show (s.course c receiver ++ allCourse c receiver behind).fault = some r
      rw [Course.fault_append, hs]
      rfl
    · show ((s.left c receiver ν).andThen (s.course c receiver) _ _).Shows lines n
      rw [Residue.andThen_of_fault hs]
      exact hshows
  | cons first before ih =>
    have hfirst := hb first List.mem_cons_self
    obtain ⟨hfault, hrest⟩ := ih fun b hmem => hb b (List.mem_cons_of_mem _ hmem)
    refine ⟨?_, ?_⟩
    · show (first.course c receiver ++ allCourse c receiver (before ++ s :: behind)).fault = some r
      rw [Course.fault_append, hfirst, hfault]
      rfl
    · show ((first.left c receiver ν).andThen (first.course c receiver) _ _).Shows _ n
      rw [Residue.andThen_of_finished hfirst, List.flatMap_cons, List.append_assoc]
      exact hrest.below (first.rows_braced c ν)

/-- **What a statement leaves that breaks off at a point** are the lines up to the point, and as
many open blocks as there are around it. -/
theorem enclose_shows {point : Stmt} {own : List Line} (hpoint : BreaksAt c receiver ν r point own)
    (enclosures : List Enclosure) (hpassed : ∀ e ∈ enclosures, e.Passed c receiver) :
    ((enclose enclosures point).course c receiver).fault = some r ∧
      ((enclose enclosures point).left c receiver ν).Shows (openLines c ν own enclosures)
        (enclosures.countP Enclosure.isBlock) := by
  induction enclosures with
  | nil => exact hpoint.shows
  | cons e inner ih =>
    obtain ⟨hfault, hshows⟩ := ih fun e' he' => hpassed e' (List.mem_cons_of_mem _ he')
    have hthis := hpassed e List.mem_cons_self
    cases e with
    | loop condition =>
      have hf : (condition.course c receiver).fault = none :=
        (granted_iff (condition.lower_follows c receiver)).mp hthis
      rw [enclose_cons, Enclosure.around, List.countP_cons_of_neg Bool.false_ne_true]
      refine ⟨?_, ?_⟩
      · rw [Stmt.course, Course.fault_append, hf, hfault]
        rfl
      · rw [Stmt.left, Residue.andThen_of_finished hf, isBlock_enclose hpoint.not_block]
        unfold openLines
        -- a loop gives its level back, whether its body is a block or not
        cases opensBlock inner with
        | true => exact hshows.below (.line (.inr rfl))
        | false => exact hshows.deeper.below (.line (.inr rfl))
    | block before behind =>
      have hb : ∀ b ∈ before, (b.course c receiver).fault = none :=
        fun b hmem => Stmt.completes_iff.mp (hthis b hmem)
      obtain ⟨hall, hleft⟩ := allLeft_shows behind hb hfault hshows
      rw [List.countP_cons_of_pos rfl]
      exact ⟨hall, hleft.enclosed⟩

/-- The lines up to a point stand at the same depths in every statement that goes on from there. -/
theorem openLines_prefix {own : List Line} {s : Stmt} (hs : s.isBlock = false)
    (hown : own <+: s.lines c ν) (enclosures : List Enclosure) :
    openLines c ν own enclosures <+: (enclose enclosures s).lines c ν := by
  have hlays := Stmt.lines_laysOut c ν
  induction enclosures with
  | nil => exact hown
  | cons e inner ih =>
    cases e with
    | loop condition =>
      have hlines : (enclose (.loop condition :: inner) s).lines c ν =
          (0, "while(" ++ condition.text c ν ++ ")") ::
            if opensBlock inner then (enclose inner s).lines c ν
            else ((enclose inner s).lines c ν).map Line.deeper := by
        rw [← isBlock_enclose hs inner]
        cases hbody : enclose inner s with
        | block ss =>
          exact (congrArg (Stmt.lines c ν ∘ Stmt.whileLoop condition) hbody).trans
            (hlays.loopOfBlock _ _)
        | _ =>
          exact (congrArg (Stmt.lines c ν ∘ Stmt.whileLoop condition) hbody).trans
            (hlays.loopOfOther _ _ rfl)
      rw [hlines, openLines]
      refine List.prefix_cons_inj _ |>.mpr ?_
      cases opensBlock inner with
      | true => exact ih
      | false => exact ih.map Line.deeper
    | block before behind =>
      have hlines : (enclose (.block before behind :: inner) s).lines c ν =
          (0, "\x7b") ::
            ((before.flatMap (Stmt.lines c ν) ++ (enclose inner s).lines c ν).map Line.deeper ++
              ((behind.flatMap (Stmt.lines c ν)).map Line.deeper ++ [(0, "\x7d")])) := by
        show Stmt.lines c ν (.block (before ++ enclose inner s :: behind)) = _
        rw [hlays.block, List.flatMap_append, List.flatMap_cons]
        simp only [List.map_append, List.append_assoc]
      rw [hlines, openLines]
      refine List.prefix_cons_inj _ |>.mpr ?_
      have hinner :=
        ((List.prefix_append_right_inj (before.flatMap (Stmt.lines c ν))).mpr ih).map Line.deeper
      exact hinner.trans (List.prefix_append _ _)

/-- Members of which one is refused: those before the first such one are not. -/
theorem inits_break {inits : List MemberInit} (hf : (initsCourse c receiver inits).fault = some r) :
    ∃ written m e rest, inits = written ++ .mk m e :: rest ∧
      (∀ m' e', .mk m' e' ∈ written → Granted c (e'.lower c receiver)) ∧
        RefusedFor c (e.lower c receiver) r := by
  induction inits with
  | nil => cases hf
  | cons first rest ih =>
    cases first with
    | mk m e =>
      have hexpr := e.lower_follows c receiver
      rw [initsCourse, Course.fault_append] at hf
      cases he : (e.course c receiver).fault with
      | some r' =>
        rw [he] at hf
        cases hf
        exact ⟨[], m, e, rest, rfl, nofun, (refusedFor_iff hexpr).mpr he⟩
      | none =>
        rw [he, Option.none_or] at hf
        obtain ⟨written, m', e', rest', rfl, hw, hr⟩ := ih hf
        refine ⟨.mk m e :: written, m', e', rest', rfl, fun m'' e'' hmem => ?_, hr⟩
        rcases List.mem_cons.mp hmem with heq | hmem
        · cases heq
          exact (granted_iff hexpr).mpr he
        · exact hw m'' e'' hmem

/-- A variable that is refused is refused at a part of its own. -/
theorem local_breaks {x : String} {t : TypeRef} {init : Option Expr}
    (hf : ((Stmt.localDecl x t init).course c receiver).fault = some r) :
    ∃ own, BreaksAt c receiver ν r (.localDecl x t init) own := by
  have htype := localTypeName_follows c t
  rw [Stmt.course, Course.fault_append] at hf
  cases ht : (localTypeCourse c t).fault with
  | some r' =>
    rw [ht] at hf
    cases hf
    exact ⟨[], .type ((refusedFor_iff htype).mpr ht)⟩
  | none =>
    have hgranted := (granted_iff htype).mpr ht
    rw [ht, Option.none_or] at hf
    cases init with
    | none => cases hf
    | some e =>
      cases e with
      | implicitCreation args inits =>
        cases args with
        | nil =>
          obtain ⟨written, m, e, rest, rfl, hw, hr⟩ := inits_break hf
          exact ⟨_, .member hgranted hw hr⟩
        | cons arg args =>
          cases hf
          exact ⟨[], .arguments hgranted (List.cons_ne_nil arg args)⟩
      | _ =>
        exact ⟨[], .value hgranted nofun
          ((refusedFor_iff (Expr.lower_follows c receiver _)).mpr hf)⟩

mutual

/-- **A refused statement breaks off at a point.** -/
theorem Stmt.breaks_off : ∀ s : Stmt, (s.course c receiver).fault = some r →
    ∃ enclosures point own, BreaksOff c receiver ν r s enclosures point own
  | .expression e, hf =>
      ⟨[], _, [], rfl, nofun, .expression ((refusedFor_iff (e.lower_follows c receiver)).mpr hf)⟩
  | .whileLoop condition body, hf => by
      have hexpr := condition.lower_follows c receiver
      rw [Stmt.course, Course.fault_append] at hf
      cases hcondition : (condition.course c receiver).fault with
      | some r' =>
        rw [hcondition] at hf
        cases hf
        exact ⟨[], _, [], rfl, nofun, .condition ((refusedFor_iff hexpr).mpr hcondition)⟩
      | none =>
        rw [hcondition, Option.none_or] at hf
        obtain ⟨enclosures, point, own, rfl, hpassed, hbreaks⟩ := Stmt.breaks_off body hf
        have hthis : Enclosure.Passed c receiver (.loop condition) :=
          (granted_iff hexpr).mpr hcondition
        exact ⟨.loop condition :: enclosures, point, own, rfl,
          List.forall_mem_cons.mpr ⟨hthis, hpassed⟩, hbreaks⟩
  | .block statements, hf => by
      obtain ⟨before, behind, enclosures, point, own, rfl, hthis, hpassed, hbreaks⟩ :=
        all_break_off statements hf
      exact ⟨.block before behind :: enclosures, point, own, rfl,
        List.forall_mem_cons.mpr ⟨hthis, hpassed⟩, hbreaks⟩
  | .localDecl x t init, hf => by
      obtain ⟨own, hbreaks⟩ := local_breaks hf
      exact ⟨[], _, own, rfl, nofun, hbreaks⟩
  | .unsupported syntaxKind, hf => by
      cases hf
      exact ⟨[], _, [], rfl, nofun, .kind syntaxKind⟩

/-- Statements of which one is refused: those before the first such one are lowered. -/
theorem all_break_off : ∀ statements : List Stmt, (allCourse c receiver statements).fault = some r →
    ∃ before behind enclosures point own,
      statements = before ++ enclose enclosures point :: behind ∧
      (∀ s ∈ before, s.Completes c receiver) ∧ (∀ e ∈ enclosures, e.Passed c receiver) ∧
      BreaksAt c receiver ν r point own
  | [], hf => nomatch hf
  | s :: rest, hf => by
      rw [allCourse, Course.fault_append] at hf
      cases hs : (s.course c receiver).fault with
      | some r' =>
        rw [hs] at hf
        cases hf
        obtain ⟨enclosures, point, own, rfl, hpassed, hbreaks⟩ := Stmt.breaks_off s hs
        exact ⟨[], rest, enclosures, point, own, rfl, nofun, hpassed, hbreaks⟩
      | none =>
        rw [hs, Option.none_or] at hf
        obtain ⟨before, behind, enclosures, point, own, rfl, hbefore, hpassed, hbreaks⟩ :=
          all_break_off rest hf
        exact ⟨s :: before, behind, enclosures, point, own, rfl,
          List.forall_mem_cons.mpr ⟨Stmt.completes_iff.mpr hs, hbefore⟩, hpassed, hbreaks⟩

end

end Ways

/-! ## 4. The page after a refused statement -/

/-- **A refused statement is broken off.** If a statement is refused on one page, it breaks off at a
point. Wherever that is, it is refused alike on every page: the page then has its old text and the
lines up to the point, and its level is raised by the blocks around the point and by nothing else.
With any statement in the place of the point that begins as the point did, the whole statement has
these lines first, at these depths. -/
theorem refused_statement_broken_off {c : Context} {receiver : Option TypeId} {names : NameTable}
    (hnames : Reached c names) {s : Stmt} {start : Page} {r : Refusal} {d : Draft}
    (hrun : s.lower c receiver { names, page := start } = .error r d) :
    let ν := d.names.spelling
    (∃ enclosures point own, BreaksOff c receiver ν r s enclosures point own) ∧
    ∀ enclosures point own, BreaksOff c receiver ν r s enclosures point own →
      (∀ page : Page, s.lower c receiver { names, page } = .error r
        { names := d.names
          page :=
            { text := page.text ++ layLines page.level (openLines c ν own enclosures)
              level := page.level + enclosures.countP Enclosure.isBlock } }) ∧
      ∀ s' : Stmt, s'.isBlock = false → own <+: s'.lines c ν →
        openLines c ν own enclosures <+: (enclose enclosures s').lines c ν := by
  intro ν
  have hf : (s.course c receiver).fault = some r :=
    ((s.lower_follows c receiver).error_iff hnames.sound start).mp ⟨d, hrun⟩
  have hstops := fun page => (s.lower_leaves c receiver).stops r hf names page hnames.sound
  have hd : names.askAll c.program (s.course c receiver).asked = d.names := by
    cases (hstops start).symm.trans hrun
    rfl
  rw [hd] at hstops
  refine ⟨s.breaks_off hf, fun enclosures point own hpoint =>
    ⟨fun page => ?_, fun s' hs' hown => ?_⟩⟩
  · obtain ⟨rfl, hpassed, hbreaks⟩ := hpoint
    have hshows := (enclose_shows hbreaks enclosures hpassed).2
    rw [← hshows.leave_eq page]
    exact hstops page
  · exact openLines_prefix hs' hown enclosures

/-- The log is refused at its second member, in a loop without braces. -/
def lostLog : Stmt :=
  .letIn "log" (.external "Int32")
    (.implicitCreation [] [.mk "hour" (.number "4"), .mk "crew" (.literal .null "null"),
      .mk "day" (.number "2")])

/-- Two loops without braces around a block, and a third one in it around the log. -/
def lostWatch : Stmt :=
  .whileLoop (.variableNamed "dark") <| .whileLoop (.variableNamed "calm") <| .block [
    .expression (.variableNamed "watch"),
    .whileLoop (.variableNamed "awake") lostLog,
    .expression (.variableNamed "relief")]

/-- The watch breaks off at the log. On a page at the second level the log stands five levels deep,
but only the block stays open. -/
theorem lostWatch_broken_off :
    let c : Context := { program := {} }
    let r : Refusal := .unsupported "NullLiteralExpression" "null has no lowering"
    let enclosures : List Enclosure :=
      [.loop (.variableNamed "dark"), .loop (.variableNamed "calm"),
      .block [.expression (.variableNamed "watch")] [.expression (.variableNamed "relief")],
      .loop (.variableNamed "awake")]
    let own : List Line := [(0, "int log = \x7b0\x7d;"), (0, "log.hour = 4;")]
    let lines : List Line :=
      [(0, "while(dark)"), (1, "while(calm)"), (1, "\x7b"), (2, "watch;"), (2, "while(awake)"),
      (3, "int log = \x7b0\x7d;"), (3, "log.hour = 4;")]
    Reached c {} ∧ (∃ d, lostWatch.lower c none {} = .error r d) ∧
      BreaksOff c none ({} : NameTable).spelling r lostWatch enclosures lostLog own ∧
      lostWatch.lower c none { page := { text := "ahoy;\n", level := 2 } } =
        .error r { page := { text := "ahoy;\n" ++ layLines 2 lines, level := 3 } } := by
  intro c r enclosures own lines
  have hgranted : ∀ name, Granted c ((Expr.variableNamed name).lower c none) :=
    fun _ _ _ => ⟨_, _, rfl⟩
  have hpassed : ∀ e ∈ enclosures, e.Passed c none := by
    have hbefore : ∀ s ∈ [Stmt.expression (.variableNamed "watch")], s.Completes c none := by
      intro s hs names page _
      rw [List.mem_singleton.mp hs]
      exact ⟨_, rfl⟩
    simp only [enclosures, List.forall_mem_cons]
    exact ⟨hgranted "dark", hgranted "calm", hbefore, hgranted "awake", nofun⟩
  have hbreaks : BreaksAt c none ({} : NameTable).spelling r lostLog own := by
    have hwritten : ∀ m' e', .mk m' e' ∈ [MemberInit.mk "hour" (.number "4")] →
        Granted c (e'.lower c none) := by
      intro m' e' hmem names _
      cases List.mem_singleton.mp hmem
      exact ⟨_, _, rfl⟩
    have hown :
        own = (0, localTypeText c ({} : NameTable).spelling (.external "Int32") ++ " " ++ "log" ++
        " = \x7b0\x7d;") :: [MemberInit.mk "hour" (.number "4")].map
          (MemberInit.assigned (Expr.text c ({} : NameTable).spelling) "log") := by decide +kernel
    rw [hown]
    exact .member (fun _ _ => ⟨_, _, rfl⟩) hwritten fun _ _ => ⟨_, rfl⟩
  have hpoint : BreaksOff c none ({} : NameTable).spelling r lostWatch enclosures lostLog own :=
    ⟨rfl, hpassed, hbreaks⟩
  have hrun :=
    (lostWatch.lower_leaves c none).stops r (by decide +kernel) {} {} (NameTable.Sound.empty {})
  have hnames : NameTable.askAll {} {} (lostWatch.course c none).asked = {} := by decide +kernel
  rw [hnames] at hrun
  have hlines : openLines c ({} : NameTable).spelling own enclosures = lines := by decide +kernel
  obtain ⟨-, hall⟩ := refused_statement_broken_off Reached.empty hrun
  have hpage := (hall enclosures lostLog own hpoint).1 { text := "ahoy;\n", level := 2 }
  rw [hlines] at hpage
  exact ⟨.empty, ⟨_, hrun⟩, hpoint, hpage⟩

end Lowering
