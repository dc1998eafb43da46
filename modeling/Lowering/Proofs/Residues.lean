import Lowering.Proofs.SessionCourse

/-!
# What refused lowerings leave

A lowering that is refused in the middle keeps what it wrote before: the rows above the refused
part, and the blocks around it, which stay open. Nothing of this depends on the page it was written
on. So it is a value of its own, made from the program and the spelling of the names that were asked
for.

* `Residue`, `Page.leave` -- rows and open blocks, and a page with them;
* `Stmt.left`, `functionLeft`, `PassKind.left` -- what statements, functions and passes leave;
* `Leaves` -- what a refused action does to the rest of its state;
* `Stmt.lower_leaves`, `PassKind.run_leaves` -- refused statements and passes.
-/

namespace Lowering

/-! ## 1. Residues -/

/-- What a refused lowering leaves on a page: whole rows, and blocks that stay open. -/
structure Residue where
  rows : List Row := []
  opened : Nat := 0
deriving DecidableEq, Repr

namespace Residue

/-- A residue below rows. -/
def below (m : Residue) (rows : List Row) : Residue := { m with rows := rows ++ m.rows }

/-- A residue one level deeper. -/
def deeper (m : Residue) : Residue := { m with rows := m.rows.map Row.deeper }

/-- A residue in a block that stays open. -/
def enclosed (m : Residue) : Residue :=
  { rows := .line 0 "\x7b" :: m.rows.map Row.deeper, opened := m.opened + 1 }

/-- What two actions leave: the residue of the first one if its course ends in a refusal, otherwise
that of the second one below the rows of the first. -/
def andThen (left : Residue) (course : Course) (rows : List Row) (next : Residue) : Residue :=
  if course.fault.isSome then left else next.below rows

theorem andThen_of_finished {course : Course} (hf : course.fault = none) (left : Residue)
    (rows : List Row) (next : Residue) : left.andThen course rows next = next.below rows := by
  unfold andThen
  rw [hf]
  rfl

theorem andThen_of_fault {course : Course} {r : Refusal} (hf : course.fault = some r)
    (left : Residue) (rows : List Row) (next : Residue) : left.andThen course rows next = left := by
  unfold andThen
  rw [hf]
  rfl

theorem andThen_empty (course : Course) : andThen {} course [] {} = {} := by
  unfold andThen
  split <;> rfl

end Residue

namespace Page

/-- The page with a residue on it. -/
def leave (p : Page) (m : Residue) : Page :=
  { text := p.text ++ render p.level m.rows, level := p.level + m.opened }

theorem leave_empty (p : Page) : p.leave {} = p := by
  simp [leave, render]

theorem leave_rows (p : Page) (rows : List Row) : p.leave { rows } = p.write rows := rfl

theorem write_leave (p : Page) (rows : List Row) (m : Residue) :
    (p.write rows).leave m = p.leave (m.below rows) := by
  simp only [write, leave, Residue.below, render_append, String.append_assoc]

/-- The level is restored after an indentation, up to the blocks that were opened in it. -/
theorem indented_leave (p : Page) (m : Residue) :
    (p.indent.leave m).outdent = p.leave m.deeper := by
  simp only [leave, indent, outdent, Residue.deeper, render_deeper, Nat.add_right_comm,
    Nat.add_sub_cancel]

/-- A block that was opened is not closed. -/
theorem openBlock_leave (p : Page) (m : Residue) : p.openBlock.leave m = p.leave m.enclosed := by
  unfold openBlock
  rw [line_eq]
  simp only [leave, write, indent, Residue.enclosed, render, render_deeper, String.append_assoc,
    String.empty_append]
  rw [Nat.add_assoc, Nat.add_comm 1]

theorem leave_andThen (p : Page) (left : Residue) (course : Course) (rows : List Row)
    (next : Residue) :
    p.leave (left.andThen course rows next) =
      if course.fault.isSome then p.leave left else (p.write rows).leave next := by
  unfold Residue.andThen
  split
  · rfl
  · rw [write_leave]

end Page

/-! ## 2. What statements leave -/

section Statements

variable (c : Context) (receiver : Option TypeId) (ν : Spelling)

/-- What assignments to members leave: one row for each member before the refused one. -/
def initsLeft (name : String) : List MemberInit → Residue
  | [] => {}
  | .mk member value :: rest =>
    Residue.andThen {} (value.course c receiver)
      [.line 0 (name ++ "." ++ member ++ " = " ++ value.text c ν ++ ";")] (initsLeft name rest)

/-- What a local variable leaves. Only a creation without a type has rows before the refusal. -/
def localLeft (name : String) (type : TypeRef) : Option Expr → Residue
  | some (.implicitCreation args inits) =>
    if args.isEmpty then
      Residue.andThen {} (localTypeCourse c type)
        [.line 0 (localTypeText c ν type ++ " " ++ name ++ " = " ++ braced "0" ++ ";")]
        (initsLeft c receiver ν name inits)
    else {}
  | _ => {}

mutual

/-- **What a refused statement leaves.** -/
def Stmt.left : Stmt → Residue
  | .expression _ => {}
  | .whileLoop condition body =>
    Residue.andThen {} (condition.course c receiver)
      [.line 0 ("while(" ++ condition.text c ν ++ ")")]
      (if body.isBlock then body.left else body.left.deeper)
  | .block statements => (allLeft statements).enclosed
  | .localDecl name type init => localLeft c receiver ν name type init
  | .unsupported _ => {}

/-- What statements leave: the rows of those before the refused one, and what that one leaves. -/
def allLeft : List Stmt → Residue
  | [] => {}
  | s :: rest => s.left.andThen (s.course c receiver) (s.rows c ν) (allLeft rest)

end

end Statements

/-! ## 3. What passes leave -/

/-- What a function leaves: nothing without a body, otherwise its head and what the body leaves. -/
def functionBlockLeft (c : Context) (receiver : Option TypeId) (ν : Spelling) (head : String)
    (m : MethodDecl) : Residue :=
  match m.body with
  | none => {}
  | some body => ((Stmt.block body).left c receiver ν).below [.line 0 head]

/-- What a method that is no entry point leaves. Nothing is written before it has its names. -/
def methodLeft (c : Context) (ν : Spelling) (i : Nat) (m : MethodDecl) : Residue :=
  match m.owner with
  | none => {}
  | some owner =>
    Residue.andThen {} (.request c.program (.method i)) [] <|
      Residue.andThen {} (.request c.program (.type owner.position)) [] <|
        functionBlockLeft c (some owner) ν (methodHead ν i m owner) m

/-- What the function of a method leaves. -/
def functionLeft (c : Context) (ν : Spelling) (i : Nat) (m : MethodDecl) : Residue :=
  if m.name = c.options.entryPoint then functionBlockLeft c none ν "int main()" m
  else methodLeft c ν i m

section Each

variable {α : Type} (course : Nat → α → Course)

/-- The declarations that are entered: those up to the first one that is refused. -/
def entered : Nat → List α → List α
  | _, [] => []
  | i, d :: rest => d :: if (course i d).fault.isSome then [] else entered (i + 1) rest

/-- What declarations leave: the rows of those before the refused one, and what that one leaves. -/
def eachLeft (rows : Nat → α → List Row) (left : Nat → α → Residue) : Nat → List α → Residue
  | _, [] => {}
  | i, d :: rest => (left i d).andThen (course i d) (rows i d) (eachLeft rows left (i + 1) rest)

end Each

namespace PassKind

/-- **What a refused pass leaves.** Types and allocators have their names before they have rows. -/
def left (c : Context) (ν : Spelling) : PassKind → Residue
  | .types => eachLeft (typeCourse c) (typeRows c ν) (fun _ _ => {}) 0 c.program.types
  | .allocators =>
    eachLeft (allocatorCourse c) (allocatorRows c ν) (fun _ _ => {}) 0 c.program.types
  | .functions =>
    eachLeft (functionCourse c) (functionRows c ν) (functionLeft c ν) 0 c.program.methods

/-- The number of declarations that a pass counts: those that it enters, also a refused one. -/
def countEntered (c : Context) : PassKind → Nat
  | .types => (entered (typeCourse c) 0 c.program.types).countP c.lowers
  | .allocators =>
    (entered (allocatorCourse c) 0 c.program.types).countP fun t => c.lowers t && !t.isStatic
  | .functions => (entered (functionCourse c) 0 c.program.methods).length

end PassKind

/-- Declarations of which none is refused are all entered. -/
theorem entered_of_finished {α : Type} {course : Nat → α → Course} {i : Nat} {decls : List α}
    (hf : (eachCourse course i decls).fault = none) : entered course i decls = decls := by
  induction decls generalizing i with
  | nil => rfl
  | cons d rest ih =>
    rw [eachCourse_fault_cons] at hf
    obtain ⟨hd, hrest⟩ := Option.or_eq_none_iff.mp hf
    simp [entered, hd, ih hrest]

theorem PassKind.countEntered_of_finished {c : Context} {kind : PassKind}
    (hf : (kind.course c).fault = none) : kind.countEntered c = kind.count c := by
  cases kind <;> simp only [countEntered, count, entered_of_finished hf]

/-! ## 4. Actions that are refused -/

/-- **What a refused action leaves.** Beside the names of its course it changes the rest of its
state by `left`, which reads the spelling of these names and of no others. -/
structure Leaves {σ ρ α : Type} (p : Program) (join : NameTable → ρ → σ) (act : Act σ α)
    (course : Course) (left : Spelling → ρ → ρ) : Prop where
  reads : ∀ r, course.fault = some r → ∀ ν ν' : Spelling, (∀ k ∈ course.asked, ν k = ν' k) →
    left ν = left ν'
  stops : ∀ r, course.fault = some r → ∀ t rest, t.Sound p →
    act (join t rest) = .error r
      (join (t.askAll p course.asked) (left (t.askAll p course.asked).spelling rest))

namespace Leaves

variable {σ ρ α β : Type} {p : Program} {join : NameTable → ρ → σ} {act : Act σ α}
  {next : α → Act σ β} {course course₁ course₂ : Course} {left left₁ : Spelling → ρ → ρ}
  {left₂ : α → Spelling → ρ → ρ} {result₁ : Spelling → α} {effect₁ : Spelling → ρ → ρ}

/-- The same residue, seen otherwise. -/
theorem of_eq {course' : Course} {left' : Spelling → ρ → ρ} (h : Leaves p join act course left)
    (hc : course = course') (hl : ∀ ν rest, left ν rest = left' ν rest) :
    Leaves p join act course' left' := by
  have hl' : left = left' := funext fun ν => funext (hl ν)
  subst hc hl'
  exact h

/-- An action that is not refused leaves whatever one likes. -/
theorem of_finished (hf : course.fault = none) : Leaves p join act course left where
  reads _ hr := nomatch hf.symm.trans hr
  stops _ hr := nomatch hf.symm.trans hr

theorem ofEmpty : Leaves p join act {} fun _ => id := of_finished rfl

theorem refuse (r : Refusal) :
    Leaves p join (refuse r : Act σ α) (.refused r) fun _ => id where
  reads _ _ _ _ _ := rfl
  stops _ h _ _ _ := by
    cases h
    rfl

/-- What comes after a refused action adds nothing to what it leaves. -/
theorem bindRefused (h : Leaves p join act course left) :
    Leaves p join (act >>= next) course left where
  reads := h.reads
  stops r hr t rest ht := bind_error (h.stops r hr t rest ht)

/-- **One action after another.** If the first one is not refused, the second one is refused in the
state that the first one leads to. -/
theorem bind (h₁ : Follows p join act course₁ result₁ effect₁)
    (l₁ : Leaves p join act course₁ left₁) (l₂ : ∀ a, Leaves p join (next a) course₂ (left₂ a)) :
    Leaves p join (act >>= next) (course₁ ++ course₂) fun ν rest =>
      if course₁.fault.isSome then left₁ ν rest else left₂ (result₁ ν) ν (effect₁ ν rest) := by
  cases hf : course₁.fault with
  | some r =>
    rw [Course.append_of_fault hf]
    simp only [Option.isSome_some, ↓reduceIte]
    exact l₁.bindRefused
  | none =>
    have hasked := Course.asked_append hf course₂
    have hfault : (course₁ ++ course₂).fault = course₂.fault := by
      rw [Course.fault_append, hf]
      rfl
    simp only [Option.isSome_none, Bool.false_eq_true, ↓reduceIte]
    refine ⟨fun r hr ν ν' hν => ?_, fun r hr t rest ht => ?_⟩
    · rw [hfault] at hr
      rw [hasked] at hν
      obtain ⟨hresult, heffect⟩ := h₁.reads hf ν ν' fun k hk => hν k (List.mem_append_left _ hk)
      have hleft := (l₂ (result₁ ν')).reads r hr ν ν' fun k hk => hν k (List.mem_append_right _ hk)
      rw [hresult, heffect, hleft]
    · rw [hfault] at hr
      rw [hasked, NameTable.askAll_append]
      have ht₁ := NameTable.Sound.askAll p course₁.asked ht
      -- what the first action did is spelled alike by the table at the end
      obtain ⟨hresult, heffect⟩ := h₁.reads hf _ _ fun k hk =>
        (NameTable.spelling_of_asked ht course₁.asked course₂.asked hk).symm
      rw [bind_ok (h₁.ends hf t rest ht), (l₂ _).stops r hr _ _ ht₁, hresult, heffect]

theorem map (h : Leaves p join act course left) (f : α → β) :
    Leaves p join (f <$> act) course left := by
  rw [map_eq_pure_bind]
  exact h.bindRefused

end Leaves

/-! ## 5. Refused actions on a draft -/

variable {α : Type} {p : Program} {course course₁ course₂ : Course}
  {left left' : Spelling → Residue}

/-- **What a refused action leaves on the page.** -/
abbrev Strands (p : Program) (act : Drafting α) (course : Course) (left : Spelling → Residue) :
    Prop :=
  Leaves p Draft.mk act course fun ν page => page.leave (left ν)

/-- A refused request leaves nothing. -/
theorem onNames_leaves {act : Naming α} {result : Spelling → α} (h : Asks p act course result) :
    Strands p (onNames act) course fun _ => {} where
  reads _ _ _ _ _ := rfl
  stops r hr t page ht := by
    obtain ⟨_, hrun⟩ := h.stops r hr t () ht
    rw [Page.leave_empty]
    exact focus_error hrun

theorem refuse_leaves (r : Refusal) : Strands p (refuse r : Drafting α) (.refused r) fun _ => {} :=
  (Leaves.refuse r).of_eq rfl fun _ page => page.leave_empty.symm

/-- Rows of one action, and what another one leaves below them. -/
theorem Strands.andThen {act last : Drafting Unit} {rows : Spelling → List Row}
    (h : Writes p act course₁ rows) (l₁ : Strands p act course₁ left)
    (l₂ : Strands p last course₂ left') :
    Strands p (act >>= fun _ => last) (course₁ ++ course₂) fun ν =>
      (left ν).andThen course₁ (rows ν) (left' ν) :=
  (Leaves.bind h l₁ fun _ => l₂).of_eq rfl fun _ page => (page.leave_andThen _ _ _ _).symm

/-- A line, and what is left below it. -/
theorem Strands.below {last : Drafting Unit} (s : String) (l : Strands p last course left) :
    Strands p (writeLine s >>= fun _ => last) course fun ν => (left ν).below [.line 0 s] :=
  (Leaves.bind (writeLine_follows s) Leaves.ofEmpty fun _ => l).of_eq rfl
    fun _ page => page.write_leave _ _

/-- After a refused request nothing is entered. -/
theorem Asks.leavesThen {act : Naming α} {next : α → Drafting Unit} {result : Spelling → α}
    {leftOf : α → Spelling → Residue} (h : Asks p act course₁ result)
    (l : ∀ a, Strands p (next a) course₂ (leftOf a)) :
    Strands p (onNames act >>= next) (course₁ ++ course₂) fun ν =>
      Residue.andThen {} course₁ [] (leftOf (result ν) ν) :=
  (Leaves.bind (onNames_follows h) (onNames_leaves h) l).of_eq rfl fun _ page => by
    rw [Page.leave_andThen, Page.write_nil]
    rfl

/-- Requests before an action that leaves nothing. -/
theorem Asks.nothing_left {act : Naming α} {next : α → Drafting Unit} {result : Spelling → α}
    (h : Asks p act course₁ result) (l : ∀ a, Strands p (next a) course₂ fun _ => {}) :
    Strands p (onNames act >>= next) (course₁ ++ course₂) fun _ => {} :=
  (h.leavesThen l).of_eq rfl fun _ _ => by rw [Residue.andThen_empty]

theorem Asks.line_leaves {act : Naming α} {result : Spelling → α} (h : Asks p act course result)
    (f : α → String) : Strands p (onNames act >>= fun a => writeLine (f a)) course fun _ => {} :=
  (h.nothing_left fun _ => Leaves.of_finished rfl).of_eq (Course.append_nil course) fun _ _ => rfl

/-- A line that is made of names, and what is left below it. -/
theorem Asks.lineThen_leaves {act : Naming α} {result : Spelling → α} {last : Drafting Unit}
    (h : Asks p act course₁ result) (f : α → String) (l : Strands p last course₂ left) :
    Strands p (onNames act >>= fun a => writeLine (f a) >>= fun _ => last)
      (course₁ ++ course₂) fun ν =>
      Residue.andThen {} course₁ [.line 0 (f (result ν))] (left ν) :=
  (h.leavesThen fun a => l.below (f a)).of_eq rfl fun ν page => by
    rw [Page.leave_andThen, Page.leave_andThen, Page.write_nil, Page.write_leave]

theorem indented_leaves {act : Drafting Unit} (l : Strands p act course left) :
    Strands p (indented act) course fun ν => (left ν).deeper := by
  have hin : Leaves p Draft.mk (indented act) course fun ν page =>
      (page.indent.leave (left ν)).outdent := by
    refine ⟨fun r hr ν ν' hν => ?_, fun r hr t page ht => ?_⟩
    · have hleft := l.reads r hr ν ν' hν
      exact funext fun page => congrArg Page.outdent (congrFun hleft page.indent)
    · unfold indented
      rw [l.stops r hr t page.indent ht]
  exact hin.of_eq rfl fun ν page => page.indented_leave (left ν)

/-- A block whose rows are refused stays open. -/
theorem block_leaves {act : Drafting Unit} (l : Strands p act course left) :
    Strands p (do onPage (·.openBlock); act; onPage (·.closeBlock)) course fun ν =>
      (left ν).enclosed :=
  (Leaves.bind (onPage_follows (·.openBlock)) Leaves.ofEmpty fun _ =>
    l.bindRefused).of_eq rfl fun ν page => page.openBlock_leave (left ν)

/-! ## 6. Statements -/

section Statements

variable (c : Context) (receiver : Option TypeId)

theorem lowerInits_leaves (name : String) : ∀ inits : List MemberInit,
    Strands c.program (lowerInits c receiver name inits) (initsCourse c receiver inits)
      fun ν => initsLeft c receiver ν name inits
  | [] => Leaves.of_finished rfl
  | .mk member value :: rest =>
      (Expr.lower_follows c receiver value).lineThen_leaves
        (fun text => name ++ "." ++ member ++ " = " ++ text ++ ";") (lowerInits_leaves name rest)

theorem lowerLocal_leaves (name : String) (type : TypeRef) (init : Option Expr) :
    Strands c.program (lowerLocal c receiver name type init)
      (localTypeCourse c type ++ initCourse c receiver name init)
      fun ν => localLeft c receiver ν name type init := by
  have htype := localTypeName_follows c type
  cases init with
  | none =>
    have hline := htype.line_leaves fun typeName => typeName ++ " " ++ name ++ ";"
    exact hline.of_eq (Course.append_nil _).symm fun _ _ => rfl
  | some value =>
    cases value with
    | implicitCreation args inits =>
      by_cases hargs : args.isEmpty = true
      · simp only [lowerLocal, initCourse, localLeft, hargs, ↓reduceIte]
        exact htype.lineThen_leaves (fun typeName =>
          typeName ++ " " ++ name ++ " = " ++ braced "0" ++ ";")
          (lowerInits_leaves c receiver name inits)
      · simp only [lowerLocal, initCourse, localLeft, hargs, Bool.false_eq_true, ↓reduceIte]
        exact htype.nothing_left fun _ => refuse_leaves _
    | _ =>
      exact htype.nothing_left fun typeName => (Expr.lower_follows c receiver _).line_leaves
        fun text => typeName ++ " " ++ name ++ " = " ++ text ++ ";"

mutual

/-- **A refused statement leaves** the rows above the refused part, and the blocks around it
open. -/
theorem Stmt.lower_leaves : ∀ s : Stmt,
    Strands c.program (s.lower c receiver) (s.course c receiver) fun ν => s.left c receiver ν
  | .expression value => (Expr.lower_follows c receiver value).line_leaves (· ++ ";")
  | .whileLoop condition body => by
      simp only [Stmt.lower, Stmt.course, Stmt.left]
      refine (Expr.lower_follows c receiver condition).lineThen_leaves
        (fun text => "while(" ++ text ++ ")") ?_
      by_cases hb : body.isBlock = true
      · simp only [hb, ↓reduceIte]
        exact Stmt.lower_leaves body
      · simp only [hb, Bool.false_eq_true, ↓reduceIte]
        exact indented_leaves (Stmt.lower_leaves body)
  | .block statements => block_leaves (lowerAll_leaves statements)
  | .localDecl name type init => lowerLocal_leaves c receiver name type init
  | .unsupported syntaxKind => refuse_leaves _

theorem lowerAll_leaves : ∀ statements : List Stmt,
    Strands c.program (lowerAll c receiver statements) (allCourse c receiver statements)
      fun ν => allLeft c receiver ν statements
  | [] => Leaves.of_finished rfl
  | s :: rest =>
      Strands.andThen (Stmt.lower_follows c receiver s) (Stmt.lower_leaves s) (lowerAll_leaves rest)

end

end Statements

/-! ## 7. Refused actions on a job -/

/-- **What a refused action leaves on the page**, with the number of declarations that it
counted. -/
abbrev Abandons (p : Program) (act : Pass Unit) (course : Course)
    (left : Spelling → Residue) (n : Nat) : Prop :=
  Leaves p Job.of act course fun ν rest => (rest.1.leave (left ν), rest.2.counted n)

theorem onDraft_leaves {act : Drafting α} (l : Strands p act course left) :
    Leaves p Job.of (onDraft act) course fun ν rest => (rest.1.leave (left ν), rest.2) where
  reads r hr ν ν' hν := by
    have hleft := l.reads r hr ν ν' hν
    exact funext fun rest => congrArg (·, rest.2) (congrFun hleft rest.1)
  stops r hr t rest ht := focus_error (l.stops r hr t rest.1 ht)

/-- A declaration is counted before it is refused. -/
theorem counted_leaves {act : Drafting Unit} (l : Strands p act course left) :
    Abandons p (do countDeclaration; onDraft act) course left 1 :=
  (Leaves.bind countDeclaration_follows Leaves.ofEmpty fun _ =>
    onDraft_leaves l).of_eq rfl fun ν rest => by
      show ((rest.1.write []).leave (left ν), rest.2.counted 1) = _
      rw [Page.write_nil]

/-- **One declaration after another**, up to the first one that is refused. -/
theorem eachFrom_leaves (counts : α → Bool) {act : Nat → α → Pass Unit} {course : Nat → α → Course}
    {rows : Spelling → Nat → α → List Row} {left : Spelling → Nat → α → Residue}
    (h : ∀ i d, Fills p (act i d) (course i d) (fun ν => rows ν i d) (if counts d then 1 else 0))
    (l : ∀ i d, Abandons p (act i d) (course i d) (fun ν => left ν i d) (if counts d then 1 else 0))
    (i : Nat) (decls : List α) :
    Abandons p (eachFrom act i decls) (eachCourse course i decls)
      (fun ν => eachLeft course (rows ν) (left ν) i decls)
        ((entered course i decls).countP counts) := by
  induction decls generalizing i with
  | nil => exact Leaves.of_finished rfl
  | cons d rest ih =>
    -- a declaration is counted whether it is refused or not, the others only if it is not
    refine (Leaves.bind (h i d) (l i d) fun _ => ih (i + 1)).of_eq rfl fun ν state => ?_
    simp only [eachLeft, entered, Page.leave_andThen, List.countP_cons]
    cases (course i d).fault with
    | some r => simp
    | none => simp [Metrics.counted_counted, Nat.add_comm]

section Passes

variable (c : Context)

theorem defineType_leaves (i : Nat) (t : TypeDecl) :
    Abandons c.program (defineType c i t) (typeCourse c i t) (fun _ => {})
      (if c.lowers t then 1 else 0) := by
  unfold defineType typeCourse
  by_cases hl : c.lowers t = true
  · simp only [hl, ↓reduceIte]
    have hname : Asks c.program (typeName c.program i) (.request c.program (.type i))
        fun ν => ν (.type i) :=
      request_follows c.program (.type i)
    refine counted_leaves ?_
    exact (hname.nothing_left fun _ => Leaves.of_finished rfl).of_eq
      (Course.append_nil _) fun _ _ => rfl
  · simp only [hl, Bool.false_eq_true, ↓reduceIte]
    exact Leaves.of_finished rfl

theorem defineAllocator_leaves (i : Nat) (t : TypeDecl) :
    Abandons c.program (defineAllocator c i t) (allocatorCourse c i t) (fun _ => {})
      (if c.lowers t && !t.isStatic then 1 else 0) := by
  unfold defineAllocator allocatorCourse
  by_cases hl : (c.lowers t && !t.isStatic) = true
  · simp only [hl, ↓reduceIte]
    refine counted_leaves ?_
    by_cases hk : (c.program.constructorsOf i).isEmpty = true
    · simp only [hk, ↓reduceIte]
      have htype : Asks c.program (typeName c.program i) (.request c.program (.type i)) fun ν =>
          ν (.type i) := request_follows c.program (.type i)
      have hname : Asks c.program (allocatorName c.program i) (.request c.program (.allocator i))
          fun ν => ν (.allocator i) := request_follows c.program (.allocator i)
      refine htype.nothing_left fun _ => ?_
      exact (hname.nothing_left fun _ => Leaves.of_finished rfl).of_eq
        (Course.append_nil _) fun _ _ => rfl
    · simp only [hk, Bool.false_eq_true, ↓reduceIte]
      exact refuse_leaves _
  · simp only [hl, Bool.false_eq_true, ↓reduceIte]
    exact Leaves.of_finished rfl

/-- A function with a body leaves its head and what the body leaves. -/
theorem functionBlock_leaves (receiver : Option TypeId) (head : String) {m : MethodDecl}
    {body : List Stmt} (hb : m.body = some body) :
    Strands c.program (do writeLine head; lowerBlock c receiver body; onPage (·.blank))
      (allCourse c receiver body) fun ν => functionBlockLeft c receiver ν head m := by
  have hbody : Strands c.program (lowerBlock c receiver body >>= fun _ => onPage (·.blank))
      (allCourse c receiver body) fun ν => (Stmt.block body).left c receiver ν :=
    (Stmt.lower_leaves c receiver (.block body)).bindRefused
  refine (hbody.below head).of_eq rfl fun ν page => ?_
  unfold functionBlockLeft
  rw [hb]

theorem defineMain_leaves (m : MethodDecl) :
    Strands c.program (defineMain c m) (bodyCourse c none m) fun ν =>
      functionBlockLeft c none ν "int main()" m := by
  cases hb : m.body with
  | none =>
    unfold defineMain bodyOf bodyCourse functionBlockLeft
    rw [hb]
    exact refuse_leaves _
  | some body =>
    have hfunction := functionBlock_leaves c none "int main()" hb
    unfold defineMain bodyOf bodyCourse
    rw [hb]
    exact hfunction

theorem defineMethod_leaves (i : Nat) (m : MethodDecl) :
    Strands c.program (defineMethod c i m) (methodCourse c i m) fun ν => methodLeft c ν i m := by
  unfold defineMethod bodyOf methodCourse methodLeft
  cases m.owner with
  | none => exact refuse_leaves _
  | some owner =>
    have hname : Asks c.program (methodName c.program i) (.request c.program (.method i)) fun ν =>
        ν (.method i) := request_follows c.program (.method i)
    have howner : Asks c.program (typeName c.program owner.position)
        (.request c.program (.type owner.position)) fun ν => ν (.type owner.position) :=
      request_follows c.program (.type owner.position)
    cases hb : m.body with
    | none =>
      refine (refuse_leaves _).of_eq rfl fun ν page => ?_
      simp only [functionBlockLeft, hb, Residue.andThen_empty]
    | some body =>
      have hrows := hname.leavesThen fun name => howner.leavesThen fun ownerName =>
        functionBlock_leaves c (some owner)
          (m.returnType ++ " " ++ name ++ "(" ++ parameterList ownerName m.params ++ ")") hb
      exact hrows

theorem defineFunction_leaves (i : Nat) (m : MethodDecl) :
    Abandons c.program (defineFunction c i m) (functionCourse c i m)
      (fun ν => functionLeft c ν i m) 1 := by
  unfold defineFunction functionCourse functionLeft
  by_cases he : m.name = c.options.entryPoint
  · simp only [he, ↓reduceIte]
    exact counted_leaves (defineMain_leaves c m)
  · by_cases hn : (m.isNative || m.isStatic) = true
    · simp only [he, hn, ↓reduceIte]
      exact Leaves.of_finished rfl
    · simp only [he, hn, Bool.false_eq_true, ↓reduceIte]
      exact counted_leaves (defineMethod_leaves c i m)

/-- **A refused pass leaves** the rows of the declarations before the refused one and what that one
leaves, and it has counted these declarations. -/
theorem PassKind.run_leaves (kind : PassKind) :
    Abandons c.program (kind.run c) (kind.course c) (fun ν => kind.left c ν)
      (kind.countEntered c) := by
  cases kind with
  | types =>
    exact eachFrom_leaves c.lowers (defineType_follows c) (defineType_leaves c) 0 c.program.types
  | allocators =>
    exact eachFrom_leaves (fun t => c.lowers t && !t.isStatic) (defineAllocator_follows c)
      (defineAllocator_leaves c) 0 c.program.types
  | functions =>
    unfold PassKind.countEntered
    rw [← List.countP_true]
    exact eachFrom_leaves (fun _ => true) (defineFunction_follows c) (defineFunction_leaves c) 0
      c.program.methods

end Passes

end Lowering
