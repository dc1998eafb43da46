import Lowering.Proofs.StatementCourse

/-!
# Units follow their course

The three passes go through the declarations of a program, and a whole unit follows the course of
its context: what a generator answers is decided by the program and the spelling of its keys alone.

* `Fills` -- an action on a job follows a course, writes rows and counts declarations;
* `eachFrom_follows` -- one declaration after another;
* `defineTypes_follows`, `defineAllocators_follows`, `defineFunctions_follows` -- the passes;
* `Generator.generate_of_ok`, `Generator.generate_of_fault` -- what a generator answers.
-/

namespace Lowering

/-! ## 1. Actions on a job -/

/-- Counts declarations. -/
def Metrics.counted (m : Metrics) (n : Nat) : Metrics :=
  { m with declarations := m.declarations + UInt64.ofNat n }

theorem Metrics.counted_zero (m : Metrics) : m.counted 0 = m := by
  simp [counted]

theorem Metrics.counted_counted (m : Metrics) (n k : Nat) :
    (m.counted n).counted k = m.counted (n + k) := by
  simp [counted, UInt64.ofNat_add, UInt64.add_assoc]

/-- A job of names, a page and counters. -/
def Job.of (names : NameTable) (rest : Page × Metrics) : Job :=
  { names, page := rest.1, metrics := rest.2 }

/-- **An action on a job follows a course, writes rows and counts declarations.** -/
abbrev Fills (p : Program) (act : Pass Unit) (course : Course)
    (rows : Spelling → List Row) (n : Nat) : Prop :=
  Follows p Job.of act course (fun _ => ()) fun ν rest => (rest.1.write (rows ν), rest.2.counted n)

variable {p : Program} {course course₁ course₂ : Course}
  {rows rows' : Spelling → List Row} {n k : Nat}

theorem onDraft_follows {α : Type} {act : Drafting α} {result : Spelling → α}
    {effect : Spelling → Page → Page} (h : Follows p Draft.mk act course result effect) :
    Follows p Job.of (onDraft act) course result fun ν rest => (effect ν rest.1, rest.2) where
  stemmed := h.stemmed
  reads hf ν ν' hν := by
    obtain ⟨hresult, heffect⟩ := h.reads hf ν ν' hν
    rw [hresult, heffect]
    exact ⟨rfl, rfl⟩
  ends hf t rest ht := focus_ok (h.ends hf t rest.1 ht)
  stops r hr t rest ht := by
    obtain ⟨page, hrun⟩ := h.stops r hr t rest.1 ht
    exact ⟨(page, rest.2), focus_error hrun⟩

/-- Rows that are written without counting. -/
theorem Writes.onDraft {act : Drafting Unit} (h : Writes p act course rows) :
    Fills p (onDraft act) course rows 0 :=
  (onDraft_follows h).of_eq rfl (fun _ => rfl) fun _ _ => by rw [Metrics.counted_zero]

theorem countDeclaration_follows : Fills p countDeclaration {} (fun _ => []) 1 where
  stemmed _ hk := nomatch hk
  reads _ _ _ _ := ⟨rfl, rfl⟩
  ends _ t rest _ := by
    rw [Page.write_nil]
    rfl
  stops _ h := nomatch h

theorem Fills.nil : Fills p (pure ()) {} (fun _ => []) 0 :=
  (Follows.pure ()).of_eq rfl (fun _ => rfl) fun _ rest => by
    rw [Page.write_nil, Metrics.counted_zero]
    rfl

theorem Fills.andThen {act last : Pass Unit} (h₁ : Fills p act course₁ rows n)
    (h₂ : Fills p last course₂ rows' k) :
    Fills p (act >>= fun _ => last) (course₁ ++ course₂) (fun ν => rows ν ++ rows' ν) (n + k) :=
  (Follows.andThen h₁ h₂).of_eq rfl (fun _ => rfl) fun _ _ => by
    rw [Page.write_write, Metrics.counted_counted]

/-- A declaration that is counted first. -/
theorem counted_follows {act : Drafting Unit} (h : Writes p act course rows) :
    Fills p (do countDeclaration; onDraft act) course rows 1 :=
  countDeclaration_follows.andThen h.onDraft

/-- **One declaration after another** follows their courses one after the other. -/
theorem eachFrom_follows {α : Type} {act : Nat → α → Pass Unit} {course : Nat → α → Course}
    {counts : α → Bool} (rows : Spelling → Nat → α → List Row)
    (h : ∀ i d, Fills p (act i d) (course i d) (fun ν => rows ν i d) (if counts d then 1 else 0))
    (i : Nat) (decls : List α) :
    Fills p (eachFrom act i decls) (eachCourse course i decls)
      (fun ν => (decls.zipIdx i).flatMap fun (d, j) => rows ν j d) (decls.countP counts) := by
  induction decls generalizing i with
  | nil => exact Fills.nil
  | cons d rest ih =>
    rw [List.countP_cons, Nat.add_comm]
    exact (h i d).andThen (ih (i + 1))

/-! ## 2. Types and allocators -/

theorem writeLines_follows {α : Type} (text : α → String) : ∀ l : List α,
    Writes p (l.forM fun a => writeLine (text a)) {} fun _ => l.map fun a => .line 0 (text a)
  | [] => Writes.nil
  | a :: rest => (writeLine_follows (text a)).andThen (writeLines_follows text rest)

/-- Rows one level deeper, and more rows behind them. -/
theorem nestedThen_follows {act last : Drafting Unit} (h : Writes p act course₁ rows)
    (hl : Writes p last course₂ rows') :
    Writes p (do onPage (·.indent); act; onPage (·.outdent); last) (course₁ ++ course₂)
      fun ν => (rows ν).map Row.deeper ++ rows' ν :=
  ((onPage_follows (·.indent)).andThen
    (Follows.andThen h ((onPage_follows (·.outdent)).andThen hl))).of_eq rfl (fun _ => rfl)
    fun ν page => by
      show ((page.indent.write (rows ν)).outdent).write (rows' ν) = _
      rw [Page.indented_eq, Page.write_write]

/-- Rows in braces, and more rows behind them. -/
theorem blockThen_follows {act last : Drafting Unit} (h : Writes p act course₁ rows)
    (hl : Writes p last course₂ rows') :
    Writes p (do onPage (·.openBlock); act; onPage (·.closeBlock); last) (course₁ ++ course₂)
      fun ν => .line 0 "\x7b" :: ((rows ν).map Row.deeper ++ .line 0 "\x7d" :: rows' ν) :=
  ((onPage_follows (·.openBlock)).andThen
    (Follows.andThen h ((onPage_follows (·.closeBlock)).andThen hl))).of_eq rfl (fun _ => rfl)
    fun ν page => by
      show ((page.openBlock.write (rows ν)).closeBlock).write (rows' ν) = _
      rw [Page.block_eq, Page.write_write, List.cons_append, List.append_assoc]
      rfl

variable (c : Context)

theorem structLines_follows (name : String) (fields : List FieldDecl) :
    Writes p
      (do
        writeLine ("typedef struct " ++ name ++ " \x7b")
        onPage (·.indent)
        fields.forM fun f => writeLine (f.typeText ++ " " ++ f.name ++ ";")
        onPage (·.outdent)
        writeLine ("\x7d " ++ name ++ ";")
        onPage (·.blank))
      {} fun _ => structRows name fields := by
  have hrows := (writeLine_follows ("typedef struct " ++ name ++ " \x7b")).andThen <|
    nestedThen_follows (p := p)
      (writeLines_follows (fun f => f.typeText ++ " " ++ f.name ++ ";") fields)
      ((writeLine_follows ("\x7d " ++ name ++ ";")).andThen blank_follows)
  simp only [List.map_map] at hrows
  exact hrows

theorem defineType_follows (i : Nat) (t : TypeDecl) :
    Fills c.program (defineType c i t) (typeCourse c i t) (fun ν => typeRows c ν i t)
      (if c.lowers t then 1 else 0) := by
  unfold defineType typeCourse typeRows
  by_cases hl : c.lowers t = true
  · simp only [hl, ↓reduceIte]
    refine counted_follows ?_
    have hname : Asks c.program (typeName c.program i) (.request c.program (.type i))
        fun ν => ν (.type i) :=
      request_follows c.program (.type i)
    have hrows := (onNames_follows hname).bind fun name => structLines_follows name t.fields
    rw [Course.append_nil] at hrows
    exact hrows
  · simp only [hl, Bool.false_eq_true, ↓reduceIte]
    exact Fills.nil

/-- **The first pass** asks for the names of the lowered types. -/
theorem defineTypes_follows :
    Fills c.program (defineTypes c) (eachCourse (typeCourse c) 0 c.program.types)
      (fun ν => c.program.types.zipIdx.flatMap fun (t, i) => typeRows c ν i t)
      (c.program.types.countP c.lowers) :=
  eachFrom_follows (typeRows c) (defineType_follows c) 0 c.program.types

theorem defineAllocator_follows (i : Nat) (t : TypeDecl) :
    Fills c.program (defineAllocator c i t) (allocatorCourse c i t) (fun ν => allocatorRows c ν i t)
      (if c.lowers t && !t.isStatic then 1 else 0) := by
  unfold defineAllocator allocatorCourse allocatorRows
  by_cases hl : (c.lowers t && !t.isStatic) = true
  · simp only [hl, ↓reduceIte]
    refine counted_follows ?_
    by_cases hk : (c.program.constructorsOf i).isEmpty = true
    · simp only [hk, ↓reduceIte]
      have htype : Asks c.program (typeName c.program i) (.request c.program (.type i)) fun ν =>
          ν (.type i) := request_follows c.program (.type i)
      have hname : Asks c.program (allocatorName c.program i) (.request c.program (.allocator i))
          fun ν => ν (.allocator i) := request_follows c.program (.allocator i)
      have hrows := (onNames_follows htype).bind fun type =>
        (onNames_follows hname).bind fun name =>
        (writeLine_follows (type ++ "* " ++ name ++ "()")).andThen <|
          blockThen_follows
            (writeLine_follows ("return (" ++ type ++ "*)calloc(1, sizeof(" ++ type ++ "));"))
            blank_follows
      exact hrows.of_eq (congrArg _ (Course.append_nil _)) (fun _ => rfl) fun _ _ => rfl
    · simp only [hk, Bool.false_eq_true, ↓reduceIte]
      exact Follows.refuse _
  · simp only [hl, Bool.false_eq_true, ↓reduceIte]
    exact Fills.nil

/-- **The second pass** asks for the names of the allocators. -/
theorem defineAllocators_follows :
    Fills c.program (defineAllocators c) (eachCourse (allocatorCourse c) 0 c.program.types)
      (fun ν => c.program.types.zipIdx.flatMap fun (t, i) => allocatorRows c ν i t)
      (c.program.types.countP fun t => c.lowers t && !t.isStatic) :=
  eachFrom_follows (allocatorRows c) (defineAllocator_follows c) 0 c.program.types

/-! ## 3. Functions -/

theorem functionBlock_follows (receiver : Option TypeId) (head : String) {m : MethodDecl}
    {body : List Stmt} (hb : m.body = some body) :
    Writes c.program (do writeLine head; lowerBlock c receiver body; onPage (·.blank))
      (allCourse c receiver body) fun ν => functionBlock c ν head m := by
  have hrows := (writeLine_follows head).andThen
    ((Stmt.lower_follows c receiver (.block body)).andThen blank_follows)
  refine hrows.of_eq (Course.append_nil _) (fun _ => rfl) fun ν page => ?_
  unfold functionBlock
  rw [hb]
  rfl

theorem defineMain_follows (m : MethodDecl) :
    Writes c.program (defineMain c m) (bodyCourse c none m) fun ν =>
      functionBlock c ν "int main()" m := by
  unfold defineMain bodyOf bodyCourse
  cases hb : m.body with
  | none => exact Follows.refuse _
  | some body => exact functionBlock_follows c none "int main()" hb

theorem defineMethod_follows (i : Nat) (m : MethodDecl) :
    Writes c.program (defineMethod c i m) (methodCourse c i m) fun ν =>
      match m.owner with
      | none => []
      | some owner => functionBlock c ν (methodHead ν i m owner) m := by
  unfold defineMethod bodyOf methodCourse
  cases m.owner with
  | none => exact Follows.refuse _
  | some owner =>
    cases hb : m.body with
    | none => exact Follows.refuse _
    | some body =>
      have hname : Asks c.program (methodName c.program i) (.request c.program (.method i)) fun ν =>
          ν (.method i) := request_follows c.program (.method i)
      have howner : Asks c.program (typeName c.program owner.position)
          (.request c.program (.type owner.position)) fun ν => ν (.type owner.position) :=
        request_follows c.program (.type owner.position)
      exact (onNames_follows hname).bind fun name => (onNames_follows howner).bind fun ownerName =>
        functionBlock_follows c (some owner)
          (m.returnType ++ " " ++ name ++ "(" ++ parameterList ownerName m.params ++ ")") hb

theorem defineFunction_follows (i : Nat) (m : MethodDecl) :
    Fills c.program (defineFunction c i m) (functionCourse c i m)
      (fun ν => functionRows c ν i m) 1 := by
  unfold defineFunction functionCourse functionRows
  by_cases he : m.name = c.options.entryPoint
  · simp only [he, ↓reduceIte]
    exact counted_follows (defineMain_follows c m)
  · by_cases hn : (m.isNative || m.isStatic) = true
    · simp only [he, hn, ↓reduceIte]
      exact countDeclaration_follows.andThen Fills.nil
    · simp only [he, hn, Bool.false_eq_true, ↓reduceIte]
      exact counted_follows (defineMethod_follows c i m)

/-- **The third pass** asks for the names of the methods, and for those in their bodies. -/
theorem defineFunctions_follows :
    Fills c.program (defineFunctions c) (eachCourse (functionCourse c) 0 c.program.methods)
      (fun ν => c.program.methods.zipIdx.flatMap fun (m, i) => functionRows c ν i m)
      c.program.methods.length := by
  rw [← List.countP_true]
  exact eachFrom_follows (functionRows c) (defineFunction_follows c) 0 c.program.methods

/-! ## 4. Units -/

/-- The number of declarations that a unit counts. -/
def Context.declarationCount : Nat :=
  c.program.types.countP c.lowers +
    ((c.program.types.countP fun t => c.lowers t && !t.isStatic) + c.program.methods.length)

/-- **The whole unit follows the course of its context.** -/
theorem defineUnit_follows :
    Fills c.program (defineUnit c) c.course (fun ν => c.rows ν) c.declarationCount := by
  have hpasses := (defineTypes_follows c).andThen
    ((defineAllocators_follows c).andThen (defineFunctions_follows c))
  have hunit := (writeLines_follows (fun h => h) c.options.headers).onDraft.andThen
    (blank_follows.onDraft.andThen hpasses)
  simp only [Nat.zero_add] at hunit
  exact hunit

/-- The context of a program with declared owners. -/
theorem Context.eq_of_ofProgram {o : Options} {c : Context} (h : Context.ofProgram p o = .ok c) :
    p.checkOwners = .ok () ∧ c = { program := p, options := o } := by
  unfold Context.ofProgram at h
  cases ho : p.checkOwners with
  | ok u =>
    rw [ho] at h
    exact ⟨rfl, (Except.ok.inj h).symm⟩
  | error b =>
    rw [ho] at h
    cases h

/-- The text of a unit reads the spelling of the keys that its course asks for, and no other. -/
theorem Context.unitText_congr {ν ν' : Spelling} (hf : c.course.fault = none)
    (h : ∀ k ∈ c.course.asked, ν k = ν' k) : c.unitText ν = c.unitText ν' := by
  have heffect := ((defineUnit_follows c).reads hf ν ν' h).2
  have htext := congrArg (fun rest => rest.1.text) (congrFun heffect ({}, {}))
  have htext' : "" ++ c.unitText ν = "" ++ c.unitText ν' := htext
  simpa using htext'

namespace Generator

variable {g : Generator}

/-- The names after a run: those of the course were asked for. -/
def namesAfter (g : Generator) : NameTable :=
  g.names.askAll g.context.program g.context.course.asked

theorem finished_run (ht : g.names.Sound g.context.program) (hf : g.context.course.fault = none) :
    defineUnit g.context { names := g.names, metrics := g.metrics } =
      .ok () (Job.of g.namesAfter (Page.write {} (g.context.rows g.namesAfter.spelling),
        g.metrics.counted g.context.declarationCount)) :=
  (defineUnit_follows g.context).ends hf g.names ({}, g.metrics) ht

theorem stopped_run {r : Refusal} (ht : g.names.Sound g.context.program)
    (hf : g.context.course.fault = some r) :
    ∃ rest, defineUnit g.context { names := g.names, metrics := g.metrics } =
      .error r (Job.of g.namesAfter rest) :=
  (defineUnit_follows g.context).stops r hf g.names ({}, g.metrics) ht

/-- **A unit without a fault is written** as the plan prints it with the names after the run. -/
theorem generate_of_ok (ht : g.names.Sound g.context.program) (hf : g.context.course.fault = none) :
    g.generate.1 = .ok (g.context.unitText g.namesAfter.spelling) := by
  unfold generate
  rw [finished_run ht hf]
  show Except.ok ("" ++ g.context.unitText g.namesAfter.spelling) = _
  rw [String.empty_append]

/-- **A unit with a fault is refused** with that fault. -/
theorem generate_of_fault {r : Refusal} (ht : g.names.Sound g.context.program)
    (hf : g.context.course.fault = some r) : g.generate.1 = .error r := by
  obtain ⟨rest, hrun⟩ := stopped_run ht hf
  unfold generate
  rw [hrun]

/-- A run asks for the names of the course, whether it is refused or not. -/
theorem generate_names (ht : g.names.Sound g.context.program) :
    g.generate.2.names = g.namesAfter := by
  unfold generate
  cases hf : g.context.course.fault with
  | none =>
    rw [finished_run ht hf]
    rfl
  | some r =>
    obtain ⟨rest, hrun⟩ := stopped_run ht hf
    rw [hrun]
    rfl

/-- The generator of a program with declared owners has no names yet. -/
theorem eq_of_ofProgram {p : Program} {o : Options} (h : ofProgram p o = .ok g) :
    p.checkOwners = .ok () ∧ g = { context := { program := p, options := o } } := by
  unfold ofProgram at h
  cases hc : Context.ofProgram p o with
  | ok c =>
    rw [hc] at h
    obtain ⟨ho, rfl⟩ := Context.eq_of_ofProgram hc
    exact ⟨ho, (Except.ok.inj h).symm⟩
  | error r =>
    rw [hc] at h
    cases h

theorem generate_context (g : Generator) : g.generate.2.context = g.context := by
  unfold generate
  split <;> rfl

end Generator

end Lowering
