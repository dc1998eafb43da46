import Lowering.Proofs.Owners
import Lowering.Proofs.SessionCourse

/-!
# What is lowered, and what is refused

A generator refuses a program for the first fault of the program, whatever names were granted
before, and lowers all others. The check that finds this fault asks for no names.

* `Expr.course_fault`, `Stmt.course_fault`, `Context.course_fault` -- a course ends in the first
  fault;
* `generate_decided_by_fault` -- what a generator answers on every table that can be reached.
-/

namespace Lowering

variable {p : Program}

/-! ## 1. Requests -/

theorem request_type_fault (p : Program) (i : Nat) :
    (Course.request p (.type i)).fault = nameFault p i := by
  simp only [Course.request, Program.stem, Program.typeStem, nameFault]
  cases p.typeAt i with
  | error b => rfl
  | ok t =>
    cases h : t.kind <;> simp only [h]
    rfl

theorem request_allocator_fault (p : Program) (i : Nat) :
    (Course.request p (.allocator i)).fault = nameFault p i := by
  rw [← request_type_fault]
  simp only [Course.request, Program.stem]
  cases p.typeStem i <;> rfl

theorem request_method_fault (h : p.checkOwners = .ok ()) {i : Nat} {m : MethodDecl}
    (hm : p.methodAt i = .ok m) : (Course.request p (.method i)).fault = ownerFault m := by
  rcases stem_method h hm with ⟨s, hs, hf⟩ | ⟨hs, hf⟩
  · rw [Course.request_ok hs, hf]
  · rw [Course.request_error hs, hf]
    rfl

theorem request_creator_fault (h : p.checkOwners = .ok ()) (type : TypeId)
    (constructor : Option ConstructorId) :
    (Course.request p (creationKey type constructor)).fault = creatorFault p type constructor := by
  cases constructor with
  | none => exact request_allocator_fault p type.position
  | some id =>
    simp only [creationKey, creatorFault]
    cases hk : p.constructorAt id.position with
    | error b =>
      have hs : p.stem (.constructor id.position) = .error (.broken b) := by
        simp only [Program.stem, hk]
      rw [Course.request_error hs]
      rfl
    | ok k =>
      obtain ⟨s, hs⟩ := stem_constructor h hk
      rw [Course.request_ok hs]

theorem resolveCourse_fault (c : Context) (type : TypeRef) :
    (resolveCourse c type).fault = useFault c.program type := by
  cases type with
  | declared id => exact request_type_fault c.program id.position
  | external name => rfl
  | array element => rfl

/-! ## 2. Expressions and statements -/

section Trees

variable {c : Context}

mutual

/-- **The course of an expression ends in its first fault.** -/
theorem Expr.course_fault (ho : c.program.checkOwners = .ok ()) (receiver : Option TypeId) :
    ∀ e : Expr,
      (e.course c receiver).fault = e.fault c receiver
  | .invocation target method args => by
      simp only [Expr.course, Expr.fault]
      cases hm : c.program.methodAt method.position with
      | error b => rfl
      | ok m =>
        by_cases hn : m.isNative = true
        · simp only [hn, ↓reduceIte]
          exact argsCourse_fault ho receiver args
        · simp only [hn, Bool.false_eq_true, ↓reduceIte]
          rw [Course.fault_append, Course.fault_append,
            targetCourse_fault ho receiver m.name target, request_method_fault ho hm,
            argsCourse_fault ho receiver args]
  | .elementAccess target index => by
      simp only [Expr.course, Expr.fault]
      rw [Course.fault_append, Expr.course_fault ho receiver target,
        Expr.course_fault ho receiver index]
  | .collection converted elements => by
      cases converted with
      | array element =>
        simp only [Expr.course, Expr.fault]
        rw [Course.fault_append, resolveCourse_fault, elementsCourse_fault ho receiver elements]
      | declared id => rfl
      | external name => rfl
  | .binary left _ right => by
      simp only [Expr.course, Expr.fault]
      rw [Course.fault_append, Expr.course_fault ho receiver left,
        Expr.course_fault ho receiver right]
  | .identifier name symbol => rfl
  | .implicitCreation _ _ => rfl
  | .creation type constructor args => by
      simp only [Expr.course, Expr.fault]
      cases c.representationAt type.position with
      | error b => rfl
      | ok r =>
        cases r with
        | value =>
          show (Course.request _ _ ++ argsCourse c receiver args).fault = _
          rw [Course.fault_append, request_type_fault, argsCourse_fault ho receiver args]
        | reference =>
          show (Course.request _ _ ++ argsCourse c receiver args).fault = _
          rw [Course.fault_append, request_creator_fault ho, argsCourse_fault ho receiver args]
  | .memberAccess target name symbol => by
      cases symbol with
      | property id => rfl
      | enumMember => rfl
      | _ => exact Expr.course_fault ho receiver target
  | .literal kind text => rfl
  | .prefixUnary op operand => by
      simp only [Expr.course, Expr.fault]
      split
      · exact Expr.course_fault ho receiver operand
      · rfl
  | .initializer elements => argsCourse_fault ho receiver elements
  | .assignment left _ right => by
      simp only [Expr.course, Expr.fault]
      rw [Course.fault_append, Expr.course_fault ho receiver right,
        Expr.course_fault ho receiver left]
  | .unsupported _ => rfl

theorem targetCourse_fault (ho : c.program.checkOwners = .ok ()) (receiver : Option TypeId)
    (method : String) : ∀ target : Option Expr,
    (targetCourse c receiver method target).fault = targetFault c receiver method target
  | some target => Expr.course_fault ho receiver target
  | none => rfl

theorem argsCourse_fault (ho : c.program.checkOwners = .ok ()) (receiver : Option TypeId) :
    ∀ args : List Expr,
      (argsCourse c receiver args).fault = argsFault c receiver args
  | [] => rfl
  | e :: rest => by
      simp only [argsCourse, argsFault]
      rw [Course.fault_append, Expr.course_fault ho receiver e, argsCourse_fault ho receiver rest]

theorem elementsCourse_fault (ho : c.program.checkOwners = .ok ()) (receiver : Option TypeId) :
    ∀ elements : List Element,
    (elementsCourse c receiver elements).fault = elementsFault c receiver elements
  | [] => rfl
  | .single e :: rest => by
      simp only [elementsCourse, elementsFault]
      rw [Course.fault_append, Expr.course_fault ho receiver e,
        elementsCourse_fault ho receiver rest]
  | .spread _ :: _ => rfl

end

theorem initsCourse_fault (ho : c.program.checkOwners = .ok ()) (receiver : Option TypeId) :
    ∀ inits : List MemberInit,
    (initsCourse c receiver inits).fault = initsFault c receiver inits
  | [] => rfl
  | .mk _ value :: rest => by
      simp only [initsCourse, initsFault]
      rw [Course.fault_append, Expr.course_fault ho receiver value,
        initsCourse_fault ho receiver rest]

theorem initCourse_fault (ho : c.program.checkOwners = .ok ()) (receiver : Option TypeId)
    (name : String) (init : Option Expr) :
    (initCourse c receiver name init).fault = initFault c receiver name init := by
  cases init with
  | none => rfl
  | some value =>
    cases value with
    | implicitCreation args inits =>
      simp only [initCourse, initFault]
      split
      · exact initsCourse_fault ho receiver inits
      · rfl
    | _ => exact Expr.course_fault ho receiver _

theorem localTypeCourse_fault (type : TypeRef) :
    (localTypeCourse c type).fault = localTypeFault c.program type := by
  cases type with
  | array element => exact resolveCourse_fault c element
  | declared id => exact resolveCourse_fault c (.declared id)
  | external name => exact resolveCourse_fault c (.external name)

mutual

/-- **The course of a statement ends in its first fault.** -/
theorem Stmt.course_fault (ho : c.program.checkOwners = .ok ()) (receiver : Option TypeId) :
    ∀ s : Stmt,
      (s.course c receiver).fault = s.fault c receiver
  | .expression value => Expr.course_fault ho receiver value
  | .whileLoop condition body => by
      simp only [Stmt.course, Stmt.fault]
      rw [Course.fault_append, Expr.course_fault ho receiver condition,
        Stmt.course_fault ho receiver body]
  | .block statements => allCourse_fault ho receiver statements
  | .localDecl name type init => by
      simp only [Stmt.course, Stmt.fault]
      rw [Course.fault_append, localTypeCourse_fault, initCourse_fault ho receiver name init]
  | .unsupported _ => rfl

theorem allCourse_fault (ho : c.program.checkOwners = .ok ()) (receiver : Option TypeId) :
    ∀ statements : List Stmt,
    (allCourse c receiver statements).fault = allFault c receiver statements
  | [] => rfl
  | s :: rest => by
      simp only [allCourse, allFault]
      rw [Course.fault_append, Stmt.course_fault ho receiver s, allCourse_fault ho receiver rest]

end

end Trees

/-! ## 3. Units -/

section Units

variable {α β : Type} {c : Context} {i : Nat} {t : TypeDecl} {m : MethodDecl}

/-- The first declaration that has something to report. -/
theorem findSome?_zipIdx_eq_some {report : Nat → α → Option β} {decls : List α} {b : β}
    (h : (decls.zipIdx.findSome? fun (d, i) => report i d) = some b) :
    ∃ i d, decls[i]? = some d ∧ report i d = some b ∧
      ∀ k < i, ∀ d', decls[k]? = some d' → report k d' = none := by
  obtain ⟨before, ⟨d, i⟩, after, hl, hb, hnone⟩ := List.findSome?_eq_some_iff.mp h
  have hi : decls.zipIdx[before.length]? = some (d, i) := by
    rw [hl]
    simp
  have hd := List.mem_zipIdx_iff_getElem?.mp (List.mem_of_getElem? hi)
  rw [List.getElem?_zipIdx, Option.map_eq_some_iff] at hi
  obtain ⟨_, _, he⟩ := hi
  have hlength : i = before.length := by
    have := congrArg Prod.snd he
    simpa using this.symm
  refine ⟨i, d, hd, hb, fun k hk d' hd' => ?_⟩
  have hmem : (d', k) ∈ before := by
    have hk' : decls.zipIdx[k]? = some (d', k) := by simp [List.getElem?_zipIdx, hd']
    rw [hl, List.getElem?_append_left (hlength ▸ hk)] at hk'
    exact List.mem_of_getElem? hk'
  exact hnone (d', k) hmem

theorem eachCourse_fault {course : Nat → α → Course} {fault : Nat → α → Option Refusal}
    {decls : List α} (h : ∀ i d, decls[i]? = some d → (course i d).fault = fault i d) :
    (eachCourse course 0 decls).fault = decls.zipIdx.findSome? fun (d, i) => fault i d := by
  have hmap : (decls.zipIdx.map fun (d, j) => (course j d).fault) =
      decls.zipIdx.map fun (d, j) => fault j d :=
    List.map_congr_left fun x hx => h x.2 x.1 (List.mem_zipIdx_iff_getElem?.mp hx)
  unfold eachCourse
  rw [Course.fault_all, List.findSome?_map]
  calc _ = (decls.zipIdx.map fun (d, j) => (course j d).fault).findSome? id :=
        List.findSome?_map.symm
    _ = (decls.zipIdx.map fun (d, j) => fault j d).findSome? id := by rw [hmap]
    _ = _ := List.findSome?_map

/-- A lowered type has a name. -/
theorem nameFault_of_lowers (ht : c.program.types[i]? = some t) (hl : c.lowers t = true) :
    nameFault c.program i = none := by
  have hat : c.program.typeAt i = .ok t := declarationAt_of_getElem? ht
  have hk : t.kind ≠ .enumType := by
    intro he
    unfold Context.lowers at hl
    rw [he] at hl
    cases hl
  unfold nameFault
  rw [hat]
  cases h : t.kind with
  | classType => simp only [h]
  | structType => simp only [h]
  | enumType => exact absurd h hk

/-- **The first pass has no faults.** -/
theorem typeCourse_fault (ht : c.program.types[i]? = some t) : (typeCourse c i t).fault = none := by
  unfold typeCourse
  split
  · rename_i hl
    rw [request_type_fault, nameFault_of_lowers ht hl]
  · rfl

theorem allocatorCourse_fault (ht : c.program.types[i]? = some t) :
    (allocatorCourse c i t).fault = constructorFault c i t := by
  unfold allocatorCourse constructorFault Context.hasUserConstructors
  by_cases hl : (c.lowers t && !t.isStatic) = true
  · have hname := nameFault_of_lowers ht (Bool.and_eq_true_iff.mp hl).1
    rw [if_pos hl, hl, Bool.true_and]
    cases (c.program.constructorsOf i).isEmpty with
    | true =>
      show (Course.request _ _ ++ Course.request _ _).fault = none
      rw [Course.fault_append, request_type_fault, request_allocator_fault, hname]
      rfl
    | false => rfl
  · rw [if_neg hl, Bool.eq_false_iff.mpr hl]
    rfl

theorem bodyCourse_fault (ho : c.program.checkOwners = .ok ()) (receiver : Option TypeId)
    (m : MethodDecl) : (bodyCourse c receiver m).fault = bodyFault c receiver m := by
  unfold bodyCourse bodyFault
  cases m.body with
  | none => rfl
  | some body => exact allCourse_fault ho receiver body

theorem functionCourse_fault (ho : c.program.checkOwners = .ok ())
    (hm : c.program.methods[i]? = some m) : (functionCourse c i m).fault = methodFault c m := by
  have hat : c.program.methodAt i = .ok m := declarationAt_of_getElem? hm
  have hname := request_method_fault ho hat
  unfold functionCourse methodFault
  split
  · exact bodyCourse_fault ho none m
  · split
    · rfl
    · unfold methodCourse
      cases hown : m.owner with
      | none => rfl
      | some owner =>
        cases m.body with
        | none => rfl
        | some body =>
          unfold ownerFault at hname
          rw [hown] at hname
          show (Course.request _ _ ++ (Course.request _ _ ++ allCourse _ _ _)).fault = _
          rw [Course.fault_append, Course.fault_append, hname, request_type_fault,
            allCourse_fault ho (some owner) body]
          rfl

/-- The course of the first pass ends without a fault. -/
theorem typesCourse_fault (c : Context) :
    (eachCourse (typeCourse c) 0 c.program.types).fault = none := by
  rw [eachCourse_fault fun _ _ ht => typeCourse_fault ht]
  exact List.findSome?_eq_none_iff.mpr fun _ _ => rfl

theorem findSome?_zipIdx_fst {α β : Type} (f : α → Option β) (l : List α) :
    (l.zipIdx.findSome? fun (a, _) => f a) = l.findSome? f := by
  conv => rhs; rw [← List.zipIdx_map_fst 0 l]
  rw [List.findSome?_map]
  rfl

/-- **The course of a unit ends in the first fault of the program.** -/
theorem Context.course_fault (ho : c.program.checkOwners = .ok ()) : c.course.fault = c.fault := by
  unfold Context.course Context.fault
  rw [Course.fault_append, Course.fault_append, typesCourse_fault,
    eachCourse_fault fun _ _ ht => allocatorCourse_fault ht,
    eachCourse_fault fun _ _ hm => functionCourse_fault ho hm, findSome?_zipIdx_fst]
  rfl

/-- A user constructor is reported before all faults of methods, and the first one is. -/
theorem Context.fault_of_userConstructors (ht : c.program.types[i]? = some t)
    (hk : c.hasUserConstructors i t = true) :
    ∃ j ≤ i, ∃ first, c.program.types[j]? = some first ∧ c.hasUserConstructors j first = true ∧
      (∀ k < j, ∀ t', c.program.types[k]? = some t' → c.hasUserConstructors k t' = false) ∧
      c.fault = some (.unsupported "ConstructorDeclaration"
        ("user constructors on " ++ quoted first.name ++ " are not lowered")) := by
  have hiff : ∀ k t', constructorFault c k t' = none ↔ c.hasUserConstructors k t' = false := by
    intro k t'
    unfold constructorFault
    cases c.hasUserConstructors k t' <;> simp
  have hfault : c.fault = (c.program.types.zipIdx.findSome? fun d => constructorFault c d.2 d.1).or
      (c.program.methods.findSome? (methodFault c)) := rfl
  cases hfirst : c.program.types.zipIdx.findSome? fun d => constructorFault c d.2 d.1 with
  | none =>
    have hmem : (t, i) ∈ c.program.types.zipIdx := List.mem_zipIdx_iff_getElem?.mpr ht
    have hnone := (hiff i t).mp (List.findSome?_eq_none_iff.mp hfirst (t, i) hmem)
    rw [hk] at hnone
    cases hnone
  | some r =>
    obtain ⟨j, first, hj, hr, hbefore⟩ := findSome?_zipIdx_eq_some hfirst
    refine ⟨j, ?_, first, hj, ?_, fun k hkj t' ht' => (hiff k t').mp (hbefore k hkj t' ht'), ?_⟩
    · refine Nat.le_of_not_lt fun hij => ?_
      have hnone := (hiff i t).mp (hbefore i hij t ht)
      rw [hk] at hnone
      cases hnone
    · cases hc : c.hasUserConstructors j first with
      | true => rfl
      | false =>
        rw [(hiff j first).mpr hc] at hr
        cases hr
    · rw [hfault, hfirst]
      unfold constructorFault at hr
      split at hr
      · exact hr.symm
      · cases hr

end Units

/-! ## 4. Generators -/

section Generators

variable {c : Context} {names : NameTable}

theorem generate_ok_iff (ho : c.program.checkOwners = .ok ()) {g : Generator} (hc : g.context = c)
    (hr : Reached c g.names) : (∃ code, g.generate.1 = .ok code) ↔ c.fault = none := by
  subst hc
  rw [← Context.course_fault ho]
  cases hf : g.context.course.fault with
  | none => exact ⟨fun _ => rfl, fun _ => ⟨_, Generator.generate_of_ok hr.sound hf⟩⟩
  | some r =>
    rw [Generator.generate_of_fault hr.sound hf]
    simp

theorem generate_error_iff (ho : c.program.checkOwners = .ok ()) {g : Generator}
    (hc : g.context = c) (hr : Reached c g.names) (r : Refusal) :
    g.generate.1 = .error r ↔ c.fault = some r := by
  subst hc
  rw [← Context.course_fault ho]
  cases hf : g.context.course.fault with
  | none =>
    rw [Generator.generate_of_ok hr.sound hf]
    simp
  | some r' =>
    rw [Generator.generate_of_fault hr.sound hf]
    simp

theorem defineTypes_ok {job : Job} (hr : Reached c job.names) :
    ∃ job', defineTypes c job = .ok () job' :=
  ⟨_, (defineTypes_follows c).ends (typesCourse_fault c) job.names (job.page, job.metrics) hr.sound⟩

/-- A name that is refused is refused for what the program says about its key. -/
theorem stem_of_nameOf {key : NameKey} {names' : NameTable} {r : Refusal} (hr : Reached c names)
    (h : nameOf c.program key names = .error r names') : c.program.stem key = .error r := by
  cases hs : c.program.stem key with
  | ok s =>
    rw [nameOf_ok hr.sound hs] at h
    cases h
  | error r' =>
    rw [nameOf_refused hr.sound hs] at h
    cases h
    rfl

theorem methodName_owner_declared (ho : c.program.checkOwners = .ok ())
    (hr : Reached c names) (i j : Nat) (names' : NameTable) :
    methodName c.program i names ≠ .error (.broken (.undeclared .type j)) names' := by
  intro h
  have hs : c.program.stem (.method i) = _ := stem_of_nameOf hr h
  cases hm : c.program.methodAt i with
  | error b =>
    simp only [Program.stem, hm] at hs
    cases hs
    unfold Program.methodAt declarationAt at hm
    split at hm <;> cases hm
  | ok m =>
    rcases stem_method ho hm with ⟨s, hs', _⟩ | ⟨hs', _⟩
    · rw [hs'] at hs
      cases hs
    · rw [hs'] at hs
      cases hs

theorem constructorName_owner_declared (ho : c.program.checkOwners = .ok ()) (hr : Reached c names)
    (i j : Nat) (names' : NameTable) :
    constructorName c.program i names ≠ .error (.broken (.undeclared .type j)) names' := by
  intro h
  have hs : c.program.stem (.constructor i) = _ := stem_of_nameOf hr h
  cases hk : c.program.constructorAt i with
  | error b =>
    simp only [Program.stem, hk] at hs
    cases hs
    unfold Program.constructorAt declarationAt at hk
    split at hk <;> cases hk
  | ok k =>
    obtain ⟨s, hs'⟩ := stem_constructor ho hk
    rw [hs'] at hs
    cases hs

end Generators

/-- **The first fault decides.** On every table that can be reached, a generator of a program with
declared owners lowers the program if it has no fault, and refuses it for the first fault otherwise.
The first pass is never refused, the first user constructor is reported before all faults of
methods, and no name of a method or constructor is refused for an owner that is not declared. -/
theorem generate_decided_by_fault {o : Options} {c : Context} (hc : Context.ofProgram p o = .ok c) :
    (∀ g : Generator, g.context = c → Reached c g.names →
      ((∃ code, g.generate.1 = .ok code) ↔ c.fault = none) ∧
        ∀ r, g.generate.1 = .error r ↔ c.fault = some r) ∧
    (∀ job : Job, Reached c job.names → ∃ job', defineTypes c job = .ok () job') ∧
    (∀ i t, p.types[i]? = some t → c.hasUserConstructors i t = true →
      ∃ j ≤ i, ∃ first, p.types[j]? = some first ∧ c.hasUserConstructors j first = true ∧
        (∀ k < j, ∀ t', p.types[k]? = some t' → c.hasUserConstructors k t' = false) ∧
        c.fault = some (.unsupported "ConstructorDeclaration"
          ("user constructors on " ++ quoted first.name ++ " are not lowered"))) ∧
    ∀ names, Reached c names → ∀ i j names',
      methodName p i names ≠ .error (.broken (.undeclared .type j)) names' ∧
        constructorName p i names ≠ .error (.broken (.undeclared .type j)) names' := by
  obtain ⟨ho, rfl⟩ := Context.eq_of_ofProgram hc
  refine ⟨fun g hg hr => ⟨generate_ok_iff ho hg hr, generate_error_iff ho hg hr⟩,
    fun job hr => defineTypes_ok hr, fun i t ht hk => Context.fault_of_userConstructors ht hk,
    fun names hr i j names' => ⟨?_, ?_⟩⟩
  · exact methodName_owner_declared ho hr i j names'
  · exact constructorName_owner_declared ho hr i j names'

/-- A program with two faults: a method of the first type has one, and the second type has a user
constructor. -/
def shipyard : Program where
  types := [.classNamed "Dock", .classNamed "Ship"]
  methods := [(MethodDecl.instanceOf ⟨0⟩ "build").withBody [.unsupported "GotoStatement"]]
  constructors := [{ owner := ⟨1⟩ }]

/-- The shipyard is refused for its user constructor, also in a run after a refused one, and the
definitions of its types can be written then. -/
theorem shipyard_decided_by_fault :
    let c : Context := { program := shipyard }
    let g : Generator := { context := c }
    Context.ofProgram shipyard {} = .ok c ∧ Reached c g.generate.2.names ∧
      g.generate.2.generate.1 =
        .error (.unsupported "ConstructorDeclaration"
          "user constructors on 'Ship' are not lowered") ∧
      ∃ job', defineTypes c { names := g.generate.2.names } = .ok () job' := by
  intro c g
  have hc : Context.ofProgram shipyard {} = .ok c := rfl
  have hr : Reached c g.generate.2.names := .generate g rfl .empty
  obtain ⟨hgenerate, htypes, -, -⟩ := generate_decided_by_fault hc
  have hfault : c.fault =
      some (.unsupported "ConstructorDeclaration"
        "user constructors on 'Ship' are not lowered") := by
    decide +kernel
  exact ⟨hc, hr, ((hgenerate g.generate.2 g.generate_context hr).2 _).mpr hfault, htypes _ hr⟩

end Lowering
