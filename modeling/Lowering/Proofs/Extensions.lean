import Lowering.Proofs.Owners
import Lowering.Proofs.UnitCourse

/-!
# Declarations that are not lowered

A unit is made from the declarations that are lowered. More declarations of other kinds behind them
change nothing: look-ups find what they found, every action grants what it granted before, and the
passes go over the new declarations without writing.

* `Mirrors` -- an action grants whatever another one grants, with one rule for each way to put
  actions together;
* `Program.extend` -- a program with more declarations behind its own;
* `Expr.lower_mirrors`, `Stmt.lower_mirrors` -- trees are lowered alike in the longer program;
* `Inert` -- declarations that are not lowered, and `defineUnit_mirrors` -- what they leave as it
  is.
-/

namespace Lowering

/-! ## 1. Actions that mirror others -/

/-- **An action mirrors another one**: what the other grants in a state, this one grants in every
related state, and the states that they reach are related. Nothing is said where the other
refuses. -/
def Mirrors {σ τ α : Type} (R : σ → τ → Prop) (act : Act σ α) (mirror : Act τ α) : Prop :=
  ∀ s t, R s t → ∀ a s', act s = .ok a s' → ∃ t', mirror t = .ok a t' ∧ R s' t'

namespace Mirrors

variable {σ τ α β : Type} {R : σ → τ → Prop} {act : Act σ α} {mirror : Act τ α}

theorem same (act : Act σ α) : Mirrors Eq act act := by
  rintro s _ rfl a s' h
  exact ⟨s', h, rfl⟩

theorem pure (a : α) : Mirrors R (pure a) (pure a) := by
  intro s t hst b s' h
  cases h
  exact ⟨t, rfl, hst⟩

theorem refuse (r : Refusal) (mirror : Act τ α) : Mirrors R (refuse r) mirror := by
  intro s t _ a s' h
  cases h

theorem bind {next : α → Act σ β} {nextMirror : α → Act τ β} (h : Mirrors R act mirror)
    (hn : ∀ a, Mirrors R (next a) (nextMirror a)) :
    Mirrors R (act >>= next) (mirror >>= nextMirror) := by
  intro s t hst b s' hb
  cases hact : act s with
  | error r u =>
    rw [bind_error hact] at hb
    cases hb
  | ok a u =>
    rw [bind_ok hact] at hb
    obtain ⟨v, hmirror, huv⟩ := h s t hst a u hact
    obtain ⟨t', hnext, ht'⟩ := hn a u v huv b s' hb
    exact ⟨t', (bind_ok hmirror).trans hnext, ht'⟩

/-- A mirror may go on, if what it does then mirrors doing nothing. -/
theorem thenIdle {act : Act σ Unit} {mirror idle : Act τ Unit} (h : Mirrors R act mirror)
    (hidle : Mirrors R (Pure.pure ()) idle) : Mirrors R act (mirror >>= fun _ => idle) := by
  have hbind := h.bind fun _ : Unit => hidle
  rwa [bind_pure] at hbind

theorem found {look look' : Except BrokenReference α} (h : ∀ a, look = .ok a → look' = .ok a) :
    Mirrors R (found look) (found look') := by
  cases look with
  | error b => exact refuse _ _
  | ok a =>
    rw [h a rfl]
    exact pure a

theorem focus {ρ : Type} {view : ρ → σ} {put : σ → ρ → ρ} {mirror : Act σ α}
    (h : Mirrors Eq act mirror) : Mirrors Eq (focus view put act) (focus view put mirror) := by
  rintro s _ rfl a s' hs
  cases hact : act (view s) with
  | error r u =>
    rw [focus_error hact] at hs
    cases hs
  | ok b u =>
    rw [focus_ok hact] at hs
    cases hs
    obtain ⟨_, hmirror, rfl⟩ := h (view s) (view s) rfl a u hact
    exact ⟨put u s, focus_ok hmirror, rfl⟩

theorem indented {act mirror : Drafting α} (h : Mirrors Eq act mirror) :
    Mirrors Eq (indented act) (indented mirror) := by
  rintro d _ rfl a d' hd
  unfold Lowering.indented at hd ⊢
  cases hact : act { d with page := d.page.indent } with
  | error r u =>
    rw [hact] at hd
    cases hd
  | ok b u =>
    rw [hact] at hd
    cases hd
    obtain ⟨_, hmirror, rfl⟩ := h _ _ rfl a u hact
    rw [hmirror]
    exact ⟨_, rfl, rfl⟩

/-- A name is remembered, or made as the other one makes it. -/
theorem remembered {key : NameKey} {make make' : Naming String} (h : Mirrors Eq make make') :
    Mirrors Eq (remembered key make) (remembered key make') := by
  unfold Lowering.remembered
  refine (same _).bind fun t => ?_
  cases t.find? key with
  | some name => exact pure name
  | none => exact h.bind fun name => same _

end Mirrors

/-! ## 2. Longer programs -/

/-- A program with more declarations behind its own. -/
def Program.extend (p more : Program) : Program where
  types := p.types ++ more.types
  methods := p.methods ++ more.methods
  constructors := p.constructors ++ more.constructors
  properties := p.properties ++ more.properties

/-- A context with more declarations behind its own. -/
def Context.extend (c : Context) (more : Program) : Context :=
  { c with program := c.program.extend more }

/-- What is found in a list is found in a longer one. -/
theorem declarationAt_append {α : Type} {kind : DeclKind} {decls : List α} {i : Nat} {d : α}
    (h : declarationAt kind decls i = .ok d) (more : List α) :
    declarationAt kind (decls ++ more) i = .ok d := by
  have hi := getElem?_of_declarationAt h
  obtain ⟨hlt, -⟩ := List.getElem?_eq_some_iff.mp hi
  refine declarationAt_of_getElem? ?_
  rw [List.getElem?_append_left hlt]
  exact hi

section Names

variable (p more : Program)

theorem typeName_mirrors (i : Nat) : Mirrors Eq (typeName p i) (typeName (p.extend more) i) := by
  refine .remembered (.bind (.found fun t ht => declarationAt_append ht _) fun t => ?_)
  cases t.kind with
  | classType => exact .pure _
  | structType => exact .pure _
  | enumType => exact .refuse _ _

theorem methodName_mirrors (i : Nat) :
    Mirrors Eq (methodName p i) (methodName (p.extend more) i) := by
  refine .remembered (.bind (.found fun m hm => declarationAt_append hm _) fun m => ?_)
  cases m.owner with
  | none => exact .refuse _ _
  | some owner => exact .bind (.found fun t ht => declarationAt_append ht _) fun t => .same _

theorem constructorName_mirrors (i : Nat) :
    Mirrors Eq (constructorName p i) (constructorName (p.extend more) i) :=
  .remembered (.bind (.found fun _ hk => declarationAt_append hk _) fun _ =>
    .bind (.found fun _ ht => declarationAt_append ht _) fun _ => .same _)

theorem allocatorName_mirrors (i : Nat) :
    Mirrors Eq (allocatorName p i) (allocatorName (p.extend more) i) :=
  .remembered (.bind (typeName_mirrors p more i) fun _ => .same _)

end Names

/-! ## 3. Trees in longer programs -/

section Trees

variable (c : Context) (more : Program) (receiver : Option TypeId)

/-- A type that has a representation keeps it. -/
theorem representationAt_extend {i : Nat} {r : Representation} (h : c.representationAt i = .ok r) :
    (c.extend more).representationAt i = .ok r := by
  unfold Context.representationAt at h ⊢
  cases ht : c.program.typeAt i with
  | error b =>
    rw [ht] at h
    cases h
  | ok t =>
    have ht' : (c.extend more).program.typeAt i = .ok t := declarationAt_append ht _
    rw [ht']
    rw [ht] at h
    exact h

theorem resolve_mirrors (type : TypeRef) :
    Mirrors Eq (resolve c type) (resolve (c.extend more) type) := by
  cases type with
  | declared id =>
    exact .bind (typeName_mirrors c.program more id.position) fun name =>
      .bind (.found fun r hr => representationAt_extend c more hr) fun r => .pure _
  | external name => exact .same _
  | array element => exact .refuse _ _

theorem lowerIdentifier_mirrors (name : String) (symbol : Symbol) :
    Mirrors Eq (lowerIdentifier c receiver name symbol)
      (lowerIdentifier (c.extend more) receiver name symbol) := by
  cases symbol with
  | field owner =>
    unfold lowerIdentifier
    by_cases h : (owner.isSome && owner == receiver) = true
    · simp only [h, ↓reduceIte]
      exact .pure _
    · simp only [h]
      exact .refuse _ _
  | _ => exact .pure _

theorem lowerProperty_mirrors (id : PropertyId) :
    Mirrors Eq (lowerProperty c id) (lowerProperty (c.extend more) id) :=
  .bind (.found fun _ hd => declarationAt_append hd _) fun _ => .same _

mutual

/-- **An expression is lowered alike in a longer program.** -/
theorem Expr.lower_mirrors : ∀ e : Expr,
    Mirrors Eq (e.lower c receiver) (e.lower (c.extend more) receiver)
  | .invocation target method args => by
      simp only [Expr.lower]
      refine .bind (.found fun m hm => declarationAt_append hm _) fun m => ?_
      by_cases hm : m.isNative = true
      · simp only [hm, ↓reduceIte]
        exact .bind (lowerArgs_mirrors args) fun values => .same _
      · simp only [hm, Bool.false_eq_true, ↓reduceIte]
        exact .bind (lowerTarget_mirrors m.name target) fun self =>
          .bind (methodName_mirrors c.program more method.position) fun name =>
            .bind (lowerArgs_mirrors args) fun values => .pure _
  | .elementAccess target index => by
      simp only [Expr.lower]
      exact .bind (Expr.lower_mirrors target) fun _ =>
        .bind (Expr.lower_mirrors index) fun _ => .pure _
  | .collection converted elements => by
      simp only [Expr.lower]
      cases converted with
      | array element =>
        exact .bind (resolve_mirrors c more element) fun _ =>
          .bind (lowerElements_mirrors elements) fun _ => .pure _
      | declared id => exact .refuse _ _
      | external name => exact .refuse _ _
  | .binary left op right => by
      simp only [Expr.lower]
      exact .bind (Expr.lower_mirrors left) fun _ =>
        .bind (Expr.lower_mirrors right) fun _ => .pure _
  | .identifier name symbol => by
      simp only [Expr.lower]
      exact lowerIdentifier_mirrors c more receiver name symbol
  | .implicitCreation args inits => by
      simp only [Expr.lower]
      exact .refuse _ _
  | .creation type constructor args => by
      simp only [Expr.lower]
      refine .bind (.found fun r hr => representationAt_extend c more hr) fun r => ?_
      cases r with
      | value =>
        exact .bind (typeName_mirrors c.program more type.position) fun _ =>
          .bind (lowerArgs_mirrors args) fun _ => .pure _
      | reference =>
        cases constructor with
        | none =>
          exact .bind (allocatorName_mirrors c.program more type.position) fun _ =>
            .bind (lowerArgs_mirrors args) fun _ => .pure _
        | some id =>
          exact .bind (constructorName_mirrors c.program more id.position) fun _ =>
            .bind (lowerArgs_mirrors args) fun _ => .pure _
  | .memberAccess target name symbol => by
      simp only [Expr.lower]
      cases symbol with
      | property id => exact lowerProperty_mirrors c more id
      | enumMember => exact .pure _
      | field owner => exact .bind (Expr.lower_mirrors target) fun _ => .pure _
      | method id => exact Expr.lower_mirrors target
      | localVariable => exact Expr.lower_mirrors target
      | typeName => exact Expr.lower_mirrors target
  | .literal kind text => by
      simp only [Expr.lower]
      exact .same _
  | .prefixUnary op operand => by
      simp only [Expr.lower]
      by_cases hop : op = "!" ∨ op = "-"
      · simp only [hop, ↓reduceIte]
        exact .bind (Expr.lower_mirrors operand) fun _ => .pure _
      · simp only [hop, ↓reduceIte]
        exact .refuse _ _
  | .initializer elements => by
      simp only [Expr.lower]
      exact .bind (lowerArgs_mirrors elements) fun _ => .pure _
  | .assignment left op right => by
      simp only [Expr.lower]
      exact .bind (Expr.lower_mirrors right) fun _ =>
        .bind (Expr.lower_mirrors left) fun _ => .pure _
  | .unsupported syntaxKind => by
      simp only [Expr.lower]
      exact .refuse _ _

theorem lowerTarget_mirrors (method : String) : ∀ target : Option Expr,
    Mirrors Eq (lowerTarget c receiver method target)
      (lowerTarget (c.extend more) receiver method target)
  | some target => by
      simp only [lowerTarget]
      exact Expr.lower_mirrors target
  | none => by
      simp only [lowerTarget]
      exact .same _

theorem lowerArgs_mirrors : ∀ args : List Expr,
    Mirrors Eq (lowerArgs c receiver args) (lowerArgs (c.extend more) receiver args)
  | [] => by
      simp only [lowerArgs]
      exact .same _
  | e :: rest => by
      simp only [lowerArgs]
      exact .bind (Expr.lower_mirrors e) fun _ => .bind (lowerArgs_mirrors rest) fun _ => .pure _

theorem lowerElements_mirrors : ∀ elements : List Element,
    Mirrors Eq (lowerElements c receiver elements) (lowerElements (c.extend more) receiver elements)
  | [] => by
      simp only [lowerElements]
      exact .same _
  | .single e :: rest => by
      simp only [lowerElements]
      exact .bind (Expr.lower_mirrors e) fun _ =>
        .bind (lowerElements_mirrors rest) fun _ => .pure _
  | .spread e :: rest => by
      simp only [lowerElements]
      exact .refuse _ _

end

theorem localTypeName_mirrors (type : TypeRef) :
    Mirrors Eq (localTypeName c type) (localTypeName (c.extend more) type) := by
  cases type with
  | array element => exact .bind (resolve_mirrors c more element) fun _ => .pure _
  | declared id => exact .bind (resolve_mirrors c more (.declared id)) fun _ => .pure _
  | external name => exact .bind (resolve_mirrors c more (.external name)) fun _ => .pure _

theorem lowerInits_mirrors (name : String) : ∀ inits : List MemberInit,
    Mirrors Eq (lowerInits c receiver name inits) (lowerInits (c.extend more) receiver name inits)
  | [] => .same _
  | .mk _ value :: rest =>
      .bind (.focus (Expr.lower_mirrors c more receiver value)) fun _ =>
        .bind (.same _) fun _ => lowerInits_mirrors name rest

theorem lowerLocal_mirrors (name : String) (type : TypeRef) (init : Option Expr) :
    Mirrors Eq (lowerLocal c receiver name type init)
      (lowerLocal (c.extend more) receiver name type init) := by
  unfold lowerLocal
  refine .bind (.focus (localTypeName_mirrors c more type)) fun typeName => ?_
  cases init with
  | none => exact .same _
  | some value =>
    cases value with
    | implicitCreation args inits =>
      by_cases hargs : args.isEmpty = true
      · simp only [hargs, ↓reduceIte]
        exact .bind (.same _) fun _ => lowerInits_mirrors c more receiver name inits
      · simp only [hargs, Bool.false_eq_true, ↓reduceIte]
        exact .refuse _ _
    | _ => exact .bind (.focus (Expr.lower_mirrors c more receiver _)) fun _ => .same _

mutual

/-- **A statement is lowered alike in a longer program.** -/
theorem Stmt.lower_mirrors : ∀ s : Stmt,
    Mirrors Eq (s.lower c receiver) (s.lower (c.extend more) receiver)
  | .expression value => by
      simp only [Stmt.lower]
      exact .bind (.focus (Expr.lower_mirrors c more receiver value)) fun _ => .same _
  | .whileLoop condition body => by
      simp only [Stmt.lower]
      refine .bind (.focus (Expr.lower_mirrors c more receiver condition)) fun _ =>
        .bind (.same _) fun _ => ?_
      by_cases hb : body.isBlock = true
      · simp only [hb, ↓reduceIte]
        exact Stmt.lower_mirrors body
      · simp only [hb, Bool.false_eq_true, ↓reduceIte]
        exact .indented (Stmt.lower_mirrors body)
  | .block statements => by
      simp only [Stmt.lower]
      exact .bind (.same _) fun _ => .bind (lowerAll_mirrors statements) fun _ => .same _
  | .localDecl name type init => by
      simp only [Stmt.lower]
      exact lowerLocal_mirrors c more receiver name type init
  | .unsupported syntaxKind => by
      simp only [Stmt.lower]
      exact .refuse _ _

theorem lowerAll_mirrors : ∀ statements : List Stmt,
    Mirrors Eq (lowerAll c receiver statements) (lowerAll (c.extend more) receiver statements)
  | [] => by
      simp only [lowerAll]
      exact .same _
  | s :: rest => by
      simp only [lowerAll]
      exact .bind (Stmt.lower_mirrors s) fun _ => lowerAll_mirrors rest

end

end Trees

/-! ## 4. Going through declarations -/

/-- Jobs that agree on names and page. Counters may differ. -/
def SameDraft (j j' : Job) : Prop := j.toDraft = j'.toDraft

theorem onDraft_mirrors {α : Type} {act mirror : Drafting α} (h : Mirrors Eq act mirror) :
    Mirrors SameDraft (onDraft act) (onDraft mirror) := by
  intro j j' hjj a k hk
  unfold onDraft at hk ⊢
  cases hact : act j.toDraft with
  | error r d =>
    rw [focus_error hact] at hk
    cases hk
  | ok b d =>
    rw [focus_ok hact] at hk
    cases hk
    obtain ⟨_, hmirror, rfl⟩ := h j.toDraft j'.toDraft hjj a d hact
    exact ⟨_, focus_ok hmirror, rfl⟩

/-- Counting more is not seen on the draft. -/
theorem count_idle : Mirrors SameDraft (pure ()) countDeclaration := by
  intro j j' hjj a k hk
  cases hk
  exact ⟨_, rfl, hjj⟩

theorem count_mirrors : Mirrors SameDraft countDeclaration countDeclaration := by
  intro j j' hjj a k hk
  cases hk
  exact ⟨_, rfl, hjj⟩

section Each

variable {α : Type} {act act' : Nat → α → Pass Unit}

theorem eachFrom_append (act : Nat → α → Pass Unit) (more : List α) : ∀ (decls : List α) (i : Nat),
    eachFrom act i (decls ++ more) =
      (eachFrom act i decls >>= fun _ => eachFrom act (i + decls.length) more)
  | [], i => by
      simp [eachFrom]
  | d :: rest, i => by
      have hi : i + (d :: rest).length = i + 1 + rest.length := by
        rw [List.length_cons]
        omega
      rw [List.cons_append, eachFrom, eachFrom,
        eachFrom_append act more rest (i + 1), bind_assoc, hi]

theorem eachFrom_mirrors : ∀ (decls : List α) (i : Nat),
    (∀ k d, decls[k]? = some d → Mirrors SameDraft (act (i + k) d) (act' (i + k) d)) →
      Mirrors SameDraft (eachFrom act i decls) (eachFrom act' i decls)
  | [], _, _ => .pure ()
  | d :: rest, i, h => by
      refine .bind (h 0 d rfl) fun _ => eachFrom_mirrors rest (i + 1) fun k e hk => ?_
      have hstep := h (k + 1) e hk
      rwa [Nat.add_comm k 1, ← Nat.add_assoc] at hstep

theorem eachFrom_idle : ∀ (decls : List α) (i : Nat),
    (∀ d ∈ decls, ∀ k, Mirrors SameDraft (pure ()) (act k d)) →
      Mirrors SameDraft (pure ()) (eachFrom act i decls)
  | [], _, _ => .pure ()
  | d :: rest, i, h =>
      (h d List.mem_cons_self i).thenIdle
        (eachFrom_idle rest (i + 1) fun e he => h e (List.mem_cons_of_mem _ he))

/-- **A pass over more declarations**, behind which nothing is written. -/
theorem eachFrom_extend {decls more : List α}
    (h : ∀ i d, decls[i]? = some d → Mirrors SameDraft (act i d) (act' i d))
    (hidle : ∀ d ∈ more, ∀ i, Mirrors SameDraft (pure ()) (act' i d)) :
    Mirrors SameDraft (eachFrom act 0 decls) (eachFrom act' 0 (decls ++ more)) := by
  rw [eachFrom_append]
  refine (eachFrom_mirrors decls 0 fun k d hk => ?_).thenIdle (eachFrom_idle more _ hidle)
  rw [Nat.zero_add]
  exact h k d hk

end Each

/-! ## 5. Inert declarations -/

/-- **The types that are not lowered**: enumerations, types with the marker attribute, and the types
that are named as its definition. -/
def Options.LeavesOut (o : Options) (t : TypeDecl) : Prop :=
  t.kind = .enumType ∨ t.hasAttribute o.markerAttribute = true ∨ t.name = o.markerDefinition

/-- **Declarations that are not lowered**, to stand behind those of a program: types that are left
out, native and static methods other than the entry point, any properties, and constructors of types
that have no allocator. All owners are declared then. -/
structure Inert (o : Options) (p more : Program) : Prop where
  types : ∀ t ∈ more.types, o.LeavesOut t
  methods : ∀ m ∈ more.methods, (m.isNative = true ∨ m.isStatic = true) ∧ m.name ≠ o.entryPoint
  constructors : ∀ k ∈ more.constructors, ∀ t, (p.extend more).typeAt k.owner.position = .ok t →
    o.LeavesOut t ∨ t.isStatic = true
  owners : ∀ owner ∈ (p.extend more).owners, ∃ t, (p.extend more).typeAt owner.position = .ok t

theorem lowers_of_leavesOut {c : Context} {t : TypeDecl} (h : c.options.LeavesOut t) :
    c.lowers t = false := by
  unfold Context.lowers TypeDecl.representation
  rcases h with hkind | hmarker | hname
  · simp [hkind]
  · simp [hmarker]
  · simp [hname]

/-- More constructors of other types are not among the constructors of a type. -/
theorem constructorsOf_extend {p more : Program} {i : Nat}
    (h : ∀ k ∈ more.constructors, k.owner.position ≠ i) :
    (p.extend more).constructorsOf i = p.constructorsOf i := by
  unfold Program.constructorsOf Program.extend
  rw [List.zipIdx_append, List.filter_append, Nat.zero_add]
  -- none of the new constructors passes the test
  refine congrArg (List.map _) ((congrArg _ (List.filter_eq_nil_iff.mpr fun k hk => ?_)).trans
    (List.append_nil _))
  have hne := h k.1 (List.fst_mem_of_mem_zipIdx hk)
  simpa using hne

section Passes

variable {c : Context} {more : Program}

theorem defineType_mirrors (i : Nat) (t : TypeDecl) :
    Mirrors SameDraft (defineType c i t) (defineType (c.extend more) i t) := by
  have hsame : (c.extend more).lowers t = c.lowers t := rfl
  unfold defineType
  rw [hsame]
  by_cases hl : c.lowers t = true
  · simp only [hl, ↓reduceIte]
    exact .bind count_mirrors fun _ =>
      onDraft_mirrors (.bind (.focus (typeName_mirrors c.program more i)) fun _ => .same _)
  · simp only [hl, Bool.false_eq_true, ↓reduceIte]
    exact .pure ()

theorem defineType_idle {t : TypeDecl} (h : c.options.LeavesOut t) (i : Nat) :
    Mirrors SameDraft (pure ()) (defineType c i t) := by
  unfold defineType
  rw [lowers_of_leavesOut h]
  exact .pure ()

/-- An allocator is written alike, since no constructor of its type is new. -/
theorem defineAllocator_mirrors (h : Inert c.options c.program more) {i : Nat} {t : TypeDecl}
    (ht : c.program.types[i]? = some t) :
    Mirrors SameDraft (defineAllocator c i t) (defineAllocator (c.extend more) i t) := by
  have hsame : (c.extend more).lowers t = c.lowers t := rfl
  unfold defineAllocator
  rw [hsame]
  by_cases hl : (c.lowers t && !t.isStatic) = true
  · have hnew : ∀ k ∈ more.constructors, k.owner.position ≠ i := by
      rintro k hk rfl
      have hat : (c.program.extend more).typeAt k.owner.position = .ok t :=
        declarationAt_append (declarationAt_of_getElem? ht) _
      rw [Bool.and_eq_true, Bool.not_eq_true'] at hl
      rcases h.constructors k hk t hat with hout | hstatic
      · rw [lowers_of_leavesOut hout] at hl
        cases hl.1
      · rw [hstatic] at hl
        cases hl.2
    have hconstructors : (c.extend more).program.constructorsOf i = c.program.constructorsOf i :=
      constructorsOf_extend hnew
    rw [hconstructors]
    simp only [hl, ↓reduceIte]
    refine .bind count_mirrors fun _ => onDraft_mirrors ?_
    by_cases hc : (c.program.constructorsOf i).isEmpty = true
    · simp only [hc, ↓reduceIte]
      exact .bind (.focus (typeName_mirrors c.program more i)) fun _ =>
        .bind (.focus (allocatorName_mirrors c.program more i)) fun _ => .same _
    · simp only [hc, Bool.false_eq_true, ↓reduceIte]
      exact .refuse _ _
  · simp only [hl, Bool.false_eq_true, ↓reduceIte]
    exact .pure ()

theorem defineAllocator_idle {t : TypeDecl} (h : c.options.LeavesOut t) (i : Nat) :
    Mirrors SameDraft (pure ()) (defineAllocator c i t) := by
  unfold defineAllocator
  rw [lowers_of_leavesOut h, Bool.false_and]
  exact .pure ()

theorem defineFunction_mirrors (i : Nat) (m : MethodDecl) :
    Mirrors SameDraft (defineFunction c i m) (defineFunction (c.extend more) i m) := by
  unfold defineFunction
  refine .bind count_mirrors fun _ => ?_
  show Mirrors SameDraft _ (if m.name = c.options.entryPoint then _ else _)
  by_cases hentry : m.name = c.options.entryPoint
  · rw [if_pos hentry, if_pos hentry]
    exact onDraft_mirrors (.bind (.same _) fun body => .bind (.same _) fun _ =>
      .bind (Stmt.lower_mirrors c more none (.block body)) fun _ => .same _)
  · rw [if_neg hentry, if_neg hentry]
    by_cases hout : (m.isNative || m.isStatic) = true
    · rw [if_pos hout, if_pos hout]
      exact .pure ()
    · rw [if_neg hout, if_neg hout]
      refine onDraft_mirrors ?_
      unfold defineMethod
      cases m.owner with
      | none => exact .refuse _ _
      | some owner =>
        exact .bind (.same _) fun body =>
          .bind (.focus (methodName_mirrors c.program more i)) fun _ =>
          .bind (.focus (typeName_mirrors c.program more owner.position)) fun _ =>
          .bind (.same _) fun _ =>
          .bind (Stmt.lower_mirrors c more (some owner) (.block body)) fun _ => .same _

theorem defineFunction_idle {m : MethodDecl} (hout : m.isNative = true ∨ m.isStatic = true)
    (hentry : m.name ≠ c.options.entryPoint) (i : Nat) :
    Mirrors SameDraft (pure ()) (defineFunction c i m) := by
  have hout' : (m.isNative || m.isStatic) = true := Bool.or_eq_true_iff.mpr hout
  unfold defineFunction
  rw [if_neg hentry, if_pos hout']
  exact count_idle.thenIdle (.pure ())

/-- **A unit is written alike with inert declarations behind the others.** -/
theorem defineUnit_mirrors (h : Inert c.options c.program more) :
    Mirrors SameDraft (defineUnit c) (defineUnit (c.extend more)) := by
  have htypes : Mirrors SameDraft (defineTypes c) (defineTypes (c.extend more)) :=
    eachFrom_extend (fun i t _ => defineType_mirrors i t) fun t ht i =>
      defineType_idle (c := c.extend more) (h.types t ht) i
  have hallocators : Mirrors SameDraft (defineAllocators c) (defineAllocators (c.extend more)) :=
    eachFrom_extend (fun _ _ ht => defineAllocator_mirrors h ht) fun t ht i =>
      defineAllocator_idle (c := c.extend more) (h.types t ht) i
  have hfunctions : Mirrors SameDraft (defineFunctions c) (defineFunctions (c.extend more)) :=
    eachFrom_extend (fun i m _ => defineFunction_mirrors i m) fun m hm i =>
      defineFunction_idle (c := c.extend more) (h.methods m hm).1 (h.methods m hm).2 i
  unfold defineUnit
  exact .bind (onDraft_mirrors (.same _)) fun _ => .bind (onDraft_mirrors (.same _)) fun _ =>
    .bind htypes fun _ => .bind hallocators fun _ => hfunctions

end Passes

/-- What a generator wrote is what its unit has on the page. -/
theorem Generator.unit_of_generate {g : Generator} {code : String} (h : g.generate.1 = .ok code) :
    ∃ job, defineUnit g.context { names := g.names, metrics := g.metrics } = .ok () job ∧
      job.page.text = code := by
  unfold Generator.generate at h
  cases hunit : defineUnit g.context { names := g.names, metrics := g.metrics } with
  | error r job =>
    rw [hunit] at h
    cases h
  | ok u job =>
    rw [hunit] at h
    exact ⟨job, rfl, Except.ok.inj h⟩

/-- **Declarations that are not lowered do not interfere.** Behind a program that is lowered, they
leave the code as it is. -/
theorem inert_declarations_keep_code {p more : Program} {o : Options}
    {g : Generator} {code : String} (hg : Generator.ofProgram p o = .ok g)
    (hcode : g.generate.1 = .ok code) (h : Inert o p more) :
    ∃ g', Generator.ofProgram (p.extend more) o = .ok g' ∧ g'.generate.1 = .ok code := by
  obtain ⟨-, rfl⟩ := Generator.eq_of_ofProgram hg
  obtain ⟨job, hunit, htext⟩ := Generator.unit_of_generate hcode
  have howners : (p.extend more).checkOwners = .ok () := checkOwners_iff.mpr h.owners
  refine ⟨{ context := { program := p.extend more, options := o } }, ?_, ?_⟩
  · unfold Generator.ofProgram Context.ofProgram
    rw [howners]
    rfl
  · obtain ⟨job', hunit', hsame⟩ :=
      defineUnit_mirrors (c := { program := p, options := o }) h _ _ rfl () job hunit
    have hpage : job'.page = job.page := congrArg Draft.page hsame.symm
    unfold Generator.generate
    simp only [Context.extend] at hunit'
    rw [hunit', ← htext, ← hpage]

/-- A barge that is created and moored. -/
def quay : Program where
  types := [.classNamed "Barge"]
  methods := [
    { name := "Main", isStatic := true, body := some [
        .expression (.callOn (.creation ⟨0⟩ none []) ⟨1⟩ [])] },
    .instanceOf ⟨0⟩ "moor"]

/-- Inert declarations of each kind: an enumeration, a type held by value, the definition of the
marker, a static and a native method, constructors of the enumeration and of the type held by value,
and a property. -/
def quayside : Program where
  types :=
    [.enumNamed "Tide", (TypeDecl.classNamed "Rope").withAttribute "C", .classNamed "CAttribute"]
  methods := [(MethodDecl.instanceOf ⟨0⟩ "count").asStatic, .native none "Print"]
  constructors := [{ owner := ⟨1⟩ }, { owner := ⟨2⟩, body := some [.unsupported "GotoStatement"] }]
  properties := [{ owner := some ⟨3⟩, name := "Length" }]

theorem quayside_inert : Inert {} quay quayside where
  types t ht := by
    simp only [quayside, List.mem_cons, List.not_mem_nil, or_false] at ht
    rcases ht with rfl | rfl | rfl
    · exact .inl rfl
    · exact .inr (.inl (by decide))
    · exact .inr (.inr (by decide))
  methods m hm := by
    simp only [quayside, List.mem_cons, List.not_mem_nil, or_false] at hm
    rcases hm with rfl | rfl
    · exact ⟨.inr rfl, by decide⟩
    · exact ⟨.inl rfl, by decide⟩
  constructors k hk t ht := by
    simp only [quayside, List.mem_cons, List.not_mem_nil, or_false] at hk
    rcases hk with rfl | rfl
    · cases ht
      exact .inl (.inl rfl)
    · cases ht
      exact .inl (.inr (.inl (by decide)))
  owners owner ho := by
    have hall : ∀ i ∈ [0, 0, 3, 1, 2], ∃ t, (quay.extend quayside).typeAt i = .ok t := by
      intro i hi
      simp only [List.mem_cons, List.not_mem_nil, or_false] at hi
      rcases hi with rfl | rfl | rfl | rfl | rfl <;> exact ⟨_, rfl⟩
    exact hall owner.position (List.mem_map_of_mem (f := TypeId.position) ho)

/-- The quay with all of them is written as without. -/
theorem quayside_keeps_code :
    let g : Generator := { context := { program := quay } }
    let code := g.context.unitText g.namesAfter.spelling
    Generator.ofProgram quay {} = .ok g ∧ g.generate.1 = .ok code ∧ Inert {} quay quayside ∧
      ∃ g', Generator.ofProgram (quay.extend quayside) {} = .ok g' ∧ g'.generate.1 = .ok code := by
  intro g code
  have hg : Generator.ofProgram quay {} = .ok g := rfl
  have hcode : g.generate.1 = .ok code :=
    Generator.generate_of_ok (NameTable.Sound.empty quay) (by decide +kernel)
  exact ⟨hg, hcode, quayside_inert, inert_declarations_keep_code hg hcode quayside_inert⟩

end Lowering
