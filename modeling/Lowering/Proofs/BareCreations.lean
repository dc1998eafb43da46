import Lowering.Proofs.Representations
import Lowering.Proofs.StatementLayout

/-!
# Bare creations

A local variable that is created without a type name is zeroed, and its members are assigned one by
one. Both only make sense for an aggregate. The type of the variable is not looked at: if the type
is held by reference, or is an array, the variable is a pointer, and the same lines are written for
it.

* `DeclaredByValue` -- a variable is declared with its type, and not with a pointer to it;
* `Context.HeldInline` -- the types of such variables;
* `bare_creation_by_value_iff` -- what a bare creation writes, and when it creates an aggregate;
* `anchorage_creates_pointers` -- two pointers with members.
-/

namespace Lowering

/-! ## 1. Types of variables -/

/-- **A variable of a type is declared by value**: the type resolves to one that is held by value,
and the variable has that type, not a pointer to it. -/
def DeclaredByValue (c : Context) (names : NameTable) (type : TypeRef) : Prop :=
  ∃ resolved : ResolvedType, resolve c type names = .ok resolved names ∧ resolved.isValue = true ∧
    localTypeName c type names = .ok resolved.name names

/-- **A type is held inline**: a declared type with the marker attribute, or an outside type, which
is a primitive wherever it is lowered. -/
def Context.HeldInline (c : Context) : TypeRef → Prop
  | .declared id =>
    ∃ t, c.program.types[id.position]? = some t ∧ t.hasAttribute c.options.markerAttribute = true
  | .external _ => True
  | .array _ => False

/-- The type that has a spelling: the elements of an array, and any other type itself. -/
def TypeRef.scalar : TypeRef → TypeRef
  | .array element => element
  | type => type

section Types

variable {c : Context} {type : TypeRef}

theorem isValue_iff {id : TypeId} : c.isValue id.position = true ↔ c.HeldInline (.declared id) := by
  unfold Context.isValue
  constructor
  · intro hvalue
    cases ht : c.program.typeAt id.position with
    | error b =>
      unfold Context.representationAt at hvalue
      rw [ht] at hvalue
      cases hvalue
    | ok t =>
      have ht' := getElem?_of_declarationAt ht
      rw [representationAt_eq ht', TypeDecl.representation] at hvalue
      by_cases hmarked : t.hasAttribute c.options.markerAttribute = true
      · exact ⟨t, ht', hmarked⟩
      · rw [if_neg hmarked] at hvalue
        cases hvalue
  · rintro ⟨t, ht, hmarked⟩
    rw [representationAt_eq ht, TypeDecl.representation, if_pos hmarked]

theorem localTypeText_of_heldInline (ν : Spelling) (h : c.HeldInline type) :
    localTypeText c ν type = (resolvedType c ν type.scalar).name := by
  cases type with
  | declared id => exact if_pos (isValue_iff.mpr h)
  | external name => rfl
  | array element => exact h.elim

theorem localTypeText_of_not_heldInline (ν : Spelling) (h : ¬c.HeldInline type) :
    localTypeText c ν type = (resolvedType c ν type.scalar).name ++ "*" := by
  cases type with
  | declared id => exact if_neg (mt isValue_iff.mp h)
  | external name => exact absurd trivial h
  | array element => exact congrArg (· ++ "*") (resolvedType_name c ν element).symm

theorem localTypeCourse_eq (c : Context) (type : TypeRef) :
    localTypeCourse c type = resolveCourse c type.scalar := by
  cases type <;> rfl

section Settled

variable {whole : Course} {names : NameTable} (hsound : names.Sound c.program)
  (hf : whole.fault = none)
  (hp : Course.Part (localTypeCourse c type) whole)

include hsound hf hp

/-- On the names of a course in which the type of a variable is spelled, it is spelled at once. -/
theorem localType_settled :
    let table := names.askAll c.program whole.asked
    localTypeName c type table = .ok (localTypeText c table.spelling type) table ∧
      resolve c type.scalar table = .ok (resolvedType c table.spelling type.scalar) table := by
  refine ⟨(localTypeName_follows c type).settledIn hp hf hsound, ?_⟩
  rw [localTypeCourse_eq] at hp
  exact (resolve_follows c type.scalar).settledIn hp hf hsound

/-- **A variable is declared by value exactly if its type is held inline.** -/
theorem declaredByValue_iff :
    DeclaredByValue c (names.askAll c.program whole.asked) type ↔ c.HeldInline type := by
  obtain ⟨hlocal, hresolve⟩ := localType_settled hsound hf hp
  constructor
  · rintro ⟨resolved, hresolved, hvalue, -⟩
    cases type with
    | declared id =>
      cases hresolve.symm.trans hresolved
      refine isValue_iff.mp (Classical.byContradiction fun hreference => ?_)
      simp [TypeRef.scalar, resolvedType, ResolvedType.isValue, hreference] at hvalue
    | external name => trivial
    | array element => cases hresolved
  · intro hinline
    rw [localTypeText_of_heldInline _ hinline] at hlocal
    cases type with
    | declared id =>
      refine ⟨_, hresolve, ?_, hlocal⟩
      simp [TypeRef.scalar, resolvedType, ResolvedType.isValue, isValue_iff.mpr hinline]
    | external name => exact ⟨_, hresolve, rfl, hlocal⟩
    | array element => exact hinline.elim

end Settled

end Types

/-! ## 2. Creations with a type name -/

section Creations

variable {c : Context} {receiver : Option TypeId} {id : TypeId} {t : TypeDecl}
  {constructor : Option ConstructorId}
  {args : List Expr} {names names' : NameTable} {text : String}

/-- A creation with the name of a type is a literal if the type is held inline, and a call
otherwise. -/
theorem creation_text (hsound : names.Sound c.program) (ht : c.program.types[id.position]? = some t)
    (hrun : (Expr.creation id constructor args).lower c receiver names = .ok text names') :
    (c.HeldInline (.declared id) → ∃ values, text = compoundLiteral t.name values) ∧
      (¬c.HeldInline (.declared id) → ∃ function values, text = callText function values) := by
  obtain ⟨hf, rfl, -⟩ :=
    ((Expr.creation id constructor args).lower_follows c receiver).of_ok hsound () hrun
  have hat := representationAt_eq ht
  constructor
  · rintro ⟨t', ht', hmarked⟩
    cases ht.symm.trans ht'
    rw [TypeDecl.representation, if_pos hmarked] at hat
    have hcourse : Course.Part (.request c.program (.type id.position))
        ((Expr.creation id constructor args).course c receiver) := by
      simp only [Expr.course, hat]
      exact (Course.Part.refl _).left _
    have hname := type_spelledIn hsound hf ht hcourse
    simp only [Expr.text, hat, hname, compoundLiteral]
    exact ⟨argsText c _ args, by rw [argsText_isEmpty]⟩
  · intro hreference
    have hunmarked : ¬t.hasAttribute c.options.markerAttribute = true :=
      fun hmarked => hreference ⟨t, ht, hmarked⟩
    rw [TypeDecl.representation, if_neg hunmarked] at hat
    simp only [Expr.text, hat]
    cases constructor with
    | none => exact ⟨_, _, rfl⟩
    | some k => exact ⟨_, _, rfl⟩

end Creations

/-! ## 3. Creations without a type name -/

/-- **A variable is created bare**: without constructor arguments, by a line that zeroes it and one
line for each member, at the level of the page. -/
structure CreatedBare (c : Context) (receiver : Option TypeId) (spelled x : String)
    (args : List Expr) (inits : List MemberInit) (start : Page) (d : Draft) : Prop where
  noArgs : args = []
  page : d.page =
    { text := start.text ++ layLines start.level ((0, spelled ++ " " ++ x ++ " = \x7b0\x7d;") ::
        inits.map (MemberInit.assigned (Expr.text c d.names.spelling) x))
      level := start.level }
  members : ∀ member value, .mk member value ∈ inits →
    value.lower c receiver d.names = .ok (value.text c d.names.spelling) d.names

/-- **Bare creations by value.** A variable that is created without a type name is declared by value
exactly if its type is held inline. Otherwise it is a pointer, to the type or to the elements of the
array, and the lines are the same. A creation of a declared type by its name is a literal of that
type in the first case, but a call in the second one. -/
theorem bare_creation_by_value_iff {c : Context} {receiver : Option TypeId} {names : NameTable}
    (hnames : Reached c names) {x : String} {type : TypeRef} {args : List Expr}
    {inits : List MemberInit} {start : Page} {d : Draft}
    (hrun : (Stmt.localDecl x type (some (.implicitCreation args inits))).lower c receiver
      { names, page := start } = .ok () d) :
    ∃ (spelled : String) (resolved : ResolvedType),
      CreatedBare c receiver spelled x args inits start d ∧
      localTypeName c type d.names = .ok spelled d.names ∧
      resolve c type.scalar d.names = .ok resolved d.names ∧
      (DeclaredByValue c d.names type ↔ c.HeldInline type) ∧
      (c.HeldInline type → spelled = resolved.name) ∧
      (¬c.HeldInline type → spelled = resolved.name ++ "*") ∧
      ∀ id t, type = .declared id → c.program.types[id.position]? = some t →
        resolved.name = t.name ∧
        ∀ constructor args' text names',
          (Expr.creation id constructor args').lower c receiver d.names = .ok text names' →
          (c.HeldInline type → ∃ values, text = compoundLiteral t.name values) ∧
          (¬c.HeldInline type → ∃ function values, text = callText function values) := by
  obtain ⟨hf, -, rfl⟩ := (Stmt.lower_follows c receiver _).of_ok hnames.sound start hrun
  have htype : Course.Part (localTypeCourse c type)
      ((Stmt.localDecl x type (some (.implicitCreation args inits))).course c receiver) :=
    (Course.Part.refl _).left _
  obtain ⟨hlocal, hresolve⟩ := localType_settled hnames.sound hf htype
  refine ⟨_, _, ⟨?_, ?_, ?_⟩, hlocal, hresolve, declaredByValue_iff hnames.sound hf htype,
    localTypeText_of_heldInline _, localTypeText_of_not_heldInline _, ?_⟩
  · have hinit : (initCourse c receiver x (some (.implicitCreation args inits))).fault = none :=
      ((Course.Part.refl _).right _ hf).1
    cases args with
    | nil => rfl
    | cons first rest => cases hinit
  · rw [← (Stmt.lines_laysOut c _).created x type args inits]
    exact Page.write_eq_lay c _ _ start
  · intro member value hmem
    have hexpr : value ∈ inits.map MemberInit.value := List.mem_map_of_mem hmem
    exact (value.lower_follows c receiver).settledIn (Stmt.exprs_course hexpr) hf hnames.sound
  · rintro id t rfl ht
    refine ⟨type_spelledIn hnames.sound hf ht htype, fun constructor args' text names' => ?_⟩
    exact creation_text (NameTable.Sound.askAll c.program _ hnames.sound) ht

/-- A buoy is held by value, and a ship by reference. -/
def anchorage : Program where
  types := [((TypeDecl.structNamed "Buoy").withAttribute "C").withField "int" "depth",
    (TypeDecl.classNamed "Ship").withField "int" "speed"]

/-- A variable of a type that is created bare, with one member. -/
def createdBare (x : String) (type : TypeRef) (member value : String) : Stmt :=
  .letIn x type (.implicitCreation [] [.mk member (.number value)])

/-- A bare creation of a buoy is one by value. -/
theorem buoy_created_by_value :
    let c : Context := { program := anchorage }
    ∃ d, Reached c {} ∧ (createdBare "b" (.declared ⟨0⟩) "depth" "7").lower c none {} = .ok () d ∧
      d.page.text = "Buoy b = \x7b0\x7d;\nb.depth = 7;\n" ∧
      DeclaredByValue c d.names (.declared ⟨0⟩) := by
  intro c
  have hrun : (createdBare "b" (.declared ⟨0⟩) "depth" "7").lower c none {} = .ok () _ :=
    (Stmt.lower_follows c none _).ends (by decide +kernel) {} {} (NameTable.Sound.empty anchorage)
  obtain ⟨-, -, -, -, -, hvalue, -⟩ := bare_creation_by_value_iff .empty hrun
  exact ⟨_, .empty, hrun, by decide +kernel, hvalue.mpr ⟨_, rfl, by decide +kernel⟩⟩

/-- **Pointers are created bare**: a variable of a type that is held by reference and one of an
array are pointers, but they are zeroed and have their members assigned as aggregates are. -/
theorem anchorage_creates_pointers :
    let c : Context := { program := anchorage }
    ∃ d d', Reached c {} ∧
      (createdBare "s" (.declared ⟨1⟩) "speed" "7").lower c none {} = .ok () d ∧
      d.page.text = "Ship* s = \x7b0\x7d;\ns.speed = 7;\n" ∧
      ¬DeclaredByValue c d.names (.declared ⟨1⟩) ∧
      (createdBare "a" (.array (.external "Int32")) "x" "7").lower c none {} = .ok () d' ∧
      d'.page.text = "int* a = \x7b0\x7d;\na.x = 7;\n" ∧
      ¬DeclaredByValue c d'.names (.array (.external "Int32")) := by
  intro c
  have hempty := NameTable.Sound.empty anchorage
  have hship : ((createdBare "s" (.declared ⟨1⟩) "speed" "7").course c none).fault = none := by
    decide +kernel
  have harray :
      ((createdBare "a" (.array (.external "Int32")) "x" "7").course c none).fault = none := by
    decide +kernel
  refine ⟨_, _, .empty, (Stmt.lower_follows c none _).ends hship {} {} hempty,
    by decide +kernel, fun hvalue => ?_, (Stmt.lower_follows c none _).ends harray {} {} hempty,
    by decide +kernel, fun hvalue => ?_⟩
  · obtain ⟨t, ht, hmarked⟩ :=
      (declaredByValue_iff hempty hship ((Course.Part.refl _).left _)).mp hvalue
    cases ht
    cases hmarked
  · obtain ⟨resolved, hresolved, -⟩ := hvalue
    cases hresolved

end Lowering
