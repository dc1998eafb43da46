import Lowering.Proofs.Sites
import Lowering.Proofs.SessionCourse

/-!
# The current object

A body is lowered for a receiver, the type of its current object. A field without a target is one of
the current object, and a call without a target passes the current object on. The field has to
belong to the receiver. A call is not checked in this way: any method of the program can be called,
and the current object is passed to it even if the method belongs to another type.

* `LoweredWith`, `CallsImplicitly` -- what is lowered with statements, and the calls without a
  target;
* `KeepsToOwnType` -- the current object is used at its own type only;
* `own_type_iff_calls_own_methods` -- what statements do with the current object;
* `boarding_leaves_own_type` -- a call that passes a ship to a method of rafts.
-/

namespace Lowering

/-! ## 1. What is lowered with statements -/

/-- **An expression is lowered with statements**: it is lowered with an expression of a statement
that is. -/
def LoweredWith (c : Context) (statements : List Stmt) (e : Expr) : Prop :=
  ∃ (s : Stmt) (value : Expr), s.LoweredIn (.block statements) ∧ value ∈ s.exprs ∧
    e.LoweredIn c value

/-- **Statements call a method implicitly**: a call without a target is lowered with them, and the
method that it names is one of the program. -/
structure CallsImplicitly (c : Context) (statements : List Stmt) (method : MethodId)
    (args : List Expr) (m : MethodDecl) : Prop where
  lowered : LoweredWith c statements (.invocation none method args)
  declared : c.program.methodAt method.position = .ok m
  own : m.isNative = false

/-- **The current object is used at its own type only**: an identifier that becomes a member of the
current object is a field of the receiver, and a method that is called without a target is one of
the receiver. Without a receiver there is neither. -/
structure KeepsToOwnType (c : Context) (receiver : Option TypeId) (names : NameTable)
    (statements : List Stmt) : Prop where
  fields : ∀ name symbol, LoweredWith c statements (.identifier name symbol) →
    (Expr.identifier name symbol).lower c receiver names = .ok ("this->" ++ name) names →
    ∃ type, receiver = some type ∧ symbol = .field (some type)
  calls : ∀ method args m, CallsImplicitly c statements method args m →
    ∃ type, receiver = some type ∧ m.owner = some type

section Lowered

variable {c : Context} {receiver : Option TypeId} {statements : List Stmt} {e : Expr}

theorem LoweredWith.course (h : LoweredWith c statements e) :
    Course.Part (e.course c receiver) ((Stmt.block statements).course c receiver) := by
  obtain ⟨s, value, hs, hvalue, he⟩ := h
  exact he.course.trans ((Stmt.exprs_course hvalue).trans hs.course)

theorem render_mentions (level : Nat) {rows : List Row} {line : String} (h : line ∈ rowTexts rows) :
    Mentions (render level rows) line := by
  induction rows with
  | nil => cases h
  | cons row rest ih =>
    rw [render]
    rcases List.mem_cons.mp h with rfl | h
    · refine Mentions.left ?_ _
      cases row with
      | line depth text => exact ((Mentions.refl text).right _).left _
      | blank => exact ⟨"", "\n", rfl⟩
    · exact (ih h).right _

/-- The text of an expression stands on the page that it was lowered on. -/
theorem LoweredWith.mentions (h : LoweredWith c statements e)
    (hf : ((Stmt.block statements).course c receiver).fault = none) (ν : Spelling) (page : Page) :
    Mentions (page.write ((Stmt.block statements).rows c ν)).text (e.text c ν) := by
  obtain ⟨s, value, hs, hvalue, he⟩ := h
  obtain ⟨line, hline, hmention⟩ := Stmt.exprs_rows (c := c) (ν := ν) hvalue
  have hfault := (Stmt.exprs_course hvalue (hs.course hf).1).1
  have hpage := render_mentions page.level (hs.rows line hline)
  exact (hpage.trans (hmention.trans (he.mentions hfault))).right _

/-- **What is lowered with statements** gives its text on the names after them, and the text stands
on the page. -/
theorem LoweredWith.settled {names : NameTable} {start : Page} {d : Draft}
    (h : LoweredWith c statements e) (hsound : names.Sound c.program)
    (hrun : lowerBlock c receiver statements { names, page := start } = .ok () d) :
    (e.course c receiver).fault = none ∧
      e.lower c receiver d.names = .ok (e.text c d.names.spelling) d.names ∧
      Mentions d.page.text (e.text c d.names.spelling) := by
  obtain ⟨hf, -, rfl⟩ := ((Stmt.block statements).lower_follows c receiver).of_ok hsound start hrun
  exact ⟨(h.course hf).1, (e.lower_follows c receiver).settledIn h.course hf hsound,
    h.mentions hf _ start⟩

end Lowered

/-! ## 2. Fields and calls without a target -/

section Sites

variable {c : Context} {receiver : Option TypeId}

/-- An identifier that is lowered is a field of the receiver, or no field. -/
theorem identifier_cases {name : String} {symbol : Symbol}
    (hf : (identifierFault c.program receiver name symbol) = none) :
    (∃ type, receiver = some type ∧ symbol = .field (some type) ∧
      identifierText name symbol = "this->" ++ name) ∨
      (∀ owner, symbol ≠ .field owner) ∧ identifierText name symbol = name := by
  cases symbol with
  | field owner =>
    by_cases hsame : (owner.isSome && owner == receiver) = true
    · obtain ⟨hsome, heq⟩ := Bool.and_eq_true_iff.mp hsame
      obtain ⟨type, rfl⟩ := Option.isSome_iff_exists.mp hsome
      exact .inl ⟨type, (beq_iff_eq.mp heq).symm, rfl, rfl⟩
    · rw [identifierFault, if_neg hsame] at hf
      cases hf
  | _ =>
    refine .inr ⟨fun owner hfield => ?_, rfl⟩
    cases hfield

/-- A call of a method of the program without a target is lowered for a receiver, and the method has
an owner. The two need not be the same. -/
theorem implicitCall_cases {method : MethodId} {args : List Expr} {m : MethodDecl}
    (hm : c.program.methodAt method.position = .ok m) (hown : m.isNative = false)
    (hf : ((Expr.invocation none method args).course c receiver).fault = none) (ν : Spelling) :
    (∃ type owner, receiver = some type ∧ m.owner = some owner) ∧
      (Expr.invocation none method args).text c ν =
        callText (ν (.method method.position)) ("this" :: argsText c ν args) := by
  simp only [Expr.course, Expr.text, hm, hown, Bool.false_eq_true, ↓reduceIte, Course.fault_append,
    Option.or_eq_none_iff] at hf ⊢
  obtain ⟨hobject, hname, -⟩ := hf
  refine ⟨?_, rfl⟩
  cases receiver with
  | none => cases hobject
  | some type =>
    cases hs : c.program.stem (.method method.position) with
    | error r =>
      rw [Course.request_error hs] at hname
      cases hname
    | ok s =>
      obtain ⟨m', hm', howner⟩ := nameable_of_stem hs
      cases (declarationAt_of_getElem? hm').symm.trans hm
      obtain ⟨owner, howner⟩ := Option.ne_none_iff_exists'.mp howner
      exact ⟨type, owner, rfl, howner⟩

theorem this_append_ne (name : String) : "this->" ++ name ≠ name := by
  intro h
  have hlength := congrArg String.length h
  rw [String.length_append] at hlength
  have hsix : "this->".length = 6 := rfl
  omega

end Sites

/-! ## 3. The current object in statements -/

/-- **What statements do with the current object.** In statements that were lowered, an identifier
is lowered to a member of the current object if it is a field of the receiver, and to its name if it
is no field. A call of a method of the program without a target passes the current object to it. So
there is a receiver in both cases, and the current object is used at its own type only exactly if
all methods that are called without a target belong to the receiver. -/
theorem own_type_iff_calls_own_methods {c : Context} {receiver : Option TypeId} {names : NameTable}
    (hnames : Reached c names) {statements : List Stmt} {start : Page} {d : Draft}
    (hrun : lowerBlock c receiver statements { names, page := start } = .ok () d) :
    (∀ name symbol, LoweredWith c statements (.identifier name symbol) →
      ∃ text, (Expr.identifier name symbol).lower c receiver d.names = .ok text d.names ∧
        Mentions d.page.text text ∧
        ((∃ type, receiver = some type ∧ symbol = .field (some type) ∧ text = "this->" ++ name) ∨
          (∀ owner, symbol ≠ .field owner) ∧ text = name)) ∧
    (∀ method args m, CallsImplicitly c statements method args m →
      (∃ type owner, receiver = some type ∧ m.owner = some owner) ∧
      ∃ function values, (Expr.invocation none method args).lower c receiver d.names =
          .ok (callText function ("this" :: values)) d.names ∧
        Mentions d.page.text (callText function ("this" :: values))) ∧
    (KeepsToOwnType c receiver d.names statements ↔
      ∀ method args m, CallsImplicitly c statements method args m → m.owner = receiver) := by
  refine ⟨fun name symbol h => ?_, fun method args m h => ?_, fun hkeeps method args m h => ?_,
    fun hown => ⟨?_, ?_⟩⟩
  · obtain ⟨hf, hlower, hmention⟩ := h.settled hnames.sound hrun
    exact ⟨_, hlower, hmention, identifier_cases hf⟩
  · obtain ⟨hf, hlower, hmention⟩ := h.lowered.settled hnames.sound hrun
    obtain ⟨hreceiver, htext⟩ := implicitCall_cases h.declared h.own hf d.names.spelling
    rw [htext] at hlower hmention
    exact ⟨hreceiver, _, _, hlower, hmention⟩
  · obtain ⟨type, hreceiver, howner⟩ := hkeeps.calls method args m h
    rw [howner, hreceiver]
  · intro name symbol h hthis
    obtain ⟨hf, hlower, -⟩ := h.settled hnames.sound hrun
    rcases identifier_cases hf with ⟨type, hreceiver, hsymbol, -⟩ | ⟨-, htext⟩
    · exact ⟨type, hreceiver, hsymbol⟩
    · have hsame : identifierText name symbol = "this->" ++ name :=
        (EStateM.Result.ok.inj (hlower.symm.trans hthis)).1
      exact absurd (hsame.symm.trans htext) (this_append_ne name)
  · intro method args m h
    obtain ⟨hf, -, -⟩ := h.lowered.settled hnames.sound hrun
    obtain ⟨type, owner, hreceiver, -⟩ :=
      (implicitCall_cases h.declared h.own hf d.names.spelling).1
    exact ⟨type, hreceiver, (hown method args m h).trans hreceiver⟩

/-- Ships with a speed, that sail. -/
def squadron : Program where
  types := [(TypeDecl.classNamed "Ship").withField "int" "speed"]
  methods := [MethodDecl.instanceOf ⟨0⟩ "sail"]

/-- Sails at the own speed as long as there is one. -/
def cruise : List Stmt :=
  [.whileLoop (.fieldNamed "speed" ⟨0⟩) <|
    .expression (.call ⟨0⟩ [.fieldNamed "speed" ⟨0⟩])]

/-- A cruise of a ship keeps to ships. -/
theorem cruise_keeps_to_own_type :
    let c : Context := { program := squadron }
    ∃ d, Reached c {} ∧ lowerBlock c (some ⟨0⟩) cruise {} = .ok () d ∧
      d.page.text =
        "\x7b\n    while(this->speed)\n        Ship_sail_0(this, this->speed);\n\x7d\n" ∧
      KeepsToOwnType c (some ⟨0⟩) d.names cruise := by
  intro c
  have hrun : lowerBlock c (some ⟨0⟩) cruise {} = .ok () _ :=
    ((Stmt.block cruise).lower_follows c (some ⟨0⟩)).ends (by decide +kernel) {} {}
      (NameTable.Sound.empty squadron)
  refine ⟨_, .empty, hrun, by decide +kernel, ?_⟩
  refine (own_type_iff_calls_own_methods .empty hrun).2.2.mpr fun method args m hcall => ?_
  have hm : m ∈ squadron.methods := mem_of_declarationAt hcall.declared
  rw [List.mem_singleton.mp hm]
  rfl

/-- Ships, and rafts that drift. -/
def harbour : Program where
  types := [.classNamed "Ship", .classNamed "Raft"]
  methods := [MethodDecl.instanceOf ⟨1⟩ "drift"]

/-- A call of the method of rafts without a target. -/
def boarding : List Stmt := [.expression (.call ⟨0⟩ [])]

/-- **The current object is passed to a method of another type**: on board of a ship, the method of
rafts is called with the ship. -/
theorem boarding_leaves_own_type :
    let c : Context := { program := harbour }
    ∃ d, Reached c {} ∧ lowerBlock c (some ⟨0⟩) boarding {} = .ok () d ∧
      d.page.text = "\x7b\n    Raft_drift_0(this);\n\x7d\n" ∧
      ¬KeepsToOwnType c (some ⟨0⟩) d.names boarding := by
  intro c
  have hrun : lowerBlock c (some ⟨0⟩) boarding {} = .ok () _ :=
    ((Stmt.block boarding).lower_follows c (some ⟨0⟩)).ends (by decide +kernel) {} {}
      (NameTable.Sound.empty harbour)
  have hlowered : LoweredWith c boarding (.call ⟨0⟩ []) :=
    ⟨_, _, .part List.mem_cons_self .self, List.mem_cons_self, .self⟩
  refine ⟨_, .empty, hrun, by decide +kernel, fun hkeeps => ?_⟩
  obtain ⟨type, hreceiver, howner⟩ := hkeeps.calls ⟨0⟩ [] _ ⟨hlowered, rfl, rfl⟩
  cases hreceiver
  cases howner

end Lowering
