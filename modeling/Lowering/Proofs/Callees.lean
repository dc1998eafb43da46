import Lowering.Proofs.Acceptance
import Lowering.Proofs.TwoPhase

/-!
# Functions that are called and functions that are defined

The bodies of a unit call functions by numbered names, and the unit defines functions by numbered
names. The two sides decide on their own which declarations they take. A function that is called is
defined as well, with these exceptions: static methods, methods with the name of the entry point,
user constructors, and allocators of static types and of the definition of the marker.

* `Context.calledKeys`, `Context.definedKeys` -- what bodies call, and what the unit defines;
* `Context.leftOut` -- the exceptions;
* `Stmt.calls` -- where the calls stand in the text;
* `called_defined_unless_leftOut` -- the law, for every unit that a fresh generator writes.
-/

namespace Lowering

/-! ## 1. Parts of a text -/

/-- A text has another text in it. -/
def Mentions (text part : String) : Prop := ∃ before after, text = before ++ part ++ after

namespace Mentions

variable {a b part : String}

theorem refl (a : String) : Mentions a a := ⟨"", "", by simp⟩

theorem left (h : Mentions a part) (b : String) : Mentions (a ++ b) part := by
  obtain ⟨before, after, rfl⟩ := h
  exact ⟨before, after ++ b, by rw [String.append_assoc]⟩

theorem right (a : String) (h : Mentions b part) : Mentions (a ++ b) part := by
  obtain ⟨before, after, rfl⟩ := h
  exact ⟨a ++ before, after, by simp only [String.append_assoc]⟩

theorem commaList :
    ∀ {parts : List String}, a ∈ parts → Mentions a part → Mentions (commaList parts) part
  | [], hm, _ => nomatch hm
  | [only], hm, h => by
      rw [List.mem_singleton.mp hm] at h
      unfold Lowering.commaList
      rw [String.intercalate_singleton]
      exact h
  | first :: second :: rest, hm, h => by
      unfold Lowering.commaList
      rw [String.intercalate_cons_cons]
      rcases List.mem_cons.mp hm with rfl | hm
      · exact (h.left _).left _
      · exact (commaList hm h).right _

end Mentions

/-! ## 2. What bodies call -/

/-- Whether a method becomes a function of the unit. -/
def Context.hasFunction (c : Context) (m : MethodDecl) : Bool :=
  m.name == c.options.entryPoint || !(m.isNative || m.isStatic)

/-- **The keys of the functions that the bodies of a unit call.** -/
def Context.calledKeys (c : Context) : List NameKey :=
  c.program.methods.flatMap fun m => if c.hasFunction m then bodyKeys c m else []

/-- The rows of the bodies of a unit. -/
def Context.bodyRows (c : Context) (ν : Spelling) : List Row :=
  c.program.methods.flatMap fun m =>
    if c.hasFunction m then (Stmt.block (m.body.getD [])).rows c ν else []

/-- What can stand in a call: a method that is not native, a user constructor, or the allocator of a
type that is held by reference and no enumeration. -/
def Context.Callable (c : Context) : NameKey → Prop
  | .type _ => False
  | .method i => ∃ m, c.program.methods[i]? = some m ∧ m.isNative = false
  | .constructor _ => True
  | .allocator i => ∃ t, c.program.types[i]? = some t ∧ t.kind ≠ .enumType ∧
      t.representation c.options.markerAttribute = .reference

/-- The text of a row. -/
def Row.text : Row → String
  | .line _ text => text
  | .blank => ""

/-- A text calls the function of a key. -/
structure Called (c : Context) (ν : Spelling) (key : NameKey) (text : String) : Prop where
  callable : c.Callable key
  mentions : Mentions text (ν key ++ "(")

namespace Called

variable {c : Context} {ν : Spelling} {key : NameKey} {a b : String}

theorem left (h : Called c ν key a) (b : String) : Called c ν key (a ++ b) :=
  ⟨h.callable, h.mentions.left b⟩

theorem right (a : String) (h : Called c ν key b) : Called c ν key (a ++ b) :=
  ⟨h.callable, h.mentions.right a⟩

theorem inList {parts : List String} (hm : a ∈ parts) (h : Called c ν key a) :
    Called c ν key (commaList parts) :=
  ⟨h.callable, .commaList hm h.mentions⟩

theorem inBraces {parts : List String} (hm : a ∈ parts) (h : Called c ν key a) :
    Called c ν key (braced (commaList parts)) :=
  (inList hm h |>.right _).left _

/-- A call calls its function. -/
theorem ofCall (h : c.Callable key) (args : List String) : Called c ν key (callText (ν key) args) :=
  ⟨h, ((Mentions.refl _).left _).left _⟩

/-- A call calls what its arguments call. -/
theorem inCall (function : String) {args : List String} (hm : a ∈ args) (h : Called c ν key a) :
    Called c ν key (callText function args) :=
  (inList hm h |>.right _).left _

end Called

theorem callable_method {c : Context} {i : Nat} {m : MethodDecl} (hm : c.program.methodAt i = .ok m)
    (hn : m.isNative = false) : c.Callable (.method i) :=
  ⟨m, getElem?_of_declarationAt hm, hn⟩

theorem callable_allocator {c : Context} {i : Nat} (hr : c.representationAt i = .ok .reference)
    (hf : nameFault c.program i = none) : c.Callable (.allocator i) := by
  unfold Context.representationAt Program.typeAt declarationAt at hr
  unfold nameFault Program.typeAt declarationAt at hf
  split at hr
  · rename_i t ht
    refine ⟨t, ht, fun hk => ?_, Except.ok.inj hr⟩
    rw [ht] at hf
    simp only [hk] at hf
    cases hf
  · cases hr

variable (c : Context) (ν : Spelling) (receiver : Option TypeId)

mutual

/-- **Every key of an expression without a fault is called in its text.** -/
theorem Expr.calls :
    ∀ e : Expr, e.fault c receiver = none → ∀ key ∈ e.keys c, Called c ν key (e.text c ν)
  | .invocation target method args, hf, key, hk => by
      simp only [Expr.fault, Expr.keys, Expr.text] at hf hk ⊢
      cases hm : c.program.methodAt method.position with
      | error b =>
        rw [hm] at hk
        cases hk
      | ok m =>
        rw [hm] at hf hk
        by_cases hn : m.isNative = true
        · simp only [hn, ↓reduceIte] at hf hk ⊢
          obtain ⟨text, ht, hcall⟩ := args_call args hf key hk
          split
          · exact hcall.inCall _ (List.mem_cons_of_mem _ ht)
          · exact hcall.inCall _ ht
        · simp only [hn, Bool.false_eq_true, ↓reduceIte, Option.or_eq_none_iff] at hf hk ⊢
          rcases List.mem_append.mp hk with hk | hk
          · exact (target_calls m.name target hf.1 key hk).inCall _ List.mem_cons_self
          · rcases List.mem_cons.mp hk with rfl | hk
            · exact .ofCall (callable_method hm (Bool.eq_false_iff.mpr hn)) _
            · obtain ⟨text, ht, hcall⟩ := args_call args hf.2.2 key hk
              exact hcall.inCall _ (List.mem_cons_of_mem _ ht)
  | .elementAccess target index, hf, key, hk => by
      simp only [Expr.fault, Expr.keys, Expr.text, Option.or_eq_none_iff,
        List.mem_append] at hf hk ⊢
      rcases hk with hk | hk
      · exact (((Expr.calls target hf.1 key hk).left _).left _).left _
      · exact ((Expr.calls index hf.2 key hk).right _).left _
  | .collection converted elements, hf, key, hk => by
      cases converted with
      | array element =>
        simp only [Expr.fault, Expr.keys, Expr.text, Option.or_eq_none_iff] at hf hk ⊢
        obtain ⟨text, ht, hcall⟩ := elements_call elements hf.2 key hk
        exact (hcall.inBraces ht).right _
      | declared id => cases hf
      | external name => cases hf
  | .binary left op right, hf, key, hk => by
      simp only [Expr.fault, Expr.keys, Expr.text, Option.or_eq_none_iff,
        List.mem_append] at hf hk ⊢
      rcases hk with hk | hk
      · exact ((((((Expr.calls left hf.1 key hk).right _).left _).left _).left _).left _).left _
      · exact ((Expr.calls right hf.2 key hk).right _).left _
  | .identifier name symbol, _, key, hk => by
      simp only [Expr.keys] at hk
      cases hk
  | .implicitCreation _ _, hf, _, _ => by
      simp only [Expr.fault] at hf
      cases hf
  | .creation type constructor args, hf, key, hk => by
      simp only [Expr.fault, Expr.keys, Expr.text] at hf hk ⊢
      cases hr : c.representationAt type.position with
      | error b =>
        rw [hr] at hf
        cases hf
      | ok r =>
        rw [hr] at hf hk
        cases r with
        | value =>
          simp only [Option.or_eq_none_iff] at hf hk ⊢
          obtain ⟨text, ht, hcall⟩ := args_call args hf.2 key hk
          have hne : args.isEmpty = false := by
            cases args with
            | nil => cases hk
            | cons e rest => rfl
          simp only [hne, Bool.false_eq_true, ↓reduceIte]
          exact (hcall.inBraces ht).right _
        | reference =>
          cases constructor with
          | none =>
            simp only [creatorFault, Option.or_eq_none_iff, List.mem_cons] at hf hk ⊢
            rcases hk with rfl | hk
            · exact .ofCall (callable_allocator hr hf.1) _
            · obtain ⟨text, ht, hcall⟩ := args_call args hf.2 key hk
              exact hcall.inCall _ ht
          | some id =>
            simp only [Option.or_eq_none_iff, List.mem_cons] at hf hk ⊢
            rcases hk with rfl | hk
            · have hcallable : c.Callable (.constructor id.position) := trivial
              exact .ofCall hcallable _
            · obtain ⟨text, ht, hcall⟩ := args_call args hf.2 key hk
              exact hcall.inCall _ ht
  | .memberAccess target name symbol, hf, key, hk => by
      cases symbol with
      | property id => cases hk
      | enumMember => cases hk
      | field owner => exact ((Expr.calls target hf key hk).left _).left _
      | method id => exact Expr.calls target hf key hk
      | localVariable => exact Expr.calls target hf key hk
      | typeName => exact Expr.calls target hf key hk
  | .literal _ _, _, key, hk => by
      simp only [Expr.keys] at hk
      cases hk
  | .prefixUnary op operand, hf, key, hk => by
      simp only [Expr.fault, Expr.keys, Expr.text] at hf hk ⊢
      split at hf
      · exact (Expr.calls operand hf key hk).right _
      · cases hf
  | .initializer elements, hf, key, hk => by
      simp only [Expr.fault, Expr.keys, Expr.text] at hf hk ⊢
      obtain ⟨text, ht, hcall⟩ := args_call elements hf key hk
      exact hcall.inBraces ht
  | .assignment left op right, hf, key, hk => by
      simp only [Expr.fault, Expr.keys, Expr.text, Option.or_eq_none_iff,
        List.mem_append] at hf hk ⊢
      rcases hk with hk | hk
      · exact (Expr.calls right hf.1 key hk).right _
      · exact ((((Expr.calls left hf.2 key hk).left _).left _).left _).left _
  | .unsupported _, hf, _, _ => by
      simp only [Expr.fault] at hf
      cases hf

theorem target_calls (method : String) : ∀ target : Option Expr,
    targetFault c receiver method target = none →
      ∀ key ∈ targetKeys c target, Called c ν key (targetText c ν target)
  | some target, hf, key, hk => Expr.calls target hf key hk
  | none, _, key, hk => by cases hk

theorem args_call : ∀ args : List Expr, argsFault c receiver args = none →
    ∀ key ∈ argsKeys c args, ∃ text ∈ argsText c ν args, Called c ν key text
  | [], _, key, hk => by cases hk
  | e :: rest, hf, key, hk => by
      simp only [argsFault, argsKeys, argsText, Option.or_eq_none_iff, List.mem_append] at hf hk ⊢
      rcases hk with hk | hk
      · exact ⟨_, List.mem_cons_self, Expr.calls e hf.1 key hk⟩
      · obtain ⟨text, ht, hcall⟩ := args_call rest hf.2 key hk
        exact ⟨text, List.mem_cons_of_mem _ ht, hcall⟩

theorem elements_call : ∀ elements : List Element, elementsFault c receiver elements = none →
    ∀ key ∈ elementsKeys c elements, ∃ text ∈ elementsText c ν elements, Called c ν key text
  | [], _, key, hk => by cases hk
  | .single e :: rest, hf, key, hk => by
      simp only [elementsFault, elementsKeys, elementsText, Option.or_eq_none_iff,
        List.mem_append] at hf hk ⊢
      rcases hk with hk | hk
      · exact ⟨_, List.mem_cons_self, Expr.calls e hf.1 key hk⟩
      · obtain ⟨text, ht, hcall⟩ := elements_call rest hf.2 key hk
        exact ⟨text, List.mem_cons_of_mem _ ht, hcall⟩
  | .spread _ :: _, hf, _, _ => by
      simp only [elementsFault] at hf
      cases hf

end

/-- Rows call the function of a key. -/
def RowsCall (rows : List Row) (key : NameKey) : Prop := ∃ row ∈ rows, Called c ν key row.text

variable {c ν}

theorem RowsCall.deeper {rows : List Row} {key : NameKey} (h : RowsCall c ν rows key) :
    RowsCall c ν (rows.map Row.deeper) key := by
  obtain ⟨row, hrow, hcall⟩ := h
  refine ⟨row.deeper, List.mem_map_of_mem hrow, ?_⟩
  cases row <;> exact hcall

theorem RowsCall.left {rows : List Row} {key : NameKey} (h : RowsCall c ν rows key)
    (rows' : List Row) : RowsCall c ν (rows ++ rows') key := by
  obtain ⟨row, hrow, hcall⟩ := h
  exact ⟨row, List.mem_append_left _ hrow, hcall⟩

theorem RowsCall.right (rows : List Row) {rows' : List Row} {key : NameKey}
    (h : RowsCall c ν rows' key) : RowsCall c ν (rows ++ rows') key := by
  obtain ⟨row, hrow, hcall⟩ := h
  exact ⟨row, List.mem_append_right _ hrow, hcall⟩

theorem RowsCall.line {depth : Nat} {text : String} {rows : List Row} {key : NameKey}
    (h : Called c ν key text) : RowsCall c ν (.line depth text :: rows) key :=
  ⟨_, List.mem_cons_self, h⟩

variable (c ν)

theorem inits_call (name : String) : ∀ inits : List MemberInit, initsFault c receiver inits = none →
    ∀ key ∈ initsKeys c inits, RowsCall c ν (initsRows c ν name inits) key
  | [], _, key, hk => by cases hk
  | .mk member value :: rest, hf, key, hk => by
      simp only [initsFault, initsKeys, initsRows, Option.or_eq_none_iff,
        List.mem_append] at hf hk ⊢
      rcases hk with hk | hk
      · exact .line (((Expr.calls c ν receiver value hf.1 key hk).right _).left _)
      · exact (inits_call name rest hf.2 key hk).right [_]

theorem local_calls (name : String) (type : TypeRef) (init : Option Expr)
    (hf : initFault c receiver name init = none) (key : NameKey) (hk : key ∈ initKeys c init) :
    RowsCall c ν (localRows c ν name type init) key := by
  cases init with
  | none => cases hk
  | some value =>
    cases value with
    | implicitCreation args inits =>
      simp only [initFault, initKeys, localRows] at hf hk ⊢
      split at hf
      · exact (inits_call c ν receiver name inits hf key hk).right [_]
      · cases hf
    | _ => exact .line (((Expr.calls c ν receiver _ hf key hk).right _).left _)

mutual

/-- **Every key of a statement without a fault is called in its rows.** -/
theorem Stmt.calls : ∀ s : Stmt, s.fault c receiver = none →
    ∀ key ∈ s.keys c, RowsCall c ν (s.rows c ν) key
  | .expression value, hf, key, hk => .line ((Expr.calls c ν receiver value hf key hk).left _)
  | .whileLoop condition body, hf, key, hk => by
      simp only [Stmt.fault, Stmt.keys, Stmt.rows, Option.or_eq_none_iff,
        List.mem_append] at hf hk ⊢
      rcases hk with hk | hk
      · exact .line (((Expr.calls c ν receiver condition hf.1 key hk).right _).left _)
      · have hbody := Stmt.calls body hf.2 key hk
        split
        · exact hbody.right [_]
        · exact hbody.deeper.right [_]
  | .block statements, hf, key, hk => ((all_call statements hf key hk).deeper.left _).right [_]
  | .localDecl name type init, hf, key, hk => by
      simp only [Stmt.fault, Stmt.keys, Stmt.rows, Option.or_eq_none_iff] at hf hk ⊢
      exact local_calls c ν receiver name type init hf.2 key hk
  | .unsupported _, hf, _, _ => by
      simp only [Stmt.fault] at hf
      cases hf

theorem all_call : ∀ statements : List Stmt, allFault c receiver statements = none →
    ∀ key ∈ allKeys c statements, RowsCall c ν (allRows c ν statements) key
  | [], _, key, hk => by cases hk
  | s :: rest, hf, key, hk => by
      simp only [allFault, allKeys, allRows, Option.or_eq_none_iff, List.mem_append] at hf hk ⊢
      rcases hk with hk | hk
      · exact (Stmt.calls s hf.1 key hk).left _
      · exact (all_call rest hf.2 key hk).right _

end

/-! ## 3. Bodies -/

variable {c ν}

/-- A method that becomes a function has a body, and the body has no fault. -/
theorem body_of_hasFunction {m : MethodDecl} (hf : methodFault c m = none)
    (hm : c.hasFunction m = true) :
    ∃ receiver body, m.body = some body ∧ allFault c receiver body = none := by
  unfold methodFault bodyFault at hf
  unfold Context.hasFunction at hm
  by_cases he : m.name = c.options.entryPoint
  · rw [if_pos he] at hf
    cases hb : m.body with
    | none =>
      rw [hb] at hf
      cases hf
    | some body =>
      rw [hb] at hf
      exact ⟨none, body, rfl, hf⟩
  · by_cases hn : (m.isNative || m.isStatic) = true
    · simp [he, hn] at hm
    · rw [if_neg he, if_neg hn] at hf
      cases hown : m.owner with
      | none =>
        rw [hown] at hf
        cases hf
      | some owner =>
        cases hb : m.body with
        | none =>
          rw [hown, hb] at hf
          cases hf
        | some body =>
          rw [hown, hb] at hf
          exact ⟨some owner, body, rfl, (Option.or_eq_none_iff.mp hf).2⟩

theorem methodFault_of_fault {m : MethodDecl} (hf : c.fault = none) (hm : m ∈ c.program.methods) :
    methodFault c m = none :=
  List.findSome?_eq_none_iff.mp (Option.or_eq_none_iff.mp hf).2 m hm

/-- What is called is called in a body. -/
theorem bodies_call (hf : c.fault = none) {key : NameKey} (hk : key ∈ c.calledKeys) :
    RowsCall c ν (c.bodyRows ν) key := by
  obtain ⟨m, hm, hk⟩ := List.mem_flatMap.mp hk
  by_cases hh : c.hasFunction m = true
  · rw [if_pos hh] at hk
    obtain ⟨receiver, body, hb, hfault⟩ := body_of_hasFunction (methodFault_of_fault hf hm) hh
    unfold bodyKeys at hk
    rw [hb] at hk
    obtain ⟨row, hrow, hcall⟩ := Stmt.calls c ν receiver (.block body) hfault key hk
    refine ⟨row, List.mem_flatMap.mpr ⟨m, hm, ?_⟩, hcall⟩
    rw [if_pos hh, hb]
    exact hrow
  · rw [if_neg hh] at hk
    cases hk

/-- A statement reads the spelling of its numbered keys and of types, and of no other keys. -/
theorem Stmt.render_congr (ho : c.program.checkOwners = .ok ()) {s : Stmt}
    (hf : s.fault c receiver = none) {ν ν' : Spelling} (htypes : ∀ i, ν (.type i) = ν' (.type i))
    (hkeys : ∀ k ∈ s.keys c, ν k = ν' k) : render 0 (s.rows c ν) = render 0 (s.rows c ν') := by
  have hcourse : (s.course c receiver).fault = none := by
    rw [Stmt.course_fault ho]
    exact hf
  have hasked : ∀ k ∈ (s.course c receiver).asked, ν k = ν' k := by
    intro k hk
    cases hn : k.isNumbered with
    | true =>
      refine hkeys k ?_
      rw [← Stmt.course_collects c receiver s hcourse]
      exact List.mem_filter.mpr ⟨hk, hn⟩
    | false =>
      cases k with
      | type i => exact htypes i
      | method i => cases hn
      | constructor i => cases hn
      | allocator i => cases hn
  have hpages := congrFun ((Stmt.lower_follows c receiver s).reads hcourse ν ν' hasked).2 {}
  have htexts : "" ++ render 0 (s.rows c ν) = "" ++ render 0 (s.rows c ν') :=
    congrArg Page.text hpages
  simpa using htexts

theorem render_flatMap_congr {α : Type} {f f' : α → List Row} : ∀ {l : List α},
    (∀ a ∈ l, render 0 (f a) = render 0 (f' a)) → render 0 (l.flatMap f) = render 0 (l.flatMap f')
  | [], _ => rfl
  | a :: rest, h => by
      rw [List.flatMap_cons, List.flatMap_cons, render_append, render_append,
        h a List.mem_cons_self, render_flatMap_congr fun b hb => h b (List.mem_cons_of_mem _ hb)]

/-- **The bodies use no numbered names but those of the keys that they call.** -/
theorem bodyRows_congr (ho : c.program.checkOwners = .ok ()) (hf : c.fault = none) {ν ν' : Spelling}
    (htypes : ∀ i, ν (.type i) = ν' (.type i)) (hkeys : ∀ k ∈ c.calledKeys, ν k = ν' k) :
    render 0 (c.bodyRows ν) = render 0 (c.bodyRows ν') := by
  refine render_flatMap_congr fun m hm => ?_
  split
  · rename_i hh
    obtain ⟨receiver, body, hb, hfault⟩ := body_of_hasFunction (methodFault_of_fault hf hm) hh
    rw [hb]
    refine Stmt.render_congr receiver ho (s := .block body) hfault htypes fun k hk => hkeys k ?_
    refine List.mem_flatMap.mpr ⟨m, hm, ?_⟩
    unfold bodyKeys
    rw [if_pos hh, hb]
    exact hk
  · rfl

/-! ## 4. What the unit defines -/

/-- The heads of functions: the lines outside of all blocks that an opening brace follows. -/
def functionHeads : List Row → List String
  | .line 0 head :: rest =>
    if rest.head? = some (.line 0 "\x7b") then head :: functionHeads rest else functionHeads rest
  | _ :: rest => functionHeads rest
  | [] => []

/-- Rows define a function. -/
def Defines (rows : List Row) (name : String) : Prop :=
  ∃ result params, (result ++ " " ++ name ++ "(" ++ params ++ ")") ∈ functionHeads rows

/-- Whether a method becomes a function with a name of its own. -/
def Context.definesMethod (c : Context) (m : MethodDecl) : Bool :=
  m.name != c.options.entryPoint && !(m.isNative || m.isStatic)

/-- **The keys of the functions that a unit defines**, the main function apart. -/
def Context.definedKeys (c : Context) : List NameKey :=
  (c.program.types.zipIdx.flatMap fun (t, i) => allocatorKeys c i t) ++
    c.program.methods.zipIdx.flatMap fun (m, i) => if c.definesMethod m then [.method i] else []

/-- **What is not defined**: static methods, methods with the name of the entry point, user
constructors, and allocators of static types and of the definition of the marker. -/
def Context.leftOut (c : Context) : NameKey → Bool
  | .type _ => false
  | .method i => c.program.methods[i]?.any fun m => m.isStatic || m.name == c.options.entryPoint
  | .constructor _ => true
  | .allocator i =>
    c.program.types[i]?.any fun t => t.isStatic || t.name == c.options.markerDefinition

theorem mem_functionHeads_cons {head : String} (row : Row) {rest : List Row}
    (h : head ∈ functionHeads rest) : head ∈ functionHeads (row :: rest) := by
  cases row with
  | blank => exact h
  | line depth text =>
    cases depth with
    | zero =>
      simp only [functionHeads]
      split
      · exact List.mem_cons_of_mem _ h
      · exact h
    | succ depth => exact h

theorem mem_functionHeads_left {head : String} (rows' : List Row) : ∀ {rows : List Row},
    head ∈ functionHeads rows → head ∈ functionHeads (rows ++ rows')
  | [], h => nomatch h
  | .blank :: rest, h => by
      show head ∈ functionHeads (rest ++ rows')
      exact mem_functionHeads_left rows' h
  | .line (depth + 1) text :: rest, h => by
      show head ∈ functionHeads (rest ++ rows')
      exact mem_functionHeads_left rows' h
  | .line 0 text :: rest, h => by
      simp only [functionHeads] at h
      split at h
      · rename_i hopen
        have hopen' : (rest ++ rows').head? = some (.line 0 "\x7b") := by
          cases rest with
          | nil => cases hopen
          | cons row rest => exact hopen
        simp only [List.cons_append, functionHeads, hopen', ↓reduceIte]
        rcases List.mem_cons.mp h with rfl | h
        · exact List.mem_cons_self
        · exact List.mem_cons_of_mem _ (mem_functionHeads_left rows' h)
      · exact mem_functionHeads_cons _ (mem_functionHeads_left rows' h)

namespace Defines

variable {rows : List Row} {name : String}

theorem left (h : Defines rows name) (rows' : List Row) : Defines (rows ++ rows') name := by
  obtain ⟨result, params, hmem⟩ := h
  exact ⟨result, params, mem_functionHeads_left rows' hmem⟩

theorem right (rows' : List Row) (h : Defines rows name) : Defines (rows' ++ rows) name := by
  induction rows' with
  | nil => exact h
  | cons row rest ih =>
    obtain ⟨result, params, hmem⟩ := ih
    exact ⟨result, params, mem_functionHeads_cons row hmem⟩

theorem inFlatMap {α : Type} (f : α → List Row) {l : List α} {a : α} (ha : a ∈ l)
    (h : Defines (f a) name) : Defines (l.flatMap f) name := by
  obtain ⟨before, after, rfl⟩ := List.append_of_mem ha
  rw [List.flatMap_append, List.flatMap_cons]
  exact (h.left _).right _

end Defines

theorem mem_definedKeys {key : NameKey} : key ∈ c.definedKeys ↔
    (∃ i t, c.program.types[i]? = some t ∧ (c.lowers t && !t.isStatic) = true ∧
      key = .allocator i) ∨
      ∃ i m, c.program.methods[i]? = some m ∧ c.definesMethod m = true ∧ key = .method i := by
  unfold Context.definedKeys allocatorKeys
  rw [List.mem_append, List.mem_flatMap, List.mem_flatMap]
  constructor
  · rintro (⟨⟨t, i⟩, ht, hk⟩ | ⟨⟨m, i⟩, hm, hk⟩)
    · dsimp only at hk
      split at hk
      · rename_i hl
        exact Or.inl ⟨i, t, List.mem_zipIdx_iff_getElem?.mp ht, hl, List.mem_singleton.mp hk⟩
      · cases hk
    · dsimp only at hk
      split at hk
      · rename_i hd
        exact Or.inr ⟨i, m, List.mem_zipIdx_iff_getElem?.mp hm, hd, List.mem_singleton.mp hk⟩
      · cases hk
  · rintro (⟨i, t, ht, hl, rfl⟩ | ⟨i, m, hm, hd, rfl⟩)
    · exact Or.inl ⟨(t, i), List.mem_zipIdx_iff_getElem?.mpr ht, by simp [hl]⟩
    · exact Or.inr ⟨(m, i), List.mem_zipIdx_iff_getElem?.mpr hm, by simp [hd]⟩

theorem method_mem_definedKeys {i : Nat} {m : MethodDecl} (hm : c.program.methods[i]? = some m) :
    .method i ∈ c.definedKeys ↔ c.definesMethod m = true := by
  rw [mem_definedKeys]
  constructor
  · rintro (⟨_, _, _, _, he⟩ | ⟨i', m', hm', hd, he⟩)
    · cases he
    · cases he
      rw [hm] at hm'
      cases hm'
      exact hd
  · intro hd
    exact Or.inr ⟨i, m, hm, hd, rfl⟩

theorem allocator_mem_definedKeys {i : Nat} {t : TypeDecl} (ht : c.program.types[i]? = some t) :
    .allocator i ∈ c.definedKeys ↔ (c.lowers t && !t.isStatic) = true := by
  rw [mem_definedKeys]
  constructor
  · rintro (⟨i', t', ht', hl, he⟩ | ⟨_, _, _, _, he⟩)
    · cases he
      rw [ht] at ht'
      cases ht'
      exact hl
    · cases he
  · intro hl
    exact Or.inl ⟨i, t, ht, hl, rfl⟩

/-- **What can be called is defined if it is not left out.** -/
theorem defined_iff_not_leftOut {key : NameKey} (h : c.Callable key) :
    key ∈ c.definedKeys ↔ c.leftOut key = false := by
  cases key with
  | type i => exact h.elim
  | constructor i =>
    rw [mem_definedKeys]
    simp [Context.leftOut]
  | method i =>
    obtain ⟨m, hm, hn⟩ := h
    rw [method_mem_definedKeys hm]
    simp [Context.leftOut, Context.definesMethod, hm, hn, and_comm]
  | allocator i =>
    obtain ⟨t, ht, hk, hr⟩ := h
    rw [allocator_mem_definedKeys ht]
    simp [Context.leftOut, Context.lowers, ht, hk, hr, and_comm]

/-- The allocator of a type is defined with its name. -/
theorem allocator_defined (ν : Spelling) {i : Nat} {t : TypeDecl}
    (ht : c.program.types[i]? = some t) (hl : (c.lowers t && !t.isStatic) = true) :
    Defines (c.rows ν) (ν (.allocator i)) := by
  have hrows : Defines (allocatorRows c ν i t) (ν (.allocator i)) := by
    refine ⟨ν (.type i) ++ "*", "", ?_⟩
    unfold allocatorRows
    rw [if_pos hl]
    simp [allocatorBlock, functionHeads, String.append_assoc]
  have hmem : (t, i) ∈ c.program.types.zipIdx := List.mem_zipIdx_iff_getElem?.mpr ht
  have hpass : Defines (c.program.types.zipIdx.flatMap fun (t, i) => allocatorRows c ν i t)
      (ν (.allocator i)) := .inFlatMap _ hmem hrows
  exact (((hpass.left _).right _).right [Row.blank]).right _

/-- A method with a function of its own belongs to a type. -/
theorem owner_of_definesMethod {m : MethodDecl} (hf : methodFault c m = none)
    (hd : c.definesMethod m = true) : ∃ owner, m.owner = some owner := by
  simp only [Context.definesMethod, Bool.and_eq_true, bne_iff_ne, Bool.not_eq_true'] at hd
  unfold methodFault at hf
  rw [if_neg hd.1, hd.2] at hf
  cases hown : m.owner with
  | none =>
    rw [hown] at hf
    cases hf
  | some owner => exact ⟨owner, rfl⟩

/-- A method that becomes a function is defined with its name. -/
theorem method_defined (ν : Spelling) (hf : c.fault = none) {i : Nat} {m : MethodDecl}
    (hm : c.program.methods[i]? = some m) (hd : c.definesMethod m = true) :
    Defines (c.rows ν) (ν (.method i)) := by
  have hrows : Defines (functionRows c ν i m) (ν (.method i)) := by
    obtain ⟨owner, hown⟩ :=
      owner_of_definesMethod (methodFault_of_fault hf (List.mem_of_getElem? hm)) hd
    simp only [Context.definesMethod, Bool.and_eq_true, bne_iff_ne, Bool.not_eq_true'] at hd
    unfold functionRows
    rw [if_neg hd.1, hd.2, hown]
    refine ⟨m.returnType, parameterList (ν (.type owner.position)) m.params, ?_⟩
    simp [functionBlock, Stmt.rows, functionHeads, methodHead]
  have hmem : (m, i) ∈ c.program.methods.zipIdx := List.mem_zipIdx_iff_getElem?.mpr hm
  have hpass : Defines (c.program.methods.zipIdx.flatMap fun (m, i) => functionRows c ν i m)
      (ν (.method i)) := .inFlatMap _ hmem hrows
  exact (((hpass.right _).right _).right [Row.blank]).right _

theorem defines_of_mem (ν : Spelling) (hf : c.fault = none) {key : NameKey}
    (hk : key ∈ c.definedKeys) : Defines (c.rows ν) (ν key) := by
  rcases mem_definedKeys.mp hk with ⟨i, t, ht, hl, rfl⟩ | ⟨i, m, hm, hd, rfl⟩
  · exact allocator_defined ν ht hl
  · exact method_defined ν hf hm hd

/-! ## 5. The law -/

/-- **What is called is defined, unless it is left out.** In the text that a fresh generator writes,
the bodies use no numbered names but those of the called keys, every called key stands in a call in
a body, the passes take it exactly if it is not left out, and what they take is defined in the
text. -/
theorem called_defined_unless_leftOut {p : Program} {o : Options} {g : Generator} {code : String}
    (hg : Generator.ofProgram p o = .ok g) (hrun : g.generate.1 = .ok code) :
    let c : Context := { program := p, options := o }
    let ν := spellingOf p c.keys
    code = render 0 (c.rows ν) ∧
      (∀ ν' : Spelling, (∀ i, ν (.type i) = ν' (.type i)) → (∀ k ∈ c.calledKeys, ν k = ν' k) →
        render 0 (c.bodyRows ν) = render 0 (c.bodyRows ν')) ∧
      ∀ key ∈ c.calledKeys,
        (∃ row ∈ c.bodyRows ν, Mentions row.text (ν key ++ "(")) ∧
          (key ∈ c.definedKeys ↔ c.leftOut key = false) ∧
          (key ∈ c.definedKeys → Defines (c.rows ν) (ν key)) := by
  intro c ν
  obtain ⟨ho, rfl⟩ := Generator.eq_of_ofProgram hg
  obtain ⟨hcourse, hcode⟩ := generate_fresh c hrun
  have hf : c.fault = none := by
    rw [← Context.course_fault ho]
    exact hcourse
  refine ⟨hcode, fun ν' htypes hkeys => bodyRows_congr ho hf htypes hkeys, fun key hk => ?_⟩
  obtain ⟨row, hrow, hcall⟩ := bodies_call (ν := ν) hf hk
  exact ⟨⟨row, hrow, hcall.mentions⟩, defined_iff_not_leftOut hcall.callable, defines_of_mem ν hf⟩

/-- All functions that the ship calls are defined. -/
theorem ship_calls_defined :
    let c : Context := { program := ship }
    let ν := spellingOf ship c.keys
    c.calledKeys = [.allocator 0, .method 2, .method 1, .method 1] ∧
      ∀ key ∈ c.calledKeys, Defines (c.rows ν) (ν key) := by
  intro c ν
  have hg : Generator.ofProgram ship {} = .ok { context := c } := rfl
  have hok := Generator.generate_of_ok (g := { context := c }) (NameTable.Sound.empty ship)
    (by decide +kernel)
  obtain ⟨-, -, hcalled⟩ := called_defined_unless_leftOut hg hok
  have hin : ∀ key ∈ c.calledKeys, c.leftOut key = false := by decide +kernel
  refine ⟨by decide +kernel, fun key hk => ?_⟩
  obtain ⟨-, hiff, hdefines⟩ := hcalled key hk
  exact hdefines (hiff.mpr (hin key hk))

/-- A program that calls one function of each kind that is left out: the allocator of a static type,
a static method, the allocator of the definition of the marker, a user constructor, and its entry
point. -/
def fleet : Program where
  types := [(TypeDecl.classNamed "Fleet").asStatic, .classNamed "CAttribute"]
  methods := [
    { owner := some ⟨0⟩, name := "Main", isStatic := true, body := some [
        .expression (.callOn (.creation ⟨0⟩ none []) ⟨1⟩ []),
        .expression (.creation ⟨1⟩ none []),
        .expression (.callOn (.creation ⟨0⟩ (some ⟨0⟩) []) ⟨0⟩ [])] },
    (MethodDecl.instanceOf ⟨0⟩ "launch").asStatic]
  constructors := [{ owner := ⟨0⟩ }]

/-- **Calls without definitions.** The fleet is lowered, and none of the five functions that it
calls is defined: its one function is the main function. -/
theorem fleet_calls_undefined :
    let c : Context := { program := fleet }
    let ν := spellingOf fleet c.keys
    Generator.ofProgram fleet {} = .ok { context := c } ∧
      (Generator.generate { context := c }).1 = .ok (render 0 (c.rows ν)) ∧
      c.calledKeys = [.allocator 0, .method 1, .allocator 1, .constructor 0, .method 0] ∧
      ∀ key ∈ c.calledKeys, ¬ Defines (c.rows ν) (ν key) := by
  intro c ν
  have hfault : c.course.fault = none := by decide +kernel
  have hok := Generator.generate_of_ok (g := { context := c }) (NameTable.Sound.empty fleet) hfault
  have htext : c.unitText _ = render 0 (c.rows ν) := unitText_namesAfter c hfault
  have hheads : functionHeads (c.rows ν) = ["int main()"] := by decide +kernel
  have hlong : ∀ key ∈ c.calledKeys, 8 ≤ (ν key).length := by decide +kernel
  refine ⟨rfl, hok.trans (congrArg Except.ok htext), by decide +kernel, fun key hk => ?_⟩
  rintro ⟨result, params, hhead⟩
  -- the head would be longer than the one that there is
  rw [hheads, List.mem_singleton] at hhead
  have hlength := congrArg String.length hhead
  simp only [String.length_append] at hlength
  have hname := hlong key hk
  have hmain : "int main()".length = 10 := by decide
  have hopen : "(".length = 1 ∧ ")".length = 1 ∧ " ".length = 1 := by decide
  omega

end Lowering
