import Lowering.Proofs.ExpressionPhrases

/-!
# Reading expressions back

The phrase of an expression says which operand a sign, an index or an operator belongs to, if the
expression has the grouping that its text shows: an index or a member follows a name, a parenthesis
or another index, a sign stands before one of these or another sign, and the left side of an
assignment is no assignment. Then the expression can be read back from its phrase, and so from its
text. This is a reading of the text alone. A compiler, which has ranks of operators, may take
`(a = b + c)` as another expression, and two signs in a row as one operator.

* `Expr.bare` -- an expression without what its text cannot show;
* `Expr.Grouped` -- the grouping that the text shows;
* `Phrase.tree` -- the expression that a phrase is read as;
* `Expr.tree_phrase` -- a grouped expression is read back from its phrase;
* `reading_unique` -- calls, binary operations, indices and members are read in one way only.
-/

namespace Lowering

/-! ## 1. Trees -/

mutual

/-- An expression without the annotations of its names and members. Forms that are no part of
phrases stay as they are. -/
def Expr.bare : Expr → Expr
  | .identifier name _ => .identifier name .localVariable
  | .memberAccess target name _ => .memberAccess target.bare name (.field none)
  | .binary left op right => .binary left.bare op right.bare
  | .assignment left op right => .assignment left.bare op right.bare
  | .prefixUnary op operand => .prefixUnary op operand.bare
  | .elementAccess target index => .elementAccess target.bare index.bare
  | .invocation receiver method args => .invocation receiver method (allBare args)
  | .literal kind text => .literal kind text
  | .collection type elements => .collection type elements
  | .implicitCreation args inits => .implicitCreation args inits
  | .creation type constructor args => .creation type constructor args
  | .initializer elements => .initializer elements
  | .unsupported syntaxKind => .unsupported syntaxKind

/-- Arguments without the annotations of their names and members. -/
def allBare : List Expr → List Expr
  | [] => []
  | e :: rest => e.bare :: allBare rest

end

/-- A sign may stand in front of the expression, and an assignment operator behind it. -/
def Expr.takesSign : Expr → Bool
  | .assignment .. => false
  | _ => true

/-- An index or a member may follow the expression. -/
def Expr.takesTail : Expr → Bool
  | .assignment .. | .prefixUnary .. => false
  | _ => true

mutual

/-- The expression is grouped as its text is. -/
def Expr.Grouped : Expr → Prop
  | .binary left _ right => left.Grouped ∧ right.Grouped
  | .assignment left _ right => left.takesSign = true ∧ left.Grouped ∧ right.Grouped
  | .prefixUnary _ operand => operand.takesSign = true ∧ operand.Grouped
  | .elementAccess target index => target.takesTail = true ∧ target.Grouped ∧ index.Grouped
  | .memberAccess target _ _ => target.takesTail = true ∧ target.Grouped
  | .invocation _ _ args => allGrouped args
  | _ => True

/-- The arguments are grouped as their texts are. -/
def allGrouped : List Expr → Prop
  | [] => True
  | e :: rest => e.Grouped ∧ allGrouped rest

end

variable {c : Context} {v : Vocabulary}

mutual

theorem Expr.phrase_bare (c : Context) : ∀ e : Expr, e.bare.phrase c = e.phrase c
  | .identifier .. | .literal .. => rfl
  | .collection .. | .implicitCreation .. | .creation .. | .initializer .. | .unsupported .. => rfl
  | .binary left op right => by
    simp only [Expr.bare, Expr.phrase, left.phrase_bare c, right.phrase_bare c]
  | .assignment left op right => by
    simp only [Expr.bare, Expr.phrase, left.phrase_bare c, right.phrase_bare c]
  | .prefixUnary op operand => by simp only [Expr.bare, Expr.phrase, operand.phrase_bare c]
  | .elementAccess target index => by
    simp only [Expr.bare, Expr.phrase, target.phrase_bare c, index.phrase_bare c]
  | .memberAccess target name symbol => by simp only [Expr.bare, Expr.phrase, target.phrase_bare c]
  | .invocation receiver method args => by
    simp only [Expr.bare, Expr.phrase, argPhrases_bare c args]

theorem argPhrases_bare (c : Context) :
    ∀ args : List Expr, argPhrases c (allBare args) = argPhrases c args
  | [] => rfl
  | e :: rest => by simp only [allBare, argPhrases, e.phrase_bare c, argPhrases_bare c rest]

end

/-! ## 2. The tree of a phrase -/

/-- A word is a number or a name. -/
def wordTree (w : String) : Expr :=
  if w.toList.head?.any Char.isDigit then .literal .numeric w else .identifier w .localVariable

/-- An assignment in front of an operation in parentheses belongs to the left side of the
operation. -/
def Expr.assigned (target : Expr) (op : String) : Expr → Expr
  | .binary left op' right => .binary (.assignment target op left) op' right
  | e => .assignment target op e

/-- A name with arguments behind it is a call. -/
def Expr.called (method : String → MethodId) (args : List Expr) : Expr → Expr
  | .identifier name _ => .invocation none (method name) args
  | e => e

section

variable (assigns : String → Bool) (method : String → MethodId)

mutual

/-- The expression that a phrase is read as: operators outside of parentheses assign. -/
def Phrase.tree : Phrase → Expr
  | .single o => o.tree
  | .more o op rest => .assignment o.tree op rest.tree

/-- The expression that a phrase in parentheses is read as: its first operator that does not assign
is the operation. -/
def Phrase.inner : Phrase → Expr
  | .single o => o.tree
  | .more o op rest =>
    if assigns op then o.tree.assigned op rest.inner else .binary o.tree op rest.tree

/-- The expression that an operand is read as. -/
def Operand.tree : Operand → Expr
  | .signed sign o => .prefixUnary sign o.tree
  | .word w tail => tail.onto (wordTree w)
  | .group p tail => tail.onto p.inner

/-- The expression that a tail makes of what it follows. -/
def Tail.onto : Tail → Expr → Expr
  | .done, base => base
  | .index p tail, base => tail.onto (.elementAccess base p.tree)
  | .member name tail, base => tail.onto (.memberAccess base name (.field none))
  | .call args tail, base => tail.onto (base.called method args.trees)

/-- The expressions that arguments are read as. -/
def Args.trees : Args → List Expr
  | .none => []
  | .last p => [p.tree]
  | .more p rest => p.tree :: rest.trees

end

theorem Tail.onto_append (more : Tail) : ∀ (tail : Tail) (base : Expr),
    (tail.append more).onto assigns method base =
      more.onto assigns method (tail.onto assigns method base)
  | .done, _ => rfl
  | .index p tail, base => by rw [Tail.append, Tail.onto, Tail.onto, Tail.onto_append more tail]
  | .member name tail, base => by rw [Tail.append, Tail.onto, Tail.onto, Tail.onto_append more tail]
  | .call args tail, base => by rw [Tail.append, Tail.onto, Tail.onto, Tail.onto_append more tail]

theorem Args.trees_cons (p : Phrase) (args : Args) :
    (args.cons p).trees assigns method = p.tree assigns method :: args.trees assigns method := by
  cases args <;> rfl

end

/-- An operand without a sign. -/
def Operand.Unsigned : Operand → Prop
  | .signed .. => False
  | .word .. | .group .. => True

variable {assigns : String → Bool} {method : String → MethodId}

theorem Operand.unsigned_extend {o : Operand} (tail : Tail) (h : o.Unsigned) :
    (o.extend tail).Unsigned := by
  cases o with
  | signed sign o => exact h
  | word w first => trivial
  | group p first => trivial

theorem Operand.tree_extend {o : Operand} (tail : Tail) (h : o.Unsigned) :
    (o.extend tail).tree assigns method = tail.onto assigns method (o.tree assigns method) := by
  cases o with
  | signed sign o => exact h.elim
  | word w first => exact Tail.onto_append assigns method tail first _
  | group p first => exact Tail.onto_append assigns method tail first _

/-- All operators outside of parentheses assign. -/
def Phrase.Loose (assigns : String → Bool) : Phrase → Prop
  | .single _ => True
  | .more _ op rest => assigns op = true ∧ rest.Loose assigns

theorem Phrase.loose_join {op : String} {q : Phrase} (hop : assigns op = true)
    (hq : q.Loose assigns) :
    ∀ p : Phrase, p.Loose assigns → (p.join op q).Loose assigns
  | .single _, _ => ⟨hop, hq⟩
  | .more _ _ rest, hp => ⟨hp.1, Phrase.loose_join hop hq rest hp.2⟩

theorem Phrase.loose_signed (sign : String) {p : Phrase} (hp : p.Loose assigns) :
    (p.signed sign).Loose assigns := by
  cases p with
  | single o => trivial
  | more o op rest => exact hp

theorem Phrase.loose_extend (tail : Tail) :
    ∀ p : Phrase, p.Loose assigns → (p.extend tail).Loose assigns
  | .single _, _ => trivial
  | .more _ _ rest, hp => ⟨hp.1, Phrase.loose_extend tail rest hp.2⟩

/-- In parentheses the first operator that does not assign is the operation. -/
theorem Phrase.inner_join {op : String} (q : Phrase) (hop : assigns op = false) :
    ∀ p : Phrase, p.Loose assigns →
      (p.join op q).inner assigns method =
        .binary (p.tree assigns method) op (q.tree assigns method)
  | .single o, _ => by rw [Phrase.join, Phrase.inner, hop, Phrase.tree]; rfl
  | .more o first rest, hp => by
    rw [Phrase.join, Phrase.inner, if_pos hp.1, Phrase.inner_join q hop rest hp.2]
    rfl

/-! ## 3. Grouped expressions are read back -/

/-- A vocabulary that is read by which operators assign and which method a name stands for. -/
structure Vocabulary.ReadBy (v : Vocabulary) (c : Context) (assigns : String → Bool)
    (method : String → MethodId) : Prop extends v.Fits c where
  assigning : ∀ op, v.assignment op → assigns op = true
  operating : ∀ op, v.binary op → assigns op = false
  calling : ∀ id n, v.callee id n → method (c.calleeName id) = id

theorem Expr.loose_phrase (hv : v.ReadBy c assigns method) :
    ∀ e : Expr, e.Over v → (e.phrase c).Loose assigns
  | .identifier .., _ | .literal .., _ | .binary .., _ | .invocation .., _ => trivial
  | .assignment left op right, ⟨hop, hl, hr⟩ =>
    Phrase.loose_join (hv.assigning op hop) (right.loose_phrase hv hr) _ (left.loose_phrase hv hl)
  | .prefixUnary op operand, ⟨_, ho⟩ => Phrase.loose_signed op (operand.loose_phrase hv ho)
  | .elementAccess target _, ⟨ht, _⟩ => Phrase.loose_extend _ _ (target.loose_phrase hv ht)
  | .memberAccess target _ _, ⟨_, _, ht⟩ => Phrase.loose_extend _ _ (target.loose_phrase hv ht)

/-- What a tail may follow is one operand without a sign. -/
theorem Expr.phrase_of_takesTail (c : Context) :
    ∀ e : Expr, e.Grouped → e.takesTail = true → ∃ o : Operand, e.phrase c = .single o ∧ o.Unsigned
  | .identifier .., _, _ | .literal .., _, _ | .binary .., _, _ | .invocation .., _, _ =>
    ⟨_, rfl, trivial⟩
  | .collection .., _, _ | .implicitCreation .., _, _ | .creation .., _, _ | .initializer .., _, _
  | .unsupported .., _, _ => ⟨_, rfl, trivial⟩
  | .elementAccess target _, hg, _ => by
    obtain ⟨o, ho, hunsigned⟩ := target.phrase_of_takesTail c hg.2.1 hg.1
    rw [Expr.phrase, ho]
    exact ⟨_, rfl, Operand.unsigned_extend _ hunsigned⟩
  | .memberAccess target _ _, hg, _ => by
    obtain ⟨o, ho, hunsigned⟩ := target.phrase_of_takesTail c hg.2 hg.1
    rw [Expr.phrase, ho]
    exact ⟨_, rfl, Operand.unsigned_extend _ hunsigned⟩

/-- What a sign may precede is one operand. -/
theorem Expr.phrase_of_takesSign (c : Context) :
    ∀ e : Expr, e.Grouped → e.takesSign = true → ∃ o : Operand, e.phrase c = .single o
  | .prefixUnary op operand, hg, _ => by
    obtain ⟨o, ho⟩ := operand.phrase_of_takesSign c hg.2 hg.1
    rw [Expr.phrase, ho]
    exact ⟨_, rfl⟩
  | .identifier .., _, _ | .literal .., _, _ | .binary .., _, _ | .invocation .., _, _ => ⟨_, rfl⟩
  | .collection .., _, _ | .implicitCreation .., _, _ | .creation .., _, _ | .initializer .., _, _
  | .unsupported .., _, _ => ⟨_, rfl⟩
  | .elementAccess target index, hg, _ => by
    obtain ⟨o, ho, -⟩ := (Expr.elementAccess target index).phrase_of_takesTail c hg rfl
    exact ⟨o, ho⟩
  | .memberAccess target name symbol, hg, _ => by
    obtain ⟨o, ho, -⟩ := (Expr.memberAccess target name symbol).phrase_of_takesTail c hg rfl
    exact ⟨o, ho⟩

theorem wordTree_identifier {w : String} (h : IsIdentifier w) :
    wordTree w = .identifier w .localVariable := by
  obtain ⟨ch, rest, hw, -⟩ := h.1.head
  have hdigit : ch.isDigit = false := h.2 ch (by rw [hw]; rfl)
  simp [wordTree, hw, hdigit]

theorem wordTree_numeral {w : String} (h : IsNumeral w) : wordTree w = .literal .numeric w := by
  obtain ⟨ch, rest, hw, -⟩ := h.isWord.head
  have hdigit : ch.isDigit = true := h.2 ch (by rw [hw]; exact List.mem_cons_self)
  simp [wordTree, hw, hdigit]

mutual

/-- A grouped expression is read back from its phrase. -/
theorem Expr.tree_phrase (hv : v.ReadBy c assigns method) :
    ∀ e : Expr, e.Over v → e.Grouped → (e.phrase c).tree assigns method = e.bare
  | .identifier name symbol, ⟨hname, _⟩, _ => wordTree_identifier hname
  | .literal kind text, ⟨htext, hkind⟩, _ => by
    subst hkind
    exact wordTree_numeral (hv.numeral text htext)
  | .binary left op right, ⟨hop, hl, hr⟩, hg => by
    -- the left side has no operation of its own outside of parentheses, so the first one found is
    -- this one
    have hloose : (left.phrase c).Loose assigns := left.loose_phrase hv hl
    show ((left.phrase c).join op (right.phrase c)).inner assigns method = _
    rw [Phrase.inner_join _ (hv.operating op hop) _ hloose,
      left.tree_phrase hv hl hg.1,
      right.tree_phrase hv hr hg.2, Expr.bare]
  | .assignment left op right, ⟨_, hl, hr⟩, hg => by
    obtain ⟨o, ho⟩ := left.phrase_of_takesSign c hg.2.1 hg.1
    have hleft := left.tree_phrase hv hl hg.2.1
    rw [ho, Phrase.tree] at hleft
    rw [Expr.phrase, ho, Phrase.join, Phrase.tree, hleft,
      right.tree_phrase hv hr hg.2.2, Expr.bare]
  | .prefixUnary op operand, ⟨_, ho⟩, hg => by
    obtain ⟨o, hphrase⟩ := operand.phrase_of_takesSign c hg.2 hg.1
    have hoperand := operand.tree_phrase hv ho hg.2
    rw [hphrase, Phrase.tree] at hoperand
    rw [Expr.phrase, hphrase, Phrase.signed, Phrase.tree, Operand.tree, hoperand, Expr.bare]
  | .elementAccess target index, ⟨ht, hi⟩, hg => by
    obtain ⟨o, ho, hunsigned⟩ := target.phrase_of_takesTail c hg.2.1 hg.1
    have htarget := target.tree_phrase hv ht hg.2.1
    rw [ho, Phrase.tree] at htarget
    rw [Expr.phrase, ho, Phrase.extend, Phrase.tree, Operand.tree_extend _ hunsigned,
      Tail.onto, Tail.onto, htarget, index.tree_phrase hv hi hg.2.2, Expr.bare]
  | .memberAccess target name symbol, ⟨_, _, ht⟩, hg => by
    obtain ⟨o, ho, hunsigned⟩ := target.phrase_of_takesTail c hg.2 hg.1
    have htarget := target.tree_phrase hv ht hg.2
    rw [ho, Phrase.tree] at htarget
    rw [Expr.phrase, ho, Phrase.extend, Phrase.tree, Operand.tree_extend _ hunsigned,
      Tail.onto, Tail.onto, htarget, Expr.bare]
  | .invocation receiver id args, ⟨hreceiver, hcallee, hargs⟩, hg => by
    obtain ⟨m, hm, -, hname, -⟩ := hv.callee id args.length hcallee
    rw [← callee_ok hm] at hname
    rw [Expr.phrase, Phrase.tree, Operand.tree, wordTree_identifier hname, Tail.onto,
      Tail.onto, Expr.called, hv.calling id _ hcallee, trees_argPhrases hv args hargs hg, Expr.bare,
      Option.isNone_iff_eq_none.mp hreceiver]

theorem trees_argPhrases (hv : v.ReadBy c assigns method) :
    ∀ args : List Expr, allOver v args → allGrouped args →
      (argPhrases c args).trees assigns method = allBare args
  | [], _, _ => rfl
  | e :: rest, ha, hg => by
    rw [argPhrases, Args.trees_cons, e.tree_phrase hv ha.1 hg.1,
      trees_argPhrases hv rest ha.2 hg.2, allBare]

end

/-- Grouped expressions have the same text exactly if they are the same but for annotations. -/
theorem Expr.spelled_eq_iff_bare (hv : v.ReadBy c assigns method) {e e' : Expr} (he : e.Over v)
    (he' : e'.Over v) (hg : e.Grouped) (hg' : e'.Grouped) :
    e.spelled c = e'.spelled c ↔ e.bare = e'.bare := by
  rw [Expr.spelled_eq_iff hv.toFits he he']
  constructor
  · intro h
    rw [← e.tree_phrase hv he hg, ← e'.tree_phrase hv he' hg', h]
  · intro h
    rw [← e.phrase_bare c, ← e'.phrase_bare c, h]

/-! ## 4. Calls, binary operations, indices and members -/

/-- The characters of the operators of binary operations. -/
def operatorChars : List Char := ['+', '-', '*', '/', '%', '<', '>', '=', '!', '&', '|', '^']

/-- Native methods that can be told apart by their names. -/
structure Context.Callees (c : Context) (callees : MethodId → Prop) : Prop where
  native : ∀ id, callees id → ∃ m, c.program.methodAt id.position = .ok m ∧ m.isNative = true ∧
    IsIdentifier m.name
  apart : ∀ id id', callees id → callees id' → c.calleeName id = c.calleeName id' → id = id'

/-- Numbers, binary operations and calls. A method that prints is not called with one argument. -/
def Context.callVocabulary (c : Context) (callees : MethodId → Prop) : Vocabulary where
  binary op := ∀ ch ∈ op.toList, ch ∈ operatorChars
  assignment _ := False
  sign _ := False
  numeral := IsNumeral
  callee id n := callees id ∧ ¬ (c.calleeName id = c.options.printPrimitive ∧ n = 1)

variable {callees : MethodId → Prop}

theorem callVocabulary_fits (hc : c.Callees callees) : (c.callVocabulary callees).Fits c where
  binary op hop hblank := absurd (hop ' ' hblank) (by decide)
  assignment _ h := h.elim
  sign _ h := h.elim
  numeral _ h := h
  callee id n h := by
    obtain ⟨m, hm, hnative, hname⟩ := hc.native id h.1
    exact ⟨m, hm, hnative, hname, callee_ok hm ▸ h.2⟩

theorem callVocabulary_readBy (hc : c.Callees callees) :
    ∃ method, (c.callVocabulary callees).ReadBy c (fun _ => false) method := by
  classical
  -- any method of the name will do, since there is only one
  refine ⟨fun name => if h : ∃ id, callees id ∧ c.calleeName id = name then h.choose else ⟨0⟩,
    { callVocabulary_fits hc with
      assigning := fun _ h => h.elim
      operating := fun _ _ => rfl
      calling := fun id n h => ?_ }⟩
  have hname : ∃ id', callees id' ∧ c.calleeName id' = c.calleeName id := ⟨id, h.1, rfl⟩
  rw [dif_pos hname]
  exact hc.apart _ _ hname.choose_spec.1 h.1 hname.choose_spec.2

theorem takesTail_of_over :
    ∀ {e : Expr}, e.Over (c.callVocabulary callees) → e.takesTail = true := by
  intro e he
  cases e with
  | assignment left op right => exact he.1.elim
  | prefixUnary op operand => exact he.1.elim
  | _ => rfl

mutual

/-- Without signs and assignments every expression is grouped. -/
theorem grouped_of_over : ∀ e : Expr, e.Over (c.callVocabulary callees) → e.Grouped
  | .identifier .., _ | .literal .., _ => trivial
  | .binary left _ right, ⟨_, hl, hr⟩ => ⟨grouped_of_over left hl, grouped_of_over right hr⟩
  | .assignment .., he => he.1.elim
  | .prefixUnary .., he => he.1.elim
  | .elementAccess target index, ⟨ht, hi⟩ =>
    ⟨takesTail_of_over ht, grouped_of_over target ht, grouped_of_over index hi⟩
  | .memberAccess target _ _, ⟨_, _, ht⟩ => ⟨takesTail_of_over ht, grouped_of_over target ht⟩
  | .invocation _ _ args, ⟨_, _, ha⟩ => allGrouped_of_over args ha

theorem allGrouped_of_over :
    ∀ args : List Expr, allOver (c.callVocabulary callees) args → allGrouped args
  | [], _ => trivial
  | e :: rest, ha => ⟨grouped_of_over e ha.1, allGrouped_of_over rest ha.2⟩

end

/-- **Calls, binary operations, indices and members are read in one way.** Expressions of them, with
any nesting and any number of arguments, are lowered whatever names were granted before, and two of
them have the same text exactly if they are the same tree, annotations of names and members
aside. -/
theorem reading_unique (hc : c.Callees callees) {e₁ e₂ : Expr}
    (h₁ : e₁.Over (c.callVocabulary callees)) (h₂ : e₂.Over (c.callVocabulary callees))
    (receiver₁ receiver₂ : Option TypeId) (t₁ t₂ : NameTable) :
    ∃ text₁ text₂, e₁.lower c receiver₁ t₁ = .ok text₁ t₁ ∧ e₂.lower c receiver₂ t₂ = .ok text₂ t₂ ∧
      (text₁ = text₂ ↔ e₁.bare = e₂.bare) := by
  obtain ⟨method, hv⟩ := callVocabulary_readBy hc
  refine ⟨e₁.spelled c, e₂.spelled c, e₁.lower_eq_spell hv.toFits receiver₁ t₁ h₁,
    e₂.lower_eq_spell hv.toFits receiver₂ t₂ h₂, ?_⟩
  exact Expr.spelled_eq_iff_bare hv h₁ h₂ (grouped_of_over e₁ h₁) (grouped_of_over e₂ h₂)

/-- Two native methods, one of them the one that prints. -/
def almanac : Context where
  program :=
    { methods := [{ name := "tide", isNative := true }, { name := "Print", isNative := true }] }

/-- A call of calls, with the owner of the one field left open. -/
def highTide (owner : Option TypeId) : Expr :=
  .call ⟨0⟩
    [.memberAccess (.elementAccess (.variableNamed "moons")
      (.binary (.variableNamed "i") "+" (.number "1")))
        "phase" (.field owner),
      .call ⟨1⟩ []]

theorem almanac_callees : almanac.Callees (fun id => id = ⟨0⟩ ∨ id = ⟨1⟩) where
  native := by
    rintro id (rfl | rfl)
    · exact ⟨_, rfl, rfl, by decide⟩
    · exact ⟨_, rfl, rfl, by decide⟩
  apart := by
    rintro id id' (rfl | rfl) (rfl | rfl) h
    · rfl
    · exact absurd h (by decide)
    · exact absurd h (by decide)
    · rfl

theorem highTide_over (owner : Option TypeId) :
    (highTide owner).Over (almanac.callVocabulary (fun id => id = ⟨0⟩ ∨ id = ⟨1⟩)) := by
  have hplus : ∀ ch ∈ "+".toList, ch ∈ operatorChars := by simp [operatorChars]
  have hone : IsNumeral "1" := by decide
  have hindex : (Expr.binary (.variableNamed "i") "+" (.number "1")).Over
      (almanac.callVocabulary (fun id => id = ⟨0⟩ ∨ id = ⟨1⟩)) :=
        ⟨hplus, ⟨by decide, rfl⟩, hone, rfl⟩
  refine ⟨rfl, ⟨.inl rfl, ?_⟩, ⟨by decide, ⟨owner, rfl⟩, ⟨by decide, rfl⟩, hindex⟩, ?_, trivial⟩
  · rintro ⟨-, hlength⟩
    exact absurd hlength (by simp)
  · exact ⟨rfl, ⟨.inr rfl, by decide⟩, trivial⟩

theorem highTide_read :
    almanac.Callees (fun id => id = ⟨0⟩ ∨ id = ⟨1⟩) ∧
    (highTide none).Over (almanac.callVocabulary (fun id => id = ⟨0⟩ ∨ id = ⟨1⟩)) ∧
    (highTide (some ⟨0⟩)).Over (almanac.callVocabulary (fun id => id = ⟨0⟩ ∨ id = ⟨1⟩)) ∧
    ∃ text₁ text₂, (highTide none).lower almanac none {} = .ok text₁ {} ∧
      (highTide (some ⟨0⟩)).lower almanac none {} = .ok text₂ {} ∧
      (text₁ = text₂ ↔ (highTide none).bare = (highTide (some ⟨0⟩)).bare) :=
  ⟨almanac_callees, highTide_over none, highTide_over (some ⟨0⟩),
    reading_unique almanac_callees (highTide_over none) (highTide_over (some ⟨0⟩)) none none {} {}⟩

end Lowering
