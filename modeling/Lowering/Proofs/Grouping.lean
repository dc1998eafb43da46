import Lowering.Proofs.Readings

/-!
# The grouping of operators

Binary operations are lowered with parentheses, signs and assignments are not. The grouping that the
text of an expression shows is therefore not always its own:

* a sign in front of an assignment belongs to the left side: `-(a = b)` is written `-a = b`;
* an index or a member behind an assignment belongs to the right side: `(a = b).x` is written
  `a = b.x`;
* an index or a member behind a sign belongs to the operand: `(-a)[i]` is written `-a[i]`;
* an assignment to an assignment is one to the first left side: `(a = b) = c` is written
  `a = b = c`.

`Expr.regrouped` makes these four changes everywhere. Its result is grouped and has the same text,
and two expressions have the same text exactly if they are regrouped to the same tree
(`operators_regrouped`).
-/

namespace Lowering

/-! ## 1. Operators -/

/-- The operators that assign. -/
def assignmentOperators : List String :=
  ["=", "*=", "/=", "%=", "+=", "-=", "<<=", ">>=", "&=", "^=", "|="]

/-- The operators of binary operations. -/
def binaryOperators : List String :=
  ["*", "/", "%", "+", "-", "<<", ">>", "<", ">", "<=", ">=", "==", "!=", "&", "^", "|",
    "&&", "||", ","]

/-- Binary operations, assignments and signs. -/
def operatorVocabulary : Vocabulary where
  binary op := op ∈ binaryOperators
  assignment op := op ∈ assignmentOperators
  sign := IsSign
  numeral _ := False
  callee _ _ := False

theorem operatorVocabulary_readBy (c : Context) :
    operatorVocabulary.ReadBy c (assignmentOperators.contains ·) (fun _ => ⟨0⟩) where
  binary := by
    have h : ∀ op ∈ binaryOperators, ' ' ∉ op.toList := by decide
    exact h
  assignment := by
    have h : ∀ op ∈ assignmentOperators, ' ' ∉ op.toList := by decide
    exact h
  sign _ h := h
  numeral _ h := h.elim
  callee _ _ h := h.elim
  assigning _ h := List.contains_iff_mem.mpr h
  operating := by
    have h : ∀ op ∈ binaryOperators, assignmentOperators.contains op = false := by decide
    exact h
  calling _ _ h := h.elim

/-! ## 2. Regrouping -/

/-- An index or a member. -/
inductive Suffix where
  | index (e : Expr)
  | member (name : String) (symbol : Symbol)

/-- An expression with an index or a member behind it. -/
def Suffix.on : Suffix → Expr → Expr
  | .index e, target => .elementAccess target e
  | .member name symbol, target => .memberAccess target name symbol

/-- An expression with a sign in front of its text. -/
def Expr.signedFirst (sign : String) : Expr → Expr
  | .assignment left op right => .assignment (.prefixUnary sign left) op right
  | e => .prefixUnary sign e

/-- An expression with an assignment behind its text. -/
def Expr.assignedLast : Expr → String → Expr → Expr
  | .assignment left first right, op, value => .assignment left first (right.assignedLast op value)
  | e, op, value => .assignment e op value

/-- An expression with an index or a member behind its text. -/
def Expr.suffixedLast (s : Suffix) : Expr → Expr
  | .assignment left op right => .assignment left op (right.suffixedLast s)
  | .prefixUnary sign operand => .prefixUnary sign (operand.suffixedLast s)
  | e => s.on e

/-- The grouping that the text of an expression shows. -/
def Expr.regrouped : Expr → Expr
  | .binary left op right => .binary left.regrouped op right.regrouped
  | .assignment left op right => left.regrouped.assignedLast op right.regrouped
  | .prefixUnary sign operand => operand.regrouped.signedFirst sign
  | .elementAccess target index => target.regrouped.suffixedLast (.index index.regrouped)
  | .memberAccess target name symbol => target.regrouped.suffixedLast (.member name symbol)
  | e => e

namespace Expr

theorem takesSign_of_takesTail {e : Expr} (h : e.takesTail = true) : e.takesSign = true := by
  cases e with
  | assignment left op right => cases h
  | _ => rfl

theorem signedFirst_of_takesSign (sign : String) {e : Expr} (h : e.takesSign = true) :
    e.signedFirst sign = .prefixUnary sign e := by
  cases e with
  | assignment left op right => cases h
  | _ => rfl

theorem assignedLast_of_takesSign (op : String) (value : Expr) {e : Expr} (h : e.takesSign = true) :
    e.assignedLast op value = .assignment e op value := by
  cases e with
  | assignment left first right => cases h
  | _ => rfl

theorem suffixedLast_of_takesTail (s : Suffix) {e : Expr} (h : e.takesTail = true) :
    e.suffixedLast s = s.on e := by
  cases e with
  | assignment left op right => cases h
  | prefixUnary sign operand => cases h
  | _ => rfl

/-- Induction along the end of the text of an expression. -/
@[elab_as_elim]
theorem last_induction {P : Expr → Prop}
    (assignment : ∀ left op right, P right → P (.assignment left op right))
    (signed : ∀ sign operand, P operand → P (.prefixUnary sign operand))
    (last : ∀ e, e.takesTail = true → P e) : ∀ e, P e
  | .assignment left op right =>
    assignment left op right (last_induction assignment signed last right)
  | .prefixUnary sign operand => signed sign operand (last_induction assignment signed last operand)
  | .identifier .. | .literal .. | .binary .. | .elementAccess .. | .memberAccess ..
  | .invocation .. =>
    last _ rfl
  | .collection .. | .implicitCreation .. | .creation .. | .initializer ..
  | .unsupported .. => last _ rfl

end Expr

/-! ## 3. Regrouping keeps the text -/

namespace Phrase

theorem join_join (op op' : String) (q r : Phrase) :
    ∀ p : Phrase, (p.join op q).join op' r = p.join op (q.join op' r)
  | .single _ => rfl
  | .more o first rest => by rw [join, join, join, join_join op op' q r rest]

theorem join_extend (op : String) (q : Phrase) (tail : Tail) :
    ∀ p : Phrase, (p.join op q).extend tail = p.join op (q.extend tail)
  | .single _ => rfl
  | .more o first rest => by rw [join, extend, join, join_extend op q tail rest]

theorem join_signed (sign op : String) (p q : Phrase) :
    (p.join op q).signed sign = (p.signed sign).join op q := by
  cases p <;> rfl

theorem extend_signed (sign : String) (p : Phrase) (tail : Tail) :
    (p.extend tail).signed sign = (p.signed sign).extend tail := by
  cases p <;> rfl

end Phrase

/-- An index or a member as a tail. -/
def Suffix.tail (c : Context) : Suffix → Tail
  | .index e => .index (e.phrase c) .done
  | .member name _ => .member name .done

theorem Suffix.phrase_on (c : Context) (s : Suffix) (e : Expr) :
    (s.on e).phrase c = (e.phrase c).extend (s.tail c) := by
  cases s <;> rfl

namespace Expr

theorem phrase_signedFirst (c : Context) (sign : String) (e : Expr) :
    (e.signedFirst sign).phrase c = (e.phrase c).signed sign := by
  cases e with
  | assignment left op right => exact (Phrase.join_signed sign op _ _).symm
  | _ => rfl

theorem phrase_assignedLast (c : Context) (op : String) (value e : Expr) :
    (e.assignedLast op value).phrase c = (e.phrase c).join op (value.phrase c) := by
  induction e using last_induction with
  | assignment left first right ih => rw [assignedLast, phrase, phrase, ih, Phrase.join_join]
  | signed sign operand => rfl
  | last e h => rw [assignedLast_of_takesSign op value (takesSign_of_takesTail h), phrase]

theorem phrase_suffixedLast (c : Context) (s : Suffix) (e : Expr) :
    (e.suffixedLast s).phrase c = (e.phrase c).extend (s.tail c) := by
  induction e using last_induction with
  | assignment left op right ih => rw [suffixedLast, phrase, phrase, ih, Phrase.join_extend]
  | signed sign operand ih => rw [suffixedLast, phrase, phrase, ih, Phrase.extend_signed]
  | last e h => rw [suffixedLast_of_takesTail s h, s.phrase_on]

theorem phrase_regrouped (c : Context) : ∀ e : Expr, e.regrouped.phrase c = e.phrase c
  | .binary left op right => by
    rw [regrouped, phrase, phrase, phrase_regrouped c left, phrase_regrouped c right]
  | .assignment left op right => by
    rw [regrouped, phrase_assignedLast, phrase_regrouped c left, phrase_regrouped c right, ← phrase]
  | .prefixUnary sign operand => by
    rw [regrouped, phrase_signedFirst, phrase_regrouped c operand, ← phrase]
  | .elementAccess target index => by
    rw [regrouped, phrase_suffixedLast, phrase_regrouped c target, Suffix.tail,
      phrase_regrouped c index, ← phrase]
  | .memberAccess target name symbol => by
    rw [regrouped, phrase_suffixedLast, phrase_regrouped c target, Suffix.tail, phrase]
  | .identifier .. | .literal .. | .invocation .. | .collection ..
  | .implicitCreation .. | .creation ..
  | .initializer .. | .unsupported .. => rfl

end Expr

/-! ## 4. What regrouping makes is grouped -/

/-- An index is built with a vocabulary, or a member is one of a field. -/
def Suffix.Over (v : Vocabulary) : Suffix → Prop
  | .index e => e.Over v
  | .member name symbol => IsIdentifier name ∧ ∃ owner, symbol = .field owner

/-- An index is grouped as its text is. -/
def Suffix.Grouped : Suffix → Prop
  | .index e => e.Grouped
  | .member .. => True

variable {v : Vocabulary} {s : Suffix}

theorem Suffix.over_on (hs : s.Over v) {e : Expr} (he : e.Over v) : (s.on e).Over v := by
  cases s with
  | index i => exact ⟨he, hs⟩
  | member name symbol => exact ⟨hs.1, hs.2, he⟩

theorem Suffix.grouped_on (hs : s.Grouped) {e : Expr} (ht : e.takesTail = true) (hg : e.Grouped) :
    (s.on e).Grouped := by
  cases s with
  | index i => exact ⟨ht, hg, hs⟩
  | member name symbol => exact ⟨ht, hg⟩

namespace Expr

theorem over_signedFirst {sign : String} (hs : v.sign sign) {e : Expr} (he : e.Over v) :
    (e.signedFirst sign).Over v := by
  cases e with
  | assignment left op right => exact ⟨he.1, ⟨hs, he.2.1⟩, he.2.2⟩
  | _ => exact ⟨hs, he⟩

theorem over_assignedLast {op : String} (hop : v.assignment op) {value : Expr}
    (hvalue : value.Over v) {e : Expr} (he : e.Over v) : (e.assignedLast op value).Over v := by
  induction e using last_induction with
  | assignment left first right ih => exact ⟨he.1, he.2.1, ih he.2.2⟩
  | signed sign operand => exact ⟨hop, he, hvalue⟩
  | last e h =>
    rw [assignedLast_of_takesSign op value (takesSign_of_takesTail h)]
    exact ⟨hop, he, hvalue⟩

theorem over_suffixedLast (hs : s.Over v) {e : Expr} (he : e.Over v) :
    (e.suffixedLast s).Over v := by
  induction e using last_induction with
  | assignment left op right ih => exact ⟨he.1, he.2.1, ih he.2.2⟩
  | signed sign operand ih => exact ⟨he.1, ih he.2⟩
  | last e h =>
    rw [suffixedLast_of_takesTail s h]
    exact Suffix.over_on hs he

theorem grouped_signedFirst (sign : String) {e : Expr} (hg : e.Grouped) :
    (e.signedFirst sign).Grouped := by
  cases e with
  | assignment left op right => exact ⟨rfl, ⟨hg.1, hg.2.1⟩, hg.2.2⟩
  | _ => exact ⟨rfl, hg⟩

theorem grouped_assignedLast (op : String) {value : Expr} (hvalue : value.Grouped) {e : Expr}
    (hg : e.Grouped) : (e.assignedLast op value).Grouped := by
  induction e using last_induction with
  | assignment left first right ih => exact ⟨hg.1, hg.2.1, ih hg.2.2⟩
  | signed sign operand => exact ⟨rfl, hg, hvalue⟩
  | last e h =>
    have hsign : e.takesSign = true := takesSign_of_takesTail h
    rw [assignedLast_of_takesSign op value hsign]
    exact ⟨hsign, hg, hvalue⟩

theorem takesSign_suffixedLast (s : Suffix) {e : Expr} (h : e.takesSign = true) :
    (e.suffixedLast s).takesSign = true := by
  cases e with
  | assignment left op right => cases h
  | prefixUnary sign operand => rfl
  | _ => cases s <;> rfl

theorem grouped_suffixedLast (hs : s.Grouped) {e : Expr} (hg : e.Grouped) :
    (e.suffixedLast s).Grouped := by
  induction e using last_induction with
  | assignment left op right ih => exact ⟨hg.1, hg.2.1, ih hg.2.2⟩
  | signed sign operand ih => exact ⟨takesSign_suffixedLast s hg.1, ih hg.2⟩
  | last e h =>
    rw [suffixedLast_of_takesTail s h]
    exact Suffix.grouped_on hs h hg

theorem over_regrouped : ∀ e : Expr, e.Over v → e.regrouped.Over v
  | .identifier .., he | .literal .., he | .invocation .., he => he
  | .binary left _ right, ⟨hop, hl, hr⟩ => ⟨hop, over_regrouped left hl, over_regrouped right hr⟩
  | .assignment left _ right, ⟨hop, hl, hr⟩ =>
    over_assignedLast hop (over_regrouped right hr) (over_regrouped left hl)
  | .prefixUnary _ operand, ⟨hs, ho⟩ => over_signedFirst hs (over_regrouped operand ho)
  | .elementAccess target index, ⟨ht, hi⟩ => by
    have hindex : (Suffix.index index.regrouped).Over v := over_regrouped index hi
    exact over_suffixedLast hindex (over_regrouped target ht)
  | .memberAccess target name symbol, ⟨hname, hsymbol, ht⟩ => by
    have hmember : (Suffix.member name symbol).Over v := ⟨hname, hsymbol⟩
    exact over_suffixedLast hmember (over_regrouped target ht)

theorem grouped_regrouped : ∀ e : Expr, e.Over operatorVocabulary → e.regrouped.Grouped
  | .identifier .., _ => trivial
  | .literal .., he => he.1.elim
  | .invocation .., he => he.2.1.elim
  | .binary left _ right, ⟨_, hl, hr⟩ => ⟨grouped_regrouped left hl, grouped_regrouped right hr⟩
  | .assignment left op right, ⟨_, hl, hr⟩ =>
    grouped_assignedLast op (grouped_regrouped right hr) (grouped_regrouped left hl)
  | .prefixUnary sign operand, ⟨_, ho⟩ => grouped_signedFirst sign (grouped_regrouped operand ho)
  | .elementAccess target index, ⟨ht, hi⟩ => by
    have hindex : (Suffix.index index.regrouped).Grouped := grouped_regrouped index hi
    exact grouped_suffixedLast hindex (grouped_regrouped target ht)
  | .memberAccess target name symbol, ⟨_, _, ht⟩ => by
    have hmember : (Suffix.member name symbol).Grouped := trivial
    exact grouped_suffixedLast hmember (grouped_regrouped target ht)

/-- A grouped expression is left as it is. -/
theorem regrouped_of_grouped : ∀ e : Expr, e.Grouped → e.regrouped = e
  | .binary left op right, hg => by
    rw [regrouped, regrouped_of_grouped left hg.1, regrouped_of_grouped right hg.2]
  | .assignment left op right, hg => by
    rw [regrouped, regrouped_of_grouped left hg.2.1, regrouped_of_grouped right hg.2.2,
      assignedLast_of_takesSign op right hg.1]
  | .prefixUnary sign operand, hg => by
    rw [regrouped, regrouped_of_grouped operand hg.2, signedFirst_of_takesSign sign hg.1]
  | .elementAccess target index, hg => by
    rw [regrouped, regrouped_of_grouped target hg.2.1, regrouped_of_grouped index hg.2.2,
      suffixedLast_of_takesTail _ hg.1, Suffix.on]
  | .memberAccess target name symbol, hg => by
    rw [regrouped, regrouped_of_grouped target hg.2, suffixedLast_of_takesTail _ hg.1, Suffix.on]
  | .identifier .., _ | .literal .., _ | .invocation .., _ | .collection .., _
  | .implicitCreation .., _
  | .creation .., _ | .initializer .., _ | .unsupported .., _ => rfl

end Expr

/-! ## 5. Texts and trees -/

/-- **The text of operators shows their regrouping.** Expressions of binary operations, assignments,
signs, indices and members are lowered whatever names were granted before. Two of them have the same
text exactly if they are regrouped to the same tree, annotations of names and members aside. The
regrouped tree is grouped and has the text of the first one, and a tree is kept by regrouping
exactly if it is grouped. -/
theorem operators_regrouped {e₁ e₂ : Expr} (h₁ : e₁.Over operatorVocabulary)
    (h₂ : e₂.Over operatorVocabulary) (c : Context) (receiver₁ receiver₂ : Option TypeId)
    (t₁ t₂ : NameTable) :
    ∃ text₁ text₂, e₁.lower c receiver₁ t₁ = .ok text₁ t₁ ∧ e₂.lower c receiver₂ t₂ = .ok text₂ t₂ ∧
      (text₁ = text₂ ↔ e₁.regrouped.bare = e₂.regrouped.bare) ∧
      (e₁.Grouped → e₂.Grouped → (text₁ = text₂ ↔ e₁.bare = e₂.bare)) ∧
      e₁.regrouped.lower c receiver₁ t₁ = .ok text₁ t₁ ∧ e₁.regrouped.Grouped ∧
      (e₁.regrouped = e₁ ↔ e₁.Grouped) := by
  have hv := operatorVocabulary_readBy c
  have hr₁ := e₁.over_regrouped h₁
  have hr₂ := e₂.over_regrouped h₂
  have hg₁ := e₁.grouped_regrouped h₁
  have hg₂ := e₂.grouped_regrouped h₂
  have hspelled : ∀ e : Expr, e.regrouped.spelled c = e.spelled c := by
    intro e
    rw [Expr.spelled, Expr.spelled, e.phrase_regrouped]
  refine ⟨e₁.spelled c, e₂.spelled c, e₁.lower_eq_spell hv.toFits receiver₁ t₁ h₁,
    e₂.lower_eq_spell hv.toFits receiver₂ t₂ h₂, ?_, ?_, ?_, hg₁, ?_⟩
  · rw [← hspelled e₁, ← hspelled e₂]
    exact Expr.spelled_eq_iff_bare hv hr₁ hr₂ hg₁ hg₂
  · exact Expr.spelled_eq_iff_bare hv h₁ h₂
  · rw [e₁.regrouped.lower_eq_spell hv.toFits receiver₁ t₁ hr₁, hspelled]
  · exact ⟨fun h => h ▸ hg₁, e₁.regrouped_of_grouped⟩

/-- A field of an expression. -/
def Expr.fieldOf (target : Expr) (name : String) : Expr := .memberAccess target name (.field none)

theorem variableNamed_over {name : String} (h : IsIdentifier name) :
    (Expr.variableNamed name).Over operatorVocabulary := ⟨h, rfl⟩

theorem fieldOf_over {target : Expr} {name : String} (ht : target.Over operatorVocabulary)
    (h : IsIdentifier name) : (target.fieldOf name).Over operatorVocabulary := ⟨h, ⟨none, rfl⟩, ht⟩

/-- A member of an element of a negated assignment. -/
def tangled : Expr :=
  let negated : Expr := .prefixUnary "-" (.assignment (.variableNamed "a") "=" (.variableNamed "b"))
  .fieldOf (.elementAccess negated (.variableNamed "i")) "x"

/-- A negation that is assigned a member of an element. -/
def untangled : Expr :=
  .assignment (.prefixUnary "-" (.variableNamed "a")) "="
    (.fieldOf (.elementAccess (.variableNamed "b") (.variableNamed "i")) "x")

theorem tangled_over : tangled.Over operatorVocabulary := by
  have heq : "=" ∈ assignmentOperators := by decide
  have hassign : (Expr.assignment (.variableNamed "a") "=" (.variableNamed "b")).Over
      operatorVocabulary :=
    ⟨heq, variableNamed_over (by decide), variableNamed_over (by decide)⟩
  exact fieldOf_over ⟨⟨.inr rfl, hassign⟩, variableNamed_over (by decide)⟩ (by decide)

theorem untangled_over : untangled.Over operatorVocabulary := by
  have heq : "=" ∈ assignmentOperators := by decide
  have helement : (Expr.elementAccess (.variableNamed "b") (.variableNamed "i")).Over
      operatorVocabulary :=
    ⟨variableNamed_over (by decide), variableNamed_over (by decide)⟩
  exact ⟨heq, ⟨.inr rfl, variableNamed_over (by decide)⟩, fieldOf_over helement (by decide)⟩

theorem tangled_regrouped :
    tangled.Over operatorVocabulary ∧ untangled.Over operatorVocabulary ∧
    ∃ text₁ text₂, tangled.lower { program := {} } none {} = .ok text₁ {} ∧
      untangled.lower { program := {} } none {} = .ok text₂ {} ∧
      (text₁ = text₂ ↔ tangled.regrouped.bare = untangled.regrouped.bare) ∧
      (tangled.Grouped → untangled.Grouped → (text₁ = text₂ ↔ tangled.bare = untangled.bare)) ∧
      tangled.regrouped.lower { program := {} } none {} = .ok text₁ {} ∧ tangled.regrouped.Grouped ∧
      (tangled.regrouped = tangled ↔ tangled.Grouped) :=
  ⟨tangled_over, untangled_over,
    operators_regrouped tangled_over untangled_over { program := {} } none none {} {}⟩

/-- Two different trees that always get the same text. -/
structure Conflated (text : String) (e e' : Expr) : Prop where
  built : e.Over operatorVocabulary
  built' : e'.Over operatorVocabulary
  differ : e.bare ≠ e'.bare
  lowered : ∀ (c : Context) (receiver : Option TypeId) (t : NameTable),
    e.lower c receiver t = .ok text t
  lowered' : ∀ (c : Context) (receiver : Option TypeId) (t : NameTable),
    e'.lower c receiver t = .ok text t

/-- The grouping of a sign or an assignment is lost behind another sign, assignment, index or
member. -/
theorem grouping_lost :
    let a : Expr := .variableNamed "a"
    let b : Expr := .variableNamed "b"
    let c : Expr := .variableNamed "c"
    Conflated "a = b.x" (.fieldOf (.assignment a "=" b) "x") (.assignment a "=" (.fieldOf b "x")) ∧
    Conflated "-a[b]" (.elementAccess (.prefixUnary "-" a) b)
      (.prefixUnary "-" (.elementAccess a b)) ∧
    Conflated "-a = b" (.prefixUnary "-" (.assignment a "=" b))
      (.assignment (.prefixUnary "-" a) "=" b) ∧
    Conflated "a = b = c" (.assignment (.assignment a "=" b) "=" c)
      (.assignment a "=" (.assignment b "=" c)) := by
  intro a b c
  have ha : a.Over operatorVocabulary := variableNamed_over (by decide)
  have hb : b.Over operatorVocabulary := variableNamed_over (by decide)
  have hc : c.Over operatorVocabulary := variableNamed_over (by decide)
  have hx : IsIdentifier "x" := by decide
  have heq : "=" ∈ assignmentOperators := by decide
  have hminus : IsSign "-" := .inr rfl
  refine ⟨?_, ?_, ?_, ?_⟩
  · exact ⟨fieldOf_over ⟨heq, ha, hb⟩ hx, ⟨heq, ha, fieldOf_over hb hx⟩, nofun, fun _ _ _ => rfl,
      fun _ _ _ => rfl⟩
  · exact ⟨⟨⟨hminus, ha⟩, hb⟩, ⟨hminus, ha, hb⟩, nofun, fun _ _ _ => rfl, fun _ _ _ => rfl⟩
  · exact ⟨⟨hminus, heq, ha, hb⟩, ⟨heq, ⟨hminus, ha⟩, hb⟩, nofun, fun _ _ _ => rfl,
      fun _ _ _ => rfl⟩
  · exact ⟨⟨heq, ⟨heq, ha, hb⟩, hc⟩, ⟨heq, ha, heq, hb, hc⟩, nofun, fun _ _ _ => rfl,
      fun _ _ _ => rfl⟩

end Lowering
