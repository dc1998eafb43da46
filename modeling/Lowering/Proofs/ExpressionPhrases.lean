import Lowering.Expression
import Lowering.Proofs.NameRequests
import Lowering.Proofs.Phrases

/-!
# Expressions as phrases

An expression of names, numbers, operators, indices, members and calls of native methods is lowered
to the text of a phrase. The phrase keeps what the text shows and nothing else: a binary operation
is a phrase in parentheses, an assignment joins two phrases, a sign goes to the first operand and an
index to the last.

* `Vocabulary`, `Expr.Over` -- the expressions that are meant, given what they are built with;
* `Expr.phrase` -- the phrase of an expression;
* `Expr.lower_eq_spell` -- such an expression is always lowered, to the text of its phrase;
* `Expr.spelled_eq_iff` -- two of them have the same text exactly if they have the same phrase.
-/

namespace Lowering

/-! ## 1. Vocabularies -/

/-- What expressions are built with, beside names, indices and members. -/
structure Vocabulary where
  binary : String → Prop
  assignment : String → Prop
  sign : String → Prop
  numeral : String → Prop
  /-- The methods that are called, with the number of their arguments. -/
  callee : MethodId → Nat → Prop

mutual

/-- An expression is built with a vocabulary. -/
def Expr.Over (v : Vocabulary) : Expr → Prop
  | .identifier name symbol => IsIdentifier name ∧ symbol = .localVariable
  | .literal kind text => v.numeral text ∧ kind = .numeric
  | .binary left op right => v.binary op ∧ left.Over v ∧ right.Over v
  | .assignment left op right => v.assignment op ∧ left.Over v ∧ right.Over v
  | .prefixUnary op operand => v.sign op ∧ operand.Over v
  | .elementAccess target index => target.Over v ∧ index.Over v
  | .memberAccess target name symbol =>
    IsIdentifier name ∧ (∃ owner, symbol = .field owner) ∧ target.Over v
  | .invocation receiver method args =>
    receiver.isNone ∧ v.callee method args.length ∧ allOver v args
  | .collection .. | .implicitCreation .. | .creation .. | .initializer ..
  | .unsupported .. => False

/-- Arguments are built with a vocabulary. -/
def allOver (v : Vocabulary) : List Expr → Prop
  | [] => True
  | e :: rest => e.Over v ∧ allOver v rest

end

/-- The name of the method that is called. -/
def Context.calleeName (c : Context) (method : MethodId) : String :=
  match c.program.methodAt method.position with
  | .ok m => m.name
  | .error _ => ""

/-- What a vocabulary has to keep to. Its methods are native, and one that prints is not called with
one argument, since such a call is lowered to another function. -/
structure Vocabulary.Fits (v : Vocabulary) (c : Context) : Prop where
  binary : ∀ op, v.binary op → NoBlank op
  assignment : ∀ op, v.assignment op → NoBlank op
  sign : ∀ sign, v.sign sign → IsSign sign
  numeral : ∀ text, v.numeral text → IsNumeral text
  callee : ∀ method n, v.callee method n → ∃ m, c.program.methodAt method.position = .ok m ∧
    m.isNative = true ∧ IsIdentifier m.name ∧ ¬ (m.name = c.options.printPrimitive ∧ n = 1)

/-! ## 2. The phrase of an expression -/

mutual

/-- The phrase of an expression. Forms that no vocabulary has get an empty word. -/
def Expr.phrase (c : Context) : Expr → Phrase
  | .identifier name _ => .single (.word name .done)
  | .literal _ text => .single (.word text .done)
  | .binary left op right => .single (.group ((left.phrase c).join op (right.phrase c)) .done)
  | .assignment left op right => (left.phrase c).join op (right.phrase c)
  | .prefixUnary op operand => (operand.phrase c).signed op
  | .elementAccess target index => (target.phrase c).extend (.index (index.phrase c) .done)
  | .memberAccess target name _ => (target.phrase c).extend (.member name .done)
  | .invocation _ method args =>
    .single (.word (c.calleeName method) (.call (argPhrases c args) .done))
  | .collection .. | .implicitCreation .. | .creation .. | .initializer .. | .unsupported .. =>
    .single (.word "" .done)

/-- The phrases of arguments. -/
def argPhrases (c : Context) : List Expr → Args
  | [] => .none
  | e :: rest => (argPhrases c rest).cons (e.phrase c)

end

variable {c : Context} {v : Vocabulary}

/-- The text that the phrase of an expression has. -/
def Expr.spelled (c : Context) (e : Expr) : String := String.ofList (e.phrase c).spell

theorem Expr.toList_spelled (c : Context) (e : Expr) : (e.spelled c).toList = (e.phrase c).spell :=
  String.toList_ofList

theorem commaList_spelled (c : Context) :
    ∀ args : List Expr, (commaList (args.map (Expr.spelled c))).toList = (argPhrases c args).spell
  | [] => rfl
  | [e] => by
    show (commaList [e.spelled c]).toList = (e.phrase c).spell
    rw [commaList, String.intercalate_singleton, e.toList_spelled]
  | e :: e' :: rest => by
    have ih := commaList_spelled c (e' :: rest)
    rw [commaList, List.map_cons] at ih
    rw [commaList, List.map_cons, List.map_cons, String.intercalate_cons_cons]
    rw [argPhrases, argPhrases, Args.spell_cons_cons, ← argPhrases]
    simp [ih, e.toList_spelled]

theorem callee_ok {m : MethodDecl} {method : MethodId}
    (h : c.program.methodAt method.position = .ok m) : c.calleeName method = m.name := by
  rw [Context.calleeName, h]

/-- An action that returns the text of a phrase. -/
theorem return_spelled {e : Expr} {text : String} (h : text.toList = (e.phrase c).spell)
    (t : NameTable) : (pure text : Naming String) t = .ok (e.spelled c) t := by
  have htext : text = e.spelled c := String.toList_inj.mp (h.trans (e.toList_spelled c).symm)
  rw [htext]
  rfl

mutual

/-- An expression over a vocabulary is lowered to the text of its phrase. No names are asked for. -/
theorem Expr.lower_eq_spell (hv : v.Fits c) (receiver : Option TypeId) (t : NameTable) :
    ∀ e : Expr, e.Over v → e.lower c receiver t = .ok (e.spelled c) t
  | .identifier name symbol, ⟨_, hsymbol⟩ => by
    subst hsymbol
    exact return_spelled (by simp [Expr.phrase, Phrase.spell, Operand.spell, Tail.spell]) t
  | .literal kind text, ⟨_, hkind⟩ => by
    subst hkind
    exact return_spelled (by simp [Expr.phrase, Phrase.spell, Operand.spell, Tail.spell]) t
  | .binary left op right, ⟨_, hl, hr⟩ => by
    unfold Expr.lower
    rw [bind_ok (left.lower_eq_spell hv receiver t hl),
      bind_ok (right.lower_eq_spell hv receiver t hr)]
    apply return_spelled
    simp [Expr.phrase, Phrase.spell, Operand.spell, Tail.spell, Phrase.spell_join,
      Expr.toList_spelled]
  | .assignment left op right, ⟨_, hl, hr⟩ => by
    unfold Expr.lower
    rw [bind_ok (right.lower_eq_spell hv receiver t hr),
      bind_ok (left.lower_eq_spell hv receiver t hl)]
    apply return_spelled
    simp [Expr.phrase, Phrase.spell_join, Expr.toList_spelled]
  | .prefixUnary op operand, ⟨hop, ho⟩ => by
    have hsign : op = "!" ∨ op = "-" := hv.sign op hop
    unfold Expr.lower
    rw [if_pos hsign, bind_ok (operand.lower_eq_spell hv receiver t ho)]
    apply return_spelled
    simp [Expr.phrase, Phrase.spell_signed, Expr.toList_spelled]
  | .elementAccess target index, ⟨ht, hi⟩ => by
    unfold Expr.lower
    rw [bind_ok (target.lower_eq_spell hv receiver t ht),
      bind_ok (index.lower_eq_spell hv receiver t hi)]
    apply return_spelled
    simp [Expr.phrase, Phrase.spell_extend, Tail.spell, Expr.toList_spelled]
  | .memberAccess target name symbol, ⟨_, ⟨owner, hsymbol⟩, ht⟩ => by
    subst hsymbol
    unfold Expr.lower
    simp only
    rw [bind_ok (target.lower_eq_spell hv receiver t ht)]
    apply return_spelled
    simp [Expr.phrase, Phrase.spell_extend, Tail.spell, Expr.toList_spelled]
  | .invocation target method args, ⟨_, hcallee, hargs⟩ => by
    obtain ⟨m, hm, hnative, -, hprint⟩ := hv.callee method args.length hcallee
    unfold Expr.lower
    rw [hm, found_ok_bind, if_pos hnative, bind_ok (lowerArgs_eq_spell hv receiver t args hargs),
      if_neg hprint]
    apply return_spelled
    simp [Expr.phrase, Phrase.spell, Operand.spell, Tail.spell, callText,
      commaList_spelled, callee_ok hm]

theorem lowerArgs_eq_spell (hv : v.Fits c) (receiver : Option TypeId) (t : NameTable) :
    ∀ args : List Expr, allOver v args →
      lowerArgs c receiver args t = .ok (args.map (Expr.spelled c)) t
  | [], _ => rfl
  | e :: rest, h => by
    unfold lowerArgs
    rw [bind_ok (e.lower_eq_spell hv receiver t h.1),
      bind_ok (lowerArgs_eq_spell hv receiver t rest h.2)]
    rfl

end

mutual

theorem Expr.lexical_phrase (hv : v.Fits c) : ∀ e : Expr, e.Over v → (e.phrase c).Lexical
  | .identifier _ _, ⟨hname, _⟩ => ⟨hname.1, trivial⟩
  | .literal _ text, ⟨htext, _⟩ => ⟨(hv.numeral text htext).isWord, trivial⟩
  | .binary left op right, ⟨hop, hl, hr⟩ =>
    ⟨Phrase.lexical_join (hv.binary op hop) (right.lexical_phrase hv hr) _
      (left.lexical_phrase hv hl), trivial⟩
  | .assignment left op right, ⟨hop, hl, hr⟩ =>
    Phrase.lexical_join (hv.assignment op hop) (right.lexical_phrase hv hr) _
      (left.lexical_phrase hv hl)
  | .prefixUnary op operand, ⟨hop, ho⟩ =>
    Phrase.lexical_signed (hv.sign op hop) (operand.lexical_phrase hv ho)
  | .elementAccess target index, ⟨ht, hi⟩ => by
    have htail : (Tail.index (index.phrase c) .done).Lexical :=
      ⟨index.lexical_phrase hv hi, trivial⟩
    exact Phrase.lexical_extend htail _ (target.lexical_phrase hv ht)
  | .memberAccess target name _, ⟨hname, _, ht⟩ => by
    have htail : (Tail.member name .done).Lexical := ⟨hname.1, trivial⟩
    exact Phrase.lexical_extend htail _ (target.lexical_phrase hv ht)
  | .invocation _ method args, ⟨_, hcallee, hargs⟩ => by
    obtain ⟨m, hm, -, hname, -⟩ := hv.callee method args.length hcallee
    have hword : IsWord (c.calleeName method) := callee_ok hm ▸ hname.1
    exact ⟨hword, lexical_argPhrases hv args hargs, trivial⟩

theorem lexical_argPhrases (hv : v.Fits c) :
    ∀ args : List Expr, allOver v args → (argPhrases c args).Lexical
  | [], _ => trivial
  | e :: rest, h => Args.lexical_cons (e.lexical_phrase hv h.1) (lexical_argPhrases hv rest h.2)

end

/-- Expressions over a vocabulary have the same text exactly if they have the same phrase. -/
theorem Expr.spelled_eq_iff (hv : v.Fits c) {e e' : Expr} (he : e.Over v) (he' : e'.Over v) :
    e.spelled c = e'.spelled c ↔ e.phrase c = e'.phrase c := by
  constructor
  · intro h
    have hspell : (e.phrase c).spell ++ [] = (e'.phrase c).spell ++ [] := by
      rw [← e.toList_spelled, ← e'.toList_spelled, h]
    exact (Phrase.spell_inj _ _ (e.lexical_phrase hv he) (e'.lexical_phrase hv he')
      (by simp [Stops]) (by simp [Stops]) hspell).1
  · intro h
    rw [Expr.spelled, Expr.spelled, h]

end Lowering
