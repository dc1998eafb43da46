/-!
# Phrases

The text of an expression shows operands with operators between them, and only parentheses and
brackets group them. This file has that flat form. A phrase is a row of operands and operators. An
operand is a word or a phrase in parentheses, with signs in front of it and a tail of indices,
members and calls behind it.

* `Phrase`, `Operand`, `Tail`, `Args` -- phrases and their parts, each with its text `spell`;
* `Phrase.Lexical` -- words are words, operators have no blanks, signs are signs;
* `Phrase.spell_inj` -- a text that starts with a phrase determines the phrase and what follows it;
* `Phrase.join`, `Phrase.signed`, `Phrase.extend` -- phrases from phrases, with their texts.
-/

namespace Lowering

/-! ## 1. Phrases and their texts -/

mutual

/-- Operands with operators between them. -/
inductive Phrase where
  | single (o : Operand)
  | more (o : Operand) (op : String) (rest : Phrase)

/-- A word or a phrase in parentheses, with signs in front of it and a tail behind it. -/
inductive Operand where
  | signed (sign : String) (o : Operand)
  | word (w : String) (tail : Tail)
  | group (p : Phrase) (tail : Tail)

/-- What follows a word or a parenthesis: indices, members and calls, from left to right. -/
inductive Tail where
  | done
  | index (p : Phrase) (tail : Tail)
  | member (name : String) (tail : Tail)
  | call (args : Args) (tail : Tail)

/-- The arguments of a call. -/
inductive Args where
  | none
  | last (p : Phrase)
  | more (p : Phrase) (rest : Args)

end

mutual

/-- The text of a phrase. -/
def Phrase.spell : Phrase → List Char
  | .single o => o.spell
  | .more o op rest => o.spell ++ ' ' :: (op.toList ++ ' ' :: rest.spell)

/-- The text of an operand. -/
def Operand.spell : Operand → List Char
  | .signed sign o => sign.toList ++ o.spell
  | .word w tail => w.toList ++ tail.spell
  | .group p tail => '(' :: (p.spell ++ ')' :: tail.spell)

/-- The text of a tail. -/
def Tail.spell : Tail → List Char
  | .done => []
  | .index p tail => '[' :: (p.spell ++ ']' :: tail.spell)
  | .member name tail => '.' :: (name.toList ++ tail.spell)
  | .call args tail => '(' :: (args.spell ++ ')' :: tail.spell)

/-- The text of arguments. -/
def Args.spell : Args → List Char
  | .none => []
  | .last p => p.spell
  | .more p rest => p.spell ++ ',' :: ' ' :: rest.spell

end

theorem Phrase.spell_more_append (o : Operand) (op : String) (rest : Phrase) (r : List Char) :
    (Phrase.more o op rest).spell ++ r =
      o.spell ++ ' ' :: (op.toList ++ ' ' :: (rest.spell ++ r)) := by
  simp [Phrase.spell]

/-! ## 2. Words, signs and operators -/

/-- The characters of words. -/
def isWordChar (ch : Char) : Bool := ch.isAlphanum || ch == '_'

/-- A word: a name or a number. -/
def IsWord (w : String) : Prop := w ≠ "" ∧ ∀ ch ∈ w.toList, isWordChar ch = true

/-- A word that does not begin with a digit. -/
def IsIdentifier (w : String) : Prop := IsWord w ∧ ∀ ch ∈ w.toList.head?, ch.isDigit = false

/-- A row of digits. -/
def IsNumeral (w : String) : Prop := w ≠ "" ∧ ∀ ch ∈ w.toList, ch.isDigit = true

theorem isWord_iff (w : String) :
    w ≠ "" ∧ w.toList.all isWordChar = true ↔ IsWord w := by simp [IsWord]

theorem isIdentifier_iff (w : String) :
    IsWord w ∧ w.toList.head?.all (fun ch => !ch.isDigit) = true ↔ IsIdentifier w := by
  unfold IsIdentifier
  cases w.toList.head? <;> simp

theorem isNumeral_iff (w : String) : w ≠ "" ∧ w.toList.all Char.isDigit = true ↔ IsNumeral w := by
  simp [IsNumeral]

instance (w : String) : Decidable (IsWord w) := decidable_of_decidable_of_iff (isWord_iff w)

instance (w : String) : Decidable (IsIdentifier w) :=
  decidable_of_decidable_of_iff (isIdentifier_iff w)

instance (w : String) : Decidable (IsNumeral w) := decidable_of_decidable_of_iff (isNumeral_iff w)

theorem IsNumeral.isWord {w : String} (h : IsNumeral w) : IsWord w :=
  ⟨h.1, fun ch hch => by simp [isWordChar, Char.isAlphanum, h.2 ch hch]⟩

/-- The signs of operands. -/
def IsSign (sign : String) : Prop := sign = "!" ∨ sign = "-"

/-- A symbol without blanks. -/
def NoBlank (op : String) : Prop := ' ' ∉ op.toList

mutual

/-- The words, signs and operators of a phrase are what they have to be. -/
def Phrase.Lexical : Phrase → Prop
  | .single o => o.Lexical
  | .more o op rest => o.Lexical ∧ NoBlank op ∧ rest.Lexical

/-- The same for an operand. -/
def Operand.Lexical : Operand → Prop
  | .signed sign o => IsSign sign ∧ o.Lexical
  | .word w tail => IsWord w ∧ tail.Lexical
  | .group p tail => p.Lexical ∧ tail.Lexical

/-- The same for a tail. -/
def Tail.Lexical : Tail → Prop
  | .done => True
  | .index p tail => p.Lexical ∧ tail.Lexical
  | .member name tail => IsWord name ∧ tail.Lexical
  | .call args tail => args.Lexical ∧ tail.Lexical

/-- The same for arguments. -/
def Args.Lexical : Args → Prop
  | .none => True
  | .last p => p.Lexical
  | .more p rest => p.Lexical ∧ rest.Lexical

end

/-! ## 3. A text determines its phrase -/

/-- A text that does not go on with a phrase: it is empty, or a bracket or a comma follows. -/
def Stops (text : List Char) : Prop := ∀ ch ∈ text.head?, ch = ')' ∨ ch = ']' ∨ ch = ','

/-- A text that does not go on with an operand: the phrase stops, or an operator follows. -/
def Pauses (text : List Char) : Prop := ∀ ch ∈ text.head?, ch = ')' ∨ ch = ']' ∨ ch = ',' ∨ ch = ' '

/-- A row of characters of one kind is determined by the text, if a character of another kind
follows. -/
theorem span_unique (kind : Char → Prop) {a b r s : List Char} (ha : ∀ ch ∈ a, kind ch)
    (hb : ∀ ch ∈ b, kind ch) (hr : ∀ ch ∈ r.head?, ¬ kind ch) (hs : ∀ ch ∈ s.head?, ¬ kind ch)
    (h : a ++ r = b ++ s) : a = b ∧ r = s := by
  induction a generalizing b with
  | nil =>
    cases b with
    | nil => exact ⟨rfl, h⟩
    | cons x b =>
      have hx : r.head? = some x := by rw [show r = x :: b ++ s from h]; rfl
      exact absurd (hb x List.mem_cons_self) (hr x hx)
  | cons x a ih =>
    cases b with
    | nil =>
      have hx : s.head? = some x := by rw [← show x :: a ++ r = s from h]; rfl
      exact absurd (ha x List.mem_cons_self) (hs x hx)
    | cons y b =>
      obtain ⟨rfl, hrest⟩ := List.cons.inj h
      obtain ⟨rfl, rfl⟩ := ih (fun ch hch => ha ch (List.mem_cons_of_mem _ hch))
        (fun ch hch => hb ch (List.mem_cons_of_mem _ hch)) hrest
      exact ⟨rfl, rfl⟩

theorem Stops.pauses {text : List Char} (h : Stops text) : Pauses text := by
  intro ch hch
  rcases h ch hch with h | h | h <;> simp [h]

theorem stops_paren (text : List Char) : Stops (')' :: text) := by simp [Stops]

theorem stops_bracket (text : List Char) : Stops (']' :: text) := by simp [Stops]

theorem stops_comma (text : List Char) : Stops (',' :: text) := by simp [Stops]

theorem pauses_blank (text : List Char) : Pauses (' ' :: text) := by simp [Pauses]

/-- A word ends where a tail begins. -/
theorem Tail.head_spell (tail : Tail) {r : List Char} (hr : Pauses r) :
    ∀ ch ∈ (tail.spell ++ r).head?, ¬ isWordChar ch = true := by
  intro ch hch
  cases tail with
  | done =>
    rcases hr ch hch with rfl | rfl | rfl | rfl <;> decide
  | index p tail =>
    cases hch
    decide
  | member name tail =>
    cases hch
    decide
  | call args tail =>
    cases hch
    decide

theorem IsWord.head {w : String} (h : IsWord w) :
    ∃ ch rest, w.toList = ch :: rest ∧ isWordChar ch = true := by
  cases hw : w.toList with
  | nil => exact absurd (String.toList_eq_nil_iff.mp hw) h.1
  | cons ch rest => exact ⟨ch, rest, rfl, h.2 ch (by rw [hw]; exact List.mem_cons_self)⟩

theorem IsWord.eq_of_append {v w : String} {r s : List Char} (hv : IsWord v) (hw : IsWord w)
    (hr : ∀ ch ∈ r.head?, ¬ isWordChar ch = true) (hs : ∀ ch ∈ s.head?, ¬ isWordChar ch = true)
    (h : v.toList ++ r = w.toList ++ s) : v = w ∧ r = s := by
  obtain ⟨hvw, hrs⟩ := span_unique (isWordChar · = true) hv.2 hw.2 hr hs h
  exact ⟨String.toList_inj.mp hvw, hrs⟩

theorem IsWord.ne_paren {w : String} (hw : IsWord w) (a b : List Char) :
    w.toList ++ a ≠ '(' :: b := by
  obtain ⟨ch, rest, hch, hword⟩ := hw.head
  rw [hch]
  intro h
  cases h
  exact absurd hword (by decide)

theorem IsSign.ne_paren {sign : String} (hs : IsSign sign) (a b : List Char) :
    sign.toList ++ a ≠ '(' :: b := by
  rcases hs with rfl | rfl <;> simp

theorem IsSign.ne_word {sign w : String} (hs : IsSign sign) (hw : IsWord w) (a b : List Char) :
    sign.toList ++ a ≠ w.toList ++ b := by
  obtain ⟨ch, rest, hch, hword⟩ := hw.head
  rw [hch]
  rcases hs with rfl | rfl
  all_goals
    intro h
    cases h
    exact absurd hword (by decide)

theorem IsSign.eq_of_append {sign sign' : String} (hs : IsSign sign) (hs' : IsSign sign')
    {a b : List Char} (h : sign.toList ++ a = sign'.toList ++ b) : sign = sign' ∧ a = b := by
  rcases hs with rfl | rfl <;> rcases hs' with rfl | rfl <;> simp_all

/-- No operand begins with a closing parenthesis. -/
theorem Operand.spell_ne_paren :
    ∀ {o : Operand}, o.Lexical → ∀ r s : List Char, o.spell ++ r ≠ ')' :: s
  | .signed sign o, h, r, s => by
    rcases h.1 with rfl | rfl <;> simp [Operand.spell]
  | .word w tail, h, r, s => by
    obtain ⟨ch, rest, hch, hword⟩ := IsWord.head h.1
    rw [Operand.spell, hch]
    intro h
    cases h
    exact absurd hword (by decide)
  | .group p tail, _, r, s => by simp [Operand.spell]

theorem Phrase.spell_ne_paren {p : Phrase} (h : p.Lexical) (r s : List Char) :
    p.spell ++ r ≠ ')' :: s := by
  cases p with
  | single o => exact Operand.spell_ne_paren h r s
  | more o op rest =>
    rw [Phrase.spell_more_append]
    exact Operand.spell_ne_paren h.1 _ s

/-- Where an operand ends, no tail begins. -/
theorem Tail.eq_done {tail : Tail} {r s : List Char} (hr : Pauses r) (h : r = tail.spell ++ s) :
    tail = .done := by
  subst h
  cases tail with
  | done => rfl
  | index p tail => exact absurd (hr '[' rfl) (by decide)
  | member name tail => exact absurd (hr '.' rfl) (by decide)
  | call args tail => exact absurd (hr '(' rfl) (by decide)

-- By recursion on the first phrase. What follows the phrases is left open, with its first character
-- bounded: inside of brackets it is the rest of the whole text.
mutual

/-- A text that starts with a phrase determines the phrase and what follows it. -/
theorem Phrase.spell_inj :
    ∀ (p q : Phrase) {r s : List Char}, p.Lexical → q.Lexical → Stops r → Stops s →
    p.spell ++ r = q.spell ++ s → p = q ∧ r = s
  | .single o, .single o', r, s, hp, hq, hr, hs, h => by
    obtain ⟨rfl, rfl⟩ := Operand.spell_inj o o' hp hq hr.pauses hs.pauses h
    exact ⟨rfl, rfl⟩
  | .single o, .more o' op rest, r, s, hp, hq, hr, hs, h => by
    rw [Phrase.spell, Phrase.spell_more_append] at h
    obtain ⟨-, rfl⟩ := Operand.spell_inj o o' hp hq.1 hr.pauses (pauses_blank _) h
    exact absurd (hr ' ' rfl) (by decide)
  | .more o op rest, .single o', r, s, hp, hq, hr, hs, h => by
    rw [Phrase.spell_more_append, Phrase.spell] at h
    obtain ⟨-, rfl⟩ := Operand.spell_inj o o' hp.1 hq (pauses_blank _) hs.pauses h
    exact absurd (hs ' ' rfl) (by decide)
  | .more o op rest, .more o' op' rest', r, s, hp, hq, hr, hs, h => by
    rw [Phrase.spell_more_append, Phrase.spell_more_append] at h
    obtain ⟨rfl, hops⟩ := Operand.spell_inj o o' hp.1 hq.1 (pauses_blank _) (pauses_blank _) h
    -- an operator ends at the next blank
    obtain ⟨hop, hrest⟩ := span_unique (· ≠ ' ') (fun ch hch hb => hp.2.1 (hb ▸ hch))
      (fun ch hch hb => hq.2.1 (hb ▸ hch)) (by simp) (by simp) (List.cons.inj hops).2
    obtain ⟨rfl, rfl⟩ := Phrase.spell_inj rest rest' hp.2.2 hq.2.2 hr hs (List.cons.inj hrest).2
    exact ⟨by rw [String.toList_inj.mp hop], rfl⟩

theorem Operand.spell_inj :
    ∀ (o o' : Operand) {r s : List Char}, o.Lexical → o'.Lexical → Pauses r →
    Pauses s → o.spell ++ r = o'.spell ++ s → o = o' ∧ r = s
  | .signed sign o, .signed sign' o', r, s, ho, ho', hr, hs, h => by
    rw [Operand.spell, Operand.spell, List.append_assoc, List.append_assoc] at h
    obtain ⟨rfl, hrest⟩ := ho.1.eq_of_append ho'.1 h
    obtain ⟨rfl, rfl⟩ := Operand.spell_inj o o' ho.2 ho'.2 hr hs hrest
    exact ⟨rfl, rfl⟩
  | .word w tail, .word w' tail', r, s, ho, ho', hr, hs, h => by
    rw [Operand.spell, Operand.spell, List.append_assoc, List.append_assoc] at h
    obtain ⟨rfl, hrest⟩ := ho.1.eq_of_append ho'.1 (tail.head_spell hr) (tail'.head_spell hs) h
    obtain ⟨rfl, rfl⟩ := Tail.spell_inj tail tail' ho.2 ho'.2 hr hs hrest
    exact ⟨rfl, rfl⟩
  | .group p tail, .group p' tail', r, s, ho, ho', hr, hs, h => by
    have hinner : p.spell ++ ')' :: (tail.spell ++ r) = p'.spell ++ ')' :: (tail'.spell ++ s) := by
      simpa [Operand.spell] using h
    obtain ⟨rfl, hrest⟩ := Phrase.spell_inj p p' ho.1 ho'.1 (stops_paren _) (stops_paren _) hinner
    obtain ⟨rfl, rfl⟩ := Tail.spell_inj tail tail' ho.2 ho'.2 hr hs (List.cons.inj hrest).2
    exact ⟨rfl, rfl⟩
  | .signed sign o, .word w tail, r, s, ho, ho', hr, hs, h => by
    rw [Operand.spell, Operand.spell, List.append_assoc, List.append_assoc] at h
    exact absurd h (ho.1.ne_word ho'.1 _ _)
  | .word w tail, .signed sign o, r, s, ho, ho', hr, hs, h => by
    rw [Operand.spell, Operand.spell, List.append_assoc, List.append_assoc] at h
    exact absurd h.symm (ho'.1.ne_word ho.1 _ _)
  | .signed sign o, .group p tail, r, s, ho, ho', hr, hs, h => by
    rw [Operand.spell, Operand.spell, List.append_assoc] at h
    exact absurd h (ho.1.ne_paren _ _)
  | .group p tail, .signed sign o, r, s, ho, ho', hr, hs, h => by
    rw [Operand.spell, Operand.spell, List.append_assoc] at h
    exact absurd h.symm (ho'.1.ne_paren _ _)
  | .word w tail, .group p tail', r, s, ho, ho', hr, hs, h => by
    rw [Operand.spell, Operand.spell, List.append_assoc] at h
    exact absurd h (ho.1.ne_paren _ _)
  | .group p tail, .word w tail', r, s, ho, ho', hr, hs, h => by
    rw [Operand.spell, Operand.spell, List.append_assoc] at h
    exact absurd h.symm (ho'.1.ne_paren _ _)

theorem Tail.spell_inj : ∀ (tail tail' : Tail) {r s : List Char}, tail.Lexical → tail'.Lexical →
    Pauses r → Pauses s → tail.spell ++ r = tail'.spell ++ s → tail = tail' ∧ r = s
  | .done, tail', r, s, _, _, hr, hs, h => by
    obtain rfl := Tail.eq_done hr h
    exact ⟨rfl, h⟩
  | tail, .done, r, s, _, _, hr, hs, h => by
    obtain rfl := Tail.eq_done hs h.symm
    exact ⟨rfl, h⟩
  | .index p tail, .index p' tail', r, s, ht, ht', hr, hs, h => by
    have hinner : p.spell ++ ']' :: (tail.spell ++ r) = p'.spell ++ ']' :: (tail'.spell ++ s) := by
      simpa [Tail.spell] using h
    obtain ⟨rfl, hrest⟩ :=
      Phrase.spell_inj p p' ht.1 ht'.1 (stops_bracket _) (stops_bracket _) hinner
    obtain ⟨rfl, rfl⟩ := Tail.spell_inj tail tail' ht.2 ht'.2 hr hs (List.cons.inj hrest).2
    exact ⟨rfl, rfl⟩
  | .member name tail, .member name' tail', r, s, ht, ht', hr, hs, h => by
    have hinner : name.toList ++ (tail.spell ++ r) = name'.toList ++ (tail'.spell ++ s) := by
      simpa [Tail.spell] using h
    obtain ⟨rfl, hrest⟩ := ht.1.eq_of_append ht'.1 (tail.head_spell hr) (tail'.head_spell hs) hinner
    obtain ⟨rfl, rfl⟩ := Tail.spell_inj tail tail' ht.2 ht'.2 hr hs hrest
    exact ⟨rfl, rfl⟩
  | .call args tail, .call args' tail', r, s, ht, ht', hr, hs, h => by
    have hinner : args.spell ++ ')' :: (tail.spell ++ r) =
        args'.spell ++ ')' :: (tail'.spell ++ s) := by
      simpa [Tail.spell] using h
    obtain ⟨rfl, hrest⟩ := Args.spell_inj args args' ht.1 ht'.1 hinner
    obtain ⟨rfl, rfl⟩ := Tail.spell_inj tail tail' ht.2 ht'.2 hr hs hrest
    exact ⟨rfl, rfl⟩
  | .index .., .member .., _, _, _, _, _, _, h => by simp [Tail.spell] at h
  | .index .., .call .., _, _, _, _, _, _, h => by simp [Tail.spell] at h
  | .member .., .index .., _, _, _, _, _, _, h => by simp [Tail.spell] at h
  | .member .., .call .., _, _, _, _, _, _, h => by simp [Tail.spell] at h
  | .call .., .index .., _, _, _, _, _, _, h => by simp [Tail.spell] at h
  | .call .., .member .., _, _, _, _, _, _, h => by simp [Tail.spell] at h

theorem Args.spell_inj : ∀ (args args' : Args) {r s : List Char}, args.Lexical → args'.Lexical →
    args.spell ++ ')' :: r = args'.spell ++ ')' :: s → args = args' ∧ r = s
  | .none, .none, r, s, _, _, h => ⟨rfl, (List.cons.inj h).2⟩
  | .none, .last p, r, s, _, ha, h => absurd h.symm (Phrase.spell_ne_paren ha _ _)
  | .last p, .none, r, s, ha, _, h => absurd h (Phrase.spell_ne_paren ha _ _)
  | .none, .more p rest, r, s, _, ha, h => by
    rw [Args.spell, Args.spell, List.append_assoc] at h
    exact absurd h.symm (Phrase.spell_ne_paren ha.1 _ _)
  | .more p rest, .none, r, s, ha, _, h => by
    rw [Args.spell, Args.spell, List.append_assoc] at h
    exact absurd h (Phrase.spell_ne_paren ha.1 _ _)
  | .last p, .last p', r, s, ha, ha', h => by
    obtain ⟨rfl, hrest⟩ := Phrase.spell_inj p p' ha ha' (stops_paren _) (stops_paren _) h
    exact ⟨rfl, (List.cons.inj hrest).2⟩
  | .last p, .more p' rest, r, s, ha, ha', h => by
    rw [Args.spell, Args.spell, List.append_assoc] at h
    obtain ⟨-, hrest⟩ := Phrase.spell_inj p p' ha ha'.1 (stops_paren _) (stops_comma _) h
    exact absurd (List.cons.inj hrest).1 (by decide)
  | .more p rest, .last p', r, s, ha, ha', h => by
    rw [Args.spell, Args.spell, List.append_assoc] at h
    obtain ⟨-, hrest⟩ := Phrase.spell_inj p p' ha.1 ha' (stops_comma _) (stops_paren _) h
    exact absurd (List.cons.inj hrest).1 (by decide)
  | .more p rest, .more p' rest', r, s, ha, ha', h => by
    rw [Args.spell, Args.spell, List.append_assoc, List.append_assoc] at h
    obtain ⟨rfl, hrest⟩ := Phrase.spell_inj p p' ha.1 ha'.1 (stops_comma _) (stops_comma _) h
    have hargs : rest.spell ++ ')' :: r = rest'.spell ++ ')' :: s := by simpa using hrest
    obtain ⟨rfl, rfl⟩ := Args.spell_inj rest rest' ha.2 ha'.2 hargs
    exact ⟨rfl, rfl⟩

end

/-! ## 4. Phrases from phrases -/

/-- Two phrases with an operator between them. -/
def Phrase.join : Phrase → String → Phrase → Phrase
  | .single o, op, q => .more o op q
  | .more o first rest, op, q => .more o first (rest.join op q)

/-- A phrase with a sign in front of it. The sign goes to its first operand. -/
def Phrase.signed (sign : String) : Phrase → Phrase
  | .single o => .single (.signed sign o)
  | .more o op rest => .more (.signed sign o) op rest

/-- A tail behind a tail. -/
def Tail.append : Tail → Tail → Tail
  | .done, more => more
  | .index p tail, more => .index p (tail.append more)
  | .member name tail, more => .member name (tail.append more)
  | .call args tail, more => .call args (tail.append more)

/-- An operand with a tail behind it. -/
def Operand.extend (tail : Tail) : Operand → Operand
  | .signed sign o => .signed sign (o.extend tail)
  | .word w first => .word w (first.append tail)
  | .group p first => .group p (first.append tail)

/-- A phrase with a tail behind it. The tail goes to its last operand. -/
def Phrase.extend (tail : Tail) : Phrase → Phrase
  | .single o => .single (o.extend tail)
  | .more o op rest => .more o op (rest.extend tail)

/-- One more argument in front. -/
def Args.cons (p : Phrase) : Args → Args
  | .none => .last p
  | .last q => .more p (.last q)
  | .more q rest => .more p (.more q rest)

theorem Phrase.spell_join (op : String) (q : Phrase) :
    ∀ p : Phrase, (p.join op q).spell = p.spell ++ ' ' :: (op.toList ++ ' ' :: q.spell)
  | .single o => rfl
  | .more o first rest => by simp [Phrase.join, Phrase.spell, Phrase.spell_join op q rest]

theorem Args.spell_cons_cons (p q : Phrase) (args : Args) :
    ((args.cons q).cons p).spell = p.spell ++ ',' :: ' ' :: (args.cons q).spell := by
  cases args <;> rfl

theorem Phrase.spell_signed (sign : String) (p : Phrase) :
    (p.signed sign).spell = sign.toList ++ p.spell := by
  cases p <;> simp [Phrase.signed, Phrase.spell, Operand.spell]

theorem Tail.spell_append (more : Tail) :
    ∀ tail : Tail, (tail.append more).spell = tail.spell ++ more.spell
  | .done => rfl
  | .index p tail => by simp [Tail.append, Tail.spell, Tail.spell_append more tail]
  | .member name tail => by simp [Tail.append, Tail.spell, Tail.spell_append more tail]
  | .call args tail => by simp [Tail.append, Tail.spell, Tail.spell_append more tail]

theorem Operand.spell_extend (tail : Tail) :
    ∀ o : Operand, (o.extend tail).spell = o.spell ++ tail.spell
  | .signed sign o => by simp [Operand.extend, Operand.spell, Operand.spell_extend tail o]
  | .word w first => by simp [Operand.extend, Operand.spell, Tail.spell_append]
  | .group p first => by simp [Operand.extend, Operand.spell, Tail.spell_append]

theorem Phrase.spell_extend (tail : Tail) :
    ∀ p : Phrase, (p.extend tail).spell = p.spell ++ tail.spell
  | .single o => Operand.spell_extend tail o
  | .more o op rest => by simp [Phrase.extend, Phrase.spell, Phrase.spell_extend tail rest]

theorem Phrase.lexical_join {op : String} {q : Phrase} (hop : NoBlank op) (hq : q.Lexical) :
    ∀ p : Phrase, p.Lexical → (p.join op q).Lexical
  | .single _, hp => ⟨hp, hop, hq⟩
  | .more _ _ rest, hp => ⟨hp.1, hp.2.1, Phrase.lexical_join hop hq rest hp.2.2⟩

theorem Phrase.lexical_signed {sign : String} {p : Phrase} (hs : IsSign sign) (hp : p.Lexical) :
    (p.signed sign).Lexical := by
  cases p with
  | single o => exact ⟨hs, hp⟩
  | more o op rest => exact ⟨⟨hs, hp.1⟩, hp.2⟩

theorem Tail.lexical_append {more : Tail} (hm : more.Lexical) :
    ∀ tail : Tail, tail.Lexical → (tail.append more).Lexical
  | .done, _ => hm
  | .index _ tail, ht => ⟨ht.1, Tail.lexical_append hm tail ht.2⟩
  | .member _ tail, ht => ⟨ht.1, Tail.lexical_append hm tail ht.2⟩
  | .call _ tail, ht => ⟨ht.1, Tail.lexical_append hm tail ht.2⟩

theorem Operand.lexical_extend {tail : Tail} (ht : tail.Lexical) :
    ∀ o : Operand, o.Lexical → (o.extend tail).Lexical
  | .signed _ o, ho => ⟨ho.1, Operand.lexical_extend ht o ho.2⟩
  | .word _ first, ho => ⟨ho.1, Tail.lexical_append ht first ho.2⟩
  | .group _ first, ho => ⟨ho.1, Tail.lexical_append ht first ho.2⟩

theorem Phrase.lexical_extend {tail : Tail} (ht : tail.Lexical) :
    ∀ p : Phrase, p.Lexical → (p.extend tail).Lexical
  | .single o, hp => Operand.lexical_extend ht o hp
  | .more _ _ rest, hp => ⟨hp.1, hp.2.1, Phrase.lexical_extend ht rest hp.2.2⟩

theorem Args.lexical_cons {p : Phrase} {args : Args} (hp : p.Lexical) (ha : args.Lexical) :
    (args.cons p).Lexical := by
  cases args with
  | none => exact hp
  | last q => exact ⟨hp, ha⟩
  | more q rest => exact ⟨hp, ha⟩

end Lowering
