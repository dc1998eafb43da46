import Lowering.Json.Number
import Lowering.Json.Text

/-!
# Literals that are cut off

A text may end within a number or within a string literal. What has been read by then is a beginning
of the literal. This file says what a beginning has in common with the whole: the beginning of an
integer is an integer, no larger, and out of range only if the whole one is; the beginning of a
string literal that has a text fails at its end, and at nothing before it.

* `Number.Begins`, `Number.Begun` -- beginnings of a number, and what every literal has that was
  begun;
* `Begins.natural`, `Begins.overflows` -- beginnings of integers;
* `Text.Begins` -- beginnings of a string literal;
* `Quote.begins_of_more`, `Text.Begins.read` -- one character of a string literal, and the reading
  of a beginning.
-/

namespace Lowering.Json

namespace Number

/-! ## 1. Beginnings of numbers -/

/-- **The literal `n` is a beginning of `m`**: characters that may follow it lead from the one to
the other. -/
inductive Begins : Number → Number → Prop
  | refl (n : Number) : Begins n n
  | next {n n' m : Number} {c : Char} (h : n.next? c = some n') (hr : Begins n' m) : Begins n m

/-- A literal without point and power that may end where it is. -/
def IsInteger (n : Number) : Prop := n.stage = .zero ∨ n.stage = .whole

/-- A literal with nothing behind the place of the point. -/
def Bare (n : Number) : Prop := n.fraction = [] ∧ n.power = [] ∧ n.powerNegative = false

/-- **What every literal has that was begun**: a sign that stands alone is a minus sign, and nothing
stands behind the point before there is one. -/
structure Begun (n : Number) : Prop where
  sign : n.stage = .sign → n.negative = true
  bare : n.stage = .sign ∨ n.IsInteger → n.Bare

variable {n n' m : Number} {c : Char}

theorem Begun.start (h : start? c = some n) : n.Begun := by
  unfold start? at h
  repeat' split at h
  all_goals cases h
  · exact ⟨fun _ => rfl, fun _ => ⟨rfl, rfl, rfl⟩⟩
  · exact ⟨nofun, fun _ => ⟨rfl, rfl, rfl⟩⟩
  · exact ⟨nofun, fun _ => ⟨rfl, rfl, rfl⟩⟩

theorem start?_sign (h : start? c = some n) (hs : n.stage = .sign) : c = '-' := by
  unfold start? at h
  repeat' split at h
  · assumption
  all_goals cases h
  all_goals cases hs

/-- **How a literal grows.** One character more never changes the sign, and the literal is more than
a sign behind it. It is an integer only if the character is a digit, behind the sign or behind other
digits. -/
theorem next?_cases (h : n.next? c = some n') :
    n'.negative = n.negative ∧ n'.stage ≠ .sign ∧
      (n'.IsInteger → ∃ d, n.stage = .sign ∧ n' = { n with stage := n'.stage, whole := [d] } ∨
        n.stage = .whole ∧ n' = { n with whole := d :: n.whole }) := by
  unfold next? afterWhole? at h
  repeat' split at h
  all_goals cases h
  all_goals simp_all [IsInteger]

theorem Begun.next (hn : n.Begun) (h : n.next? c = some n') : n'.Begun := by
  obtain ⟨-, hstage, hcases⟩ := next?_cases h
  refine ⟨fun hs => absurd hs hstage, fun hs => ?_⟩
  obtain ⟨d, ⟨hs, he⟩ | ⟨hs, he⟩⟩ := hcases (hs.resolve_left hstage)
  · rw [he]
    exact hn.bare (.inl hs)
  · rw [he]
    exact hn.bare (.inr (.inr hs))

theorem Begins.negative (h : Begins n m) : m.negative = n.negative := by
  induction h with
  | refl n => rfl
  | next h _ ih => exact ih.trans (next?_cases h).1

/-- **A beginning of an integer** is the sign alone, or an integer with fewer digits on the
right. -/
theorem Begins.integer (h : Begins n m) (hm : m.IsInteger) :
    n.stage = .sign ∨ n.IsInteger ∧ ∃ ds, m = { n with whole := ds ++ n.whole } := by
  induction h with
  | refl n => exact .inr ⟨hm, [], rfl⟩
  | next h _ ih =>
    obtain ⟨-, hstage, hcases⟩ := next?_cases h
    obtain ⟨hi, ds, hds⟩ := (ih hm).resolve_left hstage
    obtain ⟨d, ⟨hs, -⟩ | ⟨hs, rfl⟩⟩ := hcases hi
    · exact .inl hs
    · refine .inr ⟨.inr hs, ds ++ [d], ?_⟩
      rw [hds, List.append_assoc]
      rfl

theorem IsInteger.complete (h : n.IsInteger) : n.complete = true := by
  unfold Number.complete
  rcases h with h | h <;> rw [h]

theorem natural?_eq_some_iff {k : Nat} :
    n.natural? = some k ↔ n.negative = false ∧ n.IsInteger ∧ ofDigits n.whole = k := by
  unfold natural? IsInteger
  cases n.negative <;> cases n.stage <;> simp

theorem ofDigits_le_append (ds es : List Nat) : ofDigits es ≤ ofDigits (ds ++ es) := by
  induction ds with
  | nil => exact Nat.le_refl _
  | cons d ds ih =>
    rw [List.cons_append, ofDigits]
    omega

/-- **A beginning of a natural number is a natural number**, and no larger. -/
theorem Begins.natural (h : Begins n m) (hn : n.Begun) {k : Nat} (hm : m.natural? = some k) :
    ∃ j ≤ k, n.natural? = some j := by
  obtain ⟨hneg, hi, rfl⟩ := natural?_eq_some_iff.mp hm
  rw [h.negative] at hneg
  obtain hs | ⟨hni, ds, rfl⟩ := h.integer hi
  · rw [hn.sign hs] at hneg
    cases hneg
  · exact ⟨ofDigits n.whole, ofDigits_le_append ds n.whole,
      natural?_eq_some_iff.mpr ⟨hneg, hni, rfl⟩⟩

/-! ## 2. The range of integers -/

/-- Rounding to 53 bits moves a number by at most its half. -/
theorem round53_bounds {k : Nat} (hk : k ≠ 0) : k ≤ 2 * round53 k ∧ 2 * round53 k ≤ 3 * k := by
  have hunit : Nat.pow 2 (k.log2 + 1 - 53) ≤ k :=
    Nat.le_trans (Nat.pow_le_pow_right (by decide) (by omega)) (Nat.log2_self_le hk)
  have hpos : 0 < Nat.pow 2 (k.log2 + 1 - 53) := Nat.pow_pos (by decide)
  unfold round53
  generalize Nat.pow 2 (k.log2 + 1 - 53) = unit at hunit hpos
  have hsplit : k / unit * unit + k % unit = k := Nat.div_add_mod' k unit
  have hrest : k % unit < unit := Nat.mod_lt k hpos
  have hup : (k / unit + 1) * unit = k / unit * unit + unit := Nat.succ_mul (k / unit) unit
  simp only
  split <;> omega

theorem round53_le_ten (k : Nat) : round53 k ≤ round53 (k * 10) := by
  by_cases hk : k = 0
  · subst k
    exact Nat.le_refl _
  · have hself := (round53_bounds hk).2
    have hten := (round53_bounds (k := k * 10) (by omega)).1
    omega

/-- One digit more is taken into the significand, or dropped behind others that were. -/
theorem packWhole_append (ds : List Nat) (d s : Nat) :
    packWhole (ds ++ [d]) s =
      if (packWhole ds s).2 = 0 ∧ (packWhole ds s).1 * 10 + d < UInt64.size then
        ((packWhole ds s).1 * 10 + d, 0)
      else ((packWhole ds s).1, (packWhole ds s).2 + 1) := by
  induction ds generalizing s with
  | nil => simp [packWhole]
  | cons e ds ih =>
    rw [List.cons_append, packWhole, packWhole]
    split
    · exact ih (s * 10 + e)
    · simp

theorem packWhole_lt (ds : List Nat) {s : Nat} (h : s < UInt64.size) :
    (packWhole ds s).1 < UInt64.size := by
  induction ds generalizing s with
  | nil => exact h
  | cons d ds ih =>
    rw [packWhole]
    split
    · exact ih ‹_›
    · exact h

/-- A significand, with a number of digits that were dropped behind it, lies beyond the finite
numbers. -/
def TooLarge (p : Nat × Nat) : Prop :=
  p.1 ≠ 0 ∧ (308 < p.2 ∨ Nat.pow 2 1024 - Nat.pow 2 970 ≤ round53 p.1 * round53 (Nat.pow 10 p.2))

theorem overflows_iff (n : Number) (h : n.Bare) :
    n.overflows = true ↔ TooLarge (packWhole n.whole.reverse 0) := by
  obtain ⟨hf, hp, hs⟩ := h
  unfold overflows TooLarge
  generalize Nat.pow 2 1024 - Nat.pow 2 970 = limit
  rcases packWhole n.whole.reverse 0 with ⟨s, k⟩
  have hcast : (308 : Int) < (k : Int) ↔ 308 < k := by omega
  simp [hf, hp, hs, packFraction, ofDigits, hcast]

/-- A significand alone is never too large, and with one dropped digit more it stays so. -/
theorem TooLarge.more {s k : Nat} (hs : s < UInt64.size) (h : TooLarge (s, k)) :
    k ≠ 0 ∧ TooLarge (s, k + 1) := by
  obtain ⟨hpos, hlarge⟩ := h
  constructor
  · rintro rfl
    have hlimit : 2 * UInt64.size ≤ Nat.pow 2 1024 - Nat.pow 2 970 := by decide +kernel
    have hone : round53 (Nat.pow 10 0) = 1 := by decide
    have hround := (round53_bounds hpos).2
    rw [hone] at hlarge
    generalize Nat.pow 2 1024 - Nat.pow 2 970 = limit at *
    omega
  · have hten : round53 (Nat.pow 10 k) ≤ round53 (Nat.pow 10 (k + 1)) :=
      round53_le_ten (Nat.pow 10 k)
    exact ⟨hpos, hlarge.imp Nat.lt_succ_of_lt fun h => Nat.le_trans h (Nat.mul_le_mul_left _ hten)⟩

theorem TooLarge.append {ds : List Nat} (h : TooLarge (packWhole ds 0)) (d : Nat) :
    TooLarge (packWhole (ds ++ [d]) 0) := by
  obtain ⟨hk, hmore⟩ := TooLarge.more (packWhole_lt ds (by decide)) h
  rw [packWhole_append, if_neg fun hfits => hk hfits.1]
  exact hmore

/-- **A beginning of an integer is out of range only if the integer is.** -/
theorem Begins.overflows (h : Begins n m) (hn : n.Begun) (hi : n.IsInteger) (hm : m.IsInteger)
    (hover : n.overflows = true) : m.overflows = true := by
  have hbare := hn.bare (.inr hi)
  obtain hsign | ⟨-, ds, rfl⟩ := h.integer hm
  · rcases hi with hi | hi <;> rw [hsign] at hi <;> cases hi
  · have hwhole := overflows_iff { n with whole := ds ++ n.whole } hbare
    rw [overflows_iff n hbare] at hover
    refine hwhole.mpr ?_
    clear hwhole hm h
    induction ds with
    | nil => exact hover
    | cons d ds ih =>
      rw [List.cons_append, List.reverse_cons]
      exact ih.append d

end Number

/-! ## 3. Beginnings of string literals -/

/-- **Pieces that a complete literal begins with.** A first half of a surrogate pair at their end
may be joined with its partner in the literal. -/
def Text.Begins (pieces : List Piece) (t : Text) : Prop :=
  t.cut = none ∧ (pieces <+: t.pieces ∨
    ∃ before unit c behind, pieces = before ++ [.lead unit] ∧
      t.pieces = before ++ .char c :: behind)

namespace Text

variable {pieces : List Piece} {t : Text}

theorem Begins.self (pieces : List Piece) : Begins pieces { pieces := pieces } :=
  ⟨rfl, .inl (List.prefix_refl pieces)⟩

/-- Without its last piece a beginning is one, too. -/
theorem Begins.of_concat {x : Piece} (h : Begins (pieces ++ [x]) t) : Begins pieces t := by
  refine ⟨h.1, .inl ?_⟩
  obtain hprefix | ⟨before, unit, c, behind, he, ht⟩ := h.2
  · exact (List.prefix_append pieces [x]).trans hprefix
  · obtain ⟨rfl, -⟩ := List.append_inj' he rfl
    rw [ht]
    exact List.prefix_append pieces _

/-- A first half of a pair may stand for the character that it is joined to. -/
theorem Begins.of_joined {unit : Nat} {c : Char} (h : Begins (pieces ++ [.char c]) t) :
    Begins (pieces ++ [.lead unit]) t := by
  refine ⟨h.1, .inr ?_⟩
  obtain ⟨rest, ht⟩ | ⟨before, unit', c', behind, he, ht⟩ := h.2
  · exact ⟨pieces, unit, c, rest, rfl, by simp [← ht]⟩
  · obtain ⟨-, hlast⟩ := List.append_inj' he rfl
    cases hlast

theorem chars_ok {cs : List Char} {pieces : List Piece} (h : chars none pieces = .ok cs) :
    pieces = cs.map .char := by
  induction pieces generalizing cs with
  | nil =>
    cases h
    rfl
  | cons p rest ih =>
    cases p with
    | char c =>
      rw [chars] at h
      split at h
      · rename_i hrest
        cases h
        rw [ih hrest, List.map_cons]
      · cases h
    | lead unit => cases rest <;> cases h
    | trail => cases h

/-- Characters in front of a failing row of pieces hide nothing. -/
theorem chars_of_behind {cut : Option Fault} {rest : List Piece} {f : Fault} (cs : List Char)
    (h : chars cut rest = .error f) : chars cut (cs.map .char ++ rest) = .error f := by
  induction cs with
  | nil => exact h
  | cons c cs ih =>
    rw [List.map_cons, List.cons_append, chars, ih]

/-- **A beginning of a literal that has a text** fails where it ends, and nowhere before. -/
theorem Begins.read {s : String} {f : Fault} (h : Begins pieces t) (hread : t.read = .ok s) :
    Text.read { pieces := pieces, cut := some f } = .error f := by
  obtain ⟨hcut, hpieces⟩ := h
  obtain ⟨cs, hcs⟩ : ∃ cs : List Char, t.pieces = cs.map .char := by
    unfold Text.read at hread
    rw [hcut] at hread
    split at hread
    · exact ⟨_, chars_ok ‹_›⟩
    · cases hread
  have hchars : chars (some f) pieces = .error f := by
    rw [hcs] at hpieces
    obtain hprefix | ⟨before, unit, c, behind, rfl, he⟩ := hpieces
    · rw [List.prefix_iff_eq_take.mp hprefix, ← List.map_take, ← List.append_nil (List.map _ _)]
      exact chars_of_behind _ rfl
    · obtain ⟨cs₁, cs₂, -, rfl, -⟩ := List.map_eq_append_iff.mp he
      exact chars_of_behind _ rfl
  unfold Text.read
  rw [hchars]

end Text

/-- The piece that a numeric escape adds stands behind the others, or it completes a pair. -/
theorem begins_of_addUnit {unit : Nat} {pieces : List Piece} {t : Text}
    (h : Text.Begins (addUnit unit pieces).reverse t) : Text.Begins pieces.reverse t := by
  unfold addUnit at h
  split at h
  · rw [List.reverse_cons] at h
    exact h.of_concat
  split at h
  · split at h
    · rw [List.reverse_cons] at h ⊢
      exact h.of_joined
    · rw [List.reverse_cons] at h
      exact h.of_concat
  · rw [List.reverse_cons] at h
    exact h.of_concat

/-- **What is read of a string literal is a beginning of it** in front of a character, if it is one
behind the character. -/
theorem Quote.begins_of_more {q q' : Quote} {pieces pieces' : List Piece} {c : Char} {t : Text}
    (hfeed : q.feed pieces c = .more pieces' q') (h : Text.Begins pieces'.reverse t) :
    Text.Begins pieces.reverse t := by
  have hadd : ∀ x : Piece, Text.Begins (x :: pieces).reverse t → Text.Begins pieces.reverse t := by
    intro x hx
    rw [List.reverse_cons] at hx
    exact hx.of_concat
  unfold Quote.feed at hfeed
  repeat' split at hfeed
  all_goals cases hfeed
  · exact h
  · exact hadd _ h
  · exact h
  · exact hadd _ h
  · exact begins_of_addUnit h
  · exact h
  · exact h
  · exact h

theorem Quote.pieces_of_closed {q : Quote} {pieces pieces' : List Piece} {c : Char}
    (hfeed : q.feed pieces c = .closed pieces') : pieces' = pieces := by
  unfold Quote.feed at hfeed
  repeat' split at hfeed
  all_goals cases hfeed
  rfl

end Lowering.Json
