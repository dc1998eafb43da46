/-!
# Decimal digits

Natural numbers as decimal digits, and as the text made of them. Digit lists are kept with the last
digit first, the order in which a reader that works from left to right collects them.

* `digits n` -- the digits of `n`, last digit first, never empty;
* `ofDigits ds` -- the number that a list of digits stands for;
* `decimal n` -- the text of `n`, without sign and without leading zeros;
* `ofDigits_decimal`, `decimal_inj` -- a number can be read back from its text.
-/

namespace Lowering

/-- The decimal digits of a number, last digit first. Zero has the one digit `0`. -/
def digits (n : Nat) : List Nat :=
  if n < 10 then [n] else n % 10 :: digits (n / 10)

/-- The number that digits, last digit first, stand for. -/
def ofDigits : List Nat → Nat
  | [] => 0
  | d :: ds => ofDigits ds * 10 + d

/-- The character of a digit below ten. -/
def digitChar (d : Nat) : Char := Char.ofNat (48 + d)

/-- The digit that a character stands for. -/
def digit? (c : Char) : Option Nat :=
  if c.isDigit then some (c.toNat - 48) else none

/-- The characters of digits that are kept last digit first, in reading order. -/
def digitChars (ds : List Nat) : List Char := ds.reverse.map digitChar

/-- The decimal text of a number. -/
def decimal (n : Nat) : String := String.ofList (digitChars (digits n))

/-- Reading the digits of a number gives the number. -/
theorem ofDigits_digits (n : Nat) : ofDigits (digits n) = n := by
  fun_induction digits n with
  | case1 n h => simp [ofDigits]
  | case2 n h ih => simp only [ofDigits, ih]; omega

theorem digits_lt (n : Nat) : ∀ d ∈ digits n, d < 10 := by
  fun_induction digits n with
  | case1 n h => simpa using h
  | case2 n h ih =>
    intro d hd
    rcases List.mem_cons.mp hd with rfl | hd
    · exact Nat.mod_lt n (by decide)
    · exact ih d hd

theorem digit?_digitChar : ∀ d < 10, digit? (digitChar d) = some d := by decide

theorem digit?_digitChars {ds : List Nat} (h : ∀ d ∈ ds, d < 10) :
    (ds.map digitChar).filterMap digit? = ds := by
  induction ds with
  | nil => rfl
  | cons d rest ih =>
    have hd := digit?_digitChar d (h d List.mem_cons_self)
    rw [List.map_cons, List.filterMap_cons_some hd, ih fun x hx => h x (List.mem_cons_of_mem _ hx)]

/-- A number can be read back from its text. -/
theorem ofDigits_decimal (n : Nat) :
    ofDigits ((decimal n).toList.filterMap digit?).reverse = n := by
  have hlt : ∀ d ∈ (digits n).reverse, d < 10 := fun d hd => digits_lt n d (List.mem_reverse.mp hd)
  rw [decimal, String.toList_ofList, digitChars, digit?_digitChars hlt, List.reverse_reverse,
    ofDigits_digits]

theorem decimal_inj {m n : Nat} (h : decimal m = decimal n) : m = n := by
  rw [← ofDigits_decimal m, ← ofDigits_decimal n, h]

theorem isDigit_of_mem_decimal {n : Nat} {c : Char} (h : c ∈ (decimal n).toList) :
    c.isDigit = true := by
  simp only [decimal, digitChars, String.toList_ofList, List.mem_map, List.mem_reverse] at h
  obtain ⟨d, hd, rfl⟩ := h
  have hall : ∀ d < 10, (digitChar d).isDigit = true := by decide
  exact hall d (digits_lt n d hd)

end Lowering
