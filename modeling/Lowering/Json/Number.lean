import Lowering.Decimal

/-!
# Number literals

A number literal is kept as it is written, so that `1`, `1.0` and `1e0` stay three different
literals: only the first is a natural number.

* `Number.start?`, `Number.next?` -- the literal grows by one character at a time;
* `Number.complete` -- whether the literal may end here;
* `Number.natural?` -- the natural number that a literal without sign, point and power denotes;
* `Number.overflows` -- whether the literal lies beyond the largest binary64 number;
* `Number.render` -- the text of a literal.
-/

namespace Lowering.Json

/-! ## 1. The parts of a literal -/

/-- How far a number literal has been read. -/
inductive Stage where
  /-- Only the minus sign. -/
  | sign
  /-- The whole part is the single digit `0`. -/
  | zero
  /-- Within a whole part that starts with another digit. -/
  | whole
  /-- Just behind the point. -/
  | point
  /-- Within the digits behind the point. -/
  | fraction
  /-- Just behind the mark of the power. -/
  | mark
  /-- Just behind the sign of the power. -/
  | markSign
  /-- Within the digits of the power. -/
  | power
deriving DecidableEq, Repr

/-- A number literal, complete or not. Digits are kept last digit first. -/
structure Number where
  stage : Stage
  negative : Bool := false
  whole : List Nat := []
  fraction : List Nat := []
  powerNegative : Bool := false
  power : List Nat := []
deriving DecidableEq, Repr

namespace Number

/-- The literal that a first character begins. -/
def start? (c : Char) : Option Number :=
  if c = '-' then some { stage := .sign, negative := true }
  else match digit? c with
    | some 0 => some { stage := .zero, whole := [0] }
    | some d => some { stage := .whole, whole := [d] }
    | none => none

/-- Behind the whole part a point or the mark of a power may follow. -/
def afterWhole? (n : Number) (c : Char) : Option Number :=
  if c = '.' then some { n with stage := .point }
  else if c = 'e' ∨ c = 'E' then some { n with stage := .mark }
  else none

/-- The literal with one more character, if the character can belong to it. -/
def next? (n : Number) (c : Char) : Option Number :=
  match n.stage, digit? c with
  | .sign, some 0 => some { n with stage := .zero, whole := [0] }
  | .sign, some d => some { n with stage := .whole, whole := [d] }
  | .sign, none => none
  | .zero, some _ => none
  | .zero, none => n.afterWhole? c
  | .whole, some d => some { n with whole := d :: n.whole }
  | .whole, none => n.afterWhole? c
  | .point, some d => some { n with stage := .fraction, fraction := [d] }
  | .point, none => none
  | .fraction, some d => some { n with fraction := d :: n.fraction }
  | .fraction, none =>
    if c = 'e' ∨ c = 'E' then some { n with stage := .mark } else none
  | .mark, some d => some { n with stage := .power, power := [d] }
  | .mark, none =>
    if c = '+' then some { n with stage := .markSign }
    else if c = '-' then some { n with stage := .markSign, powerNegative := true }
    else none
  | .markSign, some d => some { n with stage := .power, power := [d] }
  | .markSign, none => none
  | .power, some d => some { n with power := d :: n.power }
  | .power, none => none

/-- Whether a literal may end here. -/
def complete (n : Number) : Bool :=
  match n.stage with
  | .zero | .whole | .fraction | .power => true
  | .sign | .point | .mark | .markSign => false

/-- Whether a literal may end in front of a character that does not continue it. A whole part with
a leading zero has no reading, so no digit follows a lone `0`. -/
def endsBefore (n : Number) (c : Char) : Bool :=
  n.complete && !(n.stage == .zero && (digit? c).isSome)

/-! ## 2. Natural numbers -/

/-- The natural number that a literal denotes, if it has no sign, no point and no power. -/
def natural? (n : Number) : Option Nat :=
  if n.negative then none
  else match n.stage with
    | .zero | .whole => some (ofDigits n.whole)
    | _ => none

/-- The literal of a natural number. -/
def ofNat (n : Nat) : Number :=
  { stage := if n = 0 then .zero else .whole, whole := digits n }

/-! ## 3. The range of binary64

A literal is scaled from a 64-bit significand and a power of ten, both rounded to 53 bits. Digits
that no longer fit the significand are dropped; a dropped digit of the whole part still counts as
a power of ten. The literal is out of range when the rounded product is no finite number. -/

/-- Collects whole digits, in reading order, while they fit 64 bits. The second part is the number
of digits that were dropped. -/
def packWhole : List Nat → Nat → Nat × Nat
  | [], s => (s, 0)
  | d :: ds, s => if s * 10 + d < UInt64.size then packWhole ds (s * 10 + d) else (s, ds.length + 1)

/-- Collects digits behind the point, in reading order, up to the first that does not fit. The
second part is the number of digits that were taken. -/
def packFraction : List Nat → Nat → Nat × Nat
  | [], s => (s, 0)
  | d :: ds, s =>
    if s * 10 + d < UInt64.size then
      let (t, k) := packFraction ds (s * 10 + d)
      (t, k + 1)
    else (s, 0)

/-- The nearest number with at most 53 significant bits; a tie goes to the even neighbour. -/
def round53 (m : Nat) : Nat :=
  let unit := Nat.pow 2 (m.log2 + 1 - 53)
  let q := m / unit
  let r := m % unit
  if 2 * r < unit ∨ 2 * r = unit ∧ q % 2 = 0 then q * unit else (q + 1) * unit

/-- Whether a literal lies beyond the finite binary64 numbers. -/
def overflows (n : Number) : Bool :=
  let (s, dropped) := packWhole n.whole.reverse 0
  let (s, taken) := packFraction n.fraction.reverse s
  let p : Int := if n.powerNegative then -(ofDigits n.power : Int) else ofDigits n.power
  let e : Int := dropped - taken + p
  s != 0 && 0 ≤ e &&
    (308 < e || Nat.pow 2 1024 - Nat.pow 2 970 ≤ round53 s * round53 (Nat.pow 10 e.toNat))

/-! ## 4. Writing -/

/-- The characters of a literal. -/
def render (n : Number) : List Char :=
  let sign := if n.negative then ['-'] else []
  let point := if n.stage = .point ∨ n.fraction ≠ [] then '.' :: digitChars n.fraction else []
  let powerSign := if n.powerNegative then ['-'] else []
  let power :=
    if n.stage = .mark ∨ n.stage = .markSign ∨ n.power ≠ [] then
      'e' :: powerSign ++ digitChars n.power
    else []
  sign ++ digitChars n.whole ++ point ++ power

end Number

end Lowering.Json
