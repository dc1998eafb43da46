import Lowering.Decimal
import Lowering.Json.Failure

/-!
# String literals

Between its quotes a string literal is a row of pieces. Most are characters; an escape may also name
one half of a surrogate pair, which is no character. Two halves that stand side by side join to one
character. A half that stays alone is no fault of the grammar, but the literal then has no text.

* `Piece`, `Text` -- a literal as far as it could be read;
* `Quote.feed` -- one more character of a literal;
* `Text.read` -- the text of a literal;
* `quote` -- the literal of a text.
-/

namespace Lowering.Json

/-! ## 1. Pieces -/

/-- One piece of a string literal. -/
inductive Piece where
  | char (c : Char)
  /-- The first half of a surrogate pair, without its partner. -/
  | lead (unit : Nat)
  /-- The second half of a surrogate pair, without its partner. -/
  | trail
deriving DecidableEq, Repr

/-- A string literal: its pieces in order, and the fault that ended it early, if one did. -/
structure Text where
  pieces : List Piece
  cut : Option Fault := none
deriving DecidableEq, Repr

namespace Text

/-- The characters of pieces. A half pair stands for nothing, except that a first half directly in
front of the place where the literal breaks off might still have found its partner there. -/
def chars (cut : Option Fault) : List Piece → Except Fault (List Char)
  | [] => match cut with
    | none => .ok []
    | some f => .error f
  | .char c :: rest => match chars cut rest with
    | .ok cs => .ok (c :: cs)
    | .error f => .error f
  | [.lead _] => .error (cut.getD .malformed)
  | .lead _ :: _ => .error .malformed
  | .trail :: _ => .error .malformed

/-- The text of a literal. -/
def read (t : Text) : Except Fault String :=
  match chars t.cut t.pieces with
  | .ok cs => .ok (String.ofList cs)
  | .error f => .error f

/-- The complete literal of a text. -/
def ofString (s : String) : Text := { pieces := s.toList.map .char }

end Text

/-! ## 2. Reading character by character -/

/-- Where a reader stands within a string literal. -/
inductive Quote where
  /-- Between two pieces. -/
  | plain
  /-- Just behind a backslash. -/
  | escape
  /-- Within the four hexadecimal digits of an escape: how many were read, and their value. -/
  | hex (count value : Nat)
  /-- Within the four bytes behind an escape that are no hexadecimal number: how many of them are
  still to come. The escape is judged once all four are there. -/
  | spoiled (missing : Nat)
deriving DecidableEq, Repr

/-- What one more character makes of a string literal. Pieces are kept last piece first. -/
inductive Quoted where
  /-- The literal goes on. -/
  | more (pieces : List Piece) (quote : Quote)
  /-- The closing quote was read. -/
  | closed (pieces : List Piece)
  /-- The character has no place here. -/
  | broken (pieces : List Piece)
deriving DecidableEq, Repr

/-- The value of a hexadecimal digit. -/
def hexDigit? (c : Char) : Option Nat :=
  if c.isDigit then some (c.toNat - 48)
  else if 'a' ≤ c ∧ c ≤ 'f' then some (c.toNat - 87)
  else if 'A' ≤ c ∧ c ≤ 'F' then some (c.toNat - 55)
  else none

/-- Adds the piece that a numeric escape names, joining it with a first half in front of it. -/
def addUnit (unit : Nat) (pieces : List Piece) : List Piece :=
  if 0xD800 ≤ unit ∧ unit ≤ 0xDBFF then .lead unit :: pieces
  else if 0xDC00 ≤ unit ∧ unit ≤ 0xDFFF then
    match pieces with
    | .lead first :: rest =>
      .char (Char.ofNat (0x10000 + (first - 0xD800) * 0x400 + (unit - 0xDC00))) :: rest
    | _ => .trail :: pieces
  else .char (Char.ofNat unit) :: pieces

/-- The character that a one-letter escape names. -/
def escaped? (c : Char) : Option Char :=
  if c = '"' ∨ c = '\\' ∨ c = '/' then some c
  else if c = 'b' then some '\x08'
  else if c = 'f' then some '\x0c'
  else if c = 'n' then some '\n'
  else if c = 'r' then some '\r'
  else if c = 't' then some '\t'
  else none

/-- One more character of a string literal. -/
def Quote.feed (pieces : List Piece) (q : Quote) (c : Char) : Quoted :=
  match q with
  | .plain =>
    if c = '"' then .closed pieces
    else if c = '\\' then .more pieces .escape
    else if c.toNat < 0x20 then .broken pieces
    else .more (.char c :: pieces) .plain
  | .escape =>
    if c = 'u' then .more pieces (.hex 0 0)
    else match escaped? c with
      | some e => .more (.char e :: pieces) .plain
      | none => .broken pieces
  | .hex count value =>
    match hexDigit? c with
    | some d =>
      if count = 3 then .more (addUnit (value * 16 + d) pieces) .plain
      else .more pieces (.hex (count + 1) (value * 16 + d))
    | none =>
      if 4 ≤ count + c.utf8Size then .broken pieces
      else .more pieces (.spoiled (4 - (count + c.utf8Size)))
  | .spoiled missing =>
    if missing ≤ c.utf8Size then .broken pieces
    else .more pieces (.spoiled (missing - c.utf8Size))

/-! ## 3. Writing -/

/-- The lowercase hexadecimal character of a number below sixteen. -/
def hexChar (d : Nat) : Char := if d < 10 then Char.ofNat (48 + d) else Char.ofNat (87 + d)

/-- How a character is written within a string literal. Quote, backslash and control characters are
escaped, all others stand for themselves. -/
def escapeChar (c : Char) : List Char :=
  if c = '"' then ['\\', '"']
  else if c = '\\' then ['\\', '\\']
  else if c = '\x08' then ['\\', 'b']
  else if c = '\x0c' then ['\\', 'f']
  else if c = '\n' then ['\\', 'n']
  else if c = '\r' then ['\\', 'r']
  else if c = '\t' then ['\\', 't']
  else if c.toNat < 0x20 then
    ['\\', 'u', '0', '0', hexChar (c.toNat / 16), hexChar (c.toNat % 16)]
  else [c]

/-- The characters of the literal of a text. -/
def quote (s : String) : List Char := '"' :: s.toList.flatMap escapeChar ++ ['"']

end Lowering.Json
