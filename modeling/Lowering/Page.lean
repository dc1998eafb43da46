/-!
# Pages

The text of a unit while it is written: lines at a level of indentation, four blanks a level.

* `Page` -- the text so far, and the level;
* `Page.line`, `Page.blank` -- a line at the level, and an empty one;
* `Page.indent`, `Page.outdent`, `Page.openBlock`, `Page.closeBlock` -- the level.
-/

namespace Lowering

/-- The text so far, and the level of indentation. -/
structure Page where
  text : String := ""
  level : Nat := 0
deriving DecidableEq, Repr

/-- The blanks in front of a line. -/
def margin : Nat → String
  | 0 => ""
  | level + 1 => "    " ++ margin level

namespace Page

/-- Ends a line. -/
def blank (p : Page) : Page := { p with text := p.text ++ "\n" }

/-- Writes a line at the level. -/
def line (p : Page) (s : String) : Page := { p with text := p.text ++ margin p.level ++ s ++ "\n" }

/-- One level deeper. -/
def indent (p : Page) : Page := { p with level := p.level + 1 }

/-- One level up, but not above the first. -/
def outdent (p : Page) : Page := { p with level := p.level - 1 }

/-- Opens a block in braces. -/
def openBlock (p : Page) : Page := (p.line "\x7b").indent

/-- Closes a block in braces. -/
def closeBlock (p : Page) : Page := p.outdent.line "\x7d"

end Page

/-- The number of lines of a text. What follows the last line end is a line if it is not empty. -/
def lineCount (s : String) : Nat := go s.toList false
where
  /-- Counts lines; `begun` tells whether a line has characters already. -/
  go : List Char → Bool → Nat
    | [], begun => if begun then 1 else 0
    | c :: rest, _ => if c = '\n' then go rest false + 1 else go rest true

end Lowering
