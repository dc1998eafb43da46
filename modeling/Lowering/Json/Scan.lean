import Lowering.Json.Raw

/-!
# Reading a document

The text of a document is read in one pass, character by character: `State.feed` takes the state
behind a part of the text to the state behind one character more, and `State.finish` says what
document the text was if it ends there. The brackets that are still open are kept as a list of
frames, so nesting has no limit here. Once a fault is met the document is fixed.

* `Frame`, `State` -- an open bracket, and the place of the reader;
* `State.feed`, `State.finish` -- one character more, and the end of the text;
* `Document.scan` -- the document of a text.
-/

namespace Lowering.Json

/-! ## 1. Places -/

/-- A bracket that is open around the value being read. Rows are kept last part first. -/
inductive Frame where
  /-- An array with the items before the value. -/
  | arr (items : List Raw)
  /-- An object with the members before the value, and the name in front of it. -/
  | obj (members : List (Text × Raw)) (key : Text)

/-- A document: its value, and whether something other than blanks follows it. -/
structure Document where
  root : Raw
  trailing : Bool

/-- What a string literal is read for. -/
inductive Role where
  /-- It is a value. -/
  | value
  /-- It is the name of the next member of an object. -/
  | name (members : List (Text × Raw))

/-- Where a reader stands. -/
inductive State where
  /-- A value has to begin. -/
  | value (frames : List Frame)
  /-- Within a word: the characters that are still to come, and the value of the word. -/
  | word (frames : List Frame) (next : Char) (rest : List Char) (v : Raw)
  /-- Within a number literal. -/
  | number (frames : List Frame) (n : Number)
  /-- Within a string literal. -/
  | quoted (frames : List Frame) (role : Role) (pieces : List Piece) (q : Quote)
  /-- The name of a member has to begin. -/
  | name (frames : List Frame) (members : List (Text × Raw))
  /-- A colon has to follow a name. -/
  | colon (frames : List Frame) (members : List (Text × Raw)) (key : Text)
  /-- A value has just been read. -/
  | after (frames : List Frame) (v : Raw)
  /-- The document is known, whatever follows. -/
  | ended (d : Document)

/-! ## 2. Faults -/

/-- Puts a value that is broken by a fault into the brackets around it, which the same fault
breaks. -/
def plug (f : Fault) : List Frame → Raw → Raw
  | [], v => v
  | .arr items :: outer, v => plug f outer (.arr (v :: items).reverse (.cut false f))
  | .obj members key :: outer, v => plug f outer (.obj ((key, v) :: members).reverse (.cut false f))

/-- The document that breaks off in a value. -/
def breakIn (frames : List Frame) (v : Raw) : Document :=
  { root := plug (v.skip.getD .malformed) frames v, trailing := false }

/-- The document that breaks off where a value has to begin. -/
def breakBefore (f : Fault) : List Frame → Document
  | .arr items :: outer => breakIn outer (.arr items.reverse (.cut (!items.isEmpty) f))
  | frames => breakIn frames (.broken false f)

/-- The document that breaks off where a name has to begin. -/
def breakBeforeName (f : Fault) (frames : List Frame) (members : List (Text × Raw)) : Document :=
  breakIn frames (.obj members.reverse (.cut (!members.isEmpty) f))

/-- The document that breaks off within a string literal. -/
def breakInQuoted (f : Fault) (frames : List Frame) (role : Role) (pieces : List Piece) :
    Document :=
  let t : Text := { pieces := pieces.reverse, cut := some f }
  match role with
  | .value => breakIn frames (.str t)
  | .name members => breakIn (.obj members t :: frames) (.broken false f)

/-- The document that breaks off behind a value, inside a bracket. -/
def breakAfter (f : Fault) (v : Raw) : List Frame → Document
  | [] => { root := v, trailing := false }
  | .arr items :: outer => breakIn outer (.arr (v :: items).reverse (.cut false f))
  | .obj members key :: outer => breakIn outer (.obj ((key, v) :: members).reverse (.cut false f))

/-! ## 3. One character more -/

/-- The blanks between the words of a document. -/
def isBlank (c : Char) : Bool := c = ' ' || c = '\t' || c = '\n' || c = '\r'

namespace State

/-- The first character of a value. -/
def begin (frames : List Frame) (c : Char) : State :=
  if c = '"' then .quoted frames .value [] .plain
  else if c = '[' then .value (.arr [] :: frames)
  else if c = '\x7b' then .name frames []
  else if c = 'n' then .word frames 'u' ['l', 'l'] .null
  else if c = 't' then .word frames 'r' ['u', 'e'] (.bool true)
  else if c = 'f' then .word frames 'a' ['l', 's', 'e'] (.bool false)
  else match Number.start? c with
    | some n => .number frames n
    | none =>
      match frames with
      | .arr items :: outer =>
        if c = ']' then
          if items.isEmpty then .after outer (.arr [] .closed)
          else .ended (breakBefore .malformed frames)
        else .ended (breakIn frames (.broken true .malformed))
      | _ => .ended (breakIn frames (.broken true .malformed))

/-- A character behind a value. -/
def follow (v : Raw) (c : Char) : List Frame → State
  | [] => if isBlank c then .after [] v else .ended { root := v, trailing := true }
  | .arr items :: outer =>
    if isBlank c then .after (.arr items :: outer) v
    else if c = ',' then .value (.arr (v :: items) :: outer)
    else if c = ']' then .after outer (.arr (v :: items).reverse .closed)
    else .ended (breakAfter .malformed v (.arr items :: outer))
  | .obj members key :: outer =>
    if isBlank c then .after (.obj members key :: outer) v
    else if c = ',' then .name outer ((key, v) :: members)
    else if c = '\x7d' then .after outer (.obj ((key, v) :: members).reverse .closed)
    else .ended (breakAfter .malformed v (.obj members key :: outer))

/-- The state behind one character more. -/
def feed : State → Char → State
  | .value frames, c => if isBlank c then .value frames else begin frames c
  | .word frames next rest v, c =>
    if c = next then
      match rest with
      | [] => .after frames v
      | w :: rest => .word frames w rest v
    else .ended (breakIn frames (.broken true .malformed))
  | .number frames n, c =>
    match n.next? c with
    | some n => .number frames n
    | none =>
      if n.endsBefore c then follow (.num n none) c frames
      else .ended (breakIn frames (.num n (some .malformed)))
  | .quoted frames role pieces q, c =>
    match q.feed pieces c with
    | .more pieces q => .quoted frames role pieces q
    | .closed pieces =>
      let t : Text := { pieces := pieces.reverse }
      match role with
      | .value => .after frames (.str t)
      | .name members => .colon frames members t
    | .broken pieces => .ended (breakInQuoted .malformed frames role pieces)
  | .name frames members, c =>
    if isBlank c then .name frames members
    else if c = '"' then .quoted frames (.name members) [] .plain
    else if c = '\x7d' then
      if members.isEmpty then .after frames (.obj [] .closed)
      else .ended (breakBeforeName .malformed frames members)
    else .ended (breakBeforeName .malformed frames members)
  | .colon frames members key, c =>
    if isBlank c then .colon frames members key
    else if c = ':' then .value (.obj members key :: frames)
    else .ended (breakIn (.obj members key :: frames) (.broken false .malformed))
  | .after frames v, c => follow v c frames
  | .ended d, _ => .ended d

/-! ## 4. The end of the text -/

/-- The document of a text that ends here. -/
def finish : State → Document
  | .value frames => breakBefore .truncated frames
  | .word frames _ _ _ => breakIn frames (.broken true .truncated)
  | .number frames n =>
    if n.complete then breakAfter .truncated (.num n none) frames
    else breakIn frames (.num n (some .truncated))
  | .quoted frames role pieces _ => breakInQuoted .truncated frames role pieces
  | .name frames members => breakBeforeName .truncated frames members
  | .colon frames members key => breakIn (.obj members key :: frames) (.broken false .truncated)
  | .after frames v => breakAfter .truncated v frames
  | .ended d => d

end State

namespace Document

/-- The document that characters spell. -/
def ofChars (cs : List Char) : Document := (cs.foldl State.feed (.value [])).finish

/-- The document of a text. -/
def scan (text : String) : Document := ofChars text.toList

/-- Reads a document with a reader of values. What follows the value is looked at last. -/
def read {α : Type} (reader : Raw → Except Failure α) (d : Document) : Except Failure α :=
  match reader d.root with
  | .error e => .error e
  | .ok a => if d.trailing then .error (.fault .malformed) else .ok a

end Document

end Lowering.Json
