import Lowering.Json.Value

/-!
# Values as far as they could be read

A reader that wants a record looks at its members one by one, and a member of the wrong shape is
reported before a grammar fault that stands behind it. So the text is not rejected at its first
grammar fault: it becomes a `Raw` value, complete up to the fault and broken there, and whoever
walks through that value in reading order meets the fault in its place.

* `Raw` -- a value, possibly broken off on its right edge;
* `Raw.skip` -- the fault in a value that nobody looks at: the bare grammar, without limits;
* `Raw.reject` -- the failure that reports a value of the wrong kind;
* `Raw.settle` -- the complete value behind a raw one, within a limit of nesting.
-/

namespace Lowering.Json

/-- How the row of items of an array, or of members of an object, ends. -/
inductive Ending where
  /-- With the closing bracket. -/
  | closed
  /-- With a fault, behind a comma or not. -/
  | cut (comma : Bool) (f : Fault)
deriving DecidableEq, Repr

namespace Ending

/-- The fault that is met when one more item or member is asked for. -/
def fault? : Ending → Option Fault
  | .closed => none
  | .cut _ f => some f

/-- The fault that is met when the closing bracket is asked for: a comma is not a bracket, whatever
follows it. -/
def unclosed? : Ending → Option Fault
  | .closed => none
  | .cut true _ => some .malformed
  | .cut false f => some f

end Ending

/-- Passes when there is no fault. -/
def Fault.check : Option Fault → Except Failure Unit
  | none => .ok ()
  | some f => .error (.fault f)

/-- A value as far as it could be read. Only the last item or member of a row can be broken. -/
inductive Raw where
  | null
  | bool (b : Bool)
  /-- A number literal, and the fault that ended it early. -/
  | num (n : Number) (cut : Option Fault)
  | str (t : Text)
  | arr (items : List Raw) (ending : Ending)
  | obj (members : List (Text × Raw)) (ending : Ending)
  /-- No value. `begun` tells whether a first character of one was there. -/
  | broken (begun : Bool) (f : Fault)

namespace Raw

/-- The fault in a value that is skipped. Its inside only has to follow the grammar: numbers may
have any size, half surrogate pairs may stand alone, and nesting has no limit. An unfinished number
literal is malformed even where the text ends. -/
def skip : Raw → Option Fault
  | .null | .bool _ => none
  | .num _ cut => cut.map fun _ => .malformed
  | .str t => t.cut
  | .arr _ ending | .obj _ ending => ending.fault?
  | .broken _ f => some f

/-- The fault within a number literal that is really read. -/
def numberFault (n : Number) (cut : Option Fault) : Option Fault :=
  match cut with
  | some f => some f
  | none => if n.overflows then some .malformed else none

/-- The fault within the first word of a value, be it a word, a number or a string. -/
def headFault : Raw → Option Fault
  | .null | .bool _ | .arr .. | .obj .. => none
  | .num n cut => numberFault n cut
  | .str t => match t.read with
    | .ok _ => none
    | .error f => some f
  | .broken _ f => some f

/-- Reports a value of the wrong kind. A word, a number or a string is read first, so that a fault
within it comes out; of an array or object only the bracket is looked at. -/
def reject (v : Raw) : Failure :=
  match v.headFault with
  | some f => .fault f
  | none => .shape

/-- How many arrays and objects may be open at once. -/
def nestingLimit : Nat := 127

mutual

/-- Reads a value completely. `room` is the number of brackets that may still be opened. -/
def settle (room : Nat) : Raw → Except Fault Value
  | .null => .ok .null
  | .bool b => .ok (.bool b)
  | .num n cut => match numberFault n cut with
    | some f => .error f
    | none => .ok (.num n)
  | .str t => match t.read with
    | .ok s => .ok (.str s)
    | .error f => .error f
  | .arr items ending => match room with
    | 0 => .error .malformed
    | room + 1 => match settleItems room ending items with
      | .ok vs => .ok (.arr vs)
      | .error f => .error f
  | .obj members ending => match room with
    | 0 => .error .malformed
    | room + 1 => match settleMembers room ending members with
      | .ok vs => .ok (.obj vs)
      | .error f => .error f
  | .broken _ f => .error f

/-- Reads the items of an array, and its end. -/
def settleItems (room : Nat) (ending : Ending) : List Raw → Except Fault (List Value)
  | [] => match ending.fault? with
    | none => .ok []
    | some f => .error f
  | v :: rest => match settle room v with
    | .error f => .error f
    | .ok v => match settleItems room ending rest with
      | .ok vs => .ok (v :: vs)
      | .error f => .error f

/-- Reads the members of an object, and its end. -/
def settleMembers (room : Nat) (ending : Ending) :
    List (Text × Raw) → Except Fault (List (String × Value))
  | [] => match ending.fault? with
    | none => .ok []
    | some f => .error f
  | (k, v) :: rest => match k.read with
    | .error f => .error f
    | .ok k => match settle room v with
      | .error f => .error f
      | .ok v => match settleMembers room ending rest with
        | .ok vs => .ok ((k, v) :: vs)
        | .error f => .error f

end

mutual

/-- A complete value, as a raw one. -/
def ofValue : Value → Raw
  | .null => .null
  | .bool b => .bool b
  | .num n => .num n none
  | .str s => .str (.ofString s)
  | .arr items => .arr (ofItems items) .closed
  | .obj members => .obj (ofMembers members) .closed

/-- The items of a complete array. -/
def ofItems : List Value → List Raw
  | [] => []
  | v :: rest => ofValue v :: ofItems rest

/-- The members of a complete object. -/
def ofMembers : List (String × Value) → List (Text × Raw)
  | [] => []
  | (k, v) :: rest => (.ofString k, ofValue v) :: ofMembers rest

end

end Raw

end Lowering.Json
