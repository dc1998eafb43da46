import Lowering.Json.Scan

/-!
# Reading records and plain values

A record has declared fields. It is written as an object whose members may stand in any order, or as
an array of its fields in declared order. Both are read from left to right, so the first member of
the wrong shape is reported; fields that are absent take their default or are reported at the end.

* `RecordField`, `gather`, `supply`, `inOrder` -- the two written forms of a record, for any kind of
  source;
* `Reader` -- a reader of raw values within a limit of nesting;
* `Reader.text`, `Reader.flag`, `Reader.word32`, `Reader.option`, `Reader.list`, `Reader.choice`,
  `Reader.record` -- the readers from which all others are made.
-/

namespace Lowering.Json

/-! ## 1. Fields -/

/-- A declared field of a record: its name, how its value is read, and what absence means. -/
structure RecordField (σ π : Type) where
  name : String
  read : σ → Except Failure π
  absent : Option π := none

section Fields

variable {κ σ π : Type}

/-- Reads members in written order and collects the known ones. `key` reads a name and `skip` passes
over the value of an unknown member. -/
def gather (key : κ → Except Failure String) (skip : σ → Except Failure Unit)
    (fields : List (RecordField σ π)) :
    List (κ × σ) → List (String × π) → Except Failure (List (String × π))
  | [], found => .ok found
  | (k, v) :: rest, found => do
    let name ← key k
    match fields.find? (·.name == name) with
    | none =>
      skip v
      gather key skip fields rest found
    | some field =>
      if (found.lookup name).isSome then .error (.mismatch (.duplicate name))
      else
        let part ← field.read v
        gather key skip fields rest ((name, part) :: found)

/-- The parts of a record in declared order, from the members that were collected. -/
def supply (found : List (String × π)) : List (RecordField σ π) → Except Failure (List π)
  | [] => .ok []
  | field :: fields =>
    match (found.lookup field.name).or field.absent with
    | none => .error (.mismatch (.missing field.name))
    | some part => do
      let parts ← supply found fields
      return part :: parts

/-- The parts of a record that is written as an array. `dry` is met when an item is asked for that
is not there, and `beyond` looks at what stands behind the last declared field. -/
def inOrder (dry : Except Failure Unit) (beyond : List σ → Except Failure Unit) :
    List (RecordField σ π) → List σ → Except Failure (List π)
  | [], rest => do
    beyond rest
    return []
  | field :: fields, v :: rest => do
    let part ← field.read v
    let parts ← inOrder dry beyond fields rest
    return part :: parts
  | field :: fields, [] => do
    dry
    match field.absent with
    | none => .error .shape
    | some part =>
      let parts ← inOrder dry beyond fields []
      return part :: parts

end Fields

/-! ## 2. Readers of raw values -/

/-- Reads a raw value. The first argument is the number of brackets that may still be opened. -/
def Reader (α : Type) : Type := Nat → Raw → Except Failure α

namespace Reader

variable {α β π : Type}

/-- A reader whose result is looked at once more. -/
def andThen (r : Reader α) (f : α → Except Failure β) : Reader β :=
  fun room v => r room v >>= f

/-- A text. -/
def text : Reader String := fun _ v =>
  match v with
  | .str t => Fault.lift t.read
  | v => .error v.reject

/-- A truth value. -/
def flag : Reader Bool := fun _ v =>
  match v with
  | .bool b => .ok b
  | v => .error v.reject

/-- A natural number below 2^32, written as a plain integer. -/
def word32 : Reader UInt32 := fun _ v =>
  match v with
  | .num n cut =>
    match Raw.numberFault n cut, n.natural? with
    | some f, _ => .error (.fault f)
    | none, some k => if k < UInt32.size then .ok (UInt32.ofNat k) else .error .shape
    | none, none => .error .shape
  | v => .error v.reject

/-- A value that may be null. -/
def option (r : Reader α) : Reader (Option α) := fun room v =>
  match v with
  | .null => .ok none
  | v => some <$> r room v

/-- The items of an array, and its end. -/
def items (r : Raw → Except Failure α) (ending : Ending) : List Raw → Except Failure (List α)
  | [] => do
    Fault.check ending.fault?
    return []
  | v :: rest => do
    let a ← r v
    let as ← items r ending rest
    return a :: as

/-- An array. -/
def list (r : Reader α) : Reader (List α) := fun room v =>
  match v with
  | .arr vs ending =>
    match room with
    | 0 => .error (.fault .malformed)
    | room + 1 => items (r room) ending vs
  | v => .error v.reject

/-- The meaning of a name among named choices. -/
def choose (choices : List (String × α)) (name : String) : Except Failure α :=
  match choices.lookup name with
  | some a => .ok a
  | none => .error (.mismatch (.unknown name (choices.map (·.1))))

/-- One of several named choices: a string, or an object whose only member has the name and the
value null. Nothing else can begin a choice, so everything else is malformed. -/
def choice (choices : List (String × α)) : Reader α := fun room v =>
  match v with
  | .str t => do
    let name ← Fault.lift t.read
    choose choices name
  | .obj members ending =>
    match room, members with
    | 0, _ => .error (.fault .malformed)
    | _ + 1, [] =>
      match ending with
      | .closed => .error (.fault .malformed)
      | .cut _ f => .error (.fault f)
    | _ + 1, (key, payload) :: rest => do
      let name ← Fault.lift key.read
      let a ← choose choices name
      match payload with
      | .null =>
        if rest.isEmpty then
          Fault.check ending.unclosed?
          return a
        else .error (.fault .malformed)
      | payload => .error payload.reject
  | .broken false f => .error (.fault f)
  | _ => .error (.fault .malformed)

/-- Looks behind the last declared field of a record that is written as an array. -/
def behind (ending : Ending) : List Raw → Except Failure Unit
  | [] => Fault.check ending.unclosed?
  | _ :: _ => .error (.fault .malformed)

/-- The parts of a record, in declared order. -/
def record (fields : Nat → List (RecordField Raw π)) : Reader (List π) := fun room v =>
  match v with
  | .obj members ending =>
    match room with
    | 0 => .error (.fault .malformed)
    | room + 1 => do
      let found ← gather (fun k => Fault.lift k.read) (fun v => Fault.check v.skip)
        (fields room) members []
      Fault.check ending.fault?
      supply found (fields room)
  | .arr items ending =>
    match room with
    | 0 => .error (.fault .malformed)
    | room + 1 => inOrder (Fault.check ending.fault?) (behind ending) (fields room) items
  | v => .error v.reject

/-- A field of a record that is read by a reader. -/
def field (name : String) (wrap : α → π) (r : Reader α) (absent : Option α := none) (room : Nat) :
    RecordField Raw π :=
  { name := name, read := fun v => wrap <$> r room v, absent := absent.map wrap }

end Reader

end Lowering.Json
