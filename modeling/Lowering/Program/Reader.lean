import Lowering.Program.Writer
import Lowering.Tree.Reader

/-!
# Reading programs

The records of a program are read while the text is walked through: a member of the wrong shape is
reported before anything that stands behind it.

* `Entry` -- what was read in a member of a declaration;
* `TypeDecl.reader` and its kin -- declarations;
* `Program.ofJson` -- the program of a text.
-/

namespace Lowering

open Json

/-- What was read in a member of a declaration or of a program. -/
inductive Entry where
  | text (s : String)
  | texts (ss : List String)
  | flag (b : Bool)
  | kind (k : TypeKind)
  | owner (id : TypeId)
  | optionalOwner (id : Option TypeId)
  | fields (fs : List FieldDecl)
  | params (ps : List Param)
  | body (b : Option (List Stmt))
  | types (ts : List TypeDecl)
  | methods (ms : List MethodDecl)
  | constructors (cs : List ConstructorDecl)
  | properties (ps : List PropertyDecl)

/-- A record that is made from its entries. -/
def recordOf {α : Type} (fields : Nat → List (RecordField Raw Entry))
    (build : List Entry → Option α) : Reader α :=
  (Reader.record fields).andThen fun entries =>
    match build entries with
    | some a => .ok a
    | none => .error .shape

/-- Reads the position of a type. -/
def TypeId.reader : Reader TypeId := Reader.word32.andThen fun i => .ok ⟨i⟩

/-- Reads a type kind. -/
def TypeKind.reader : Reader TypeKind := Reader.choice TypeKind.names

/-- Reads a field. -/
def FieldDecl.reader : Reader FieldDecl :=
  recordOf
    (fun room => [Reader.field "type_text" .text Reader.text none room,
      Reader.field "name" .text Reader.text none room])
    fun | [.text typeText, .text name] => some ⟨typeText, name⟩ | _ => none

/-- Reads a parameter. -/
def Param.reader : Reader Param :=
  recordOf
    (fun room => [Reader.field "type_text" .text Reader.text none room,
      Reader.field "name" .text Reader.text none room])
    fun | [.text typeText, .text name] => some ⟨typeText, name⟩ | _ => none

/-- Reads a type. -/
def TypeDecl.reader : Reader TypeDecl :=
  recordOf
    (fun room => [Reader.field "name" .text Reader.text none room,
      Reader.field "kind" .kind TypeKind.reader none room,
      Reader.field "attributes" .texts (Reader.list Reader.text) (some []) room,
      Reader.field "is_static" .flag Reader.flag (some false) room,
      Reader.field "fields" .fields (Reader.list FieldDecl.reader) (some []) room])
    fun
    | [.text name, .kind kind, .texts attributes, .flag isStatic, .fields fields] =>
      some ⟨name, kind, attributes, isStatic, fields⟩
    | _ => none

/-- Reads an optional body. -/
def bodyReader : Reader (Option (List Stmt)) := Reader.option (Reader.list Stmt.reader)

/-- Reads a method. -/
def MethodDecl.reader : Reader MethodDecl :=
  recordOf
    (fun room => [
      Reader.field "owner" .optionalOwner (Reader.option TypeId.reader) (some none) room,
      Reader.field "name" .text Reader.text none room,
      Reader.field "is_native" .flag Reader.flag (some false) room,
      Reader.field "is_static" .flag Reader.flag (some false) room,
      Reader.field "params" .params (Reader.list Param.reader) (some []) room,
      Reader.field "return_type" .text Reader.text (some "void") room,
      Reader.field "body" .body bodyReader (some none) room])
    fun
    | [.optionalOwner owner, .text name, .flag isNative, .flag isStatic, .params params,
        .text returnType, .body body] =>
      some ⟨owner, name, isNative, isStatic, params, returnType, body⟩
    | _ => none

/-- Reads a constructor. -/
def ConstructorDecl.reader : Reader ConstructorDecl :=
  recordOf
    (fun room => [Reader.field "owner" .owner TypeId.reader none room,
      Reader.field "params" .params (Reader.list Param.reader) (some []) room,
      Reader.field "body" .body bodyReader (some none) room])
    fun
    | [.owner owner, .params params, .body body] => some ⟨owner, params, body⟩
    | _ => none

/-- Reads a property. -/
def PropertyDecl.reader : Reader PropertyDecl :=
  recordOf
    (fun room => [
      Reader.field "owner" .optionalOwner (Reader.option TypeId.reader) (some none) room,
      Reader.field "name" .text Reader.text none room,
      Reader.field "is_native" .flag Reader.flag (some false) room])
    fun
    | [.optionalOwner owner, .text name, .flag isNative] => some ⟨owner, name, isNative⟩
    | _ => none

/-- Reads a program. -/
def Program.reader : Reader Program :=
  recordOf
    (fun room => [Reader.field "types" .types (Reader.list TypeDecl.reader) (some []) room,
      Reader.field "methods" .methods (Reader.list MethodDecl.reader) (some []) room,
      Reader.field "constructors" .constructors (Reader.list ConstructorDecl.reader) (some []) room,
      Reader.field "properties" .properties (Reader.list PropertyDecl.reader) (some []) room])
    fun
    | [.types types, .methods methods, .constructors constructors, .properties properties] =>
      some ⟨types, methods, constructors, properties⟩
    | _ => none

/-- Reads a whole document with a reader. -/
def Json.Document.readBy {α : Type} (r : Reader α) (d : Document) : Except Failure α :=
  d.read (r Raw.nestingLimit)

/-- The program of a text. References between declarations are not looked at. -/
def Program.ofJson (text : String) : Except Failure Program :=
  (Document.scan text).readBy Program.reader

end Lowering
