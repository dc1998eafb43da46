import Lowering.Program.Reader

/-!
# Options of a lowering

What a program may choose about its lowering. Every option has a default, so a document of options
names only what it changes.

* `Options` -- the options, with `Options.markerDefinition`;
* `Options.ofJson`, `Options.toValue` -- options as a document.
-/

namespace Lowering

open Json

/-- The options of a lowering. -/
structure Options where
  /-- The method that becomes the main function of the unit. -/
  entryPoint : String := "Main"
  /-- The native method that becomes a formatted print of one text. -/
  printPrimitive : String := "Print"
  /-- The attribute that selects the inline representation of a type. -/
  markerAttribute : String := "C"
  /-- The lines at the top of the unit. -/
  headers : List String :=
    ["#include <stdio.h>", "#include \"raylib.h\"", "#include \"raymath.h\"",
      "#define RLIGHTS_IMPLEMENTATION", "#include \"rlights.h\"", "#include <stdlib.h>"]
deriving DecidableEq, Repr

namespace Options

/-- The name of the type that defines the marker attribute. That type is never lowered. -/
def markerDefinition (o : Options) : String := o.markerAttribute ++ "Attribute"

/-- The members of written options. -/
def members (o : Options) : List (String × Value) :=
  [("entry_point", .str o.entryPoint), ("print_primitive", .str o.printPrimitive),
    ("marker_attribute", .str o.markerAttribute), ("headers", .list .str o.headers)]

/-- The written form of options. -/
def toValue (o : Options) : Value := .obj o.members

/-- Reads options. What is absent keeps its default. -/
def reader : Reader Options :=
  recordOf
    (fun room => [
      Reader.field "entry_point" .text Reader.text (some ({} : Options).entryPoint) room,
      Reader.field "print_primitive" .text Reader.text (some ({} : Options).printPrimitive) room,
      Reader.field "marker_attribute" .text Reader.text (some ({} : Options).markerAttribute) room,
      Reader.field "headers" .texts (Reader.list Reader.text) (some ({} : Options).headers) room])
    fun
    | [.text entryPoint, .text printPrimitive, .text markerAttribute, .texts headers] =>
      some ⟨entryPoint, printPrimitive, markerAttribute, headers⟩
    | _ => none

/-- The options of a text. -/
def ofJson (text : String) : Except Failure Options := (Document.scan text).readBy reader

end Options

end Lowering
