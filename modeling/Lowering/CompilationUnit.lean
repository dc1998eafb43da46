import Lowering.Metrics
import Lowering.Statement

/-!
# Compilation units

A unit has the header lines, then for every lowered type its definition, then for every lowered type
that is not static its allocator, then the functions. Each of the three passes goes through the
declarations in their order.

* `Job`, `Pass` -- a draft with its metrics, and actions on them;
* `defineTypes`, `defineAllocators`, `defineFunctions` -- the passes;
* `Generator`, `Generator.generate` -- writes the unit, as often as asked; names are kept.
-/

namespace Lowering

/-- A draft, and what was counted while it was written. -/
structure Job extends Draft where
  metrics : Metrics := {}
deriving DecidableEq, Repr

/-- An action on a job. -/
abbrev Pass (α : Type) := Act Job α

/-- Works on the draft. -/
def onDraft {α : Type} (act : Drafting α) : Pass α :=
  focus Job.toDraft (fun d j => { j with toDraft := d }) act

/-- Counts a declaration. -/
def countDeclaration : Pass Unit :=
  modify fun j => { j with metrics := j.metrics.recordDeclaration }

/-- Goes through declarations with their positions. -/
def eachFrom {α : Type} (act : Nat → α → Pass Unit) : Nat → List α → Pass Unit
  | _, [] => return ()
  | i, a :: rest => do
    act i a
    eachFrom act (i + 1) rest

/-- Whether a type becomes a structure of the unit: no enumeration, not held by value, and not the
definition of the marker attribute. -/
def Context.lowers (c : Context) (t : TypeDecl) : Bool :=
  t.kind != .enumType && t.representation c.options.markerAttribute == .reference &&
    t.name != c.options.markerDefinition

/-- Writes the definition of a type. -/
def defineType (c : Context) (i : Nat) (t : TypeDecl) : Pass Unit :=
  if c.lowers t then do
    countDeclaration
    onDraft do
      let name ← onNames (typeName c.program i)
      writeLine ("typedef struct " ++ name ++ " \x7b")
      onPage (·.indent)
      t.fields.forM fun f => writeLine (f.typeText ++ " " ++ f.name ++ ";")
      onPage (·.outdent)
      writeLine ("\x7d " ++ name ++ ";")
      onPage (·.blank)
  else return ()

/-- Writes the definitions of types. -/
def defineTypes (c : Context) : Pass Unit := eachFrom (defineType c) 0 c.program.types

/-- Writes the allocator of a type. A type with user constructors has none. -/
def defineAllocator (c : Context) (i : Nat) (t : TypeDecl) : Pass Unit :=
  if c.lowers t && !t.isStatic then do
    countDeclaration
    onDraft do
      if (c.program.constructorsOf i).isEmpty then
        let type ← onNames (typeName c.program i)
        let name ← onNames (allocatorName c.program i)
        writeLine (type ++ "* " ++ name ++ "()")
        onPage (·.openBlock)
        writeLine ("return (" ++ type ++ "*)calloc(1, sizeof(" ++ type ++ "));")
        onPage (·.closeBlock)
        onPage (·.blank)
      else
        unsupported "ConstructorDeclaration"
          ("user constructors on " ++ quoted t.name ++ " are not lowered")
  else return ()

/-- Writes the allocators of types. -/
def defineAllocators (c : Context) : Pass Unit := eachFrom (defineAllocator c) 0 c.program.types

/-- The body of a method that has to have one. -/
def bodyOf (m : MethodDecl) : Drafting (List Stmt) :=
  match m.body with
  | some body => return body
  | none => refuse (.broken (.bodiless m.name))

/-- Writes the main function. -/
def defineMain (c : Context) (m : MethodDecl) : Drafting Unit := do
  let body ← bodyOf m
  writeLine "int main()"
  lowerBlock c none body
  onPage (·.blank)

/-- The parameters of the function of a method. The first is the current object. -/
def parameterList (owner : String) (params : List Param) : String :=
  commaList ((owner ++ " *this") :: params.map fun p => p.typeText ++ " " ++ p.name)

/-- Writes the function of a method. -/
def defineMethod (c : Context) (i : Nat) (m : MethodDecl) : Drafting Unit :=
  match m.owner with
  | none => refuse (.broken (.ownerless m.name))
  | some owner => do
    let body ← bodyOf m
    let name ← onNames (methodName c.program i)
    let ownerName ← onNames (typeName c.program owner.position)
    writeLine (m.returnType ++ " " ++ name ++ "(" ++ parameterList ownerName m.params ++ ")")
    lowerBlock c (some owner) body
    onPage (·.blank)

/-- Writes the function of a method, if it has one: the entry point becomes the main function, other
native and static methods are left out. -/
def defineFunction (c : Context) (i : Nat) (m : MethodDecl) : Pass Unit := do
  countDeclaration
  if m.name = c.options.entryPoint then onDraft (defineMain c m)
  else if m.isNative || m.isStatic then return ()
  else onDraft (defineMethod c i m)

/-- Writes the functions of methods. -/
def defineFunctions (c : Context) : Pass Unit := eachFrom (defineFunction c) 0 c.program.methods

/-- Writes the whole unit. -/
def defineUnit (c : Context) : Pass Unit := do
  onDraft (c.options.headers.forM fun h => writeLine h)
  onDraft (onPage (·.blank))
  defineTypes c
  defineAllocators c
  defineFunctions c

/-- Writes units of one program. Names and counters are kept from unit to unit. -/
structure Generator where
  context : Context
  names : NameTable := {}
  metrics : Metrics := {}

namespace Generator

/-- A generator for a program whose owners are all declared. -/
def ofProgram (program : Program) (options : Options) : Except Refusal Generator :=
  (Context.ofProgram program options).map fun context => { context }

/-- Writes the unit on an empty page. Lines are counted only if the whole unit was written. -/
def generate (g : Generator) : Except Refusal String × Generator :=
  match defineUnit g.context { names := g.names, metrics := g.metrics } with
  | .ok () job =>
    let lines := UInt64.ofNat (lineCount job.page.text)
    (.ok job.page.text, { g with names := job.names, metrics := job.metrics.recordLines lines })
  | .error r job => (.error r, { g with names := job.names, metrics := job.metrics })

end Generator

end Lowering
