import Lowering.Decimal

/-!
# The native toolchain

How a unit is handed to a compiler of the platform.

* `Compiler` -- the compilers that are known;
* `BuildPlan` -- what a build is told, with the steps that change it;
* `BuildPlan.arguments` -- the arguments of the compiler.
-/

namespace Lowering

/-- The compilers that are known. -/
inductive Compiler where
  | gcc
  | clang
deriving DecidableEq, Repr

namespace Compiler

/-- The command of a compiler. -/
def command : Compiler → String
  | .gcc => "gcc"
  | .clang => "clang"

/-- The compiler with a command. -/
def ofCommand? (s : String) : Option Compiler :=
  if s = "gcc" then some .gcc
  else if s = "clang" then some .clang
  else none

/-- The wording for a command that is no known compiler. -/
def unknownMessage (s : String) : String :=
  "unknown C compiler '" ++ s ++ "' (expected gcc or clang)"

end Compiler

/-- What a build is told. -/
structure BuildPlan where
  compiler : Compiler := .gcc
  optimization : UInt8 := 0
  debugInfo : Bool := false
  extraFlags : List String := []
  includeDirs : List String := []
  libraryDirs : List String := []
  /-- The libraries, in the order in which they are linked. -/
  libraries : List String := ["raylib", "m"]
deriving DecidableEq, Repr

namespace BuildPlan

/-- Chooses the compiler. -/
def withCompiler (p : BuildPlan) (c : Compiler) : BuildPlan := { p with compiler := c }

/-- Chooses the level of optimisation. Levels above three count as three. -/
def withOptimization (p : BuildPlan) (level : UInt8) : BuildPlan :=
  { p with optimization := min level 3 }

/-- Asks for debug information, or not. -/
def withDebugInfo (p : BuildPlan) (on : Bool) : BuildPlan := { p with debugInfo := on }

/-- Adds a flag that is handed on as it is. -/
def addFlag (p : BuildPlan) (flag : String) : BuildPlan :=
  { p with extraFlags := p.extraFlags ++ [flag] }

/-- Adds a directory of headers. -/
def addIncludeDir (p : BuildPlan) (dir : String) : BuildPlan :=
  { p with includeDirs := p.includeDirs ++ [dir] }

/-- Adds a directory of libraries. -/
def addLibraryDir (p : BuildPlan) (dir : String) : BuildPlan :=
  { p with libraryDirs := p.libraryDirs ++ [dir] }

/-- Replaces the libraries. -/
def withLibraries (p : BuildPlan) (libraries : List String) : BuildPlan := { p with libraries }

/-- The arguments that compile a source to an executable. Libraries come last, behind the source
that needs them. -/
def arguments (p : BuildPlan) (source output : String) : List String :=
  [source, "-o", output] ++
    (if 0 < p.optimization then ["-O" ++ decimal p.optimization.toNat] else []) ++
    (if p.debugInfo then ["-g"] else []) ++
    p.includeDirs.flatMap (fun dir => ["-I", dir]) ++
    p.libraryDirs.flatMap (fun dir => ["-L", dir]) ++
    p.extraFlags ++
    p.libraries.map (fun lib => "-l" ++ lib)

end BuildPlan

end Lowering
