import Lowering.Toolchain

/-!
# Arguments of the command line

Arguments are read from left to right. An option that takes a value finds it behind an equals sign,
directly behind its letter, or in the next argument; letters without values may stand together. The
first argument that breaks a rule ends the reading, as does a request for help or for the version.

* `Invocation` -- what the arguments ask for;
* `Switch` -- the options, with their spellings;
* `Reading`, `Reading.feed` -- the arguments so far, and one more;
* `readArguments` -- all arguments.
-/

namespace Lowering

/-! ## 1. Options -/

/-- What the arguments ask for. -/
structure Invocation where
  input : String
  output : String := "c/main.c"
  config : Option String := none
  build : Bool := false
  run : Bool := false
  compiler : Compiler := .gcc
  libraries : List String := []
  includeDirs : List String := []
  libraryDirs : List String := []
  optimization : UInt8 := 0
  debugInfo : Bool := false
  flags : List String := []
  verbose : Bool := false
deriving DecidableEq, Repr

/-- The options of the command line. -/
inductive Switch where
  | output
  | config
  | build
  | run
  | compiler
  | library
  | includeDir
  | libraryDir
  | optimization
  | debugInfo
  | flag
  | verbose
  | help
  | version
deriving DecidableEq, Repr

namespace Switch

/-- The option with a long spelling. -/
def ofLong? (name : String) : Option Switch :=
  match name with
  | "output" => some .output
  | "config" => some .config
  | "build" => some .build
  | "run" => some .run
  | "compiler" => some .compiler
  | "lib" => some .library
  | "include" => some .includeDir
  | "lib-dir" => some .libraryDir
  | "opt-level" => some .optimization
  | "debug" => some .debugInfo
  | "cflag" => some .flag
  | "verbose" => some .verbose
  | "help" => some .help
  | "version" => some .version
  | _ => none

/-- The option with a letter. -/
def ofLetter? (c : Char) : Option Switch :=
  match c with
  | 'o' => some .output
  | 'l' => some .library
  | 'I' => some .includeDir
  | 'L' => some .libraryDir
  | 'O' => some .optimization
  | 'g' => some .debugInfo
  | 'v' => some .verbose
  | 'h' => some .help
  | 'V' => some .version
  | _ => none

/-- Whether an option takes a value. -/
def takesValue : Switch → Bool
  | .build | .run | .debugInfo | .verbose | .help | .version => false
  | _ => true

/-- Whether an option may be given more than once. -/
def repeats : Switch → Bool
  | .library | .includeDir | .libraryDir | .flag => true
  | _ => false

end Switch

/-- Why the reading of arguments ends without an invocation. -/
inductive Halt where
  /-- A rule is broken. -/
  | usage
  | help
  | version
deriving DecidableEq, Repr

/-! ## 2. Values -/

/-- The level that a text names: a whole number from 0 to 255, with an optional sign. -/
def level? (s : String) : Option UInt8 :=
  let number (negative : Bool) (cs : List Char) : Option UInt8 :=
    if cs.isEmpty || cs.any (fun c => !c.isDigit) then none
    else
      let n := ofDigits (cs.reverse.filterMap digit?)
      if n = 0 then some 0
      else if negative then none
      else if n < 256 then some (UInt8.ofNat n)
      else none
  match s.toList with
  | '+' :: cs => number false cs
  | '-' :: cs => number true cs
  | cs => number false cs

/-- A path that is not empty. -/
def path? (s : String) : Option String := if s.isEmpty then none else some s

/-- The arguments so far. -/
structure Reading where
  input : Option String := none
  /-- The options that were given. -/
  seen : List Switch := []
  /-- What they ask for. -/
  wish : Invocation := { input := "" }
  /-- The option that waits for its value. -/
  pending : Option Switch := none
  /-- Whether options have ended. -/
  plain : Bool := false
deriving DecidableEq, Repr

namespace Reading

/-- Notes that an option was given. -/
def note (r : Reading) (s : Switch) : Except Halt Reading :=
  if r.seen.contains s && !s.repeats then .error .usage
  else .ok { r with seen := s :: r.seen }

/-- Gives an option that takes no value. -/
def switchOn (r : Reading) (s : Switch) : Except Halt Reading := do
  let r ← r.note s
  match s with
  | .build => return { r with wish := { r.wish with build := true } }
  | .run => return { r with wish := { r.wish with run := true } }
  | .debugInfo => return { r with wish := { r.wish with debugInfo := true } }
  | .verbose => return { r with wish := { r.wish with verbose := true } }
  | .help => .error .help
  | .version => .error .version
  | _ => .error .usage

/-- The invocation with the value of an option, if the value suits the option. -/
def assign? (w : Invocation) (s : Switch) (value : String) : Option Invocation :=
  match s with
  | .output => (path? value).map fun p => { w with output := p }
  | .config => (path? value).map fun p => { w with config := some p }
  | .compiler => (Compiler.ofCommand? value).map fun c => { w with compiler := c }
  | .library => some { w with libraries := w.libraries ++ [value] }
  | .includeDir => (path? value).map fun p => { w with includeDirs := w.includeDirs ++ [p] }
  | .libraryDir => (path? value).map fun p => { w with libraryDirs := w.libraryDirs ++ [p] }
  | .optimization => (level? value).map fun l => { w with optimization := l }
  | .flag => some { w with flags := w.flags ++ [value] }
  | _ => none

/-- Gives an option its value. -/
def store (r : Reading) (s : Switch) (value : String) : Except Halt Reading := do
  let r ← r.note s
  match assign? r.wish s value with
  | some w => return { r with wish := w, pending := none }
  | none => .error .usage

/-- Takes an argument that is no option. There is exactly one. -/
def storeInput (r : Reading) (value : String) : Except Halt Reading :=
  match r.input, path? value with
  | none, some p => .ok { r with input := some p }
  | _, _ => .error .usage

/-- A long option, with the value behind its equals sign. -/
def feedLong (r : Reading) (name : String) (value : Option String) : Except Halt Reading :=
  match Switch.ofLong? name, value with
  | none, _ => .error .usage
  | some s, some v => if s.takesValue then r.store s v else .error .usage
  | some s, none => if s.takesValue then .ok { r with pending := some s } else r.switchOn s

/-- Letters behind one dash. The first that takes a value takes all that follows it. -/
def feedLetters (r : Reading) : List Char → Except Halt Reading
  | [] => .ok r
  | c :: rest =>
    match Switch.ofLetter? c with
    | none => .error .usage
    | some s =>
      if s.takesValue then
        match rest with
        | [] => .ok { r with pending := some s }
        | '=' :: value => r.store s (String.ofList value)
        | value => r.store s (String.ofList value)
      else do
        let r ← r.switchOn s
        feedLetters r rest

/-- A name and what follows its equals sign. -/
def splitEquals (cs : List Char) : String × Option String :=
  match cs.dropWhile (· != '=') with
  | [] => (String.ofList cs, none)
  | _ :: value => (String.ofList (cs.takeWhile (· != '=')), some (String.ofList value))

/-- An argument where no value is waited for. -/
def feedFresh (r : Reading) (arg : String) : Except Halt Reading :=
  match arg.toList with
  | ['-', '-'] => .ok { r with plain := true }
  | '-' :: '-' :: long => let (name, value) := splitEquals long; r.feedLong name value
  | '-' :: c :: letters => r.feedLetters (c :: letters)
  | _ => r.storeInput arg

/-- One more argument. A value in an argument of its own must not look like an option, except for
flags that are handed on. -/
def feed (r : Reading) (arg : String) : Except Halt Reading :=
  if r.plain then r.storeInput arg
  else match r.pending with
    | none => r.feedFresh arg
    | some s =>
      if s = .flag then r.store s arg
      else match arg.toList with
        | '-' :: _ :: _ => .error .usage
        | _ => r.store s arg

/-- The invocation that the arguments ask for. -/
def finish (r : Reading) : Except Halt Invocation :=
  match r.pending, r.input with
  | none, some input => .ok { r.wish with input }
  | _, _ => .error .usage

end Reading

/-- The invocation that arguments ask for. -/
def readArguments (args : List String) : Except Halt Invocation := do
  let r ← args.foldlM Reading.feed {}
  r.finish

/-- The build that an invocation asks for. -/
def Invocation.plan (i : Invocation) : BuildPlan :=
  let base : BuildPlan := {}
  { base with
    compiler := i.compiler
    optimization := min i.optimization 3
    debugInfo := i.debugInfo
    includeDirs := i.includeDirs
    libraryDirs := i.libraryDirs
    extraFlags := i.flags
    libraries := if i.libraries.isEmpty then base.libraries else i.libraries }

end Lowering
