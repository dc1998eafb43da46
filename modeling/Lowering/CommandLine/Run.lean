import Lowering.CommandLine.Arguments
import Lowering.CommandLine.Path
import Lowering.CompilationUnit

/-!
# Running the command line

A run reads the options and the program, writes the unit, and, if asked, builds and starts the
program. Everything that can fail without touching anything comes before the first change to the
disk. What a run needs from its surroundings is a `Host`; what it does with it is the same for every
host.

* `FileError`, `Status`, `Host` -- the surroundings of a run;
* `RunError` -- why a run fails, with its wording;
* `produce` -- the unit of an invocation;
* `run`, `execute` -- a run, and a whole command line with its exit code.
-/

namespace Lowering

open Json

/-! ## 1. The surroundings -/

/-- Why a file or a program cannot be used. -/
inductive FileError where
  | notFound
  | permissionDenied
  | notDirectory
  | isDirectory
  | nameTooLong
  | argumentsTooLong
  /-- The contents are no text. -/
  | notText
  /-- Another reason, in words. -/
  | other (reason : String)
deriving DecidableEq, Repr

/-- The wording of a file error. -/
def FileError.message : FileError → String
  | .notFound => "No such file or directory (os error 2)"
  | .permissionDenied => "Permission denied (os error 13)"
  | .notDirectory => "Not a directory (os error 20)"
  | .isDirectory => "Is a directory (os error 21)"
  | .nameTooLong => "File name too long (os error 36)"
  | .argumentsTooLong => "Argument list too long (os error 7)"
  | .notText => "stream did not contain valid UTF-8"
  | .other reason => reason

/-- How a process ended. -/
inductive Status where
  | exit (code : Nat)
  | signal (number : Nat)
deriving DecidableEq, Repr

namespace Status

/-- Whether a process ended well. -/
def isSuccess : Status → Bool
  | .exit 0 => true
  | _ => false

/-- The names of signals, from the first on. -/
def signalNames : List String :=
  ["SIGHUP", "SIGINT", "SIGQUIT", "SIGILL", "SIGTRAP", "SIGABRT", "SIGBUS", "SIGFPE", "SIGKILL",
    "SIGUSR1", "SIGSEGV", "SIGUSR2", "SIGPIPE", "SIGALRM", "SIGTERM", "SIGSTKFLT", "SIGCHLD",
    "SIGCONT", "SIGSTOP", "SIGTSTP", "SIGTTIN", "SIGTTOU", "SIGURG", "SIGXCPU", "SIGXFSZ",
    "SIGVTALRM", "SIGPROF", "SIGWINCH", "SIGIO", "SIGPWR", "SIGSYS"]

/-- The wording of a status. -/
def message : Status → String
  | .exit code => "exit status: " ++ decimal code
  | .signal number =>
    let name := if number = 0 then none else signalNames[number - 1]?
    "signal: " ++ decimal number ++ (name.map fun n => " (" ++ n ++ ")").getD ""

end Status

/-- A process that has ended, with what it wrote. -/
structure Finished where
  status : Status
  stdout : String := ""
  stderr : String := ""
deriving DecidableEq, Repr

/-- What a run needs from its surroundings. -/
structure Host (m : Type → Type) where
  /-- The text of a file. -/
  readText : String → m (Except FileError String)
  /-- Makes the directory of a path exist, with all that lead to it. -/
  makeDirectory : String → m (Except FileError Unit)
  /-- Makes a file hold a text. A failure may leave the file with a part of it. -/
  writeText : String → String → m (Except FileError Unit)
  /-- Writes to the standard output. -/
  print : String → m Unit
  /-- Starts a command with arguments, waits for it, and keeps what it writes. -/
  start : String → List String → m (Except FileError Finished)
  /-- Starts a program that writes to the output of the run, and waits for it. -/
  launch : String → m (Except FileError Status)

/-! ## 2. Errors -/

/-- Why a run fails. -/
inductive RunError where
  | file (e : FileError)
  | document (e : Failure)
  | refused (r : Refusal)
  | toolchain (reason : String)
deriving DecidableEq, Repr

/-- The wording of a document's failure. -/
def documentMessage (e : Failure) : String :=
  match e with
  | .fault .malformed => "malformed document"
  | .fault .truncated => "unexpected end of the document"
  | .mismatch m => m.message?.getD "unexpected kind of value"

/-- The wording of an error. -/
def RunError.message : RunError → String
  | .file e => "IO error: " ++ e.message
  | .document e => "JSON error: " ++ documentMessage e
  | .refused r => r.message
  | .toolchain reason => "toolchain error: " ++ reason

/-- Takes a result. A failure becomes an error of the run. -/
def orFail {m : Type → Type} [Monad m] {ε α : Type} (error : ε → RunError) :
    Except ε α → ExceptT RunError m α
  | .ok a => pure a
  | .error e => throw (error e)

/-! ## 3. The run -/

/-- The unit of an invocation, and what was counted while it was written. -/
structure Product where
  code : String
  metrics : Metrics

/-- The unit of a program's text. -/
def compile (options : Options) (text : String) : Except RunError Product :=
  match Program.ofJson text with
  | .error e => .error (.document e)
  | .ok program =>
    match Generator.ofProgram program options with
    | .error r => .error (.refused r)
    | .ok generator =>
      match generator.generate with
      | (.ok code, generator) => .ok { code, metrics := generator.metrics }
      | (.error r, _) => .error (.refused r)

section Run

variable {m : Type → Type} [Monad m] (h : Host m)

/-- Reads options. Without a file they are the defaults. -/
def readOptions : Option String → ExceptT RunError m Options
  | none => return {}
  | some path => do
    let text ← orFail .file (← h.readText path)
    orFail .document (Options.ofJson text)

/-- The unit that an invocation asks for. Nothing is changed yet. -/
def produce (i : Invocation) : ExceptT RunError m Product := do
  let options ← readOptions h i.config
  let text ← orFail .file (← h.readText i.input)
  orFail id (compile options text)

/-- Makes the directory of a path exist. -/
def prepareDirectory (path : String) : ExceptT RunError m Unit := do
  if (Path.parentNames path).isEmpty then return ()
  else orFail .file (← h.makeDirectory path)

/-- The line that tells what was written. -/
def summary (path : String) (metrics : Metrics) : String :=
  "wrote " ++ path ++ " (" ++ decimal metrics.lines.toNat ++ " lines, " ++
    decimal metrics.declarations.toNat ++ " declarations)\n"

/-- Compiles a source to an executable. The compiler is there if it can be asked for its version,
whatever it answers. -/
def build (plan : BuildPlan) (source executable : String) : ExceptT RunError m Unit := do
  let command := plan.compiler.command
  match ← h.start command ["--version"] with
  | .error _ => throw (.toolchain (command ++ " not found in PATH"))
  | .ok _ =>
    prepareDirectory h executable
    match ← h.start command (plan.arguments source executable) with
    | .error e => throw (.toolchain ("failed to execute compiler: " ++ e.message))
    | .ok done =>
      if done.status.isSuccess then return ()
      else throw (.toolchain (command ++ " compilation failed\nStdout: " ++ done.stdout ++
        "\nStderr: " ++ done.stderr))

/-- Starts a program and waits for it. -/
def launchProgram (path : String) : ExceptT RunError m Unit := do
  match ← h.launch path with
  | .error e => throw (.toolchain ("failed to start " ++ path ++ ": " ++ e.message))
  | .ok status =>
    if status.isSuccess then return ()
    else throw (.toolchain (path ++ " exited with " ++ status.message))

/-- Runs an invocation. -/
def run (i : Invocation) : ExceptT RunError m Unit := do
  let product ← produce h i
  prepareDirectory h i.output
  orFail .file (← h.writeText i.output product.code)
  if i.verbose then h.print (summary i.output product.metrics)
  if i.build || i.run then
    let executable := Path.executable i.output
    build h i.plan i.output executable
    if i.run then launchProgram h executable

end Run

/-! ## 4. The command line -/

/-- The line that tells the version. -/
def versionText : String := "lowc 0.1.0\n"

/-- The text that explains the arguments. -/
def helpText : String :=
  "Lower a bound program to C\n\n" ++
  "Usage: lowc [OPTIONS] <INPUT>\n\n" ++
  "Arguments:\n" ++
  "  <INPUT>  Bound program written by the frontend\n\n" ++
  "Options:\n" ++
  "  -o, --output <OUTPUT>         Where to write the generated C source [default: c/main.c]\n" ++
  "      --config <CONFIG>         JSON file overriding code generation options\n" ++
  "      --build                   Compile the generated source\n" ++
  "      --run                     Compile, then run the program (implies --build)\n" ++
  "      --compiler <COMPILER>     C compiler used by --build [default: gcc]\n" ++
  "  -l, --lib <LIBS>              Library to link; replaces the default raylib and m when " ++
  "given\n" ++
  "  -I, --include <INCLUDE_DIRS>  Header search directory passed to the compiler\n" ++
  "  -L, --lib-dir <LIBRARY_DIRS>  Library search directory passed to the linker\n" ++
  "  -O, --opt-level <OPT_LEVEL>   Optimization level (0-3) [default: 0]\n" ++
  "  -g, --debug                   Emit debug information\n" ++
  "      --cflag <CFLAGS>          Extra flag handed to the compiler verbatim\n" ++
  "  -v, --verbose                 Log progress and print generation statistics\n" ++
  "  -h, --help                    Print help\n" ++
  "  -V, --version                 Print version\n"

/-- How a command line ended. -/
inductive Ended where
  | done
  /-- The arguments break a rule. -/
  | usage
  | failed (e : RunError)
deriving DecidableEq, Repr

/-- The exit code of a command line. -/
def Ended.exitCode : Ended → Nat
  | .done => 0
  | .failed _ => 1
  | .usage => 2

/-- The report of an error. -/
def RunError.report (e : RunError) : String := "error: " ++ e.message ++ "\n"

/-- Executes a whole command line. -/
def execute {m : Type → Type} [Monad m] (h : Host m) (args : List String) : m Ended :=
  match readArguments args with
  | .error .usage => return .usage
  | .error .help => do
    h.print helpText
    return .done
  | .error .version => do
    h.print versionText
    return .done
  | .ok i => do
    match ← (run h i).run with
    | .ok () => return .done
    | .error e => return .failed e

end Lowering
