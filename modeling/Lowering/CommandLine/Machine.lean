import Lowering.CommandLine.Run

/-!
# Machines

Command lines run on a machine, which has a tree of files and directories and keeps a record of the
processes that are started. What an access to a file or a process does beyond that is left to a
`World`, which can be any: a file may be refused to a run, a directory may not be made, the writing
of a file may break off, and a process may leave any disk behind, or not start at all.

* `Node`, `Disk` -- files and directories, by their places;
* `Machine` -- a disk, a working directory, and what has happened;
* `World`, `World.host` -- how a world behaves, and what it offers to a run;
* `Tool`, `World.ofTools` -- a world whose compilers are stand-ins.
-/

namespace Lowering

/-! ## 1. The disk -/

/-- A program on the disk: what it writes, and how it ends. -/
structure Executable where
  stdout : String := ""
  stderr : String := ""
  status : Status := .exit 0
deriving DecidableEq, Repr

/-- What is at a place of the disk. -/
inductive Node where
  | directory
  | text (s : String)
  /-- A file whose contents are no text. -/
  | bytes
  | program (e : Executable)
deriving DecidableEq, Repr

/-- A file with the first bytes of a text, which may end within a character. -/
def Node.firstBytes (text : String) (count : Nat) : Node :=
  match String.fromUTF8? (text.toUTF8.extract 0 count) with
  | some s => .text s
  | none => .bytes

/-- A place: the names on the way from the root. -/
abbrev Place := List String

/-- The files and directories of a machine. The root is always there. -/
structure Disk where
  nodes : List (Place × Node) := []
deriving DecidableEq, Repr

namespace Disk

/-- What is at a place. -/
def at? (d : Disk) (place : Place) : Option Node :=
  if place.isEmpty then some .directory else d.nodes.lookup place

/-- The disk with something new at a place. -/
def put (d : Disk) (place : Place) (node : Node) : Disk :=
  { nodes := (place, node) :: d.nodes.filter (·.1 != place) }

/-- Checks that a place is a directory. -/
def checkDirectory (d : Disk) (place : Place) : Except FileError Unit :=
  match d.at? place with
  | some .directory => .ok ()
  | some _ => .error .notDirectory
  | none => .error .notFound

/-- Checks that a name has no more bytes than a directory can hold. -/
def checkName (name : String) : Except FileError Unit :=
  if name.utf8ByteSize ≤ 255 then .ok () else .error .nameTooLong

/-- Goes from a directory along names. Every name but the last has to lead to a directory. -/
def walk (d : Disk) (place : Place) : List String → Except FileError Place
  | [] => .ok place
  | name :: rest => do
    d.checkDirectory place
    checkName name
    if name = ".." then walk d place.dropLast rest else walk d (place ++ [name]) rest

/-- The most bytes that a path may have. -/
def pathLimit : Nat := 4095

/-- The place of a path, seen from a directory. -/
def locate (d : Disk) (here : Place) (path : String) : Except FileError Place :=
  if path.isEmpty then .error .notFound
  else if pathLimit < path.utf8ByteSize then .error .nameTooLong
  else do
    let place ← d.walk (if Path.isAbsolute path then [] else here) (Path.names path)
    if Path.namesDirectory path then
      d.checkDirectory place
      return place
    else return place

/-- The text of the file at a path. -/
def readText (d : Disk) (here : Place) (path : String) : Except FileError String := do
  let place ← d.locate here path
  match d.at? place with
  | some (.text s) => .ok s
  | some .directory => .error .isDirectory
  | some _ => .error .notText
  | none => .error .notFound

/-- The place where a file with a path is, or can be made. -/
def filePlace (d : Disk) (here : Place) (path : String) : Except FileError Place := do
  if Path.namesDirectory path then .error .isDirectory
  else
    let place ← d.locate here path
    match d.at? place with
    | some .directory => .error .isDirectory
    | _ => return place

/-- Goes from a directory along names and makes directories where nothing is, unless they are
refused. What was made before a failure stays. -/
def makeAlong (refused : Disk → Place → Option FileError) (d : Disk) (place : Place) :
    List String → Disk × Except FileError Unit
  | [] => (d, d.checkDirectory place)
  | name :: rest =>
    if name = ".." then makeAlong refused d place.dropLast rest
    else
      let next := place ++ [name]
      match d.at? next with
      | some .directory => makeAlong refused d next rest
      | some _ => (d, .error .notDirectory)
      | none =>
        match checkName name, refused d next with
        | .error e, _ => (d, .error e)
        | .ok (), some e => (d, .error e)
        | .ok (), none => makeAlong refused (d.put next .directory) next rest

/-- Makes the directory of a path, with all that lead to it. None is made if the path of the
directory is too long. -/
def makeDirectory (refused : Disk → Place → Option FileError) (d : Disk) (here : Place)
    (path : String) : Disk × Except FileError Unit :=
  if pathLimit < (Path.directory path).utf8ByteSize then (d, .error .nameTooLong)
  else d.makeAlong refused (if Path.isAbsolute path then [] else here) (Path.parentNames path)

end Disk

/-! ## 2. Machines and worlds -/

/-- A process that was started, with the disk as it found it. -/
structure Started where
  command : String
  args : List String
  disk : Disk
deriving DecidableEq, Repr

/-- A machine. -/
structure Machine where
  disk : Disk := {}
  /-- The working directory. -/
  here : Place := []
  stdout : String := ""
  stderr : String := ""
  /-- The processes that were started, the latest first. -/
  started : List Started := []
deriving DecidableEq, Repr

/-- The machine behind a process, which has left a disk. -/
def Machine.behind (m : Machine) (command : String) (args : List String) (left : Disk) : Machine :=
  { m with disk := left, started := ⟨command, args, m.disk⟩ :: m.started }

/-- What keeps a text from being written to a file. -/
inductive Obstacle where
  /-- The file cannot be opened, and stays as it is. -/
  | unopened (e : FileError)
  /-- The file is opened, which empties it, and then takes only so many bytes. -/
  | brokenOff (count : Nat) (e : FileError)
deriving DecidableEq, Repr

-- The processes of a run differ in their arguments. So a function of command and arguments can
-- give each of them a behaviour of its own.
/-- **How the world around a machine behaves** where the disk alone does not decide. -/
structure World where
  /-- Why the file at a path is not read. -/
  unreadable : Disk → String → Option FileError := fun _ _ => none
  /-- Why no directory is made at a place. -/
  unmakable : Disk → Place → Option FileError := fun _ _ => none
  /-- What keeps a text from being written to the file at a path. -/
  unwritable : Disk → String → String → Option Obstacle := fun _ _ _ => none
  /-- What becomes of a command that is started with arguments in a working directory: it does not
  start, or leaves a disk and ends. -/
  start : Place → Disk → String → List String → Except FileError (Disk × Finished)

namespace World

variable (w : World)

/-- Reads a text. -/
def readText (m : Machine) (path : String) : Except FileError String :=
  match w.unreadable m.disk path with
  | some e => .error e
  | none => m.disk.readText m.here path

/-- Writes a text. A file that is opened is empty before anything is written to it, so what it held
is lost even if the writing breaks off. -/
def writeText (d : Disk) (here : Place) (path text : String) : Disk × Except FileError Unit :=
  match d.filePlace here path with
  | .error e => (d, .error e)
  | .ok place =>
    match w.unwritable d path text with
    | some (.unopened e) => (d, .error e)
    | some (.brokenOff count e) => (d.put place (.firstBytes text count), .error e)
    | none => (d.put place (.text text), .ok ())

/-- What a world offers to a run on a machine. -/
def host : Host (StateM Machine) where
  readText path := do
    let m ← get
    return w.readText m path
  makeDirectory path := do
    let m ← get
    let (disk, result) := m.disk.makeDirectory w.unmakable m.here path
    set { m with disk }
    return result
  writeText path text := do
    let m ← get
    let (disk, result) := w.writeText m.disk m.here path text
    set { m with disk }
    return result
  print s := modify fun m => { m with stdout := m.stdout ++ s }
  start command args := do
    let m ← get
    match w.start m.here m.disk command args with
    | .error e => return .error e
    | .ok (left, done) =>
      set (m.behind command args left)
      return .ok done
  launch path := do
    let m ← get
    match w.start m.here m.disk path [] with
    | .error e => return .error e
    | .ok (left, done) =>
      let m := m.behind path [] left
      set { m with stdout := m.stdout ++ done.stdout, stderr := m.stderr ++ done.stderr }
      return .ok done.status

/-- Executes a command line on a machine. -/
def execute (m : Machine) (args : List String) : Ended × Machine :=
  (Lowering.execute w.host args).run m

end World

/-! ## 3. Stand-ins for compilers -/

/-- A command that stands in for a compiler. It may write its arguments, one a line, then writes its
texts, and may leave a program at the path that is its third argument. -/
structure Tool where
  echo : Bool := false
  stdout : String := ""
  stderr : String := ""
  product : Option Executable := none
  status : Status := .exit 0
deriving DecidableEq, Repr

namespace Tool

/-- What a tool writes to its standard output. -/
def output (t : Tool) (args : List String) : String :=
  (if t.echo then String.join (args.map (· ++ "\n")) else "") ++ t.stdout

/-- The disk that a tool leaves. A program that cannot be written is left out. -/
def leave (t : Tool) (here : Place) (d : Disk) (args : List String) : Disk :=
  match t.product, args[2]? with
  | some e, some path =>
    match d.filePlace here path with
    | .ok place => d.put place (.program e)
    | .error _ => d
  | _, _ => d

/-- What a tool does when it is started with arguments. Asked for its version it fails, and writes
nothing. -/
def use (t : Tool) (here : Place) (d : Disk) (args : List String) : Disk × Finished :=
  if args.head? = some "--version" then (d, { status := .exit 1 })
  else (t.leave here d args, { status := t.status, stdout := t.output args, stderr := t.stderr })

end Tool

/-- The most bytes that one argument of a process may have. -/
def argumentLimit : Nat := 131071

/-- The program at a path. A directory is found, but cannot be started. -/
def Disk.program (d : Disk) (here : Place) (path : String) : Except FileError Executable := do
  let place ← d.locate here path
  match d.at? place with
  | some (.program e) => .ok e
  | some _ => .error .permissionDenied
  | none => .error .notFound

/-- The world that has some tools, and refuses nothing. A command without a slash is looked for
among the tools only, where no program is ever put. -/
def World.ofTools (tools : List (String × Tool)) : World where
  start here d command args :=
    if command.toList.contains '/' then do
      let e ← d.program here command
      return (d, { status := e.status, stdout := e.stdout, stderr := e.stderr })
    else if Path.namesDirectory command then .error .permissionDenied
    else match tools.lookup command with
      | some t =>
        if args.any (argumentLimit < ·.utf8ByteSize) then .error .argumentsTooLong
        else .ok (t.use here d args)
      | none => do
        Disk.checkName command
        .error .notFound

end Lowering
