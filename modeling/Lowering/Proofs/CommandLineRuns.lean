import Lowering.Proofs.Disks

/-!
# Runs of the command line

What a run does to a machine, stage by stage, in any world. Up to the unit it only reads, so a run
that fails before it has a unit leaves the machine as it was. The unit is then written, and
everything that is started afterwards comes behind it.

* `Machine.carryOut` -- the actions of a run, with laws for putting them together;
* `World.Yields`, `World.FailsEarly`, `World.Saved` -- the unit, what keeps a run from having one,
  and the disk on which it was written;
* `World.Builds`, `World.Launches`, `World.FollowsUp` -- all that a build, the start of a program
  and the two of them together can do;
* `World.VersionKeepsDisk` -- what has to be known of a compiler that is asked for its version;
* `World.BuildTrace` -- the processes of a build;
* `run_writes_all_or_nothing` -- the machine after any run.
-/

namespace Lowering

/-! ## 1. Actions of a run -/

namespace Machine

variable {m m' : Machine} {α β : Type} {act : ExceptT RunError (StateM Machine) α}
  {next : α → ExceptT RunError (StateM Machine) β}

/-- Carries out an action of a run. -/
def carryOut (m : Machine) (act : ExceptT RunError (StateM Machine) α) :
    Except RunError α × Machine :=
  act.run.run m

theorem carryOut_bind_ok {a : α} (h : m.carryOut act = (.ok a, m')) :
    m.carryOut (act >>= next) = m'.carryOut (next a) := by
  unfold carryOut at h ⊢
  rw [ExceptT.run_bind, StateT.run_bind, h]
  rfl

theorem carryOut_bind_error {e : RunError} (h : m.carryOut act = (.error e, m')) :
    m.carryOut (act >>= next) = (.error e, m') := by
  unfold carryOut at h ⊢
  rw [ExceptT.run_bind, StateT.run_bind, h]
  rfl

theorem carryOut_ask {γ : Type} (ask : StateM Machine γ)
    {next : γ → ExceptT RunError (StateM Machine) β} :
    m.carryOut (liftM ask >>= next) = (ask.run m).2.carryOut (next (ask.run m).1) := rfl

theorem carryOut_orFail {ε : Type} (error : ε → RunError) (x : Except ε α) :
    m.carryOut (orFail error x) = (x.mapError error, m) := by
  cases x with
  | ok a => rfl
  | error e => rfl

/-- The machine with a unit written, and told about if that was asked for. -/
def withUnit (m : Machine) (i : Invocation) (product : Product) (saved : Disk) : Machine :=
  { m with
    disk := saved
    stdout := if i.verbose then m.stdout ++ summary i.output product.metrics else m.stdout }

/-- The machine behind a program that has left a disk, and has written. -/
def launched (m : Machine) (path : String) (left : Disk) (done : Finished) : Machine :=
  { m.behind path [] left with
    stdout := m.stdout ++ done.stdout
    stderr := m.stderr ++ done.stderr }

end Machine

/-- How a command line ends with the result of its run. -/
def Ended.ofRun : Except RunError Unit → Ended
  | .ok () => .done
  | .error e => .failed e

theorem Ended.ofRun_eq_done {result : Except RunError Unit} (h : Ended.ofRun result = .done) :
    result = .ok () := by
  cases result with
  | ok u => rfl
  | error e => cases h

/-- How many processes a run starts if nothing fails. -/
def Invocation.processes (i : Invocation) : Nat := if i.run then 3 else if i.build then 2 else 0

/-- **What is left of a disk where a text could not be written**: nothing is lost, or nothing but
the file, which then holds the beginning of the text. -/
def Disk.LosesAtMostFile (d' d : Disk) (here : Place) (path text : String) : Prop :=
  d'.Keeps d ∨ ∃ q count, d'.locate here path = .ok q ∧
    d'.at? q = some (.firstBytes text count) ∧ d'.KeepsBut d q

theorem Disk.LosesAtMostFile.of_keeps {d d₁ d' : Disk} {here : Place} {path text : String}
    (hd : d₁.Keeps d) (h : d'.LosesAtMostFile d₁ here path text) :
    d'.LosesAtMostFile d here path text := by
  rcases h with h | ⟨q, count, hl, hq, hkept⟩
  · exact .inl (h.trans hd)
  · exact .inr ⟨q, count, hl, hq, fun he => hkept.file (hd q _ he),
      fun p node hne hp => hkept.others p node hne (hd p node hp)⟩

namespace World

variable {w : World} {m m' : Machine} {β : Type} {path text command : String} {args : List String}

theorem host_writeText {disk : Disk} {result : Except FileError Unit}
    (h : w.writeText m.disk m.here path text = (disk, result)) :
    (w.host.writeText path text).run m = (result, { m with disk }) := by
  simp only [host, StateT.run_bind, StateT.run_get, pure_bind, h]
  rfl

theorem host_start_error {e : FileError} (h : w.start m.here m.disk command args = .error e) :
    (w.host.start command args).run m = (.error e, m) := by
  simp only [host, StateT.run_bind, StateT.run_get, pure_bind, h]
  rfl

theorem host_start_ok {left : Disk} {done : Finished}
    (h : w.start m.here m.disk command args = .ok (left, done)) :
    (w.host.start command args).run m = (.ok done, m.behind command args left) := by
  simp only [host, StateT.run_bind, StateT.run_get, pure_bind, h]
  rfl

theorem host_launch_error {e : FileError} (h : w.start m.here m.disk path [] = .error e) :
    (w.host.launch path).run m = (.error e, m) := by
  simp only [host, StateT.run_bind, StateT.run_get, pure_bind, h]
  rfl

theorem host_launch_ok {left : Disk} {done : Finished}
    (h : w.start m.here m.disk path [] = .ok (left, done)) :
    (w.host.launch path).run m = (.ok done.status, m.launched path left done) := by
  simp only [host, StateT.run_bind, StateT.run_get, pure_bind, h]
  rfl

/-- The disk on which the directory of a path was made, and whether it is there now. -/
def prepare (w : World) (d : Disk) (here : Place) (path : String) :
    Disk × Except FileError Unit :=
  if (Path.parentNames path).isEmpty then (d, .ok ())
  else d.makeDirectory w.unmakable here path

theorem prepare_keeps (w : World) (d : Disk) (here : Place) (path : String) :
    (w.prepare d here path).1.Keeps d := by
  unfold prepare
  split
  · exact .refl d
  · exact d.makeDirectory_keeps _ here path

/-- Where the directory of a path was made, making it again changes nothing. -/
theorem prepare_again {d d' : Disk} {here : Place} (h : (w.prepare d here path).2 = .ok ())
    (hd : d'.HasDirectoriesOf (w.prepare d here path).1) :
    w.prepare d' here path = (d', .ok ()) := by
  unfold prepare at h hd ⊢
  by_cases hempty : (Path.parentNames path).isEmpty = true
  · rw [if_pos hempty]
  · rw [if_neg hempty] at h hd ⊢
    exact Disk.makeDirectory_again h hd

theorem carryOut_prepareDirectory (w : World) (m : Machine) (path : String) :
    m.carryOut (prepareDirectory w.host path) =
      ((w.prepare m.disk m.here path).2.mapError .file,
        { m with disk := (w.prepare m.disk m.here path).1 }) := by
  unfold prepareDirectory prepare
  split
  · rfl
  · rw [Machine.carryOut_ask, Machine.carryOut_orFail]
    rfl

/-- Reads a file and goes on with its text. -/
theorem carryOut_read_ok {text : String} {next : String → ExceptT RunError (StateM Machine) β}
    (h : w.readText m path = .ok text) :
    m.carryOut (liftM (w.host.readText path) >>= fun r => orFail .file r >>= next) =
      m.carryOut (next text) := by
  have hread : (w.host.readText path).run m = (.ok text, m) := congrArg (Prod.mk · m) h
  rw [Machine.carryOut_ask, hread]
  exact Machine.carryOut_bind_ok (Machine.carryOut_orFail _ _)

theorem carryOut_read_error {e : FileError} {next : String → ExceptT RunError (StateM Machine) β}
    (h : w.readText m path = .error e) :
    m.carryOut (liftM (w.host.readText path) >>= fun r => orFail .file r >>= next) =
      (.error (.file e), m) := by
  have hread : (w.host.readText path).run m = (.error e, m) := congrArg (Prod.mk · m) h
  rw [Machine.carryOut_ask, hread]
  exact Machine.carryOut_bind_error (Machine.carryOut_orFail _ _)

/-! ## 2. The unit of an invocation -/

/-- The options that a run works with. -/
inductive TakesOptions (w : World) (m : Machine) : Option String → Options → Prop where
  | defaults : TakesOptions w m none {}
  | file {path text : String} {options : Options} (hread : w.readText m path = .ok text)
      (hdecode : Options.ofJson text = .ok options) : TakesOptions w m (some path) options

/-- **A run has a unit**: the options and the program are read and decoded, the owners of the
program are declared, and the program is lowered. -/
inductive Yields (w : World) (m : Machine) (i : Invocation) : Product → Prop where
  | intro {options : Options} {text code : String} {program : Program} {g : Generator}
      (hoptions : w.TakesOptions m i.config options) (hread : w.readText m i.input = .ok text)
      (hdecode : Program.ofJson text = .ok program)
      (howners : Generator.ofProgram program options = .ok g)
      (hcode : g.generate.1 = .ok code) :
      Yields w m i { code, metrics := g.generate.2.metrics }

/-- **A run fails before it has a unit**, at one of the stages that lead to it. -/
inductive FailsEarly (w : World) (m : Machine) (i : Invocation) : RunError → Prop where
  | optionsUnread {path : String} {e : FileError} (hconfig : i.config = some path)
      (hread : w.readText m path = .error e) : FailsEarly w m i (.file e)
  | optionsMalformed {path text : String} {e : Json.Failure} (hconfig : i.config = some path)
      (hread : w.readText m path = .ok text) (hdecode : Options.ofJson text = .error e) :
      FailsEarly w m i (.document e)
  | programUnread {options : Options} {e : FileError}
      (hoptions : w.TakesOptions m i.config options) (hread : w.readText m i.input = .error e) :
      FailsEarly w m i (.file e)
  | programMalformed {options : Options} {text : String} {e : Json.Failure}
      (hoptions : w.TakesOptions m i.config options) (hread : w.readText m i.input = .ok text)
      (hdecode : Program.ofJson text = .error e) : FailsEarly w m i (.document e)
  | ownerUndeclared {options : Options} {text : String} {program : Program} {r : Refusal}
      (hoptions : w.TakesOptions m i.config options) (hread : w.readText m i.input = .ok text)
      (hdecode : Program.ofJson text = .ok program)
      (howners : Generator.ofProgram program options = .error r) : FailsEarly w m i (.refused r)
  | notLowered {options : Options} {text : String} {program : Program} {g : Generator}
      {r : Refusal} (hoptions : w.TakesOptions m i.config options)
      (hread : w.readText m i.input = .ok text) (hdecode : Program.ofJson text = .ok program)
      (howners : Generator.ofProgram program options = .ok g)
      (hcode : g.generate.1 = .error r) : FailsEarly w m i (.refused r)

variable {i : Invocation} {options : Options} {product : Product}

theorem TakesOptions.carried {config : Option String} (h : w.TakesOptions m config options) :
    m.carryOut (readOptions w.host config) = (.ok options, m) := by
  cases h with
  | defaults => rfl
  | file hread hdecode =>
    refine (carryOut_read_ok hread).trans ((Machine.carryOut_orFail _ _).trans ?_)
    rw [hdecode]
    rfl

/-- With its options and its program read, a run has what compiling them gives. -/
theorem carryOut_produce (hoptions : w.TakesOptions m i.config options)
    (hread : w.readText m i.input = .ok text) :
    m.carryOut (produce w.host i) = (compile options text, m) := by
  refine (Machine.carryOut_bind_ok hoptions.carried).trans ((carryOut_read_ok hread).trans
    ((Machine.carryOut_orFail _ _).trans ?_))
  cases compile options text with
  | ok product => rfl
  | error e => rfl

theorem Yields.carried (h : w.Yields m i product) :
    m.carryOut (produce w.host i) = (.ok product, m) := by
  cases h with
  | @intro options text code program g hoptions hread hdecode howners hcode =>
    have hgenerate : g.generate = (.ok code, g.generate.2) := Prod.ext hcode rfl
    rw [carryOut_produce hoptions hread]
    unfold compile
    simp only [hdecode, howners]
    rw [hgenerate]

theorem FailsEarly.carried {e : RunError} (h : w.FailsEarly m i e) :
    m.carryOut (produce w.host i) = (.error e, m) := by
  cases h with
  | optionsUnread hconfig hread =>
    refine Machine.carryOut_bind_error ?_
    rw [hconfig]
    exact carryOut_read_error hread
  | optionsMalformed hconfig hread hdecode =>
    refine Machine.carryOut_bind_error ?_
    rw [hconfig]
    refine (carryOut_read_ok hread).trans ((Machine.carryOut_orFail _ _).trans ?_)
    rw [hdecode]
    rfl
  | programUnread hoptions hread =>
    exact (Machine.carryOut_bind_ok hoptions.carried).trans (carryOut_read_error hread)
  | programMalformed hoptions hread hdecode =>
    rw [carryOut_produce hoptions hread]
    unfold compile
    simp only [hdecode]
  | ownerUndeclared hoptions hread hdecode howners =>
    rw [carryOut_produce hoptions hread]
    unfold compile
    simp only [hdecode, howners]
  | @notLowered options text program g r hoptions hread hdecode howners hcode =>
    have hgenerate : g.generate = (.error r, g.generate.2) := Prod.ext hcode rfl
    rw [carryOut_produce hoptions hread]
    unfold compile
    simp only [hdecode, howners]
    rw [hgenerate]

theorem takesOptions_or_failsEarly (w : World) (m : Machine) (i : Invocation) :
    (∃ e, w.FailsEarly m i e) ∨ ∃ options, w.TakesOptions m i.config options := by
  cases hconfig : i.config with
  | none => exact .inr ⟨{}, .defaults⟩
  | some path =>
    cases hread : w.readText m path with
    | error e => exact .inl ⟨_, .optionsUnread hconfig hread⟩
    | ok text =>
      cases hdecode : Options.ofJson text with
      | error e => exact .inl ⟨_, .optionsMalformed hconfig hread hdecode⟩
      | ok options => exact .inr ⟨options, .file hread hdecode⟩

/-- **A run has a unit or fails before it**: there is no third way. -/
theorem yields_or_failsEarly (w : World) (m : Machine) (i : Invocation) :
    (∃ e, w.FailsEarly m i e) ∨ ∃ product, w.Yields m i product := by
  rcases takesOptions_or_failsEarly w m i with hfails | ⟨options, hoptions⟩
  · exact .inl hfails
  cases hread : w.readText m i.input with
  | error e => exact .inl ⟨_, .programUnread hoptions hread⟩
  | ok text =>
    cases hdecode : Program.ofJson text with
    | error e => exact .inl ⟨_, .programMalformed hoptions hread hdecode⟩
    | ok program =>
      cases howners : Generator.ofProgram program options with
      | error r => exact .inl ⟨_, .ownerUndeclared hoptions hread hdecode howners⟩
      | ok g =>
        cases hcode : g.generate.1 with
        | error r => exact .inl ⟨_, .notLowered hoptions hread hdecode howners hcode⟩
        | ok code => exact .inr ⟨_, .intro hoptions hread hdecode howners hcode⟩

/-! ## 3. Writing the unit -/

section Writing

variable {code : String} {saved : Disk}

/-- A text that was written stands at the place of its path. -/
theorem filePlace_of_written {d d' : Disk} {here : Place}
    (h : w.writeText d here path text = (d', .ok ())) :
    ∃ q, d.filePlace here path = .ok q ∧ d' = d.put q (.text text) := by
  unfold writeText at h
  split at h
  · cases h
  · rename_i q hq
    split at h
    · cases h
    · cases h
    · cases h
      exact ⟨q, hq, rfl⟩

theorem losesAtMostFile_of_unwritten {d d' : Disk} {here : Place} {e : FileError}
    (h : w.writeText d here path text = (d', .error e)) :
    d'.LosesAtMostFile d here path text := by
  unfold writeText at h
  split at h
  · cases h
    exact .inl (.refl d)
  · rename_i q hq
    obtain ⟨-, -, hfile⟩ := Disk.filePlace_ok_iff.mp hq
    split at h
    · cases h
      exact .inl (.refl d)
    · rename_i count e' _
      cases h
      obtain ⟨hl, hat⟩ := Disk.locate_put hq (.firstBytes text count)
      exact .inr ⟨q, count, hl, hat, Disk.put_keepsBut hfile _⟩
    · cases h

/-- **The unit was written**: its directory was made, and then its file, which leaves a disk. -/
structure Saved (w : World) (m : Machine) (i : Invocation) (code : String) (saved : Disk) :
    Prop where
  prepared : (w.prepare m.disk m.here i.output).2 = .ok ()
  written : w.writeText (w.prepare m.disk m.here i.output).1 m.here i.output code = (saved, .ok ())

theorem Saved.read (h : w.Saved m i code saved) : saved.readText m.here i.output = .ok code := by
  obtain ⟨q, hq, rfl⟩ := filePlace_of_written h.written
  exact Disk.readText_put hq code

/-- What a run does once it has written the unit, with the path of the executable. -/
def followUp (w : World) (i : Invocation) (executable : String) :
    ExceptT RunError (StateM Machine) Unit :=
  if i.build || i.run then do
    build w.host i.plan i.output executable
    if i.run then launchProgram w.host executable
  else return ()

/-- Runs an invocation. -/
def runs (w : World) (m : Machine) (i : Invocation) : Except RunError Unit × Machine :=
  m.carryOut (run w.host i)

theorem runs_of_failsEarly {e : RunError} (h : w.FailsEarly m i e) : w.runs m i = (.error e, m) :=
  Machine.carryOut_bind_error h.carried

/-- **A run that has its unit and cannot write it** fails, and starts nothing. -/
theorem runs_of_unsaved (hy : w.Yields m i product)
    (h : ∀ saved, ¬ w.Saved m i product.code saved) :
    ∃ e disk, w.runs m i = (.error (.file e), { m with disk }) ∧
      disk.LosesAtMostFile m.disk m.here i.output product.code := by
  have hkept := w.prepare_keeps m.disk m.here i.output
  have hdirectory := carryOut_prepareDirectory w m i.output
  unfold runs run
  rw [Machine.carryOut_bind_ok hy.carried]
  cases hprepared : (w.prepare m.disk m.here i.output).2 with
  | error e =>
    rw [hprepared] at hdirectory
    exact ⟨e, _, Machine.carryOut_bind_error hdirectory, .inl hkept⟩
  | ok u =>
    rw [hprepared] at hdirectory
    rw [Machine.carryOut_bind_ok hdirectory, Machine.carryOut_ask]
    cases hwritten : w.writeText (w.prepare m.disk m.here i.output).1 m.here i.output
        product.code with
    | mk disk result =>
      rw [host_writeText (m := { m with disk := (w.prepare m.disk m.here i.output).1 }) hwritten]
      cases result with
      | ok u => exact absurd ⟨hprepared, hwritten⟩ (h disk)
      | error e =>
        refine ⟨e, disk, Machine.carryOut_bind_error (Machine.carryOut_orFail _ _), ?_⟩
        exact (losesAtMostFile_of_unwritten hwritten).of_keeps hkept

/-- **A run that has written its unit** goes on with what is asked for. -/
theorem runs_of_saved (hy : w.Yields m i product) (hs : w.Saved m i product.code saved) :
    w.runs m i =
      (m.withUnit i product saved).carryOut (w.followUp i (Path.executable i.output)) := by
  have hdirectory := carryOut_prepareDirectory w m i.output
  rw [hs.prepared] at hdirectory
  unfold runs run
  rw [Machine.carryOut_bind_ok hy.carried, Machine.carryOut_bind_ok hdirectory,
    Machine.carryOut_ask,
    host_writeText (m := { m with disk := (w.prepare m.disk m.here i.output).1 }) hs.written,
    Machine.carryOut_bind_ok (Machine.carryOut_orFail _ _)]
  unfold Machine.withUnit followUp
  cases i.verbose with
  | false => rfl
  | true => rfl

end Writing

/-! ## 4. Building and launching -/

section Building

variable {plan : BuildPlan} {source executable : String}

/-- What a build says about the compiler that has ended. -/
def verdict (plan : BuildPlan) (done : Finished) : Except RunError Unit :=
  if done.status.isSuccess then .ok ()
  else .error (.toolchain (plan.compiler.command ++ " compilation failed\nStdout: " ++
    done.stdout ++ "\nStderr: " ++ done.stderr))

theorem verdict_ok_iff {done : Finished} :
    verdict plan done = .ok () ↔ done.status.isSuccess = true := by
  unfold verdict
  cases done.status.isSuccess with
  | false => simp
  | true => simp

/-- The machine on which a compiler was asked for its version, and left a disk, and the directory
of the executable was made. -/
def probed (w : World) (m : Machine) (plan : BuildPlan) (executable : String) (left : Disk) :
    Machine :=
  { m.behind plan.compiler.command ["--version"] left with
    disk := (w.prepare left m.here executable).1 }

-- Result and machine are given by equations and not as indices: taking the cases of an index
-- would evaluate it.
/-- **All that a build can do**: find no compiler, find no room for the executable, fail to start
the compiler, or compile. -/
inductive Builds (w : World) (m : Machine) (plan : BuildPlan) (source executable : String)
    (result : Except RunError Unit) (after : Machine) : Prop where
  | noCompiler (e : FileError)
      (hprobe : w.start m.here m.disk plan.compiler.command ["--version"] = .error e)
      (hafter : after = m)
      (hresult : result = .error (.toolchain (plan.compiler.command ++ " not found in PATH")))
  | noDirectory (left : Disk) (done : Finished) (e : FileError)
      (hprobe : w.start m.here m.disk plan.compiler.command ["--version"] = .ok (left, done))
      (hd : (w.prepare left m.here executable).2 = .error e)
      (hafter : after = w.probed m plan executable left) (hresult : result = .error (.file e))
  | notExecuted (left : Disk) (done : Finished) (e : FileError)
      (hprobe : w.start m.here m.disk plan.compiler.command ["--version"] = .ok (left, done))
      (hd : (w.prepare left m.here executable).2 = .ok ())
      (hcompile : w.start m.here (w.prepare left m.here executable).1 plan.compiler.command
        (plan.arguments source executable) = .error e)
      (hafter : after = w.probed m plan executable left)
      (hresult : result = .error (.toolchain ("failed to execute compiler: " ++ e.message)))
  | compiles (left : Disk) (done : Finished) (built : Disk) (finished : Finished)
      (hprobe : w.start m.here m.disk plan.compiler.command ["--version"] = .ok (left, done))
      (hd : (w.prepare left m.here executable).2 = .ok ())
      (hcompile : w.start m.here (w.prepare left m.here executable).1 plan.compiler.command
        (plan.arguments source executable) = .ok (built, finished))
      (hafter : after = (w.probed m plan executable left).behind plan.compiler.command
        (plan.arguments source executable) built)
      (hresult : result = verdict plan finished)

theorem builds (w : World) (m : Machine) (plan : BuildPlan) (source executable : String) :
    w.Builds m plan source executable (m.carryOut (build w.host plan source executable)).1
      (m.carryOut (build w.host plan source executable)).2 := by
  unfold build
  rw [Machine.carryOut_ask]
  cases hprobe : w.start m.here m.disk plan.compiler.command ["--version"] with
  | error e =>
    rw [host_start_error hprobe]
    exact .noCompiler e hprobe rfl rfl
  | ok probe =>
    obtain ⟨left, done⟩ := probe
    have hdirectory : (m.behind plan.compiler.command ["--version"] left).carryOut
        (prepareDirectory w.host executable) =
        ((w.prepare left m.here executable).2.mapError .file, w.probed m plan executable left) :=
      carryOut_prepareDirectory w _ _
    rw [host_start_ok hprobe]
    dsimp only
    cases hd : (w.prepare left m.here executable).2 with
    | error e =>
      rw [hd] at hdirectory
      rw [Machine.carryOut_bind_error hdirectory]
      exact .noDirectory left done e hprobe hd rfl rfl
    | ok u =>
      rw [hd] at hdirectory
      rw [Machine.carryOut_bind_ok hdirectory, Machine.carryOut_ask]
      cases hcompile : w.start m.here (w.prepare left m.here executable).1 plan.compiler.command
          (plan.arguments source executable) with
      | error e =>
        rw [host_start_error (m := w.probed m plan executable left) hcompile]
        exact .notExecuted left done e hprobe hd hcompile rfl rfl
      | ok compile =>
        obtain ⟨built, finished⟩ := compile
        rw [host_start_ok (m := w.probed m plan executable left) hcompile]
        refine .compiles left done built finished hprobe hd hcompile ?_ ?_
        · dsimp only
          split <;> rfl
        · unfold verdict
          dsimp only
          split <;> rfl

/-- **All that the start of a program can do.** -/
inductive Launches (w : World) (m : Machine) (path : String) (result : Except RunError Unit)
    (after : Machine) : Prop where
  | notStarted (e : FileError) (hstart : w.start m.here m.disk path [] = .error e)
      (hafter : after = m)
      (hresult : result = .error (.toolchain ("failed to start " ++ path ++ ": " ++ e.message)))
  | fails (left : Disk) (done : Finished)
      (hstart : w.start m.here m.disk path [] = .ok (left, done))
      (hs : done.status.isSuccess = false) (hafter : after = m.launched path left done)
      (hresult : result = .error (.toolchain (path ++ " exited with " ++ done.status.message)))
  | succeeds (left : Disk) (done : Finished)
      (hstart : w.start m.here m.disk path [] = .ok (left, done))
      (hs : done.status.isSuccess = true) (hafter : after = m.launched path left done)
      (hresult : result = .ok ())

theorem launches (w : World) (m : Machine) (path : String) :
    w.Launches m path (m.carryOut (launchProgram w.host path)).1
      (m.carryOut (launchProgram w.host path)).2 := by
  unfold launchProgram
  rw [Machine.carryOut_ask]
  cases hstart : w.start m.here m.disk path [] with
  | error e =>
    rw [host_launch_error hstart]
    exact .notStarted e hstart rfl rfl
  | ok launch =>
    obtain ⟨left, done⟩ := launch
    rw [host_launch_ok hstart]
    cases hs : done.status.isSuccess with
    | false =>
      simp only [hs]
      exact .fails left done hstart hs rfl rfl
    | true =>
      simp only [hs]
      exact .succeeds left done hstart hs rfl rfl

/-- **All that can follow the unit**: nothing if nothing is asked for, a build that fails, a build
alone, and a build with the start of its program. -/
inductive FollowsUp (w : World) (m : Machine) (i : Invocation) (executable : String)
    (result : Except RunError Unit) (after : Machine) : Prop where
  | unasked (hb : i.build = false) (hr : i.run = false) (hafter : after = m)
      (hresult : result = .ok ())
  | fails (hasked : i.build = true ∨ i.run = true) (e : RunError) (hresult : result = .error e)
      (hbuild : w.Builds m i.plan i.output executable (.error e) after)
  | builds (hb : i.build = true) (hr : i.run = false) (hresult : result = .ok ())
      (hbuild : w.Builds m i.plan i.output executable (.ok ()) after)
  | launches (hr : i.run = true) (between : Machine)
      (hbuild : w.Builds m i.plan i.output executable (.ok ()) between)
      (hlaunch : w.Launches between executable result after)

theorem followUp_of_unasked (hb : i.build = false) (hr : i.run = false) :
    m.carryOut (w.followUp i executable) = (.ok (), m) := by
  unfold followUp
  rw [hb, hr]
  rfl

theorem followUp_of_asked (hasked : i.build = true ∨ i.run = true) :
    w.followUp i executable = build w.host i.plan i.output executable >>= fun _ =>
      if i.run then launchProgram w.host executable else pure () := by
  have hany : (i.build || i.run) = true := by simpa using hasked
  unfold followUp
  rw [hany]
  rfl

theorem followsUp (w : World) (m : Machine) (i : Invocation) (executable : String) :
    w.FollowsUp m i executable (m.carryOut (w.followUp i executable)).1
      (m.carryOut (w.followUp i executable)).2 := by
  by_cases hasked : i.build = true ∨ i.run = true
  · have hbuilds := w.builds m i.plan i.output executable
    rw [followUp_of_asked hasked]
    cases hbuild : m.carryOut (build w.host i.plan i.output executable) with
    | mk result between =>
      rw [hbuild] at hbuilds
      cases result with
      | error e =>
        rw [Machine.carryOut_bind_error hbuild]
        exact .fails hasked e rfl hbuilds
      | ok u =>
        rw [Machine.carryOut_bind_ok hbuild]
        cases hr : i.run with
        | false => exact .builds (hasked.resolve_right (by simp [hr])) hr rfl hbuilds
        | true => exact .launches hr between hbuilds (w.launches between executable)
  · have hb : i.build = false := Bool.eq_false_iff.mpr fun h => hasked (.inl h)
    have hr : i.run = false := Bool.eq_false_iff.mpr fun h => hasked (.inr h)
    rw [followUp_of_unasked hb hr]
    exact .unasked hb hr rfl rfl

end Building

/-! ## 5. The processes of a run -/

section Processes

variable {code executable : String} {result : Except RunError Unit} {after : Machine}

/-- **Asked for its version, a command loses nothing of the disk.** -/
def VersionKeepsDisk (w : World) (command : String) : Prop :=
  ∀ here disk left done, w.start here disk command ["--version"] = .ok (left, done) →
    left.Keeps disk

/-- A process of the compiler that an invocation asks for, with arguments. -/
structure StartsCompiler (i : Invocation) (args : List String) (s : Started) : Prop where
  command : s.command = i.plan.compiler.command
  args : s.args = args

/-- A process found the unit where it was written. -/
def FindsUnit (here : Place) (i : Invocation) (code : String) (s : Started) : Prop :=
  s.disk.readText here i.output = .ok code

/-- A process ended well. -/
def EndsWell (w : World) (here : Place) (s : Started) : Prop :=
  ∃ left done, w.start here s.disk s.command s.args = .ok (left, done) ∧
    done.status.isSuccess = true

/-- **The processes of a build**, the latest first. The compiler is asked for its version, and finds
the unit. It is then told to compile the unit, and still finds it, unless asking for the version has
lost it. The program is started if that is asked for and the compilation has ended well. -/
inductive BuildTrace (w : World) (here : Place) (i : Invocation) (code executable : String) :
    List Started → Prop where
  | nothing : BuildTrace w here i code executable []
  | probed {probe : Started} (hasked : i.build = true ∨ i.run = true)
      (hprobe : StartsCompiler i ["--version"] probe) (hunit : FindsUnit here i code probe) :
      BuildTrace w here i code executable [probe]
  | compiled {probe compile : Started} (hprobed : BuildTrace w here i code executable [probe])
      (hcompile : StartsCompiler i (i.plan.arguments i.output executable) compile)
      (hunit : w.VersionKeepsDisk i.plan.compiler.command → FindsUnit here i code compile) :
      BuildTrace w here i code executable [compile, probe]
  | launched {probe compile launch : Started}
      (hcompiled : BuildTrace w here i code executable [compile, probe]) (hasked : i.run = true)
      (hsuccess : w.EndsWell here compile) (hcommand : launch.command = executable)
      (hargs : launch.args = []) : BuildTrace w here i code executable [launch, compile, probe]

theorem probed_trace (w : World) (executable : String) (hasked : i.build = true ∨ i.run = true)
    (hread : m.disk.readText m.here i.output = .ok code) (left : Disk) :
    (w.probed m i.plan executable left).started =
        [⟨i.plan.compiler.command, ["--version"], m.disk⟩] ++ m.started ∧
      w.BuildTrace m.here i code executable
        [⟨i.plan.compiler.command, ["--version"], m.disk⟩] :=
  ⟨rfl, .probed hasked ⟨rfl, rfl⟩ hread⟩

/-- Between the unit and its compilation only the version is asked for, and directories are made. -/
theorem findsUnit_of_version {left : Disk} {done : Finished} {command : String}
    (hread : m.disk.readText m.here i.output = .ok code)
    (hprobe : w.start m.here m.disk command ["--version"] = .ok (left, done))
    (hversion : w.VersionKeepsDisk command) :
    (w.prepare left m.here executable).1.readText m.here i.output = .ok code :=
  Disk.readText_of_keeps
    ((w.prepare_keeps left m.here executable).trans (hversion _ _ _ _ hprobe)) hread

/-- **The processes of a build that comes behind the unit.** -/
theorem Builds.trace (h : w.Builds m i.plan i.output executable result after)
    (hasked : i.build = true ∨ i.run = true)
    (hread : m.disk.readText m.here i.output = .ok code) :
    ∃ trace, after.started = trace ++ m.started ∧ w.BuildTrace m.here i code executable trace ∧
      (result = .ok () → ∃ compile probe, trace = [compile, probe] ∧
        w.EndsWell m.here compile) := by
  cases h with
  | noCompiler e hprobe hafter hresult =>
    subst hafter hresult
    exact ⟨[], rfl, .nothing, nofun⟩
  | noDirectory left done e hprobe hd hafter hresult =>
    obtain ⟨hstarted, htrace⟩ := w.probed_trace executable hasked hread left
    subst hafter hresult
    exact ⟨_, hstarted, htrace, nofun⟩
  | notExecuted left done e hprobe hd hcompile hafter hresult =>
    obtain ⟨hstarted, htrace⟩ := w.probed_trace executable hasked hread left
    subst hafter hresult
    exact ⟨_, hstarted, htrace, nofun⟩
  | compiles left done built finished hprobe hd hcompile hafter hresult =>
    obtain ⟨hstarted, htrace⟩ := w.probed_trace executable hasked hread left
    subst hafter
    refine ⟨_ :: _, congrArg (List.cons _) hstarted,
      .compiled htrace ⟨rfl, rfl⟩ (findsUnit_of_version hread hprobe), fun hok => ?_⟩
    rw [hok] at hresult
    exact ⟨_, _, rfl, built, finished, hcompile, verdict_ok_iff.mp hresult.symm⟩

/-- **The processes of a run behind the unit.** -/
theorem FollowsUp.trace (h : w.FollowsUp m i executable result after)
    (hread : m.disk.readText m.here i.output = .ok code) :
    ∃ trace, after.started = trace ++ m.started ∧ w.BuildTrace m.here i code executable trace ∧
      (result = .ok () → trace.length = i.processes) := by
  unfold Invocation.processes
  cases h with
  | unasked hb hr hafter hresult =>
    subst hafter
    exact ⟨[], rfl, .nothing, fun _ => by simp [hb, hr]⟩
  | fails hasked e hresult hbuild =>
    obtain ⟨trace, hstarted, htrace, -⟩ := hbuild.trace hasked hread
    subst hresult
    exact ⟨trace, hstarted, htrace, nofun⟩
  | builds hb hr hresult hbuild =>
    obtain ⟨_, hstarted, htrace, hok⟩ := hbuild.trace (.inl hb) hread
    obtain ⟨compile, probe, rfl, -⟩ := hok rfl
    exact ⟨_, hstarted, htrace, fun _ => by simp [hb, hr]⟩
  | launches hr between hbuild hlaunch =>
    obtain ⟨_, hstarted, htrace, hok⟩ := hbuild.trace (.inr hr) hread
    obtain ⟨compile, probe, rfl, hsuccess⟩ := hok rfl
    cases hlaunch with
    | notStarted e hstart hafter hresult =>
      subst hafter hresult
      exact ⟨_, hstarted, htrace, nofun⟩
    | fails left done hstart hs hafter hresult =>
      subst hafter hresult
      exact ⟨_ :: _, congrArg (List.cons _) hstarted, .launched htrace hr hsuccess rfl rfl, nofun⟩
    | succeeds left done hstart hs hafter hresult =>
      subst hafter hresult
      refine ⟨_ :: _, congrArg (List.cons _) hstarted, .launched htrace hr hsuccess rfl rfl, ?_⟩
      exact fun _ => by simp [hr]

end Processes

/-! ## 6. All or nothing -/

/-- On every host a command line that asks for a run does that run. -/
theorem execute_of_arguments {f : Type → Type} [Monad f] (host : Host f)
    (h : readArguments args = .ok i) :
    Lowering.execute host args = (run host i).run >>= fun result => pure (.ofRun result) := by
  unfold Lowering.execute
  rw [h]
  refine bind_congr fun result => ?_
  cases result with
  | ok u => rfl
  | error e => rfl

theorem execute_eq_runs (w : World) (m : Machine) (h : readArguments args = .ok i) :
    w.execute m args = (.ofRun (w.runs m i).1, (w.runs m i).2) := by
  unfold World.execute
  rw [execute_of_arguments w.host h]
  rfl

/-- **A run that ends well has written its unit.** -/
theorem saved_of_done (hargs : readArguments args = .ok i) (hdone : (w.execute m args).1 = .done) :
    ∃ product saved, w.Yields m i product ∧ w.Saved m i product.code saved := by
  rw [w.execute_eq_runs m hargs] at hdone
  have hok := Ended.ofRun_eq_done hdone
  rcases yields_or_failsEarly w m i with ⟨e, he⟩ | ⟨product, hy⟩
  · rw [runs_of_failsEarly he] at hok
    cases hok
  by_cases hs : ∃ saved, w.Saved m i product.code saved
  · obtain ⟨saved, hs⟩ := hs
    exact ⟨product, saved, hy, hs⟩
  · obtain ⟨e, disk, hrun, -⟩ := runs_of_unsaved hy fun saved h => hs ⟨saved, h⟩
    rw [hrun] at hok
    cases hok

theorem execute_of_halt (w : World) (m : Machine) {halt : Halt}
    (h : readArguments args = .error halt) :
    (w.execute m args).2.disk = m.disk ∧ (w.execute m args).2.started = m.started := by
  unfold World.execute Lowering.execute
  rw [h]
  cases halt with
  | usage => exact ⟨rfl, rfl⟩
  | help => exact ⟨rfl, rfl⟩
  | version => exact ⟨rfl, rfl⟩

end World

/-- **A run writes all or nothing**, in every world. Arguments that ask for no run touch nothing. A
run that fails before it has a unit leaves the machine as it was. With a unit that cannot be written
nothing is started, and no file but its own is lost, which may be left with a part of the unit. Once
the unit is written, a run without a build is done; a build starts its processes in their order, and
the compiler finds the unit, also when it compiles it if asking for its version has lost nothing.
The program is started only if that was asked for, behind a compilation that has ended well. -/
theorem run_writes_all_or_nothing (w : World) (m : Machine) (args : List String) :
    (∀ halt, readArguments args = .error halt →
      (w.execute m args).2.disk = m.disk ∧ (w.execute m args).2.started = m.started) ∧
    ∀ i, readArguments args = .ok i →
      ((∃ e, w.FailsEarly m i e) ∨ ∃ product, w.Yields m i product) ∧
      (∀ e, w.FailsEarly m i e → w.execute m args = (.failed e, m)) ∧
      (∀ product, w.Yields m i product → (∀ saved, ¬ w.Saved m i product.code saved) →
        (∃ e, (w.execute m args).1 = .failed (.file e)) ∧
          (w.execute m args).2.started = m.started ∧
          (w.execute m args).2.disk.LosesAtMostFile m.disk m.here i.output product.code) ∧
      ∀ product saved, w.Yields m i product → w.Saved m i product.code saved →
        (i.build = false → i.run = false →
          w.execute m args = (.done, m.withUnit i product saved) ∧
          saved.readText m.here i.output = .ok product.code) ∧
        ∃ trace, (w.execute m args).2.started = trace ++ m.started ∧
          w.BuildTrace m.here i product.code (Path.executable i.output) trace ∧
          ((w.execute m args).1 = .done → trace.length = i.processes) := by
  refine ⟨fun halt hhalt => w.execute_of_halt m hhalt, fun i hargs => ?_⟩
  rw [w.execute_eq_runs m hargs]
  refine ⟨w.yields_or_failsEarly m i, fun e he => ?_, fun product hy hunsaved => ?_,
    fun product saved hy hs => ⟨fun hb hr => ?_, ?_⟩⟩
  · rw [World.runs_of_failsEarly he]
    rfl
  · obtain ⟨e, disk, hrun, hlost⟩ := World.runs_of_unsaved hy hunsaved
    rw [hrun]
    exact ⟨⟨e, rfl⟩, rfl, hlost⟩
  · rw [World.runs_of_saved hy hs, World.followUp_of_unasked hb hr]
    exact ⟨rfl, hs.read⟩
  · have hfollows := w.followsUp (m.withUnit i product saved) i (Path.executable i.output)
    obtain ⟨trace, hstarted, htrace, hdone⟩ := hfollows.trace hs.read
    rw [World.runs_of_saved hy hs]
    exact ⟨trace, hstarted, htrace, fun h => hdone (Ended.ofRun_eq_done h)⟩

/-- A machine with a program and a unit from before. -/
def workshop : Machine where
  disk.nodes := [(["p.json"], .text "{}"), (["c"], .directory), (["c", "main.c"], .text "before")]

/-- A world with a compiler. -/
def workbench : World := .ofTools [("gcc", { product := some {} })]

/-- Without a program the workshop stays as it is; with one the workbench compiles and starts what
was written. -/
theorem workshop_runs :
    workbench.execute workshop ["q.json", "--run"] = (.failed (.file .notFound), workshop) ∧
    ∃ product saved trace,
      workbench.Yields workshop { input := "p.json", run := true } product ∧
      workbench.Saved workshop { input := "p.json", run := true } product.code saved ∧
      (workbench.execute workshop ["p.json", "--run"]).2.started = trace ∧
      workbench.BuildTrace [] { input := "p.json", run := true } product.code "c/main.out" trace ∧
      trace.length = 3 := by
  have hmissing := (run_writes_all_or_nothing workbench workshop ["q.json", "--run"]).2
    { input := "q.json", run := true } rfl
  refine ⟨hmissing.2.1 _ (.programUnread .defaults rfl), ?_⟩
  have hdone : (workbench.execute workshop ["p.json", "--run"]).1 = .done := by decide +kernel
  obtain ⟨product, saved, hy, hs⟩ :=
    World.saved_of_done (i := { input := "p.json", run := true }) rfl hdone
  obtain ⟨-, -, -, hsaved⟩ := (run_writes_all_or_nothing workbench workshop ["p.json", "--run"]).2
    { input := "p.json", run := true } rfl
  obtain ⟨trace, hstarted, htrace, hlength⟩ := (hsaved product saved hy hs).2
  have hpath : Path.executable "c/main.c" = "c/main.out" := by decide +kernel
  rw [hpath] at htrace
  exact ⟨product, saved, trace, hy, hs, hstarted.trans (List.append_nil trace), htrace,
    hlength hdone⟩

/-- On a full disk a unit from before is lost, though the new one is not written. -/
example :
    (({ workbench with
        unwritable := fun _ _ _ => some (.brokenOff 8 (.other "No space left on device")) } :
        World).execute workshop ["p.json", "--run"]).2.disk.at? ["c", "main.c"] =
      some (.text "#include") := by
  decide +kernel

end Lowering
