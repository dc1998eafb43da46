import Lowering.Proofs.CommandLineRuns
import Lowering.Proofs.ExecutablePaths

/-!
# Sources of builds

A build reads its source and writes its executable. What becomes of the source then depends on where
the two lie, and on what the compiler does, which is stated and not built in.

* `World.KeepsToFiles` -- the processes of a build touch nothing but the executable;
* `World.LeavesProgram` -- the compiler leaves a program where it is told to;
* `World.ofTools_keepsToFiles`, `World.ofTools_leavesProgram` -- stand-ins for compilers do so;
* `build_keeps_source_unless_out_named` -- the source behind any build.
-/

namespace Lowering

namespace Disk

variable {d : Disk} {here : Place} {path : String}

/-- A path leads to a program. -/
def HoldsProgram (d : Disk) (here : Place) (path : String) : Prop :=
  ∃ q e, d.locate here path = .ok q ∧ d.at? q = some (.program e)

theorem HoldsProgram.of_keeps {d' : Disk} (h : d.HoldsProgram here path) (hkept : d'.Keeps d) :
    d'.HoldsProgram here path := by
  obtain ⟨q, e, hl, hq⟩ := h
  exact ⟨q, e, locate_of_directories hkept.hasDirectories hl, hkept q _ hq⟩

/-- Where a program is, no text is read. -/
theorem HoldsProgram.readText (h : d.HoldsProgram here path) :
    d.readText here path = .error .notText := by
  obtain ⟨q, e, hl, hq⟩ := h
  unfold Disk.readText
  rw [hl]
  simp only [bind, Except.bind, hq]

/-- Where a text can be read, a file can be written. -/
theorem filePlace_of_readText {text : String} (hpath : Path.namesDirectory path = false)
    (hr : d.readText here path = .ok text) : ∃ q, d.filePlace here path = .ok q := by
  obtain ⟨q, hl, hq⟩ := readText_ok_iff.mp hr
  exact ⟨q, filePlace_ok_iff.mpr ⟨hpath, hl, by simp [hq]⟩⟩

end Disk

/-- A stand-in for a compiler writes at most a program at the path behind `-o`, and nothing if it is
asked for its version. -/
theorem Tool.use_disk (t : Tool) (here : Place) (d : Disk) (args : List String) :
    (t.use here d args).1 = d ∨ args.head? ≠ some "--version" ∧
      ∃ path q e, args[2]? = some path ∧ d.filePlace here path = .ok q ∧
        (t.use here d args).1 = d.put q (.program e) := by
  unfold Tool.use
  split
  · exact .inl rfl
  rename_i hversion
  dsimp only
  unfold Tool.leave
  split
  · rename_i e path _ hpath
    split
    · rename_i q hq
      exact .inr ⟨hversion, path, q, e, hpath, hq, rfl⟩
    · exact .inl rfl
  · exact .inl rfl

/-! ## 1. What the processes of a build do to the disk -/

namespace World

variable {w : World} {m after : Machine} {i : Invocation} {here : Place}
  {executable code : String} {result : Except RunError Unit}

/-- **The processes of an invocation keep to their files**: asked for its version the compiler loses
nothing, compiling it writes at most the executable, and the program loses nothing. -/
structure KeepsToFiles (w : World) (here : Place) (i : Invocation) (executable : String) :
    Prop where
  version : w.VersionKeepsDisk i.plan.compiler.command
  compile : ∀ disk built done,
    w.start here disk i.plan.compiler.command (i.plan.arguments i.output executable) =
      .ok (built, done) →
    built.Keeps disk ∨ ∃ q, disk.filePlace here executable = .ok q ∧ built.KeepsBut disk q
  program : ∀ disk left done, w.start here disk executable [] = .ok (left, done) → left.Keeps disk

/-- **The compiler of an invocation works**: it starts, and asked for its version it loses nothing;
it leaves a program where it is told to; and the program loses nothing. -/
structure LeavesProgram (w : World) (here : Place) (i : Invocation) (executable : String) :
    Prop where
  version : ∀ disk, ∃ left done,
    w.start here disk i.plan.compiler.command ["--version"] = .ok (left, done) ∧ left.Keeps disk
  compile : ∀ disk q, disk.filePlace here executable = .ok q →
    ∃ e done, w.start here disk i.plan.compiler.command (i.plan.arguments i.output executable) =
      .ok (disk.put q (.program e), done)
  program : ∀ disk left done, w.start here disk executable [] = .ok (left, done) → left.Keeps disk

/-- A program that loses nothing of the disk when it is started. -/
theorem Launches.keeps (h : w.Launches m executable result after)
    (hprogram : ∀ disk left done, w.start m.here disk executable [] = .ok (left, done) →
      left.Keeps disk) : after.disk.Keeps m.disk := by
  cases h with
  | notStarted e hstart hafter hresult =>
    rw [hafter]
    exact .refl m.disk
  | fails left done hstart hs hafter hresult =>
    rw [hafter]
    exact hprogram _ _ _ hstart
  | succeeds left done hstart hs hafter hresult =>
    rw [hafter]
    exact hprogram _ _ _ hstart

/-- A build stays in its directory. -/
theorem Builds.here_eq (h : w.Builds m i.plan i.output executable result after) :
    after.here = m.here := by
  cases h with
  | noCompiler e hprobe hafter hresult => rw [hafter]
  | noDirectory left done e hprobe hd hafter hresult => rw [hafter]; rfl
  | notExecuted left done e hprobe hd hcompile hafter hresult => rw [hafter]; rfl
  | compiles left done built finished hprobe hd hcompile hafter hresult => rw [hafter]; rfl

/-! ## 2. The source behind a build -/

/-- **A build whose processes keep to their files**, and whose executable has a place of its own,
leaves the source as it was. -/
theorem Builds.keeps_source (h : w.Builds m i.plan i.output executable result after)
    (hw : w.KeepsToFiles m.here i executable)
    (hplaces : ∀ (d : Disk) q, d.filePlace m.here executable = .ok q →
      d.locate m.here i.output ≠ .ok q)
    (hread : m.disk.readText m.here i.output = .ok code) :
    after.disk.readText m.here i.output = .ok code := by
  cases h with
  | noCompiler e hprobe hafter hresult =>
    rw [hafter]
    exact hread
  | noDirectory left done e hprobe hd hafter hresult =>
    rw [hafter]
    exact findsUnit_of_version hread hprobe hw.version
  | notExecuted left done e hprobe hd hcompile hafter hresult =>
    rw [hafter]
    exact findsUnit_of_version hread hprobe hw.version
  | compiles left done built finished hprobe hd hcompile hafter hresult =>
    have hprepared : (w.prepare left m.here executable).1.readText m.here i.output = .ok code :=
      findsUnit_of_version hread hprobe hw.version
    rw [hafter]
    rcases hw.compile _ _ _ hcompile with hkept | ⟨q, hq, hkept⟩
    · exact Disk.readText_of_keeps hkept hprepared
    · exact Disk.readText_of_keepsBut hkept (hplaces _ q hq) hprepared

/-- The source is then kept up to the end of the run. -/
theorem FollowsUp.keeps_source (h : w.FollowsUp m i executable result after)
    (hw : w.KeepsToFiles m.here i executable)
    (hplaces : ∀ (d : Disk) q, d.filePlace m.here executable = .ok q →
      d.locate m.here i.output ≠ .ok q)
    (hread : m.disk.readText m.here i.output = .ok code) :
    after.disk.readText m.here i.output = .ok code := by
  cases h with
  | unasked hb hr hafter hresult =>
    rw [hafter]
    exact hread
  | fails hasked e hresult hbuild => exact hbuild.keeps_source hw hplaces hread
  | builds hb hr hresult hbuild => exact hbuild.keeps_source hw hplaces hread
  | launches hr between hbuild hlaunch =>
    have hprogram := hw.program
    rw [← hbuild.here_eq] at hprogram
    exact Disk.readText_of_keeps (hlaunch.keeps hprogram) (hbuild.keeps_source hw hplaces hread)

/-- **A build that writes its program where its source is** leaves no source. -/
theorem Builds.loses_source (h : w.Builds m i.plan i.output i.output result after)
    (hw : w.LeavesProgram m.here i i.output) (hsource : Path.namesDirectory i.output = false)
    (hdirectory : ∀ d : Disk, d.Keeps m.disk → (w.prepare d m.here i.output).2 = .ok ())
    (hread : m.disk.readText m.here i.output = .ok code) :
    after.disk.HoldsProgram m.here i.output := by
  obtain ⟨left, done, hversion, hkept⟩ := hw.version m.disk
  have hprepared := Disk.readText_of_keeps
    ((w.prepare_keeps left m.here i.output).trans hkept) hread
  obtain ⟨q, hq⟩ := Disk.filePlace_of_readText hsource hprepared
  obtain ⟨e, finished, hcompiled⟩ := hw.compile _ q hq
  have hprogram := Disk.locate_put hq (.program e)
  cases h with
  | noCompiler e hprobe hafter hresult =>
    rw [hversion] at hprobe
    cases hprobe
  | noDirectory left done e hprobe hd hafter hresult =>
    obtain ⟨rfl, -⟩ := Prod.mk.inj (Except.ok.inj (hversion.symm.trans hprobe))
    rw [hdirectory _ hkept] at hd
    cases hd
  | notExecuted left done e hprobe hd hcompile hafter hresult =>
    obtain ⟨rfl, -⟩ := Prod.mk.inj (Except.ok.inj (hversion.symm.trans hprobe))
    rw [hcompiled] at hcompile
    cases hcompile
  | compiles left done built finished hprobe hd hcompile hafter hresult =>
    obtain ⟨rfl, -⟩ := Prod.mk.inj (Except.ok.inj (hversion.symm.trans hprobe))
    obtain ⟨rfl, -⟩ := Prod.mk.inj (Except.ok.inj (hcompiled.symm.trans hcompile))
    rw [hafter]
    exact ⟨q, e, hprogram⟩

/-- The source is then still lost at the end of the run. -/
theorem FollowsUp.loses_source (h : w.FollowsUp m i i.output result after)
    (hasked : i.build = true ∨ i.run = true) (hw : w.LeavesProgram m.here i i.output)
    (hsource : Path.namesDirectory i.output = false)
    (hdirectory : ∀ d : Disk, d.Keeps m.disk → (w.prepare d m.here i.output).2 = .ok ())
    (hread : m.disk.readText m.here i.output = .ok code) :
    after.disk.HoldsProgram m.here i.output := by
  cases h with
  | unasked hb hr hafter hresult => simp [hb, hr] at hasked
  | fails hasked e hresult hbuild => exact hbuild.loses_source hw hsource hdirectory hread
  | builds hb hr hresult hbuild => exact hbuild.loses_source hw hsource hdirectory hread
  | launches hr between hbuild hlaunch =>
    have hprogram := hw.program
    rw [← hbuild.here_eq] at hprogram
    exact (hbuild.loses_source hw hsource hdirectory hread).of_keeps (hlaunch.keeps hprogram)

/-- A unit is written to a path that leads to a file, and its directory is there afterwards. -/
theorem Saved.directory {saved : Disk} (h : w.Saved m i code saved) :
    Path.namesDirectory i.output = false ∧
      ∀ d : Disk, d.Keeps saved → (w.prepare d m.here i.output).2 = .ok () := by
  obtain ⟨q, hq, rfl⟩ := filePlace_of_written h.written
  obtain ⟨hnames, -, hfile⟩ := Disk.filePlace_ok_iff.mp hq
  refine ⟨hnames, fun d hkept => ?_⟩
  have hput := (Disk.put_keepsBut hfile (.text code)).hasDirectories
  rw [prepare_again h.prepared fun place hplace => hkept place _ (hput place hplace)]

/-! ## 3. Stand-ins for compilers -/

theorem ofTools_start {tools : List (String × Tool)} {d left : Disk} {command : String}
    {args : List String} {done : Finished}
    (h : (World.ofTools tools).start here d command args = .ok (left, done)) :
    left = d ∨ args.head? ≠ some "--version" ∧
      ∃ path q e, args[2]? = some path ∧ d.filePlace here path = .ok q ∧
        left = d.put q (.program e) := by
  simp only [World.ofTools] at h
  split at h
  · obtain ⟨e, -, h⟩ := bind_eq_ok.mp h
    cases h
    exact .inl rfl
  split at h
  · cases h
  split at h
  · rename_i t _
    split at h
    · cases h
    · have hleft := congrArg Prod.fst (Except.ok.inj h)
      have hdisk := t.use_disk here d args
      rw [hleft] at hdisk
      exact hdisk
  · obtain ⟨_, -, h⟩ := bind_eq_ok.mp h
    cases h

/-- **Stand-ins for compilers keep to their files.** -/
theorem ofTools_keepsToFiles (tools : List (String × Tool)) (here : Place) (i : Invocation)
    (executable : String) : (World.ofTools tools).KeepsToFiles here i executable where
  version := by
    intro here disk left done h
    rcases ofTools_start h with rfl | ⟨hversion, -⟩
    · exact .refl left
    · exact absurd rfl hversion
  compile := by
    intro disk built done h
    rcases ofTools_start h with rfl | ⟨-, path, q, e, hpath, hq, rfl⟩
    · exact .inl (.refl built)
    · have hthird : (i.plan.arguments i.output executable)[2]? = some executable := by
        simp [BuildPlan.arguments]
      obtain rfl : executable = path := Option.some.inj (hthird.symm.trans hpath)
      exact .inr ⟨q, hq, Disk.put_keepsBut (Disk.filePlace_ok_iff.mp hq).2.2 _⟩
  program := by
    intro disk left done h
    rcases ofTools_start h with rfl | ⟨-, path, q, e, hpath, -⟩
    · exact .refl left
    · cases hpath

/-- A stand-in for a known compiler is started, unless an argument is too long. -/
theorem ofTools_start_compiler {tools : List (String × Tool)} {t : Tool} (c : Compiler)
    (ht : tools.lookup c.command = some t) {args : List String}
    (hshort : ∀ a ∈ args, a.utf8ByteSize ≤ argumentLimit) (here : Place) (d : Disk) :
    (World.ofTools tools).start here d c.command args = .ok (t.use here d args) := by
  have hslash : c.command.toList.contains '/' = false := by cases c <;> decide
  have hfile : Path.namesDirectory c.command = false := by cases c <;> decide
  have hargs : args.any (argumentLimit < ·.utf8ByteSize) = false := by
    simpa using hshort
  simp only [World.ofTools, hslash, hfile, ht, hargs]
  rfl

/-- **Stand-ins for compilers work** if they have a program to leave. -/
theorem ofTools_leavesProgram {tools : List (String × Tool)} {t : Tool} {e : Executable}
    (ht : tools.lookup i.plan.compiler.command = some t) (he : t.product = some e)
    (hversion : i.output ≠ "--version")
    (hshort : ∀ a ∈ i.plan.arguments i.output executable, a.utf8ByteSize ≤ argumentLimit)
    (here : Place) : (World.ofTools tools).LeavesProgram here i executable where
  version := by
    intro disk
    have hargs : ∀ a ∈ ["--version"], a.utf8ByteSize ≤ argumentLimit := by decide
    exact ⟨_, _, ofTools_start_compiler _ ht hargs here disk, .refl disk⟩
  compile := by
    intro disk q hq
    have hhead : (i.plan.arguments i.output executable).head? ≠ some "--version" := by
      simpa [BuildPlan.arguments] using hversion
    have hthird : (i.plan.arguments i.output executable)[2]? = some executable := by
      simp [BuildPlan.arguments]
    have hleft : (t.use here disk (i.plan.arguments i.output executable)).1 =
        disk.put q (.program e) := by
      unfold Tool.use Tool.leave
      rw [if_neg hhead, he, hthird]
      simp only [hq]
    exact ⟨e, _, (ofTools_start_compiler _ ht hshort here disk).trans
      (congrArg Except.ok (Prod.ext hleft rfl))⟩
  program := (ofTools_keepsToFiles tools here i executable).program

end World

/-! ## 4. Sources and executables -/

/-- **A build keeps its source, unless the source has the extension of an executable.** The
executable is compiled from the unit that was written, and lies at another path. Where the processes
of the build keep to their files, the source stays as it was. Only where the last name of the source
ends with `.out` the two paths are the same; a compiler that works then leaves no source. -/
theorem build_keeps_source_unless_out_named (w : World) (m : Machine) (args : List String)
    (i : Invocation) (product : Product) (saved : Disk) (hargs : readArguments args = .ok i)
    (hasked : i.build = true ∨ i.run = true) (hy : w.Yields m i product)
    (hs : w.Saved m i product.code saved) :
    (Path.executable i.output = i.output ↔ Path.OutNamed i.output) ∧
    (∃ trace, (w.execute m args).2.started = trace ++ m.started ∧
      w.BuildTrace m.here i product.code (Path.executable i.output) trace) ∧
    (¬ Path.OutNamed i.output → w.KeepsToFiles m.here i (Path.executable i.output) →
      (w.execute m args).2.disk.readText m.here i.output = .ok product.code) ∧
    (Path.OutNamed i.output → w.LeavesProgram m.here i (Path.executable i.output) →
      (w.execute m args).2.disk.readText m.here i.output = .error .notText) := by
  obtain ⟨hsource, hdirectory⟩ := hs.directory
  have hsame := Path.executable_eq_self_iff hsource
  have hfollows := w.followsUp (m.withUnit i product saved) i (Path.executable i.output)
  obtain ⟨trace, hstarted, htrace, -⟩ := hfollows.trace hs.read
  rw [w.execute_eq_runs m hargs, World.runs_of_saved hy hs]
  refine ⟨hsame, ⟨trace, hstarted, htrace⟩, fun hnamed hw => ?_, fun hnamed hw => ?_⟩
  · refine hfollows.keeps_source hw (fun d q hq hl => ?_) hs.read
    obtain ⟨hexecutable, hl', -⟩ := Disk.filePlace_ok_iff.mp hq
    exact Disk.locate_executable_ne hsource hnamed hexecutable hl hl'
  · rw [hsame.mpr hnamed] at hfollows hw ⊢
    exact (hfollows.loses_source hasked hw hsource hdirectory hs.read).readText

/-- On the workbench a source whose name is nothing but the extension is kept, and one with a name
before it is lost. -/
theorem workshop_keeps_source :
    (∃ product,
      workbench.Yields workshop { input := "p.json", output := "a.out/.out", run := true } product ∧
      (workbench.execute workshop ["p.json", "-o", "a.out/.out", "--run"]).2.disk.readText []
        "a.out/.out" = .ok product.code) ∧
    (workbench.execute workshop ["p.json", "-o", "x.out", "--build"]).2.disk.readText [] "x.out" =
      .error .notText := by
  constructor
  · have hdone : (workbench.execute workshop ["p.json", "-o", "a.out/.out", "--run"]).1 =
        .done := by
      decide +kernel
    obtain ⟨product, saved, hy, hs⟩ := World.saved_of_done
      (i := { input := "p.json", output := "a.out/.out", run := true }) rfl hdone
    have hpath : Path.executable "a.out/.out" ≠ "a.out/.out" := by decide +kernel
    obtain ⟨hsame, -, hkept, -⟩ := build_keeps_source_unless_out_named workbench workshop
      ["p.json", "-o", "a.out/.out", "--run"] _ product saved rfl (.inr rfl) hy hs
    exact ⟨product, hy,
      hkept (fun hnamed => hpath (hsame.mpr hnamed)) (World.ofTools_keepsToFiles _ _ _ _)⟩
  · have hdone : (workbench.execute workshop ["p.json", "-o", "x.out", "--build"]).1 = .done := by
      decide +kernel
    obtain ⟨product, saved, hy, hs⟩ := World.saved_of_done
      (i := { input := "p.json", output := "x.out", build := true }) rfl hdone
    have hpath : Path.executable "x.out" = "x.out" := by decide +kernel
    obtain ⟨hsame, -, -, hlost⟩ := build_keeps_source_unless_out_named workbench workshop
      ["p.json", "-o", "x.out", "--build"] _ product saved rfl (.inl rfl) hy hs
    refine hlost (hsame.mp hpath) ?_
    rw [hpath]
    exact World.ofTools_leavesProgram rfl rfl (by decide) (by decide +kernel) _

/-- A source with the extension of an executable is lost where the compiler works: the compiler is
told to write where it reads. -/
theorem workshop_loses_source :
    readArguments ["p.json", "-o", "x.out", "--build"] =
      .ok { input := "p.json", output := "x.out", build := true } ∧
    Path.executable "x.out" = "x.out" ∧
    (workbench.execute workshop ["p.json", "-o", "x.out", "--build"]).1 = .done ∧
    (workbench.execute workshop ["p.json", "-o", "x.out", "--build"]).2.started.map Started.args =
      [["x.out", "-o", "x.out", "-lraylib", "-lm"], ["--version"]] ∧
    workbench.LeavesProgram [] { input := "p.json", output := "x.out", build := true } "x.out" ∧
    (workbench.execute workshop ["p.json", "-o", "x.out", "--build"]).2.disk.at? ["x.out"] =
      some (.program {}) := by
  refine ⟨rfl, ?_, ?_, ?_, ?_, ?_⟩
  · decide +kernel
  · decide +kernel
  · decide +kernel
  · exact World.ofTools_leavesProgram rfl rfl (by decide) (by decide +kernel) _
  · decide +kernel

end Lowering
