import Lowering.CommandLine.Arguments

/-!
# Commands of the compiler

A build is set up by steps that come in any number and order. Some replace what an earlier one said,
the others add to it, and no step reads what another one wrote. So of the first kind only the last
step counts, of the second all of them in their order, and the command says nothing else about the
row of steps.

* `Setting`, `BuildPlan.ofSettings` -- the steps, and the plan after a row of them;
* `foldl_replaces`, `foldl_accumulates` -- what a row of steps leaves in a field of either kind;
* `SameSettings` -- rows of steps that differ only in what does not count;
* `command_normal_form` -- the command of any row of steps.
-/

namespace Lowering

/-! ## 1. Steps -/

/-- A step that sets up a build. -/
inductive Setting where
  | compiler (c : Compiler)
  | optimization (level : UInt8)
  | debugInfo (on : Bool)
  | flag (flag : String)
  | includeDir (dir : String)
  | libraryDir (dir : String)
  | libraries (libraries : List String)
deriving DecidableEq, Repr

namespace Setting

def compiler? : Setting → Option Compiler
  | .compiler c => some c
  | _ => none

def optimization? : Setting → Option UInt8
  | .optimization level => some level
  | _ => none

def debugInfo? : Setting → Option Bool
  | .debugInfo on => some on
  | _ => none

def flag? : Setting → Option String
  | .flag f => some f
  | _ => none

def includeDir? : Setting → Option String
  | .includeDir dir => some dir
  | _ => none

def libraryDir? : Setting → Option String
  | .libraryDir dir => some dir
  | _ => none

def libraries? : Setting → Option (List String)
  | .libraries libs => some libs
  | _ => none

/-- What the last step of a kind says. -/
def last? {α : Type} (what : Setting → Option α) (settings : List Setting) : Option α :=
  (settings.filterMap what).getLast?

end Setting

namespace BuildPlan

/-- The plan after a step. -/
def set (p : BuildPlan) : Setting → BuildPlan
  | .compiler c => p.withCompiler c
  | .optimization level => p.withOptimization level
  | .debugInfo on => p.withDebugInfo on
  | .flag flag => p.addFlag flag
  | .includeDir dir => p.addIncludeDir dir
  | .libraryDir dir => p.addLibraryDir dir
  | .libraries libraries => p.withLibraries libraries

/-- The plan after steps one after the other. -/
def ofSettings (settings : List Setting) : BuildPlan := settings.foldl set {}

end BuildPlan

/-! ## 2. Rows of steps -/

section Rows

variable {σ κ α : Type} {step : σ → κ → σ} {what : κ → Option α}

/-- **A field that steps replace** holds what the last of them said. -/
theorem foldl_replaces (field : σ → α)
    (h : ∀ s k, field (step s k) = (what k).getD (field s)) (s : σ) (ks : List κ) :
    field (ks.foldl step s) = (ks.filterMap what).getLast?.getD (field s) := by
  induction ks generalizing s with
  | nil => rfl
  | cons k rest ih =>
    rw [List.foldl_cons, ih, h]
    cases hk : what k with
    | none => rw [List.filterMap_cons_none hk, Option.getD_none]
    | some a =>
      rw [List.filterMap_cons_some hk, List.getLast?_cons, Option.getD_some, Option.getD_some]

/-- **A field that steps add to** holds what all of them said, in their order. -/
theorem foldl_accumulates (field : σ → List α)
    (h : ∀ s k, field (step s k) = (what k).elim (field s) fun a => field s ++ [a])
    (s : σ) (ks : List κ) : field (ks.foldl step s) = field s ++ ks.filterMap what := by
  induction ks generalizing s with
  | nil => exact (List.append_nil _).symm
  | cons k rest ih =>
    rw [List.foldl_cons, ih, h]
    cases hk : what k with
    | none => rw [List.filterMap_cons_none hk, Option.elim_none]
    | some a =>
      rw [List.filterMap_cons_some hk, Option.elim_some, List.append_assoc, List.singleton_append]

end Rows

namespace BuildPlan

variable (settings : List Setting)

theorem ofSettings_compiler :
    (ofSettings settings).compiler = (Setting.last? Setting.compiler? settings).getD .gcc := by
  have hstep : ∀ p s, (set p s).compiler = (Setting.compiler? s).getD p.compiler :=
    fun p s => by cases s <;> rfl
  exact foldl_replaces compiler hstep {} settings

/-- A level is cut to three when it is set, so the last step counts with what is left of it. -/
theorem ofSettings_optimization :
    (ofSettings settings).optimization =
      min ((Setting.last? Setting.optimization? settings).getD 0) 3 := by
  have hstep : ∀ p s, (set p s).optimization =
      ((Setting.optimization? s).map (min · 3)).getD p.optimization :=
    fun p s => by cases s <;> rfl
  have hcut := foldl_replaces optimization hstep {} settings
  rw [← List.map_filterMap, List.getLast?_map] at hcut
  refine hcut.trans ?_
  unfold Setting.last?
  cases (settings.filterMap Setting.optimization?).getLast? with
  | none => rfl
  | some level => rfl

theorem ofSettings_debugInfo :
    (ofSettings settings).debugInfo = (Setting.last? Setting.debugInfo? settings).getD false := by
  have hstep : ∀ p s, (set p s).debugInfo = (Setting.debugInfo? s).getD p.debugInfo :=
    fun p s => by cases s <;> rfl
  exact foldl_replaces debugInfo hstep {} settings

theorem ofSettings_libraries :
    (ofSettings settings).libraries = (Setting.last? Setting.libraries? settings).getD
      ["raylib", "m"] := by
  have hstep : ∀ p s, (set p s).libraries = (Setting.libraries? s).getD p.libraries :=
    fun p s => by cases s <;> rfl
  exact foldl_replaces libraries hstep {} settings

theorem ofSettings_includeDirs :
    (ofSettings settings).includeDirs = settings.filterMap Setting.includeDir? := by
  have hstep : ∀ p s, (set p s).includeDirs =
      (Setting.includeDir? s).elim p.includeDirs fun dir => p.includeDirs ++ [dir] :=
        fun p s => by cases s <;> rfl
  exact foldl_accumulates includeDirs hstep {} settings

theorem ofSettings_libraryDirs :
    (ofSettings settings).libraryDirs = settings.filterMap Setting.libraryDir? := by
  have hstep : ∀ p s, (set p s).libraryDirs =
      (Setting.libraryDir? s).elim p.libraryDirs fun dir => p.libraryDirs ++ [dir] :=
        fun p s => by cases s <;> rfl
  exact foldl_accumulates libraryDirs hstep {} settings

theorem ofSettings_extraFlags :
    (ofSettings settings).extraFlags = settings.filterMap Setting.flag? := by
  have hstep : ∀ p s, (set p s).extraFlags =
      (Setting.flag? s).elim p.extraFlags fun flag => p.extraFlags ++ [flag] :=
        fun p s => by cases s <;> rfl
  exact foldl_accumulates extraFlags hstep {} settings

/-- **The plan after a row of steps**, field by field. -/
theorem ofSettings_eq : ofSettings settings =
    { compiler := (Setting.last? Setting.compiler? settings).getD .gcc
      optimization := min ((Setting.last? Setting.optimization? settings).getD 0) 3
      debugInfo := (Setting.last? Setting.debugInfo? settings).getD false
      extraFlags := settings.filterMap Setting.flag?
      includeDirs := settings.filterMap Setting.includeDir?
      libraryDirs := settings.filterMap Setting.libraryDir?
      libraries := (Setting.last? Setting.libraries? settings).getD ["raylib", "m"] } := by
  rw [← ofSettings_compiler, ← ofSettings_optimization, ← ofSettings_debugInfo,
    ← ofSettings_extraFlags, ← ofSettings_includeDirs, ← ofSettings_libraryDirs,
    ← ofSettings_libraries]

end BuildPlan

/-! ## 3. Commands -/

/-- **Rows of steps that differ only in what does not count**: the last step of every kind that
replaces says the same, and those of every kind that adds are the same in the same order. -/
structure SameSettings (settings settings' : List Setting) : Prop where
  compiler : Setting.last? Setting.compiler? settings = Setting.last? Setting.compiler? settings'
  optimization : Setting.last? Setting.optimization? settings =
    Setting.last? Setting.optimization? settings'
  debugInfo : Setting.last? Setting.debugInfo? settings = Setting.last? Setting.debugInfo? settings'
  libraries : Setting.last? Setting.libraries? settings = Setting.last? Setting.libraries? settings'
  includeDirs : settings.filterMap Setting.includeDir? = settings'.filterMap Setting.includeDir?
  libraryDirs : settings.filterMap Setting.libraryDir? = settings'.filterMap Setting.libraryDir?
  flags : settings.filterMap Setting.flag? = settings'.filterMap Setting.flag?

theorem SameSettings.plan_eq {settings settings' : List Setting}
    (h : SameSettings settings settings') :
    BuildPlan.ofSettings settings = BuildPlan.ofSettings settings' := by
  rw [BuildPlan.ofSettings_eq, BuildPlan.ofSettings_eq, h.compiler, h.optimization,
    h.debugInfo, h.libraries, h.includeDirs, h.libraryDirs, h.flags]

/-- The steps that a command line takes. -/
def Invocation.settings (i : Invocation) : List Setting :=
  [.compiler i.compiler, .optimization i.optimization, .debugInfo i.debugInfo] ++
    i.includeDirs.map .includeDir ++
    i.libraryDirs.map .libraryDir ++ i.flags.map .flag ++
    if i.libraries.isEmpty then [] else [.libraries i.libraries]

theorem filterMap_nothing {α β : Type} (l : List α) :
    l.filterMap (fun _ => (none : Option β)) = [] :=
  List.filterMap_eq_nil_iff.mpr fun _ _ => rfl

/-- A command line sets up its build by its steps. -/
theorem Invocation.plan_eq_ofSettings (i : Invocation) :
    i.plan = BuildPlan.ofSettings i.settings := by
  rw [BuildPlan.ofSettings_eq]
  unfold Invocation.plan Invocation.settings Setting.last?
  -- the steps of a kind are read off the pieces of the row
  cases i.libraries.isEmpty <;>
    simp only [List.filterMap_append, List.filterMap_cons, List.filterMap_nil, List.filterMap_map,
      Function.comp_def, Setting.compiler?, Setting.optimization?, Setting.debugInfo?,
      Setting.includeDir?, Setting.libraryDir?, Setting.flag?, Setting.libraries?,
      filterMap_nothing, List.filterMap_some, Bool.false_eq_true, ↓reduceIte, List.append_nil,
      List.nil_append] <;>
    rfl

/-- A level that was cut to three, as a number. -/
theorem toNat_cut (level : UInt8) : (min level 3).toNat = min 3 level.toNat := by
  show (if level ≤ 3 then level else 3).toNat = _
  by_cases h : level ≤ 3
  · rw [if_pos h]
    exact (Nat.min_eq_right (UInt8.le_iff_toNat_le.mp h)).symm
  · rw [if_neg h]
    exact (Nat.min_eq_left (Nat.le_of_not_le fun hle => h (UInt8.le_iff_toNat_le.mpr hle))).symm

/-- **The normal form of a command.** After any row of steps, the compiler is the last one that was
chosen, and its arguments are the source and the output, the last level cut to three unless that is
zero, the request for debug information if the last step of that kind made it, all directories of
headers, all directories of libraries and all flags in their order, and the libraries of the last
step that chose them. Rows of steps that agree in this give the same command, and so does a command
line that takes such steps. -/
theorem command_normal_form (settings : List Setting) :
    let plan := BuildPlan.ofSettings settings
    let level := min 3 ((Setting.last? Setting.optimization? settings).getD 0).toNat
    plan.compiler.command = ((Setting.last? Setting.compiler? settings).getD .gcc).command ∧
    (∀ source output, plan.arguments source output =
      [source, "-o", output] ++
      (if 0 < level then ["-O" ++ decimal level] else []) ++
      (if Setting.last? Setting.debugInfo? settings = some true then ["-g"] else []) ++
      (settings.filterMap Setting.includeDir?).flatMap (fun dir => ["-I", dir]) ++
      (settings.filterMap Setting.libraryDir?).flatMap (fun dir => ["-L", dir]) ++
      settings.filterMap Setting.flag? ++
      ((Setting.last? Setting.libraries? settings).getD ["raylib", "m"]).map ("-l" ++ ·)) ∧
    (∀ settings', SameSettings settings settings' →
      (BuildPlan.ofSettings settings').compiler.command = plan.compiler.command ∧
      ∀ source output, (BuildPlan.ofSettings settings').arguments source output =
        plan.arguments source output) ∧
    ∀ i : Invocation, SameSettings settings i.settings → i.plan = plan := by
  intro plan level
  have hplan : plan = _ := BuildPlan.ofSettings_eq settings
  have hlevel : plan.optimization.toNat = level := by
    rw [hplan]
    exact toNat_cut _
  refine ⟨by rw [hplan], fun source output => ?_, fun settings' h => ?_, fun i h => ?_⟩
  · have hpositive : 0 < plan.optimization ↔ 0 < level := by
      rw [← hlevel]
      exact UInt8.lt_iff_toNat_lt
    have hdebug : plan.debugInfo = true ↔
        Setting.last? Setting.debugInfo? settings = some true := by
      rw [hplan]
      cases Setting.last? Setting.debugInfo? settings with
      | none => simp
      | some on => simp
    unfold BuildPlan.arguments
    simp only [hpositive, hdebug, hlevel]
    rw [hplan]
  · rw [← h.plan_eq]
    exact ⟨rfl, fun _ _ => rfl⟩
  · rw [i.plan_eq_ofSettings, ← h.plan_eq]

/-- Steps that take back what they said before. -/
def wavering : List Setting :=
  [.optimization 7, .libraries [], .includeDir "inc", .flag "-Wall", .debugInfo true,
    .compiler .clang, .libraryDir "lib", .includeDir "vendor", .libraries ["m"], .optimization 2,
    .debugInfo false]

/-- The steps that count of these, in another order. -/
def steady : List Setting :=
  [.libraryDir "lib", .libraries ["m"], .includeDir "inc", .optimization 2,
    .includeDir "vendor", .flag "-Wall", .debugInfo false, .compiler .clang]

/-- Both rows give the same command. -/
theorem wavering_steady : SameSettings wavering steady ∧
    (BuildPlan.ofSettings steady).compiler.command = "clang" ∧
    (BuildPlan.ofSettings steady).arguments "a.c" "a.out" =
      ["a.c", "-o", "a.out", "-O2", "-I", "inc", "-I", "vendor", "-L", "lib", "-Wall", "-lm"] := by
  have hsame : SameSettings wavering steady := ⟨rfl, rfl, rfl, rfl, rfl, rfl, rfl⟩
  obtain ⟨hcommand, hargs, hagree, -⟩ := command_normal_form wavering
  obtain ⟨hcommand', hargs'⟩ := hagree steady hsame
  refine ⟨hsame, hcommand'.trans (hcommand.trans rfl), ?_⟩
  rw [hargs', hargs]
  decide +kernel

end Lowering
