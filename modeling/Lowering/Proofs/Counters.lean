import Lowering.Proofs.Acceptance
import Lowering.Proofs.Reruns
import Lowering.Proofs.Residues

/-!
# What a generator counts

A generator counts a declaration before it works on it, so a run that is refused has counted the
declaration that it was refused at. Lines are counted only at the end of a run, from the text, and
each of them has its line end there. Counters are kept from run to run.

* `lineCount_of_ended` -- a text that ends with a line end has as many lines as line ends;
* `Generator.Enters`, `Generator.StopsIn`, `StopsAt` -- how far a run comes;
* `Context.allocated` -- the types that the second pass counts, with their positions;
* `counters_exact` -- what every run of a generator adds to its counters.
-/

namespace Lowering

/-! ## 1. Lines of a unit -/

theorem lineCount_go_of_ended (l : List Char) (begun : Bool) :
    lineCount.go (l ++ ['\n']) begun = (l ++ ['\n']).count '\n' := by
  induction l generalizing begun with
  | nil => rfl
  | cons ch rest ih =>
    rw [List.cons_append, lineCount.go, List.count_cons]
    by_cases hch : ch = '\n'
    · rw [if_pos hch, ih, if_pos (beq_iff_eq.mpr hch)]
    · rw [if_neg hch, ih, if_neg (mt beq_iff_eq.mp hch), Nat.add_zero]

/-- **A text that ends with a line end has as many lines as line ends**, wherever else they stand in
it. -/
theorem lineCount_of_ended (s : String) :
    lineCount (s ++ "\n") = (s ++ "\n").toList.count '\n' := by
  unfold lineCount
  rw [String.toList_append]
  exact lineCount_go_of_ended s.toList false

theorem render_ended (level : Nat) {rows : List Row} (h : rows ≠ []) :
    ∃ s, render level rows = s ++ "\n" := by
  induction rows with
  | nil => exact absurd rfl h
  | cons row rest ih =>
    cases rest with
    | nil =>
      cases row with
      | line depth text => exact ⟨margin (level + depth) ++ text, String.append_empty⟩
      | blank => exact ⟨"", rfl⟩
    | cons next rest =>
      obtain ⟨s, hs⟩ := ih (List.cons_ne_nil next rest)
      refine ⟨row.render level ++ s, ?_⟩
      rw [render, hs, String.append_assoc]

/-- The lines of a unit are its line ends. -/
theorem Context.lineCount_unitText (c : Context) (ν : Spelling) :
    lineCount (c.unitText ν) = (c.unitText ν).toList.count '\n' := by
  have hrows : c.rows ν ≠ [] := List.append_ne_nil_of_right_ne_nil _ (List.cons_ne_nil _ _)
  obtain ⟨s, hs⟩ := render_ended 0 hrows
  unfold Context.unitText
  rw [hs]
  exact lineCount_of_ended s

/-! ## 2. How far a run comes -/

/-- Writes the header lines. -/
def defineHeaders (c : Context) : Pass Unit := do
  onDraft (c.options.headers.forM fun h => writeLine h)
  onDraft (onPage (·.blank))

/-- A run enters a pass with a job: the header lines are written, and the passes before it are
done. -/
inductive Generator.Enters (g : Generator) : PassKind → Job → Prop where
  | types {job : Job}
      (h : defineHeaders g.context { names := g.names, metrics := g.metrics } = .ok () job) :
      Enters g .types job
  | allocators {job job' : Job} (h : Enters g .types job)
      (hrun : defineTypes g.context job = .ok () job') :
      Enters g .allocators job'
  | functions {job job' : Job} (h : Enters g .allocators job)
      (hrun : defineAllocators g.context job = .ok () job') : Enters g .functions job'

/-- **A run stops in a pass**: it enters the pass and is refused there. -/
def Generator.StopsIn (g : Generator) (kind : PassKind) (r : Refusal) : Prop :=
  ∃ job job', g.Enters kind job ∧ kind.run g.context job = .error r job'

/-- **Declarations stop at a position**: those before it are worked on, and the one there is
refused. -/
def StopsAt {α : Type} (act : Nat → α → Pass Unit) (decls : List α) (job : Job) (i : Nat)
    (r : Refusal) : Prop :=
  ∃ d job' job'', decls[i]? = some d ∧ eachFrom act 0 (decls.take i) job = .ok () job' ∧
    act i d job' = .error r job''

/-- A pass and all that follow it. -/
def PassKind.onward (c : Context) : PassKind → Pass Unit
  | .types => do
    defineTypes c
    defineAllocators c
    defineFunctions c
  | .allocators => do
    defineAllocators c
    defineFunctions c
  | .functions => defineFunctions c

theorem defineHeaders_follows (c : Context) :
    Fills c.program (defineHeaders c) {} (fun _ => c.options.headers.map (.line 0) ++ [.blank]) 0 :=
  (writeLines_follows (fun h => h) c.options.headers).onDraft.andThen blank_follows.onDraft

theorem defineUnit_eq (c : Context) :
    defineUnit c = defineHeaders c >>= fun _ => PassKind.onward c .types :=
  (bind_assoc _ _ _).symm

section Passes

variable {p : Program} {act : Pass Unit} {course : Course} {rows : Spelling → List Row}
  {left : Spelling → Residue} {n k : Nat} {job job' : Job} {r : Refusal}

theorem Fills.counted_of_ok (h : Fills p act course rows n) (ht : job.names.Sound p)
    (hrun : act job = .ok () job') : job'.names.Sound p ∧ job'.metrics = job.metrics.counted n := by
  obtain ⟨-, -, rfl⟩ := h.of_ok ht (job.page, job.metrics) hrun
  exact ⟨NameTable.Sound.askAll p course.asked ht, rfl⟩

theorem Abandons.counted_of_error (l : Abandons p act course left k) (hf : course.fault = some r)
    (ht : job.names.Sound p) (hrun : act job = .error r job') :
    job'.metrics = job.metrics.counted k := by
  have hstops : act job = _ := l.stops r hf job.names (job.page, job.metrics) ht
  rw [hrun] at hstops
  cases hstops
  rfl

end Passes

namespace Generator

variable {g : Generator} {kind : PassKind} {job job' : Job} {r : Refusal}

/-- The number of declarations that were counted before a pass. -/
def countedBefore (c : Context) : PassKind → Nat
  | .types => 0
  | .allocators => PassKind.count c .types
  | .functions => PassKind.count c .types + PassKind.count c .allocators

/-- **A run enters a pass with the declarations of the passes before it counted.** -/
theorem Enters.counted (ht : g.names.Sound g.context.program) (h : g.Enters kind job) :
    job.names.Sound g.context.program ∧
      job.metrics = g.metrics.counted (countedBefore g.context kind) := by
  induction h with
  | types h =>
    obtain ⟨hsound, hmetrics⟩ := (defineHeaders_follows g.context).counted_of_ok ht h
    exact ⟨hsound, hmetrics⟩
  | allocators _ hrun ih =>
    obtain ⟨hsound, hmetrics⟩ := ih
    obtain ⟨hsound', hmetrics'⟩ := (PassKind.run_follows g.context .types).counted_of_ok hsound hrun
    refine ⟨hsound', ?_⟩
    rw [hmetrics', hmetrics, Metrics.counted_counted, countedBefore, Nat.zero_add]
    rfl
  | functions _ hrun ih =>
    obtain ⟨hsound, hmetrics⟩ := ih
    obtain ⟨hsound', hmetrics'⟩ :=
      (PassKind.run_follows g.context .allocators).counted_of_ok hsound hrun
    refine ⟨hsound', ?_⟩
    rw [hmetrics', hmetrics, Metrics.counted_counted]
    rfl

/-- From a pass that it enters on, a run is that pass and those behind it. -/
theorem Enters.onward (h : g.Enters kind job) :
    defineUnit g.context { names := g.names, metrics := g.metrics } =
      kind.onward g.context job := by
  induction h with
  | types h =>
    rw [defineUnit_eq]
    exact bind_ok h
  | allocators _ hrun ih =>
    rw [ih]
    exact bind_ok hrun
  | functions _ hrun ih =>
    rw [ih]
    exact bind_ok hrun

theorem onward_of_error (c : Context) (hrun : kind.run c job = .error r job') :
    kind.onward c job = .error r job' := by
  cases kind with
  | types => exact bind_error hrun
  | allocators => exact bind_error hrun
  | functions => exact hrun

/-- Every run enters the second pass, because the first one is never refused. -/
theorem enters_allocators (ht : g.names.Sound g.context.program) :
    ∃ job, g.Enters .allocators job := by
  obtain ⟨u, job, hheaders⟩ := ((defineHeaders_follows g.context).ok_iff ht ({}, g.metrics)).mpr rfl
  have htypes : g.Enters .types job := .types hheaders
  have hsound := (htypes.counted ht).1
  obtain ⟨u', job', hrun⟩ :=
    ((defineTypes_follows g.context).ok_iff hsound (job.page, job.metrics)).mpr
      (typesCourse_fault g.context)
  exact ⟨job', .allocators htypes hrun⟩

/-- How a run enters a pass that it stops in. -/
theorem StopsIn.entered (ht : g.names.Sound g.context.program) (h : g.StopsIn kind r) :
    (kind.course g.context).fault = some r ∧ ∃ job job', g.Enters kind job ∧
      job.names.Sound g.context.program ∧
      job.metrics = g.metrics.counted (countedBefore g.context kind) ∧
      kind.run g.context job = .error r job' := by
  obtain ⟨job, job', henters, hrun⟩ := h
  obtain ⟨hsound, hmetrics⟩ := henters.counted ht
  have hf := ((kind.run_follows g.context).error_iff hsound (job.page, job.metrics)).mp ⟨job', hrun⟩
  exact ⟨hf, job, job', henters, hsound, hmetrics, hrun⟩

/-- **A run that stops in a pass** is refused, with the declarations counted that the pass
entered. -/
theorem generate_of_stopsIn (ht : g.names.Sound g.context.program) (h : g.StopsIn kind r) :
    g.generate.1 = .error r ∧ g.generate.2.metrics =
      g.metrics.counted (countedBefore g.context kind + kind.countEntered g.context) := by
  obtain ⟨hf, job, job', henters, hsound, hmetrics, hrun⟩ := h.entered ht
  have hleft := (kind.run_leaves g.context).counted_of_error hf hsound hrun
  have hunit := henters.onward.trans (onward_of_error g.context hrun)
  unfold generate
  rw [hunit]
  refine ⟨rfl, ?_⟩
  show job'.metrics = _
  rw [hleft, hmetrics, Metrics.counted_counted]

/-- **A run is refused in the second or in the third pass.** -/
theorem generate_error_iff_stopsIn (ht : g.names.Sound g.context.program) :
    g.generate.1 = .error r ↔ g.StopsIn .allocators r ∨ g.StopsIn .functions r := by
  constructor
  · intro herror
    obtain ⟨job, henters⟩ := enters_allocators ht
    have hsame : ∀ kind r', g.StopsIn kind r' → r' = r := fun kind r' hstops =>
      Except.error.inj ((generate_of_stopsIn ht hstops).1.symm.trans herror)
    cases hallocators : defineAllocators g.context job with
    | error r' job' =>
      have hstops : g.StopsIn .allocators r' := ⟨job, job', henters, hallocators⟩
      exact .inl (hsame _ _ hstops ▸ hstops)
    | ok u job' =>
      have henters' : g.Enters .functions job' := .functions henters hallocators
      cases hfunctions : defineFunctions g.context job' with
      | error r' job'' =>
        have hstops : g.StopsIn .functions r' := ⟨job', job'', henters', hfunctions⟩
        exact .inr (hsame _ _ hstops ▸ hstops)
      | ok u' job'' =>
        have hunit := henters'.onward.trans hfunctions
        unfold generate at herror
        rw [hunit] at herror
        cases herror
  · rintro (hstops | hstops)
    · exact (generate_of_stopsIn ht hstops).1
    · exact (generate_of_stopsIn ht hstops).1

/-- **A run that writes the unit** counts all its declarations and the lines of its text. -/
theorem metrics_of_ok {code : String} (ht : g.names.Sound g.context.program)
    (hcode : g.generate.1 = .ok code) :
    lineCount code = code.toList.count '\n' ∧ g.generate.2.metrics =
      (g.metrics.counted g.context.declarationCount).recordLines
        (.ofNat (code.toList.count '\n')) := by
  have hf : g.context.course.fault = none := by
    cases hf : g.context.course.fault with
    | none => rfl
    | some r => cases (generate_of_fault ht hf).symm.trans hcode
  cases hcode.symm.trans (generate_of_ok ht hf)
  have hlines := g.context.lineCount_unitText g.namesAfter.spelling
  refine ⟨hlines, ?_⟩
  unfold generate
  rw [finished_run ht hf]
  show (g.metrics.counted _).recordLines
    (.ofNat (lineCount ("" ++ g.context.unitText g.namesAfter.spelling))) = _
  rw [String.empty_append, hlines]

end Generator

/-! ## 3. Where a pass stops -/

section First

variable {α : Type} {course : Nat → α → Course} {r : Refusal}

/-- The declarations that are entered and counted, up to the first refused one. If a declaration is
refused exactly if it is counted and bad, this is the first bad one among those that are counted. -/
theorem countP_entered (counts : α → Bool) (bad : Nat → α → Bool) {decls : List α} {i : Nat}
    (h : ∀ d ∈ decls.zipIdx i, (course d.2 d.1).fault.isSome = (counts d.1 && bad d.2 d.1))
    (hf : (eachCourse course i decls).fault = some r) :
    ∃ j, ((decls.zipIdx i).filter fun d => counts d.1).findIdx? (fun d => bad d.2 d.1) = some j ∧
      (entered course i decls).countP counts = j + 1 := by
  induction decls generalizing i with
  | nil => cases hf
  | cons d rest ih =>
    have hd : (course i d).fault.isSome = (counts d && bad i d) := h (d, i) List.mem_cons_self
    have hrest := fun hf => ih (fun d' hd' => h d' (List.mem_cons_of_mem _ hd')) (i := i + 1) hf
    rw [eachCourse_fault_cons] at hf
    rw [List.zipIdx_cons, List.filter_cons, entered, List.countP_cons]
    cases hfault : (course i d).fault with
    | some r' =>
      rw [hfault] at hd
      obtain ⟨hcounts, hbad⟩ := Bool.and_eq_true_iff.mp hd.symm
      refine ⟨0, ?_, ?_⟩
      · simp [hcounts, hbad, List.findIdx?_cons]
      · simp [hcounts]
    | none =>
      rw [hfault] at hd hf
      obtain ⟨j, hj, hcount⟩ := hrest hf
      cases hcounts : counts d with
      | false => exact ⟨j, hj, hcount⟩
      | true =>
        have hbad : bad i d = false := by
          rw [hcounts] at hd
          exact hd.symm
        refine ⟨j + 1, ?_, ?_⟩
        · simp [hbad, List.findIdx?_cons, hj]
        · simp [hcount]

/-- The first refused declaration: those before it are not refused, and those up to it are
entered. -/
theorem entered_first {decls : List α} {k : Nat} (hf : (eachCourse course k decls).fault = some r) :
    ∃ i d, decls[i]? = some d ∧ (course (k + i) d).fault = some r ∧
      (eachCourse course k (decls.take i)).fault = none ∧
        (entered course k decls).length = i + 1 := by
  induction decls generalizing k with
  | nil => cases hf
  | cons d rest ih =>
    rw [eachCourse_fault_cons] at hf
    rw [entered, List.length_cons]
    cases hfault : (course k d).fault with
    | some r' =>
      rw [hfault] at hf
      cases hf
      exact ⟨0, d, rfl, hfault, rfl, rfl⟩
    | none =>
      rw [hfault, Option.none_or] at hf
      obtain ⟨i, d', hd', hrefused, hbefore, hlength⟩ := ih hf
      refine ⟨i + 1, d', hd', ?_, ?_, ?_⟩
      · rw [← Nat.add_assoc, Nat.add_right_comm]
        exact hrefused
      · rw [List.take_succ_cons, eachCourse_fault_cons, hfault]
        exact hbefore
      · exact congrArg (· + 1) hlength

end First

/-- **The types that the second pass counts**, with their positions: those that are lowered and not
static. -/
def Context.allocated (c : Context) : List (TypeDecl × Nat) :=
  c.program.types.zipIdx.filter fun d => c.lowers d.1 && !d.1.isStatic

section Stops

variable {c : Context} {r : Refusal} {job : Job}

theorem Context.length_allocated (c : Context) :
    c.allocated.length = PassKind.count c .allocators := by
  let counts : TypeDecl → Bool := fun t => c.lowers t && !t.isStatic
  calc c.allocated.length = c.program.types.zipIdx.countP (counts ∘ Prod.fst) :=
        List.countP_eq_length_filter.symm
    _ = (c.program.types.zipIdx.map Prod.fst).countP counts := List.countP_map.symm
    _ = c.program.types.countP counts := by rw [List.zipIdx_map_fst]

/-- The second pass stops at the first type with user constructors among those that it counts. -/
theorem allocators_stop (hf : (PassKind.course c .allocators).fault = some r) :
    ∃ j, c.allocated.findIdx? (fun d => !(c.program.constructorsOf d.2).isEmpty) = some j ∧
      PassKind.countEntered c .allocators = j + 1 := by
  refine countP_entered (fun t => c.lowers t && !t.isStatic)
    (fun i _ => !(c.program.constructorsOf i).isEmpty)
    (fun d hd => ?_) hf
  rw [allocatorCourse_fault (List.mem_zipIdx_iff_getElem?.mp hd)]
  unfold constructorFault Context.hasUserConstructors
  split
  · rename_i hbad
    exact hbad.symm
  · rename_i hgood
    exact (Bool.eq_false_iff.mpr hgood).symm

/-- The third pass stops at the method that is refused. -/
theorem functions_stop (ht : job.names.Sound c.program)
    (hf : (PassKind.course c .functions).fault = some r) :
    ∃ i, StopsAt (defineFunction c) c.program.methods job i r ∧
      PassKind.countEntered c .functions = i + 1 := by
  obtain ⟨i, m, hm, hrefused, hbefore, hlength⟩ := entered_first hf
  rw [Nat.zero_add] at hrefused
  have hfollows : Fills c.program (eachFrom (defineFunction c) 0 (c.program.methods.take i)) _ _
      ((c.program.methods.take i).countP fun _ => true) :=
    eachFrom_follows (functionRows c) (defineFunction_follows c) 0 _
  obtain ⟨u, job', hrun⟩ := (hfollows.ok_iff ht (job.page, job.metrics)).mpr hbefore
  have ht' := (hfollows.counted_of_ok ht hrun).1
  obtain ⟨job'', hstop⟩ :=
    ((defineFunction_follows c i m).error_iff ht' (job'.page, job'.metrics)).mpr hrefused
  exact ⟨i, ⟨m, job', job'', hm, hrun, hstop⟩, hlength⟩

end Stops

/-! ## 4. The counters after a run -/

/-- **Counters are exact.** After any number of runs of a generator, the next run counts as follows.
If it writes the unit, it adds the lowered types, those that are not static once more, and all
methods, and it adds the line ends of its text, which are its lines. It is refused exactly if it
stops in the second or third pass, and then it adds no lines. If it stops in the second pass, it
adds the lowered types and those that the pass counts up to the first one with user constructors. If
it stops in the third pass, it adds all types of both passes and the methods up to the refused
one. -/
theorem counters_exact {p : Program} {o : Options} {g : Generator}
    (hg : Generator.ofProgram p o = .ok g) (n : Nat) :
    let c : Context := { program := p, options := o }
    let g' := (g.runs n).2
    let before := g'.metrics
    let after := g'.generate.2.metrics
    let lowered := p.types.countP c.lowers
    (∀ code, g'.generate.1 = .ok code →
      after.declarations = before.declarations +
        .ofNat (lowered + c.allocated.length + p.methods.length) ∧
      after.lines = before.lines + .ofNat (code.toList.count '\n') ∧
        lineCount code = code.toList.count '\n') ∧
    (∀ r, (g'.generate.1 = .error r ↔ g'.StopsIn .allocators r ∨ g'.StopsIn .functions r) ∧
      (g'.generate.1 = .error r → after.lines = before.lines)) ∧
    (∀ r, g'.StopsIn .allocators r →
      ∃ j, c.allocated.findIdx? (fun d => !(p.constructorsOf d.2).isEmpty) = some j ∧
        after.declarations = before.declarations + .ofNat (lowered + (j + 1))) ∧
    ∀ r, g'.StopsIn .functions r →
      ∃ job i, g'.Enters .functions job ∧ StopsAt (defineFunction c) p.methods job i r ∧
        after.declarations = before.declarations +
          .ofNat (lowered + c.allocated.length + (i + 1)) := by
  intro c g' before after lowered
  obtain ⟨-, rfl⟩ := Generator.eq_of_ofProgram hg
  have hc : g'.context = c := Generator.runs_context _ n
  have ht : g'.names.Sound g'.context.program := Generator.runs_sound (NameTable.Sound.empty p) n
  have hstopped := fun kind r (h : g'.StopsIn kind r) => (Generator.generate_of_stopsIn ht h).2
  refine ⟨fun code hcode => ?_, fun r =>
    ⟨Generator.generate_error_iff_stopsIn ht, fun herror => ?_⟩, fun r hstops => ?_,
    fun r hstops => ?_⟩
  · obtain ⟨hlines, hmetrics⟩ := Generator.metrics_of_ok ht hcode
    rw [hc] at hmetrics
    refine ⟨?_, congrArg Metrics.lines hmetrics, hlines⟩
    rw [c.length_allocated, Nat.add_assoc]
    exact congrArg Metrics.declarations hmetrics
  · rcases (Generator.generate_error_iff_stopsIn ht).mp herror with hstops | hstops
    · exact (congrArg Metrics.lines (hstopped _ _ hstops) :)
    · exact (congrArg Metrics.lines (hstopped _ _ hstops) :)
  · obtain ⟨j, hj, hcount⟩ := allocators_stop (hstops.entered ht).1
    have hafter := congrArg Metrics.declarations (hstopped _ _ hstops)
    rw [hcount, hc] at hafter
    rw [hc] at hj
    exact ⟨j, hj, hafter⟩
  · obtain ⟨hf, job, -, henters, hsound, -⟩ := hstops.entered ht
    obtain ⟨i, hi, hcount⟩ := functions_stop hsound hf
    have hafter := congrArg Metrics.declarations (hstopped _ _ hstops)
    rw [hcount, hc] at hafter
    rw [hc] at hi
    rw [c.length_allocated]
    exact ⟨job, i, henters, hi, hafter⟩

/-- A yard with a dock, a static chart, and a ship that comes with its own constructor. -/
def yard : Program where
  types := [.classNamed "Dock", (TypeDecl.classNamed "Chart").asStatic, .classNamed "Ship"]
  methods := [(MethodDecl.instanceOf ⟨0⟩ "open").withBody []]
  constructors := [{ owner := ⟨2⟩ }]

/-- Every run of the yard stops at the ship, the second type that is allocated: it counts three
types and two allocators, and no lines. -/
theorem yard_counters_exact :
    let g : Generator := { context := { program := yard } }
    let g' := (g.runs 1).2
    let r : Refusal :=
      .unsupported "ConstructorDeclaration" "user constructors on 'Ship' are not lowered"
    Generator.ofProgram yard {} = .ok g ∧ g.StopsIn .allocators r ∧ g'.StopsIn .allocators r ∧
      g'.metrics.declarations = 5 ∧ g'.generate.2.metrics.declarations = 10 ∧
        g'.generate.2.metrics.lines = 0 := by
  intro g g' r
  have hg : Generator.ofProgram yard {} = .ok g := rfl
  have hstops : ∀ g' : Generator, g'.context = g.context → g'.names.Sound g'.context.program →
      g'.StopsIn .allocators r := by
    intro g' hc ht
    obtain ⟨job, henters⟩ := Generator.enters_allocators ht
    have hsound := (henters.counted ht).1
    have hf : (PassKind.course g'.context .allocators).fault = some r := by
      rw [hc]
      decide +kernel
    obtain ⟨job', hrun⟩ :=
      ((PassKind.run_follows _ _).error_iff hsound (job.page, job.metrics)).mpr hf
    exact ⟨job, job', henters, hrun⟩
  have ht := NameTable.Sound.empty yard
  have hfirst := hstops g rfl ht
  have hsecond := hstops g' (g.runs_context 1) (Generator.runs_sound ht 1)
  have hship : (Context.allocated { program := yard }).findIdx?
      (fun d => !(yard.constructorsOf d.2).isEmpty) =
      some 1 := by decide +kernel
  obtain ⟨-, hlines, hcounted, -⟩ := counters_exact hg 0
  obtain ⟨-, hlines', hcounted', -⟩ := counters_exact hg 1
  obtain ⟨j, hj, hdeclarations⟩ := hcounted r hfirst
  obtain ⟨j', hj', hdeclarations'⟩ := hcounted' r hsecond
  cases hj.symm.trans hship
  cases hj'.symm.trans hship
  have hfive : g'.metrics.declarations = 5 := hdeclarations.trans (by decide +kernel)
  have hten : g'.generate.2.metrics.declarations = 10 := by
    rw [hdeclarations', hfive]
    decide +kernel
  have hnone : g'.metrics.lines = 0 := (hlines r).2 ((hlines r).1.mpr (.inl hfirst))
  have hnone' : g'.generate.2.metrics.lines = 0 := by
    rw [(hlines' r).2 ((hlines' r).1.mpr (.inl hsecond))]
    exact hnone
  exact ⟨hg, hfirst, hsecond, hfive, hten, hnone'⟩

end Lowering
