import Lowering.Proofs.UnitCourse

/-!
# Runs of one generator

A generator keeps its names from run to run, also from a run that was refused in the middle. All of
its runs give the same answer nevertheless, and all names are there after the first one.

* `Generator.runs` -- runs one after the other;
* `Generator.answer` -- what a run from a sound table answers;
* `runs_agree` -- all runs of a generator answer alike, and only the first one grants names.
-/

namespace Lowering

namespace Generator

/-- The answers of `n` runs one after the other, and the generator after them. -/
def runs (g : Generator) : Nat → List (Except Refusal String) × Generator
  | 0 => ([], g)
  | n + 1 =>
    let (answer, g) := g.generate
    let (answers, g) := runs g n
    (answer :: answers, g)

/-- What a run answers: the first fault of the course, or the text with the names after the run. -/
def answer (g : Generator) : Except Refusal String :=
  match g.context.course.fault with
  | some r => .error r
  | none => .ok (g.context.unitText g.namesAfter.spelling)

variable {g : Generator}

theorem generate_answer (ht : g.names.Sound g.context.program) : g.generate.1 = g.answer := by
  unfold answer
  cases hf : g.context.course.fault with
  | none => exact generate_of_ok ht hf
  | some r => exact generate_of_fault ht hf

/-- The table after a run is sound. -/
theorem generate_sound (ht : g.names.Sound g.context.program) :
    g.generate.2.names.Sound g.generate.2.context.program := by
  rw [generate_names ht, generate_context]
  exact NameTable.Sound.askAll g.context.program _ ht

/-- **A second run finds all names granted.** -/
theorem generate_namesAfter (ht : g.names.Sound g.context.program) :
    g.generate.2.namesAfter = g.generate.2.names := by
  unfold namesAfter
  rw [generate_context, generate_names ht]
  exact NameTable.askAll_again ht g.context.course.asked

/-- The answer after a run is the one before it. -/
theorem generate_answer_again (ht : g.names.Sound g.context.program) :
    g.generate.2.answer = g.answer := by
  unfold answer
  rw [generate_context, generate_namesAfter ht, generate_names ht]

theorem runs_context (g : Generator) (n : Nat) : (g.runs n).2.context = g.context := by
  induction n generalizing g with
  | zero => rfl
  | succ n ih =>
    show (g.generate.2.runs n).2.context = g.context
    rw [ih, generate_context]

/-- The table after any number of runs is sound. -/
theorem runs_sound (ht : g.names.Sound g.context.program) (n : Nat) :
    (g.runs n).2.names.Sound (g.runs n).2.context.program := by
  induction n generalizing g with
  | zero => exact ht
  | succ n ih => exact ih (generate_sound ht)

/-- Runs of a generator that has all its names. -/
theorem runs_of_settled (ht : g.names.Sound g.context.program)
    (hn : g.namesAfter = g.names) (n : Nat) :
    (g.runs n).1 = List.replicate n g.answer ∧ (g.runs n).2.names = g.names := by
  induction n generalizing g with
  | zero => exact ⟨rfl, rfl⟩
  | succ n ih =>
    obtain ⟨hanswers, hnames⟩ := ih (generate_sound ht) (generate_namesAfter ht)
    refine ⟨?_, ?_⟩
    · show g.generate.1 :: (g.generate.2.runs n).1 = _
      rw [hanswers, generate_answer ht, generate_answer_again ht]
      rfl
    · show (g.generate.2.runs n).2.names = g.names
      rw [hnames, generate_names ht, hn]

/-- **All runs of a generator agree.** However often a generator runs, every run gives the answer of
the first one, text or refusal, and the table of names stays as the first run left it. -/
theorem runs_agree {p : Program} {o : Options} (hg : ofProgram p o = .ok g) {n : Nat} (hn : 1 ≤ n) :
    (g.runs n).1 = List.replicate n g.generate.1 ∧ (g.runs n).2.names = g.generate.2.names := by
  have ht : g.names.Sound g.context.program := by
    rw [(eq_of_ofProgram hg).2]
    exact NameTable.Sound.empty p
  obtain ⟨k, rfl⟩ := Nat.exists_eq_add_of_le' hn
  obtain ⟨hanswers, hnames⟩ := runs_of_settled (generate_sound ht) (generate_namesAfter ht) k
  refine ⟨?_, hnames⟩
  show g.generate.1 :: (g.generate.2.runs k).1 = _
  rw [hanswers, generate_answer_again ht, generate_answer ht]
  rfl

/-- A program that is refused in the middle of a body, after two numbers were granted. -/
def wreck : Program where
  types := [.classNamed "Ship"]
  methods := [(MethodDecl.instanceOf ⟨0⟩ "sink").withBody
    [.expression (.call ⟨0⟩ []), .unsupported "GotoStatement"]]

/-- The wreck is refused alike in all of three runs, and its names stay. -/
theorem wreck_runs_agree :
    let g : Generator := { context := { program := wreck } }
    ofProgram wreck {} = .ok g ∧
      (g.runs 3).1 =
        List.replicate 3 (.error (.unsupported "GotoStatement" "statement kind is not lowered")) ∧
      (g.runs 3).2.names = g.generate.2.names ∧ g.generate.2.names.next = 2 := by
  intro g
  have hg : ofProgram wreck {} = .ok g := rfl
  have ht := NameTable.Sound.empty wreck
  obtain ⟨hanswers, hnames⟩ := runs_agree hg (n := 3) (by decide)
  have hfault : g.context.course.fault =
      some (.unsupported "GotoStatement" "statement kind is not lowered") := by decide +kernel
  have hnext : g.generate.2.names.next = 2 := by
    rw [generate_names ht]
    decide +kernel
  rw [generate_of_fault ht hfault] at hanswers
  exact ⟨hg, hanswers, hnames, hnext⟩

end Generator

end Lowering
