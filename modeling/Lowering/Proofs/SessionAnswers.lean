import Lowering.Proofs.Residues

/-!
# Answers of a session

A session answers an operation alike whenever it is performed, whatever was asked for before and in
between and whether it was refused. The names that an operation reads are granted at the latest when
it is performed for the first time, and from then on they stay.

* `Operation.answer` -- what an operation answers;
* `Operation.imprint`, `Operation.counted` -- what it adds to the page and to the counters;
* `Session.perform_answer`, `Session.perform_added` -- one operation;
* `Session.run_names` -- the names after a row of operations;
* `session_answers_never_change` -- one operation at two moments.
-/

namespace Lowering

/-! ## 1. What an operation answers and adds -/

namespace Operation

/-- Whether an operation lowers a part of a program or asks for a name. The others change the page
or the counters by hand. -/
def isLowering : Operation → Bool
  | .edit _ | .count _ => false
  | _ => true

variable (c : Context)

/-- What an operation answers: the refusal that ends its course, or its reply. -/
def answer (ν : Spelling) (op : Operation) : Except Refusal Reply :=
  match (op.course c).fault with
  | some r => .error r
  | none => .ok (op.reply c ν)

/-- The rows of an operation that is not refused. -/
def rows (ν : Spelling) : Operation → List Row
  | .statement s _ => s.rows c ν
  | .block ss _ => (Stmt.block ss).rows c ν
  | .pass kind => kind.rows c ν
  | _ => []

/-- What a refused operation leaves. -/
def left (ν : Spelling) : Operation → Residue
  | .statement s receiver => s.left c receiver ν
  | .block ss receiver => (Stmt.block ss).left c receiver ν
  | .pass kind => kind.left c ν
  | _ => {}

/-- **What an operation adds to the page**: its rows, or what it leaves if it is refused. -/
def imprint (ν : Spelling) (op : Operation) : Residue :=
  if (op.course c).fault.isSome then op.left c ν else { rows := op.rows c ν }

/-- The number of declarations that an operation counts. -/
def counted : Operation → Nat
  | .pass kind => kind.countEntered c
  | _ => 0

variable {c} {op : Operation} {ν ν' : Spelling}

theorem imprint_of_ok (hf : (op.course c).fault = none) :
    op.imprint c ν = { rows := op.rows c ν } := by
  unfold imprint
  rw [hf]
  rfl

theorem imprint_of_fault {r : Refusal} (hf : (op.course c).fault = some r) :
    op.imprint c ν = op.left c ν := by
  unfold imprint
  rw [hf]
  rfl

/-- A lowering that is not refused writes its rows and counts its declarations. -/
theorem effect_of_isLowering (hl : op.isLowering = true) (hf : (op.course c).fault = none)
    (rest : Page × Metrics) :
    op.effect c ν rest = (rest.1.leave (op.imprint c ν), rest.2.counted (op.counted c)) := by
  rw [imprint_of_ok hf, Page.leave_rows]
  cases op with
  | pass kind =>
    simp only [effect, rows, counted]
    rw [PassKind.countEntered_of_finished hf]
  | statement s receiver => simp only [effect, rows, counted, Metrics.counted_zero]
  | block ss receiver => simp only [effect, rows, counted, Metrics.counted_zero]
  | edit change => cases hl
  | count change => cases hl
  | _ => simp only [effect, rows, counted, Page.write_nil, Metrics.counted_zero]

/-- A refused operation that only asks for names leaves nothing. -/
theorem asked_leaves {α : Type} {p : Program} {act : Naming α} {course : Course}
    {result : Spelling → α} (h : Asks p act course result) (f : α → Reply) :
    Leaves p Job.of (f <$> onDraft (onNames act)) course fun _ rest =>
      (rest.1.leave {}, rest.2.counted 0) :=
  ((onDraft_leaves (onNames_leaves h)).map f).of_eq rfl fun _ _ => by rw [Metrics.counted_zero]

/-- **What a refused operation leaves** on the page and in the counters. -/
theorem perform_leaves (c : Context) (op : Operation) :
    Leaves c.program Job.of (op.perform c) (op.course c) fun ν rest =>
      (rest.1.leave (op.left c ν), rest.2.counted (op.counted c)) := by
  cases op with
  | expression e receiver => exact asked_leaves (e.lower_follows c receiver) Reply.text
  | arguments es receiver => exact asked_leaves (lowerArgs_follows c receiver es) Reply.texts
  | statement s receiver =>
    refine ((onDraft_leaves (s.lower_leaves c receiver)).map _).of_eq rfl fun ν rest => ?_
    simp only [left, counted, Metrics.counted_zero]
  | block ss receiver =>
    refine ((onDraft_leaves ((Stmt.block ss).lower_leaves c receiver)).map _).of_eq rfl
      fun ν rest => ?_
    simp only [left, counted, Metrics.counted_zero]
  | pass kind => exact (kind.run_leaves c).map _
  | resolve type => exact asked_leaves (resolve_follows c type) Reply.resolved
  | name key => exact asked_leaves (request_follows c.program key) Reply.text
  | edit change => exact Leaves.of_finished rfl
  | count change => exact Leaves.of_finished rfl

/-- An answer reads the spelling of the keys that its course asks for, and no other. -/
theorem answer_congr (h : ∀ k ∈ (op.course c).asked, ν k = ν' k) :
    op.answer c ν = op.answer c ν' := by
  unfold answer
  cases hf : (op.course c).fault with
  | some r => rfl
  | none => exact congrArg Except.ok ((perform_follows c op).reads hf ν ν' h).1

/-- So does what is added to a page. Rows that differ can print alike, so the pages are compared and
not the rows. -/
theorem imprint_congr (hl : op.isLowering = true) (h : ∀ k ∈ (op.course c).asked, ν k = ν' k)
    (page : Page) : page.leave (op.imprint c ν) = page.leave (op.imprint c ν') := by
  cases hf : (op.course c).fault with
  | none =>
    have heffect := congrFun ((perform_follows c op).reads hf ν ν' h).2 (page, {})
    rw [effect_of_isLowering hl hf, effect_of_isLowering hl hf] at heffect
    exact congrArg Prod.fst heffect
  | some r =>
    have hleft := congrFun ((perform_leaves c op).reads r hf ν ν' h) (page, {})
    rw [imprint_of_fault hf, imprint_of_fault hf]
    exact congrArg Prod.fst hleft

end Operation

/-! ## 2. One operation of a session -/

namespace Session

variable {s : Session} {op : Operation}

/-- The names after an operation. -/
def namesAfter (s : Session) (op : Operation) : NameTable :=
  s.job.names.askAll s.context.program (op.course s.context).asked

theorem perform_finished (ht : s.job.names.Sound s.context.program)
    (hf : (op.course s.context).fault = none) :
    s.perform op = (.ok (op.reply s.context (s.namesAfter op).spelling),
      { s with
        job := .of (s.namesAfter op)
          (op.effect s.context (s.namesAfter op).spelling (s.job.page, s.job.metrics)) }) := by
  have hrun : op.perform s.context s.job = _ :=
    (op.perform_follows s.context).ends hf s.job.names (s.job.page, s.job.metrics) ht
  unfold perform
  rw [hrun]
  rfl

theorem perform_stopped {r : Refusal} (ht : s.job.names.Sound s.context.program)
    (hf : (op.course s.context).fault = some r) :
    s.perform op = (.error r,
      { s with
        job := .of (s.namesAfter op)
          (s.job.page.leave (op.left s.context (s.namesAfter op).spelling),
            s.job.metrics.counted (op.counted s.context)) }) := by
  have hrun : op.perform s.context s.job = _ :=
    (op.perform_leaves s.context).stops r hf s.job.names (s.job.page, s.job.metrics) ht
  unfold perform
  rw [hrun]
  rfl

/-- **The answer of an operation** depends on its course and on the names after it. -/
theorem perform_answer (ht : s.job.names.Sound s.context.program) (op : Operation) :
    (s.perform op).1 = op.answer s.context (s.namesAfter op).spelling := by
  unfold Operation.answer
  cases hf : (op.course s.context).fault with
  | none => rw [perform_finished ht hf]
  | some r => rw [perform_stopped ht hf]

/-- **What a lowering adds** to the page and to the counters, refused or not. -/
theorem perform_added (ht : s.job.names.Sound s.context.program) (hl : op.isLowering = true) :
    (s.perform op).2.job.page =
        s.job.page.leave (op.imprint s.context (s.namesAfter op).spelling) ∧
      (s.perform op).2.job.metrics = s.job.metrics.counted (op.counted s.context) := by
  cases hf : (op.course s.context).fault with
  | none =>
    rw [perform_finished ht hf, Operation.effect_of_isLowering hl hf]
    exact ⟨rfl, rfl⟩
  | some r =>
    rw [perform_stopped ht hf, Operation.imprint_of_fault hf]
    exact ⟨rfl, rfl⟩

theorem perform_context (s : Session) (op : Operation) : (s.perform op).2.context = s.context := by
  unfold perform
  split <;> rfl

theorem perform_sound (ht : s.job.names.Sound s.context.program) (op : Operation) :
    (s.perform op).2.job.names.Sound (s.perform op).2.context.program := by
  rw [perform_context, perform_names ht]
  exact NameTable.Sound.askAll _ _ ht

/-! ## 3. Rows of operations -/

theorem run_context (s : Session) (ops : List Operation) : (s.run ops).2.context = s.context := by
  induction ops generalizing s with
  | nil => rfl
  | cons op rest ih =>
    show ((s.perform op).2.run rest).2.context = s.context
    rw [ih, perform_context]

/-- **The names after a row of operations**: the names of their courses were asked for. -/
theorem run_names (ht : s.job.names.Sound s.context.program) (ops : List Operation) :
    (s.run ops).2.job.names =
      s.job.names.askAll s.context.program (ops.flatMap fun op => (op.course s.context).asked) := by
  induction ops generalizing s with
  | nil => rfl
  | cons op rest ih =>
    show ((s.perform op).2.run rest).2.job.names = _
    rw [ih (perform_sound ht op), perform_context, perform_names ht, List.flatMap_cons,
      NameTable.askAll_append]

theorem run_sound (ht : s.job.names.Sound s.context.program) (ops : List Operation) :
    (s.run ops).2.job.names.Sound (s.run ops).2.context.program := by
  rw [run_context, run_names ht]
  exact NameTable.Sound.askAll _ _ ht

/-- The session after an operation and a row of others. -/
def later (s : Session) (op : Operation) (between : List Operation) : Session :=
  ((s.perform op).2.run between).2

theorem later_context (s : Session) (op : Operation) (between : List Operation) :
    (s.later op between).context = s.context := by
  unfold later
  rw [run_context, perform_context]

theorem later_sound (ht : s.job.names.Sound s.context.program) (op : Operation)
    (between : List Operation) :
    (s.later op between).job.names.Sound (s.later op between).context.program :=
  run_sound (perform_sound ht op) between

/-- **The names that an operation asks for stay.** When it is performed again, they are spelled as
they were at the first time. -/
theorem later_spelling (ht : s.job.names.Sound s.context.program) (op : Operation)
    (between : List Operation) {k : NameKey} (hk : k ∈ (op.course s.context).asked) :
    ((s.later op between).namesAfter op).spelling k = (s.namesAfter op).spelling k := by
  have hnames : (s.later op between).job.names = (s.namesAfter op).askAll s.context.program
      (between.flatMap fun op => (op.course s.context).asked) := by
    unfold later
    rw [run_names (perform_sound ht op), perform_context, perform_names ht]
    rfl
  unfold namesAfter
  rw [later_context, hnames, ← NameTable.askAll_append]
  exact NameTable.spelling_of_asked ht _ _ hk

/-- The session of a program with declared owners has no names yet. -/
theorem eq_of_ofProgram {p : Program} {o : Options} (h : ofProgram p o = .ok s) :
    s = { context := { program := p, options := o } } := by
  unfold ofProgram at h
  cases hc : Context.ofProgram p o with
  | ok c =>
    rw [hc] at h
    obtain ⟨-, rfl⟩ := Context.eq_of_ofProgram hc
    exact (Except.ok.inj h).symm
  | error r =>
    rw [hc] at h
    cases h

end Session

/-! ## 4. One operation at two moments -/

/-- **Answers of a session never change.** Let an operation be performed after any row of
operations, and again after any other row of operations. Both times it gives the same answer, text
or value or refusal. If it lowers something, it adds the same rows to the page, each time below the
level where it finds the page, opens the same number of blocks, and counts the same number of
declarations. No name that was granted before it is changed or lost, also if it is refused. -/
theorem session_answers_never_change {p : Program} {o : Options} {s : Session}
    (hs : Session.ofProgram p o = .ok s) (before between : List Operation) (op : Operation) :
    let first := (s.run before).2
    let afterFirst := (first.perform op).2
    let second := (afterFirst.run between).2
    let afterSecond := (second.perform op).2
    (second.perform op).1 = (first.perform op).1 ∧
      (op.isLowering = true →
        let added := op.imprint s.context afterFirst.job.names.spelling
        let n := op.counted s.context
        afterFirst.job.page = first.job.page.leave added ∧
          afterSecond.job.page = second.job.page.leave added ∧
          afterFirst.job.metrics = first.job.metrics.counted n ∧
          afterSecond.job.metrics = second.job.metrics.counted n) ∧
      first.job.names.Extends afterFirst.job.names := by
  intro first afterFirst second afterSecond
  have hempty : s.job.names.Sound s.context.program := by
    rw [Session.eq_of_ofProgram hs]
    exact NameTable.Sound.empty p
  have hc : s.context = first.context := (Session.run_context s before).symm
  have hc₂ : second.context = first.context := Session.later_context first op between
  have ht : first.job.names.Sound first.context.program := Session.run_sound hempty before
  have ht₂ : second.job.names.Sound second.context.program := Session.later_sound ht op between
  have hnames : afterFirst.job.names = first.namesAfter op := Session.perform_names ht op
  have hspelling : ∀ k ∈ (op.course first.context).asked,
      (second.namesAfter op).spelling k = (first.namesAfter op).spelling k :=
    fun k hk => Session.later_spelling ht op between hk
  refine ⟨?_, fun hl => ?_, ?_⟩
  · rw [Session.perform_answer ht₂, Session.perform_answer ht, hc₂]
    exact Operation.answer_congr hspelling
  · obtain ⟨hpage, hmetrics⟩ := Session.perform_added ht hl
    obtain ⟨hpage₂, hmetrics₂⟩ := Session.perform_added ht₂ hl
    rw [hc₂] at hpage₂ hmetrics₂
    rw [hc, hnames]
    refine ⟨hpage, ?_, hmetrics, hmetrics₂⟩
    exact hpage₂.trans (Operation.imprint_congr hl hspelling second.job.page)
  · rw [hnames]
    exact NameTable.extends_askAll _ _ _

/-- A ship with one method. -/
def sloop : Program where
  types := [.classNamed "Ship"]
  methods := [.instanceOf ⟨0⟩ "sail"]

/-- A statement that is refused in a loop in a block, after a call in the block was written. -/
def aground : Operation :=
  .statement (.block [.expression (.call ⟨0⟩ []),
    .whileLoop (.literal .affirmative "true") (.unsupported "GotoStatement")]) (some ⟨0⟩)

/-- The statement is refused twice, with the functions written and the page indented in between.
Both times it leaves the same three rows and a block open. -/
theorem sloop_aground_twice :
    let s : Session := { context := { program := sloop } }
    let first := (s.run [.name (.allocator 0)]).2
    let second := ((first.perform aground).2.run [.pass .functions, .edit Page.indent]).2
    let added : Residue :=
      { rows := [.line 0 "\x7b", .line 1 "Ship_sail_1(this);", .line 1 "while(1)"], opened := 1 }
    Session.ofProgram sloop {} = .ok s ∧
      (first.perform aground).1 =
        .error (.unsupported "GotoStatement" "statement kind is not lowered") ∧
      (second.perform aground).1 = (first.perform aground).1 ∧
      (first.perform aground).2.job.page = first.job.page.leave added ∧
      (second.perform aground).2.job.page = second.job.page.leave added ∧
      first.job.names.Extends (first.perform aground).2.job.names := by
  intro s first second added
  have hs : Session.ofProgram sloop {} = .ok s := rfl
  obtain ⟨hanswer, hadded, hnames⟩ := session_answers_never_change hs [.name (.allocator 0)]
    [.pass .functions, .edit Page.indent] aground
  obtain ⟨hpage, hpage₂, -, -⟩ := hadded rfl
  have hrefused : (first.perform aground).1 =
      .error (.unsupported "GotoStatement" "statement kind is not lowered") := by
    rw [Session.perform_answer (Session.run_sound (NameTable.Sound.empty sloop) _)]
    rfl
  have himprint : aground.imprint s.context
      (first.perform aground).2.job.names.spelling = added := by
    decide +kernel
  rw [← himprint]
  simp only [second, first]
  exact ⟨hs, hrefused, hanswer, hpage, hpage₂, hnames⟩

end Lowering
