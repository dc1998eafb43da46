import Lowering.Proofs.UnitCourse

/-!
# Sessions follow courses

Every operation of a session follows a course, so a session only ever asks for names, one row of
requests after another. The tables that sessions and generators can reach are sound.

* `Operation.course`, `Operation.reply`, `Operation.effect` -- what an operation asks for, answers
  and does to the page and the counters;
* `Operation.perform_follows` -- an operation follows its course;
* `Reached` -- the tables that any use of a context leads to, with `Reached.sound`.
-/

namespace Lowering

/-! ## 1. Operations -/

namespace PassKind

/-- The course of a pass. -/
def course (c : Context) : PassKind → Course
  | .types => eachCourse (typeCourse c) 0 c.program.types
  | .allocators => eachCourse (allocatorCourse c) 0 c.program.types
  | .functions => eachCourse (functionCourse c) 0 c.program.methods

/-- The rows of a pass. -/
def rows (c : Context) (ν : Spelling) : PassKind → List Row
  | .types => c.program.types.zipIdx.flatMap fun (t, i) => typeRows c ν i t
  | .allocators => c.program.types.zipIdx.flatMap fun (t, i) => allocatorRows c ν i t
  | .functions => c.program.methods.zipIdx.flatMap fun (m, i) => functionRows c ν i m

/-- The number of declarations that a pass counts. -/
def count (c : Context) : PassKind → Nat
  | .types => c.program.types.countP c.lowers
  | .allocators => c.program.types.countP fun t => c.lowers t && !t.isStatic
  | .functions => c.program.methods.length

theorem run_follows (c : Context) (kind : PassKind) :
    Fills c.program (kind.run c) (kind.course c) (fun ν => kind.rows c ν) (kind.count c) := by
  cases kind with
  | types => exact defineTypes_follows c
  | allocators => exact defineAllocators_follows c
  | functions => exact defineFunctions_follows c

end PassKind

namespace Operation

/-- The course of an operation. -/
def course (c : Context) : Operation → Course
  | .expression e receiver => e.course c receiver
  | .arguments es receiver => argsCourse c receiver es
  | .statement s receiver => s.course c receiver
  | .block ss receiver => allCourse c receiver ss
  | .pass kind => kind.course c
  | .resolve type => resolveCourse c type
  | .name key => .request c.program key
  | .edit _ | .count _ => {}

/-- The answer to an operation that is not refused. -/
def reply (c : Context) (ν : Spelling) : Operation → Reply
  | .expression e _ => .text (e.text c ν)
  | .arguments es _ => .texts (argsText c ν es)
  | .resolve type => .resolved (resolvedType c ν type)
  | .name key => .text (ν key)
  | .statement _ _ | .block _ _ | .pass _ | .edit _ | .count _ => .done

/-- What an operation that is not refused does to the page and the counters. -/
def effect (c : Context) (ν : Spelling) : Operation → Page × Metrics → Page × Metrics
  | .statement s _, rest => (rest.1.write (s.rows c ν), rest.2)
  | .block ss _, rest => (rest.1.write ((Stmt.block ss).rows c ν), rest.2)
  | .pass kind, rest => (rest.1.write (kind.rows c ν), rest.2.counted (kind.count c))
  | .edit change, rest => (change rest.1, rest.2)
  | .count change, rest => (rest.1, change rest.2)
  | .expression _ _, rest | .arguments _ _, rest | .resolve _, rest | .name _, rest => rest

theorem countAct_follows {p : Program} (change : Metrics → Metrics) :
    Follows p Job.of (modify fun j => { j with metrics := change j.metrics } : Pass Unit) {}
      (fun _ => ()) fun _ rest => (rest.1, change rest.2) where
  stemmed _ hk := nomatch hk
  reads _ _ _ _ := ⟨rfl, rfl⟩
  ends _ _ _ _ := rfl
  stops _ h := nomatch h

/-- **An operation follows its course.** -/
theorem perform_follows (c : Context) (op : Operation) :
    Follows c.program Job.of (op.perform c) (op.course c) (fun ν => op.reply c ν)
      fun ν => op.effect c ν := by
  cases op with
  | expression e receiver =>
    exact (onDraft_follows (onNames_follows (e.lower_follows c receiver))).map Reply.text
  | arguments es receiver =>
    exact (onDraft_follows (onNames_follows (lowerArgs_follows c receiver es))).map Reply.texts
  | statement s receiver => exact (onDraft_follows (s.lower_follows c receiver)).map _
  | block ss receiver => exact (onDraft_follows ((Stmt.block ss).lower_follows c receiver)).map _
  | pass kind => exact (kind.run_follows c).map _
  | resolve type =>
    exact (onDraft_follows (onNames_follows (resolve_follows c type))).map Reply.resolved
  | name key =>
    exact (onDraft_follows (onNames_follows (request_follows c.program key))).map Reply.text
  | edit change => exact (onDraft_follows (onPage_follows change)).map _
  | count change => exact (countAct_follows change).map _

end Operation

/-- The table after an operation: the names of its course were asked for. -/
theorem Session.perform_names {s : Session} (ht : s.job.names.Sound s.context.program)
    (op : Operation) :
    (s.perform op).2.job.names =
      s.job.names.askAll s.context.program (op.course s.context).asked := by
  have hfollows := op.perform_follows s.context
  unfold Session.perform
  cases hf : (op.course s.context).fault with
  | none =>
    have hrun : op.perform s.context s.job = _ :=
      hfollows.ends hf s.job.names (s.job.page, s.job.metrics) ht
    rw [hrun]
    rfl
  | some r =>
    obtain ⟨rest, hrun⟩ := hfollows.stops r hf s.job.names (s.job.page, s.job.metrics) ht
    have hrun' : op.perform s.context s.job = _ := hrun
    rw [hrun']
    rfl

/-! ## 2. Reached tables -/

/-- **The tables that a context can lead to**: operations of a session and runs of a generator may
come in any order, and be refused in the middle. -/
inductive Reached (c : Context) : NameTable → Prop where
  | empty : Reached c {}
  | perform (s : Session) (op : Operation) (hc : s.context = c) (h : Reached c s.job.names) :
      Reached c (s.perform op).2.job.names
  | generate (g : Generator) (hc : g.context = c) (h : Reached c g.names) :
      Reached c g.generate.2.names

/-- **Reached tables are sound.** -/
theorem Reached.sound {c : Context} {t : NameTable} (h : Reached c t) : t.Sound c.program := by
  induction h with
  | empty => exact NameTable.Sound.empty c.program
  | perform s op hc _ ih =>
    subst hc
    rw [Session.perform_names ih op]
    exact NameTable.Sound.askAll _ _ ih
  | generate g hc _ ih =>
    subst hc
    rw [Generator.generate_names ih]
    exact NameTable.Sound.askAll _ _ ih

end Lowering
