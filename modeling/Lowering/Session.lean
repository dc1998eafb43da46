import Lowering.CompilationUnit

/-!
# Sessions

A session runs single operations of a lowering one after the other on one job: names that were
granted, the page and the counters are kept from operation to operation, also when one is refused.

* `nameOf` -- the name of any key;
* `Operation`, `Reply` -- what can be asked, and what is answered;
* `Operation.perform`, `Session.run` -- one operation, and a row of them.
-/

namespace Lowering

/-- The name of a key. -/
def nameOf (p : Program) : NameKey → Naming String
  | .type i => typeName p i
  | .method i => methodName p i
  | .constructor i => constructorName p i
  | .allocator i => allocatorName p i

/-- The passes of a unit. -/
inductive PassKind where
  | types
  | allocators
  | functions
deriving DecidableEq, Repr

/-- Runs a pass. -/
def PassKind.run (c : Context) : PassKind → Pass Unit
  | .types => defineTypes c
  | .allocators => defineAllocators c
  | .functions => defineFunctions c

/-- A single operation of a lowering. -/
inductive Operation where
  | expression (e : Expr) (receiver : Option TypeId)
  | arguments (es : List Expr) (receiver : Option TypeId)
  | statement (s : Stmt) (receiver : Option TypeId)
  | block (ss : List Stmt) (receiver : Option TypeId)
  | pass (kind : PassKind)
  | resolve (type : TypeRef)
  | name (key : NameKey)
  | edit (change : Page → Page)
  | count (change : Metrics → Metrics)

/-- The answer to an operation that was not refused. -/
inductive Reply where
  | done
  | text (s : String)
  | texts (ss : List String)
  | resolved (t : ResolvedType)
deriving DecidableEq, Repr

/-- Performs an operation on a job. -/
def Operation.perform (c : Context) : Operation → Pass Reply
  | .expression e receiver => .text <$> onDraft (onNames (e.lower c receiver))
  | .arguments es receiver => .texts <$> onDraft (onNames (lowerArgs c receiver es))
  | .statement s receiver => (fun () => .done) <$> onDraft (s.lower c receiver)
  | .block ss receiver => (fun () => .done) <$> onDraft (lowerBlock c receiver ss)
  | .pass kind => (fun () => .done) <$> kind.run c
  | .resolve type => .resolved <$> onDraft (onNames (Lowering.resolve c type))
  | .name key => .text <$> onDraft (onNames (nameOf c.program key))
  | .edit change => (fun () => .done) <$> onDraft (onPage change)
  | .count change =>
    (fun () => .done) <$> (modify fun j => { j with metrics := change j.metrics } : Pass Unit)

/-- A session: a program with its options, and the job so far. -/
structure Session where
  context : Context
  job : Job := {}

namespace Session

/-- A session for a program whose owners are all declared. -/
def ofProgram (program : Program) (options : Options) : Except Refusal Session :=
  (Context.ofProgram program options).map fun context => { context }

/-- Performs one operation. -/
def perform (s : Session) (op : Operation) : Except Refusal Reply × Session :=
  match op.perform s.context s.job with
  | .ok reply job => (.ok reply, { s with job })
  | .error r job => (.error r, { s with job })

/-- Performs operations one after the other. -/
def run (s : Session) : List Operation → List (Except Refusal Reply) × Session
  | [] => ([], s)
  | op :: rest =>
    let (reply, s) := s.perform op
    let (replies, s) := run s rest
    (reply :: replies, s)

end Session

end Lowering
