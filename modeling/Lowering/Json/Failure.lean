/-!
# Why a document is not accepted

A document fails in one of two ways. Its text breaks the grammar (`Fault`), or the text is well
formed but has another shape than the reader wants (`Mismatch`). The two are kept apart because a
grammar fault that stands later in the text never hides a mismatch that was met before it.

* `Fault` -- the text ended too early, or it breaks the grammar in another way;
* `Mismatch` -- the wrong shape, with the wording of the shapes that are named;
* `Failure` -- one of the two, with its category and its message;
* `bind_eq_ok` -- two steps that may fail succeed together.
-/

namespace Lowering.Json

/-- A break of the grammar. -/
inductive Fault where
  /-- A character stands where the grammar does not allow it, or a limit is passed. -/
  | malformed
  /-- The text ends where the grammar wants more. -/
  | truncated
deriving DecidableEq, Repr

/-- A well-formed value of the wrong shape. -/
inductive Mismatch where
  /-- Another kind of value, a number out of range, or a list of the wrong length. -/
  | shape
  /-- A record lacks a member that has no default. -/
  | missing (name : String)
  /-- A record gives a member twice. -/
  | duplicate (name : String)
  /-- A name is given that is none of the expected ones. -/
  | unknown (given : String) (expected : List String)
deriving DecidableEq, Repr

/-- Why a document is not accepted. -/
inductive Failure where
  | fault (f : Fault)
  | mismatch (m : Mismatch)
deriving DecidableEq, Repr

/-- A name between grave accents. -/
def accented (name : String) : String := "`" ++ name ++ "`"

/-- The expected names as a phrase: two are joined by "or", more are listed after "one of". -/
def oneOf : List String → String
  | [] => "nothing"
  | [a] => accented a
  | [a, b] => accented a ++ " or " ++ accented b
  | names => "one of " ++ ", ".intercalate (names.map accented)

/-- The wording of a mismatch. Only the mismatches that name something have one. -/
def Mismatch.message? : Mismatch → Option String
  | .shape => none
  | .missing name => some ("missing field " ++ accented name)
  | .duplicate name => some ("duplicate field " ++ accented name)
  | .unknown given expected =>
    some ("unknown variant " ++ accented given ++ ", expected " ++ oneOf expected)

namespace Failure

/-- The wrong shape, with no name to blame. -/
def shape : Failure := .mismatch .shape

/-- The three kinds of failure, by name. -/
def category : Failure → String
  | .fault .malformed => "syntax"
  | .fault .truncated => "eof"
  | .mismatch _ => "data"

/-- The wording of a failure, if it has one. -/
def message? : Failure → Option String
  | .fault _ => none
  | .mismatch m => m.message?

end Failure

/-- A result in which a grammar fault counts as a failure. -/
def Fault.lift {α : Type} : Except Fault α → Except Failure α
  | .ok a => .ok a
  | .error f => .error (.fault f)

end Lowering.Json

namespace Lowering

/-- Two fallible steps succeed together. -/
theorem bind_eq_ok {ε α β : Type} {x : Except ε α} {f : α → Except ε β} {b : β} :
    x >>= f = .ok b ↔ ∃ a, x = .ok a ∧ f a = .ok b := by
  cases x with
  | error e => exact ⟨fun h => (by cases h), fun ⟨_, h, _⟩ => (by cases h)⟩
  | ok a => exact ⟨fun h => ⟨a, rfl, h⟩, fun ⟨_, h, hf⟩ => (by cases h; exact hf)⟩

end Lowering
