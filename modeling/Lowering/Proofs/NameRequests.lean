import Lowering.Proofs.NameTables

/-!
# Requests on sound tables

On a sound table the requests of the naming module are the functions of `NameTables`: whether one is
refused is decided by the stem of the key alone, and never by what was granted before.

* `bind_ok`, `bind_error` -- an action after another one;
* `Program.issue` -- the one body that the requests for types, methods and constructors share;
* `nameOf_ok`, `nameOf_refused` -- a request on a sound table.
-/

namespace Lowering

variable {σ α β : Type} {p : Program} {t t' : NameTable} {key : NameKey}
  {name s : String} {r : Refusal}

theorem bind_ok {act : Act σ α} {next : α → Act σ β} {a : α} {x y : σ} (h : act x = .ok a y) :
    (act >>= next) x = next a y := by
  show EStateM.bind act next x = _
  unfold EStateM.bind
  rw [h]

theorem bind_error {act : Act σ α} {next : α → Act σ β} {x y : σ} (h : act x = .error r y) :
    (act >>= next) x = .error r y := by
  show EStateM.bind act next x = _
  unfold EStateM.bind
  rw [h]

@[simp] theorem found_ok_bind (a : α) (next : α → Act σ β) : (found (.ok a) >>= next) = next a :=
  rfl

/-- What a request does for a key that has no name yet. -/
def Program.issue (p : Program) (key : NameKey) : Naming String :=
  match p.stem key with
  | .ok stem => if key.isNumbered then numbered stem else return stem
  | .error r => refuse r

theorem typeName_eq (p : Program) (i : Nat) :
    typeName p i = remembered (.type i) (p.issue (.type i)) := by
  simp only [typeName, Program.issue, Program.stem, Program.typeStem]
  congr 1
  cases p.typeAt i with
  | error b => rfl
  | ok d =>
    rw [found_ok_bind]
    cases h : d.kind <;> simp only [h] <;> rfl

theorem methodName_eq (p : Program) (i : Nat) :
    methodName p i = remembered (.method i) (p.issue (.method i)) := by
  simp only [methodName, Program.issue, Program.stem]
  congr 1
  cases p.methodAt i with
  | error b => rfl
  | ok m =>
    rw [found_ok_bind]
    cases h : m.owner with
    | none => simp only [h]
    | some owner =>
      simp only [h]
      cases p.typeAt owner.position <;> rfl

theorem constructorName_eq (p : Program) (i : Nat) :
    constructorName p i = remembered (.constructor i) (p.issue (.constructor i)) := by
  simp only [constructorName, Program.issue, Program.stem]
  congr 1
  cases p.constructorAt i with
  | error b => rfl
  | ok k =>
    rw [found_ok_bind]
    cases h : p.typeAt k.owner.position <;> simp only [h] <;> rfl

theorem remembered_found {make : Naming String} (h : t.find? key = some name) :
    remembered key make t = .ok name t := by
  have hget : (get : Naming NameTable) t = .ok t t := rfl
  unfold remembered
  rw [bind_ok hget, h]
  rfl

theorem remembered_new (make : Naming String) (h : t.find? key = none) :
    remembered key make t = (make >>= fun name => do modify (·.grant key name); return name) t := by
  have hget : (get : Naming NameTable) t = .ok t t := rfl
  unfold remembered
  rw [bind_ok hget, h]

theorem remembered_issue (h : t.find? key = none) (hs : p.stem key = .ok s) :
    remembered key (p.issue key) t = .ok ((t.settle p key).spelling key) (t.settle p key) := by
  rw [remembered_new _ h, NameTable.settle_of_new h hs]
  have hsp : (t.enter key s).spelling key = if key.isNumbered then s ++ decimal t.next else s := by
    unfold NameTable.spelling
    rw [NameTable.find?_enter, if_pos rfl]
    rfl
  rw [hsp]
  unfold Program.issue NameTable.enter
  rw [hs]
  cases key <;> rfl

theorem remembered_issue_refused (h : t.find? key = none) (hs : p.stem key = .error r) :
    remembered key (p.issue key) t = .error r t := by
  rw [remembered_new _ h]
  unfold Program.issue
  rw [hs]
  rfl

/-- The name of a type is its stem, on every sound table. -/
theorem typeName_ok {i : Nat} (ht : t.Sound p) (hs : p.stem (.type i) = .ok s) :
    typeName p i t = .ok s (t.settle p (.type i)) := by
  rw [typeName_eq]
  obtain ⟨name, hn⟩ := NameTable.find?_settle_self t hs
  have hname : s = name := by
    have h := (ht.ask (.type i)).named i name hn
    rw [hs] at h
    exact Except.ok.inj h
  subst hname
  cases hf : t.find? (.type i) with
  | none => rw [remembered_issue hf hs, NameTable.spelling_of_found hn]
  | some old =>
    rw [NameTable.settle_of_found hf] at hn ⊢
    exact remembered_found hn

theorem allocatorName_new {i : Nat} (ht : t.Sound p) (h : t.find? (.allocator i) = none)
    (hs : p.stem (.allocator i) = .ok s) :
    allocatorName p i t = .ok ((t.ask p (.allocator i)).spelling (.allocator i))
      (t.ask p (.allocator i)) := by
  obtain ⟨s', hs', rfl⟩ := NameTable.typeStem_of_allocator hs
  -- the type is named first, so the allocator is entered into the table that has the type
  have hnone : (t.settle p (.type i)).find? (.allocator i) = none := by
    rw [NameTable.find?_settle_ne p t (by simp)]
    exact h
  have hissue := remembered_issue hnone hs
  rw [remembered_new _ hnone] at hissue
  unfold allocatorName
  rw [remembered_new _ h]
  refine Eq.trans ?_ hissue
  simp only [Program.issue, hs, NameKey.isNumbered, ↓reduceIte, bind_assoc]
  exact bind_ok (typeName_ok ht hs')

/-- **A request for a key with a stem is granted**, and the name is the one that the table has
then. -/
theorem nameOf_ok (ht : t.Sound p) (hs : p.stem key = .ok s) :
    nameOf p key t = .ok ((t.ask p key).spelling key) (t.ask p key) := by
  cases hf : t.find? key with
  | some name =>
    rw [NameTable.ask_of_found ht hf, NameTable.spelling_of_found hf]
    cases key <;> exact remembered_found hf
  | none =>
    cases key with
    | type i => exact (congrFun (typeName_eq p i) t).trans (remembered_issue hf hs)
    | method i => exact (congrFun (methodName_eq p i) t).trans (remembered_issue hf hs)
    | constructor i => exact (congrFun (constructorName_eq p i) t).trans (remembered_issue hf hs)
    | allocator i => exact allocatorName_new ht hf hs

/-- **A request for a key without a stem is refused**, whatever was granted before. -/
theorem nameOf_refused (ht : t.Sound p) (hs : p.stem key = .error r) :
    nameOf p key t = .error r t := by
  have hf := ht.find?_none hs
  cases key with
  | type i => exact (congrFun (typeName_eq p i) t).trans (remembered_issue_refused hf hs)
  | method i => exact (congrFun (methodName_eq p i) t).trans (remembered_issue_refused hf hs)
  | constructor i =>
    exact (congrFun (constructorName_eq p i) t).trans (remembered_issue_refused hf hs)
  | allocator i =>
    have htype : p.stem (.type i) = .error r := NameTable.typeStem_error_of_allocator hs
    have hrefused := (congrFun (typeName_eq p i) t).trans
      (remembered_issue_refused (ht.find?_none htype) htype)
    exact (remembered_new _ hf).trans (bind_error (bind_error hrefused))

end Lowering
