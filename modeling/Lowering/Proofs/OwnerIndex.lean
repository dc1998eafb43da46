import Mathlib.Data.List.Nodup
import Mathlib.Data.List.Perm.Basic
import Lowering.Proofs.Acceptance

/-!
# Constructors by their owners

A program is indexed in one go: the owners of methods and properties are looked up, and every
constructor is filed under its owner once that was found. The first owner that is not declared ends
this. What is filed is what a search through all constructors finds, so the second pass sees every
constructor of every type.

* `OwnerIndex`, `Program.index` -- the index, and how it is filled;
* `row_file`, `fileFrom_row` -- the row of a type after one more constructor, and after all of them;
* `Program.OwnersDeclared`, `Program.FirstUndeclared` -- when there is an index, and what is
  reported otherwise;
* `constructors_indexed` -- the index is complete and exact, and nothing in it is passed over.
-/

namespace Lowering

/-! ## 1. The index -/

/-- Constructors under their owners. The first entry of an owner is its row. -/
structure OwnerIndex where
  entries : List (TypeId × List ConstructorId) := []

namespace OwnerIndex

/-- The constructors under an owner. -/
def row (x : OwnerIndex) (owner : TypeId) : List ConstructorId := (x.entries.lookup owner).getD []

/-- Files a constructor under its owner, behind those that are there. -/
def file (x : OwnerIndex) (owner : TypeId) (k : ConstructorId) : OwnerIndex :=
  { entries := (owner, x.row owner ++ [k]) :: x.entries }

/-- One more constructor stands behind the others of its owner, and no other row changes. -/
theorem row_file (x : OwnerIndex) (owner t : TypeId) (k : ConstructorId) :
    (x.file owner k).row t = x.row t ++ if owner = t then [k] else [] := by
  by_cases h : owner = t
  · subst h
    simp [row, file]
  · have hne : (t == owner) = false := beq_eq_false_iff_ne.mpr fun e => h e.symm
    simp [row, file, List.lookup_cons, hne, h]

end OwnerIndex

namespace Program

/-- Looks up an owner. -/
def checkOwner (p : Program) (owner : TypeId) : Except BrokenReference Unit := do
  let _ ← p.typeAt owner.position

/-- Files constructors whose positions start at `i`, each once its owner was found. -/
def fileFrom (p : Program) :
    Nat → List ConstructorDecl → OwnerIndex → Except BrokenReference OwnerIndex
  | _, [], x => .ok x
  | i, k :: rest, x => do
    p.checkOwner k.owner
    p.fileFrom (i + 1) rest (x.file k.owner ⟨UInt32.ofNat i⟩)

/-- The index of a program. -/
def index (p : Program) : Except BrokenReference OwnerIndex := do
  p.methods.forM fun m => m.owner.forM p.checkOwner
  p.properties.forM fun d => d.owner.forM p.checkOwner
  p.fileFrom 0 p.constructors {}

/-- Whether a reference leads to a declared type. -/
def Declares (p : Program) (t : TypeId) : Prop := t.position < p.types.length

instance (p : Program) (t : TypeId) : Decidable (p.Declares t) :=
  inferInstanceAs (Decidable (_ < _))

/-- **Every owner is declared.** -/
structure OwnersDeclared (p : Program) : Prop where
  methods : ∀ m ∈ p.methods, ∀ t ∈ m.owner, p.Declares t
  properties : ∀ d ∈ p.properties, ∀ t ∈ d.owner, p.Declares t
  constructors : ∀ k ∈ p.constructors, p.Declares k.owner

/-- **The first owner that is not declared**: methods come before properties, and these before
constructors. -/
inductive FirstUndeclared (p : Program) (t : TypeId) : Prop where
  | method {before after : List MethodDecl} {m : MethodDecl} (hm : p.methods = before ++ m :: after)
      (ho : m.owner = some t) (ht : ¬ p.Declares t)
      (hbefore : ∀ m ∈ before, ∀ t ∈ m.owner, p.Declares t)
  | property {before after : List PropertyDecl} {d : PropertyDecl}
      (hd : p.properties = before ++ d :: after) (ho : d.owner = some t) (ht : ¬ p.Declares t)
      (hbefore : ∀ d ∈ before, ∀ t ∈ d.owner, p.Declares t)
      (hmethods : ∀ m ∈ p.methods, ∀ t ∈ m.owner, p.Declares t)
  | constructor {before after : List ConstructorDecl} {k : ConstructorDecl}
      (hk : p.constructors = before ++ k :: after) (ho : k.owner = t) (ht : ¬ p.Declares t)
      (hbefore : ∀ k ∈ before, p.Declares k.owner)
      (hmethods : ∀ m ∈ p.methods, ∀ t ∈ m.owner, p.Declares t)
      (hproperties : ∀ d ∈ p.properties, ∀ t ∈ d.owner, p.Declares t)

end Program

/-! ## 2. Looking up owners -/

section Checks

variable {α : Type} {p : Program}

theorem checkOwner_cases (p : Program) (t : TypeId) :
    (p.Declares t ∧ p.checkOwner t = .ok ()) ∨
      (¬ p.Declares t ∧ p.checkOwner t = .error (.undeclared .type t.position)) := by
  unfold Program.Declares Program.checkOwner Program.typeAt declarationAt
  by_cases ht : t.position < p.types.length
  · rw [List.getElem?_eq_getElem ht]
    exact .inl ⟨ht, rfl⟩
  · rw [List.getElem?_eq_none (Nat.le_of_not_lt ht)]
    exact .inr ⟨ht, rfl⟩

theorem checkOwner_ok_iff {t : TypeId} : p.checkOwner t = .ok () ↔ p.Declares t := by
  rcases checkOwner_cases p t with ⟨ht, hcheck⟩ | ⟨ht, hcheck⟩
  · simp [ht, hcheck]
  · simp [ht, hcheck]

theorem undeclared_of_checkOwner {t : TypeId} {b : BrokenReference}
    (h : p.checkOwner t = .error b) : ¬ p.Declares t ∧ b = .undeclared .type t.position := by
  rcases checkOwner_cases p t with ⟨-, hcheck⟩ | ⟨ht, hcheck⟩
  · cases hcheck.symm.trans h
  · cases hcheck.symm.trans h
    exact ⟨ht, rfl⟩

/-- The owner of a declaration that may have none. -/
theorem checkOwner?_ok_iff {owner : Option TypeId} :
    owner.forM p.checkOwner = .ok () ↔ ∀ t ∈ owner, p.Declares t := by
  cases owner with
  | none => exact ⟨fun _ _ ht => (by cases ht), fun _ => rfl⟩
  | some t => simp [Option.forM, checkOwner_ok_iff]

theorem undeclared_of_checkOwner? {owner : Option TypeId} {b : BrokenReference}
    (h : owner.forM p.checkOwner = .error b) :
    ∃ t, owner = some t ∧ ¬ p.Declares t ∧ b = .undeclared .type t.position := by
  cases owner with
  | none => cases h
  | some t =>
    obtain ⟨ht, hb⟩ := undeclared_of_checkOwner h
    exact ⟨t, rfl, ht, hb⟩

variable {ε : Type} {check : α → Except ε Unit} {l : List α}

/-- Checks that do not all pass end at the first one that fails. -/
theorem first_of_forM_error {e : ε} (h : l.forM check = .error e) :
    ∃ before a after, l = before ++ a :: after ∧ check a = .error e ∧
      ∀ b ∈ before, check b = .ok () := by
  induction l with
  | nil => cases h
  | cons a rest ih =>
    rw [List.forM] at h
    cases ha : check a with
    | error e' =>
      rw [ha] at h
      cases h
      exact ⟨[], a, rest, rfl, ha, by simp⟩
    | ok u =>
      rw [ha] at h
      obtain ⟨before, a', after, rfl, ha', hbefore⟩ := ih h
      exact ⟨a :: before, a', after, rfl, ha', List.forall_mem_cons.mpr ⟨ha, hbefore⟩⟩

end Checks

/-! ## 3. Filling the index -/

section Filling

variable {p : Program}

/-- The positions of the constructors of a type, if the first constructor has position `i`. -/
def positionsFrom (t : TypeId) (i : Nat) (ks : List ConstructorDecl) : List Nat :=
  ((ks.zipIdx i).filter fun d => d.1.owner = t).map (·.2)

theorem positionsFrom_cons (t : TypeId) (i : Nat) (k : ConstructorDecl)
    (rest : List ConstructorDecl) :
    positionsFrom t i (k :: rest) = (if k.owner = t then [i] else []) ++
      positionsFrom t (i + 1) rest := by
  unfold positionsFrom
  by_cases h : k.owner = t
  · simp [List.zipIdx_cons, h]
  · simp [List.zipIdx_cons, h]

/-- Constructors are filed exactly if their owners are declared. -/
theorem fileFrom_check (i : Nat) (ks : List ConstructorDecl) (x : OwnerIndex) :
    (p.fileFrom i ks x).map (fun _ => ()) = ks.forM fun k => p.checkOwner k.owner := by
  induction ks generalizing i x with
  | nil => rfl
  | cons k rest ih =>
    rw [Program.fileFrom, List.forM]
    cases hk : p.checkOwner k.owner with
    | error b => rfl
    | ok u => exact ih (i + 1) (x.file k.owner ⟨UInt32.ofNat i⟩)

/-- **The row of a type after all constructors**: behind what was there, its own constructors in
their order. -/
theorem fileFrom_row {i : Nat} {ks : List ConstructorDecl} {x y : OwnerIndex}
    (h : p.fileFrom i ks x = .ok y) (t : TypeId) :
    y.row t = x.row t ++ (positionsFrom t i ks).map fun j => ⟨UInt32.ofNat j⟩ := by
  induction ks generalizing i x with
  | nil =>
    cases h
    simp [positionsFrom]
  | cons k rest ih =>
    rw [Program.fileFrom] at h
    cases hk : p.checkOwner k.owner with
    | error b =>
      rw [hk] at h
      cases h
    | ok u =>
      rw [hk] at h
      rw [ih h, OwnerIndex.row_file, positionsFrom_cons, List.map_append, List.append_assoc]
      by_cases ho : k.owner = t
      · simp [ho]
      · simp [ho]

theorem forM_owner? {α : Type} (owner : α → Option TypeId) (l : List α) :
    (l.forM fun a => (owner a).forM p.checkOwner) = (l.filterMap owner).forM p.checkOwner := by
  induction l with
  | nil => rfl
  | cons a rest ih =>
    rw [List.forM, ih]
    cases ho : owner a with
    | none => rw [List.filterMap_cons_none ho]; rfl
    | some t => rw [List.filterMap_cons_some ho]; rfl

/-- The owners of a program are checked in the order in which it is indexed. -/
theorem checkOwners_eq_index (p : Program) : p.checkOwners = p.index.map fun _ => () := by
  have hsplit : p.checkOwners = (do
      (p.methods.filterMap (·.owner)).forM p.checkOwner
      (p.properties.filterMap (·.owner)).forM p.checkOwner
      (p.constructors.map (·.owner)).forM p.checkOwner) := by
    show p.owners.forM p.checkOwner = _
    simp only [Program.owners, List.forM_eq_forM, List.forM_append, bind_assoc]
  have hconstructors : (p.constructors.map (·.owner)).forM p.checkOwner =
      (p.fileFrom 0 p.constructors {}).map fun _ => () := by
    rw [fileFrom_check, List.forM_eq_forM, List.forM_eq_forM, List.forM_map]
  rw [hsplit, hconstructors, ← forM_owner?, ← forM_owner?, Program.index]
  cases p.methods.forM fun m => m.owner.forM p.checkOwner with
  | error b => rfl
  | ok u =>
    cases p.properties.forM fun d => d.owner.forM p.checkOwner with
    | error b => rfl
    | ok u => rfl

theorem ownersDeclared_iff : p.OwnersDeclared ↔ ∀ t ∈ p.owners, p.Declares t := by
  simp only [Program.owners, List.mem_append, List.mem_filterMap, List.mem_map]
  constructor
  · rintro h t ((⟨m, hm, ht⟩ | ⟨d, hd, ht⟩) | ⟨k, hk, rfl⟩)
    · exact h.methods m hm t ht
    · exact h.properties d hd t ht
    · exact h.constructors k hk
  · intro h
    exact ⟨fun m hm t ht => h t (.inl (.inl ⟨m, hm, ht⟩)),
      fun d hd t ht => h t (.inl (.inr ⟨d, hd, ht⟩)), fun k hk => h k.owner (.inr ⟨k, hk, rfl⟩)⟩

/-- **The owners of a program pass exactly if they are declared**, and then there is an index. -/
theorem checkOwners_ok_iff : p.checkOwners = .ok () ↔ p.OwnersDeclared := by
  rw [ownersDeclared_iff]
  refine forM_ok_iff.trans ?_
  simp only [← checkOwner_ok_iff]
  rfl

theorem index_of_ownersDeclared (h : p.OwnersDeclared) : ∃ x, p.index = .ok x := by
  have hchecked := checkOwners_ok_iff.mpr h
  rw [checkOwners_eq_index] at hchecked
  cases hx : p.index with
  | error b =>
    rw [hx] at hchecked
    cases hchecked
  | ok x => exact ⟨x, rfl⟩

/-- **An index that is not finished** ends at the first owner that is not declared. -/
theorem firstUndeclared_of_index {b : BrokenReference} (h : p.index = .error b) :
    ∃ t, p.FirstUndeclared t ∧ b = .undeclared .type t.position := by
  unfold Program.index at h
  cases hmethods : p.methods.forM fun m => m.owner.forM p.checkOwner with
  | error b' =>
    rw [hmethods] at h
    cases h
    obtain ⟨before, m, after, hm, hfails, hbefore⟩ := first_of_forM_error hmethods
    obtain ⟨t, ho, ht, hb⟩ := undeclared_of_checkOwner? hfails
    exact ⟨t, .method hm ho ht fun m hm => checkOwner?_ok_iff.mp (hbefore m hm), hb⟩
  | ok u =>
    rw [hmethods] at h
    have hmethods' := fun m hm => checkOwner?_ok_iff.mp (forM_ok_iff.mp hmethods m hm)
    cases hproperties : p.properties.forM fun d => d.owner.forM p.checkOwner with
    | error b' =>
      rw [hproperties] at h
      cases h
      obtain ⟨before, d, after, hd, hfails, hbefore⟩ := first_of_forM_error hproperties
      obtain ⟨t, ho, ht, hb⟩ := undeclared_of_checkOwner? hfails
      exact ⟨t, .property hd ho ht (fun d hd => checkOwner?_ok_iff.mp (hbefore d hd)) hmethods', hb⟩
    | ok u =>
      rw [hproperties] at h
      have hproperties' := fun d hd => checkOwner?_ok_iff.mp (forM_ok_iff.mp hproperties d hd)
      have hfile := fileFrom_check (p := p) 0 p.constructors {}
      rw [show p.fileFrom 0 p.constructors {} = .error b from h] at hfile
      obtain ⟨before, k, after, hk, hfails, hbefore⟩ := first_of_forM_error hfile.symm
      obtain ⟨ht, hb⟩ := undeclared_of_checkOwner hfails
      exact ⟨k.owner, .constructor hk rfl ht
        (fun k hk => checkOwner_ok_iff.mp (hbefore k hk)) hmethods' hproperties', hb⟩

theorem index_row {x : OwnerIndex} (h : p.index = .ok x) (t : TypeId) :
    x.row t = (positionsFrom t 0 p.constructors).map fun i => ⟨UInt32.ofNat i⟩ := by
  unfold Program.index at h
  cases hmethods : p.methods.forM fun m => m.owner.forM p.checkOwner with
  | error b =>
    rw [hmethods] at h
    cases h
  | ok u =>
    cases hproperties : p.properties.forM fun d => d.owner.forM p.checkOwner with
    | error b =>
      rw [hmethods, hproperties] at h
      cases h
    | ok u =>
      rw [hmethods, hproperties] at h
      exact fileFrom_row h t

end Filling

/-! ## 4. The constructors of a type -/

section Rows

variable {p : Program}

theorem TypeId.position_inj {t t' : TypeId} : t.position = t'.position ↔ t = t' := by
  cases t
  cases t'
  simp [TypeId.position, UInt32.toNat_inj]

theorem constructorsOf_eq_positions (p : Program) (t : TypeId) :
    p.constructorsOf t.position = positionsFrom t 0 p.constructors := by
  unfold Program.constructorsOf positionsFrom
  simp only [← TypeId.position_inj, beq_eq_decide]

theorem mem_constructorsOf {i j : Nat} :
    i ∈ p.constructorsOf j ↔ ∃ k, p.constructors[i]? = some k ∧ k.owner.position = j := by
  simp [Program.constructorsOf, List.mem_zipIdx_iff_getElem?]

/-- The constructors of a type are in ascending order. -/
theorem constructorsOf_ascending (p : Program) (j : Nat) :
    (p.constructorsOf j).Pairwise (· < ·) := by
  unfold Program.constructorsOf
  refine List.Pairwise.sublist (List.filter_sublist.map _) ?_
  rw [List.zipIdx_map_snd]
  exact List.pairwise_lt_range'

/-- **Every constructor is in exactly one row.** -/
theorem rows_perm (h : p.OwnersDeclared) :
    ((List.range p.types.length).flatMap p.constructorsOf).Perm
      (List.range p.constructors.length) := by
  have hrows : ((List.range p.types.length).flatMap p.constructorsOf).Nodup := by
    refine List.nodup_flatMap.mpr ⟨fun j _ => (constructorsOf_ascending p j).imp Nat.ne_of_lt, ?_⟩
    refine List.nodup_range.imp fun {j j'} hne i hi hi' => hne ?_
    obtain ⟨k, hk, hj⟩ := mem_constructorsOf.mp hi
    obtain ⟨k', hk', hj'⟩ := mem_constructorsOf.mp hi'
    cases hk.symm.trans hk'
    exact hj.symm.trans hj'
  refine (List.perm_ext_iff_of_nodup hrows List.nodup_range).mpr fun i => ?_
  simp only [List.mem_flatMap, List.mem_range, mem_constructorsOf]
  constructor
  · rintro ⟨j, -, k, hk, -⟩
    exact (List.getElem?_eq_some_iff.mp hk).1
  · intro hi
    have hk : p.constructors[i]? = some p.constructors[i] := List.getElem?_eq_getElem hi
    exact ⟨_, h.constructors _ (List.mem_of_getElem? hk), _, hk, rfl⟩

/-- The 32 bits of a reference are enough for the positions of an index that is not larger. -/
theorem positions_of_row {x : OwnerIndex} (hx : p.index = .ok x)
    (hsize : p.constructors.length ≤ UInt32.size) (t : TypeId) :
    (x.row t).map (·.position) = p.constructorsOf t.position := by
  rw [index_row hx, ← constructorsOf_eq_positions, List.map_map]
  refine (List.map_congr_left fun i hi => ?_).trans (List.map_id _)
  obtain ⟨k, hk, -⟩ := mem_constructorsOf.mp hi
  have hi' : i < UInt32.size := Nat.lt_of_lt_of_le (List.getElem?_eq_some_iff.mp hk).1 hsize
  exact UInt32.toNat_ofNat_of_lt hi'

end Rows

/-! ## 5. The second pass -/

section SecondPass

variable {c : Context} {i : Nat} {t : TypeDecl}

/-- **A type that the second pass works on**, at its position: it is lowered and not static. -/
def Context.Allocates (c : Context) (i : Nat) (t : TypeDecl) : Prop :=
  c.program.types[i]? = some t ∧ c.lowers t = true ∧ t.isStatic = false

/-- A constructor belongs to the type at a position. -/
def Program.HasConstructor (p : Program) (i : Nat) : Prop :=
  ∃ k ∈ p.constructors, k.owner.position = i

theorem hasUserConstructors_iff (ht : c.program.types[i]? = some t) :
    c.hasUserConstructors i t = true ↔ c.Allocates i t ∧ c.program.HasConstructor i := by
  have hnonempty : (c.program.constructorsOf i).isEmpty = false ↔ c.program.HasConstructor i := by
    rw [List.isEmpty_eq_false_iff_exists_mem]
    constructor
    · rintro ⟨j, hj⟩
      obtain ⟨k, hk, ho⟩ := mem_constructorsOf.mp hj
      exact ⟨k, List.mem_of_getElem? hk, ho⟩
    · rintro ⟨k, hk, ho⟩
      obtain ⟨j, hj⟩ := List.mem_iff_getElem?.mp hk
      exact ⟨j, mem_constructorsOf.mpr ⟨k, hj, ho⟩⟩
  unfold Context.hasUserConstructors Context.Allocates
  simp only [Bool.and_eq_true, Bool.not_eq_true', hnonempty, ht, true_and]

/-- The refusal of a type with constructors of its own. -/
def userConstructors (t : TypeDecl) : Refusal :=
  .unsupported "ConstructorDeclaration"
    ("user constructors on " ++ quoted t.name ++ " are not lowered")

theorem constructorFault_eq_some_iff (ht : c.program.types[i]? = some t) {r : Refusal} :
    constructorFault c i t = some r ↔ c.Allocates i t ∧ c.program.HasConstructor i ∧
      r = userConstructors t := by
  rw [← and_assoc, ← hasUserConstructors_iff ht]
  unfold constructorFault userConstructors
  split
  · rename_i h
    simp [h, eq_comm]
  · rename_i h
    simp [h]

/-- What the first declaration with something to report reports. -/
theorem findSome?_zipIdx_of_first {α β : Type} {report : Nat → α → Option β} {decls : List α}
    {i : Nat} {d : α} {b : β} (hd : decls[i]? = some d) (hb : report i d = some b)
    (hbefore : ∀ j < i, ∀ d', decls[j]? = some d' → report j d' = none) :
    (decls.zipIdx.findSome? fun (d, i) => report i d) = some b := by
  cases hfirst : decls.zipIdx.findSome? fun (d, i) => report i d with
  | none =>
    have hnone := List.findSome?_eq_none_iff.mp hfirst (d, i) (List.mem_zipIdx_iff_getElem?.mpr hd)
    cases hb.symm.trans hnone
  | some b' =>
    obtain ⟨j, d', hd', hb', hbefore'⟩ := findSome?_zipIdx_eq_some hfirst
    rcases Nat.lt_trichotomy i j with hij | rfl | hji
    · cases hb.symm.trans (hbefore' i hij d hd)
    · cases hd.symm.trans hd'
      exact hb'.symm.trans hb
    · cases hb'.symm.trans (hbefore j hji d' hd')

/-- **The second pass is refused exactly at the first type that has a constructor**, among those it
works on. -/
theorem allocators_refused_iff {job : Job} (hr : Reached c job.names) (r : Refusal) :
    (∃ job', defineAllocators c job = .error r job') ↔
      ∃ i t, c.Allocates i t ∧ c.program.HasConstructor i ∧
        (∀ j < i, ∀ t', c.Allocates j t' → ¬ c.program.HasConstructor j) ∧
          r = userConstructors t := by
  have hfollows :=
    (PassKind.run_follows c .allocators).error_iff hr.sound (job.page, job.metrics) (r := r)
  refine hfollows.trans ?_
  show (eachCourse (allocatorCourse c) 0 c.program.types).fault = some r ↔ _
  rw [eachCourse_fault fun _ _ ht => allocatorCourse_fault ht]
  constructor
  · intro hfirst
    obtain ⟨i, t, ht, hfault, hbefore⟩ := findSome?_zipIdx_eq_some hfirst
    obtain ⟨halloc, hhas, hrefusal⟩ := (constructorFault_eq_some_iff ht).mp hfault
    refine ⟨i, t, halloc, hhas, fun j hj t' halloc' hhas' => ?_, hrefusal⟩
    have hfault' := (constructorFault_eq_some_iff halloc'.1).mpr ⟨halloc', hhas', rfl⟩
    rw [hbefore j hj t' halloc'.1] at hfault'
    cases hfault'
  · rintro ⟨i, t, halloc, hhas, hbefore, rfl⟩
    refine findSome?_zipIdx_of_first halloc.1
      ((constructorFault_eq_some_iff halloc.1).mpr ⟨halloc, hhas, rfl⟩)
      fun j hj t' ht' => ?_
    cases hfault : constructorFault c j t' with
    | none => rfl
    | some r =>
      obtain ⟨halloc', hhas', -⟩ := (constructorFault_eq_some_iff ht').mp hfault
      exact absurd hhas' (hbefore j hj t' halloc')

/-- A constructor of a type that the second pass works on is never passed over. -/
theorem allocators_refused_of_constructor {job : Job} (hr : Reached c job.names)
    {k : ConstructorDecl} (hk : k ∈ c.program.constructors) (ha : c.Allocates k.owner.position t) :
    ∃ r job', defineAllocators c job = .error r job' := by
  cases hrun : defineAllocators c job with
  | error r job' => exact ⟨r, job', rfl⟩
  | ok u job' =>
    have hf : (eachCourse (allocatorCourse c) 0 c.program.types).fault = none :=
      ((PassKind.run_follows c .allocators).ok_iff hr.sound (job.page, job.metrics)).mp
        ⟨u, job', hrun⟩
    rw [eachCourse_fault fun _ _ ht => allocatorCourse_fault ht] at hf
    have hnone :=
      List.findSome?_eq_none_iff.mp hf (t, k.owner.position) (List.mem_zipIdx_iff_getElem?.mpr ha.1)
    have hsome := (constructorFault_eq_some_iff ha.1).mpr ⟨ha, ⟨k, hk, rfl⟩, rfl⟩
    cases hnone.symm.trans hsome

end SecondPass

/-! ## 6. The index of a program -/

/-- **The index is complete and exact.** A program has a context exactly if all owners of its
methods, properties and constructors are declared; otherwise the first owner that is not is
reported, methods before properties before constructors. If there is a context, the row of every
type, declared or not, has the positions of exactly the constructors with that owner, in ascending
order, so that every constructor is in one row and once in it; the references in the index are these
positions. The second pass is refused exactly if a type that it works on has a constructor, at the
first such type, and so passes over none. -/
theorem constructors_indexed (p : Program) (o : Options) :
    ((∃ c, Context.ofProgram p o = .ok c) ↔ p.OwnersDeclared) ∧
    (¬ p.OwnersDeclared → ∃ t, p.FirstUndeclared t ∧
      p.index = .error (.undeclared .type t.position) ∧
      Context.ofProgram p o = .error (.broken (.undeclared .type t.position))) ∧
    ∀ c, Context.ofProgram p o = .ok c →
      (∃ x, p.index = .ok x ∧ (p.constructors.length ≤ UInt32.size →
        ∀ t, (x.row t).map (·.position) = p.constructorsOf t.position)) ∧
      (∀ t : TypeId, (p.constructorsOf t.position).Pairwise (· < ·) ∧
        (∀ i, i ∈ p.constructorsOf t.position ↔ ∃ k, p.constructors[i]? = some k ∧ k.owner = t) ∧
        (¬ p.Declares t → p.constructorsOf t.position = [])) ∧
      ((List.range p.types.length).flatMap p.constructorsOf).Perm
        (List.range p.constructors.length) ∧
      ∀ job, Reached c job.names →
        (∀ k ∈ p.constructors, ∀ t, c.Allocates k.owner.position t →
          ∃ r job', defineAllocators c job = .error r job') ∧
        ∀ r, (∃ job', defineAllocators c job = .error r job') ↔
          ∃ i t, c.Allocates i t ∧ p.HasConstructor i ∧
            (∀ j < i, ∀ t', c.Allocates j t' → ¬ p.HasConstructor j) ∧ r = userConstructors t := by
  have hmade : (∃ c, Context.ofProgram p o = .ok c) ↔ p.OwnersDeclared := by
    rw [← checkOwners_ok_iff]
    unfold Context.ofProgram
    cases p.checkOwners with
    | error b => simp
    | ok u => simp
  refine ⟨hmade, fun hnot => ?_, fun c hc => ?_⟩
  · cases hx : p.index with
    | ok x =>
      refine absurd (checkOwners_ok_iff.mp ?_) hnot
      rw [checkOwners_eq_index, hx]
      rfl
    | error b =>
      obtain ⟨t, hfirst, rfl⟩ := firstUndeclared_of_index hx
      refine ⟨t, hfirst, rfl, ?_⟩
      unfold Context.ofProgram
      rw [checkOwners_eq_index, hx]
      rfl
  · have hall := hmade.mp ⟨c, hc⟩
    obtain ⟨-, rfl⟩ := Context.eq_of_ofProgram hc
    obtain ⟨x, hx⟩ := index_of_ownersDeclared hall
    refine ⟨⟨x, hx, positions_of_row hx⟩,
      fun t => ⟨constructorsOf_ascending p _, fun i => ?_, fun ht => ?_⟩, rows_perm hall,
      fun job hr => ⟨fun k hk t ha => allocators_refused_of_constructor hr hk ha,
        allocators_refused_iff hr⟩⟩
    · simp only [mem_constructorsOf, TypeId.position_inj]
    · refine List.eq_nil_iff_forall_not_mem.mpr fun i hi => ht ?_
      obtain ⟨k, hk, ho⟩ := mem_constructorsOf.mp hi
      rw [← TypeId.position_inj.mp ho]
      exact hall.constructors k (List.mem_of_getElem? hk)

/-- Two classes whose constructors are declared in turns. -/
def marina : Program where
  types := [.classNamed "Buoy", .classNamed "Pier"]
  constructors := [{ owner := ⟨1⟩ }, { owner := ⟨0⟩ }, { owner := ⟨1⟩ }]

/-- The marina is indexed, and the second pass is refused at the buoy; with a property of a sixth
type it has no context. -/
theorem marina_indexed :
    let c : Context := { program := marina }
    let adrift : Program := { marina with properties := [{ owner := some ⟨5⟩, name := "depth" }] }
    Context.ofProgram marina {} = .ok c ∧ marina.OwnersDeclared ∧
      (∃ x, marina.index = .ok x ∧ (x.row ⟨1⟩).map (·.position) = [0, 2]) ∧
      (∃ job', defineAllocators c {} = .error (userConstructors (.classNamed "Buoy")) job') ∧
      ∃ t, adrift.FirstUndeclared t ∧
        Context.ofProgram adrift {} = .error (.broken (.undeclared .type t.position)) := by
  intro c adrift
  have hc : Context.ofProgram marina {} = .ok c := rfl
  obtain ⟨hdeclared, -, hindexed⟩ := constructors_indexed marina {}
  obtain ⟨⟨x, hx, hrows⟩, -, -, hpass⟩ := hindexed c hc
  obtain ⟨-, hfirst, -⟩ := constructors_indexed adrift {}
  have hadrift : ¬ adrift.OwnersDeclared := by
    intro h
    have hlt := h.properties _ List.mem_cons_self ⟨5⟩ rfl
    exact absurd hlt (by decide)
  obtain ⟨t, ht, -, hrefused⟩ := hfirst hadrift
  refine ⟨hc, hdeclared.mp ⟨c, hc⟩, ⟨x, hx, ?_⟩, ?_, t, ht, hrefused⟩
  · rw [hrows (by decide)]
    decide
  · refine ((hpass {} .empty).2 _).mpr ⟨0, .classNamed "Buoy",
      ⟨rfl, by decide +kernel, rfl⟩, ?_, ?_, rfl⟩
    · exact ⟨{ owner := ⟨0⟩ }, by simp [marina], rfl⟩
    · exact fun j hj => absurd hj (Nat.not_lt_zero j)

end Lowering
