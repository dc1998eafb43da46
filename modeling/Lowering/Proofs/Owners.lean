import Lowering.Proofs.Faults
import Lowering.Proofs.NameTables

/-!
# Owners and stems

In a program whose owners were checked, what a method or a constructor belongs to is declared. So
the stem of a name is missing for few reasons: there is no declaration, the type is an enumeration,
or the method belongs to no type.

* `typeAt_of_owner` -- the owners of a checked program are declared;
* `stem_method`, `stem_constructor` -- the stems of methods and constructors;
* `Program.Nameable` -- what can have a name, and so has a stem.
-/

namespace Lowering

variable {p : Program}

/-! ## 1. Declarations -/

section Lists

variable {α : Type} {kind : DeclKind} {decls : List α} {i : Nat} {d : α}

theorem declarationAt_of_getElem? (h : decls[i]? = some d) :
    declarationAt kind decls i = .ok d := by
  unfold declarationAt
  rw [h]

theorem getElem?_of_declarationAt (h : declarationAt kind decls i = .ok d) :
    decls[i]? = some d := by
  unfold declarationAt at h
  split at h
  · rename_i hd
    cases h
    exact hd
  · cases h

theorem mem_of_declarationAt (h : declarationAt kind decls i = .ok d) : d ∈ decls :=
  List.mem_of_getElem? (getElem?_of_declarationAt h)

end Lists

/-- Checks all pass just if each of them does. -/
theorem forM_ok_iff {α ε : Type} {check : α → Except ε Unit} {l : List α} :
    l.forM check = .ok () ↔ ∀ a ∈ l, check a = .ok () := by
  induction l with
  | nil => exact ⟨fun _ a ha => (by cases ha), fun _ => rfl⟩
  | cons a rest ih =>
    rw [List.forM, List.forall_mem_cons]
    cases ha : check a with
    | error e => exact ⟨fun h => (by cases h), fun h => (by cases h.1)⟩
    | ok u => exact ⟨fun h => ⟨rfl, ih.mp h⟩, fun h => ih.mpr h.2⟩

/-- Owners are looked up without a failure just if they are all declared. -/
theorem checkOwners_iff {owners : List TypeId} :
    (owners.forM fun owner => do let _ ← p.typeAt owner.position) = .ok () ↔
      ∀ owner ∈ owners, ∃ t, p.typeAt owner.position = .ok t := by
  refine forM_ok_iff.trans (forall₂_congr fun owner _ => ?_)
  cases p.typeAt owner.position with
  | error b => exact ⟨fun h => (by cases h), fun h => h.elim fun _ h => (by cases h)⟩
  | ok t => exact ⟨fun _ => ⟨t, rfl⟩, fun _ => rfl⟩

/-- The owners of a checked program are declared. -/
theorem typeAt_of_owner (h : p.checkOwners = .ok ()) {owner : TypeId} (ho : owner ∈ p.owners) :
    ∃ t, p.typeAt owner.position = .ok t := checkOwners_iff.mp h owner ho

theorem owner_mem_of_method {i : Nat} {m : MethodDecl} {owner : TypeId} (hm : p.methodAt i = .ok m)
    (ho : m.owner = some owner) : owner ∈ p.owners := by
  unfold Program.owners
  refine List.mem_append_left _ (List.mem_append_left _ ?_)
  exact List.mem_filterMap.mpr ⟨m, mem_of_declarationAt hm, ho⟩

theorem owner_mem_of_constructor {i : Nat} {k : ConstructorDecl} (hk : p.constructorAt i = .ok k) :
    k.owner ∈ p.owners :=
  List.mem_append_right _ (List.mem_map_of_mem (mem_of_declarationAt hk))

/-! ## 2. Stems -/

/-- The stem of a method of a checked program: only an owner may be missing. -/
theorem stem_method (h : p.checkOwners = .ok ()) {i : Nat} {m : MethodDecl}
    (hm : p.methodAt i = .ok m) :
    (∃ s, p.stem (.method i) = .ok s ∧ ownerFault m = none) ∨
      (p.stem (.method i) = .error (.broken (.ownerless m.name)) ∧
        ownerFault m = some (.broken (.ownerless m.name))) := by
  simp only [Program.stem, hm, ownerFault]
  cases ho : m.owner with
  | none => exact Or.inr ⟨rfl, rfl⟩
  | some owner =>
    obtain ⟨t, ht⟩ := typeAt_of_owner h (owner_mem_of_method hm ho)
    simp only [ht]
    exact Or.inl ⟨_, rfl, rfl⟩

/-- The stem of a constructor of a checked program. -/
theorem stem_constructor (h : p.checkOwners = .ok ()) {i : Nat} {k : ConstructorDecl}
    (hk : p.constructorAt i = .ok k) : ∃ s, p.stem (.constructor i) = .ok s := by
  obtain ⟨t, ht⟩ := typeAt_of_owner h (owner_mem_of_constructor hk)
  simp only [Program.stem, hk, ht]
  exact ⟨_, rfl⟩

/-- The stem of a type is its own name, and an enumeration has none. -/
theorem typeStem_eq_ok {i : Nat} {s : String} :
    p.typeStem i = .ok s ↔ ∃ t, p.types[i]? = some t ∧ t.kind ≠ .enumType ∧ t.name = s := by
  unfold Program.typeStem Program.typeAt declarationAt
  cases ht : p.types[i]? with
  | none => simp
  | some t =>
    cases hk : t.kind with
    | classType => simp [hk]
    | structType => simp [hk]
    | enumType => simp [hk]

/-- **What can have a name**: a class or structure and its allocator, a method that belongs to a
type, and a constructor. -/
def Program.Nameable (p : Program) : NameKey → Prop
  | .type i | .allocator i => ∃ t, p.types[i]? = some t ∧ t.kind ≠ .enumType
  | .method i => ∃ m, p.methods[i]? = some m ∧ m.owner ≠ none
  | .constructor i => ∃ k, p.constructors[i]? = some k

theorem nameable_of_stem {key : NameKey} {s : String} (hs : p.stem key = .ok s) :
    p.Nameable key := by
  cases key with
  | type i =>
    obtain ⟨t, ht, hk, -⟩ := typeStem_eq_ok.mp hs
    exact ⟨t, ht, hk⟩
  | allocator i =>
    obtain ⟨s', hs', -⟩ := NameTable.typeStem_of_allocator hs
    obtain ⟨t, ht, hk, -⟩ := typeStem_eq_ok.mp hs'
    exact ⟨t, ht, hk⟩
  | method i =>
    simp only [Program.stem] at hs
    cases hm : p.methodAt i with
    | error b =>
      rw [hm] at hs
      cases hs
    | ok m =>
      refine ⟨m, getElem?_of_declarationAt hm, fun ho => ?_⟩
      simp only [hm, ho] at hs
      cases hs
  | constructor i =>
    simp only [Program.stem] at hs
    cases hk : p.constructorAt i with
    | error b =>
      rw [hk] at hs
      cases hs
    | ok k => exact ⟨k, getElem?_of_declarationAt hk⟩

/-- In a checked program everything that can have a name has a stem. -/
theorem stem_of_nameable (h : p.checkOwners = .ok ()) {key : NameKey} (hn : p.Nameable key) :
    ∃ s, p.stem key = .ok s := by
  cases key with
  | type i =>
    obtain ⟨t, ht, hk⟩ := hn
    exact ⟨t.name, typeStem_eq_ok.mpr ⟨t, ht, hk, rfl⟩⟩
  | allocator i =>
    obtain ⟨t, ht, hk⟩ := hn
    have hs : p.typeStem i = .ok t.name := typeStem_eq_ok.mpr ⟨t, ht, hk, rfl⟩
    exact ⟨_, by simp only [Program.stem, hs]; rfl⟩
  | method i =>
    obtain ⟨m, hm, ho⟩ := hn
    have hat : p.methodAt i = .ok m := declarationAt_of_getElem? hm
    rcases stem_method h hat with ⟨s, hs, -⟩ | ⟨-, hf⟩
    · exact ⟨s, hs⟩
    · cases howner : m.owner with
      | none => exact absurd howner ho
      | some owner =>
        unfold ownerFault at hf
        rw [howner] at hf
        cases hf
  | constructor i =>
    obtain ⟨k, hk⟩ := hn
    have hat : p.constructorAt i = .ok k := declarationAt_of_getElem? hk
    exact stem_constructor h hat

end Lowering
