import Lowering.Session

/-!
# Name tables under requests

A request for a name is an action that may refuse. What it does to the table is a plain function of
the program and the table, and this file has that function: a key gets the stem that the program
fixes for it, with the next number behind it where the name has one.

* `Program.stem` -- the part of a name that the program fixes, or why there is no name;
* `NameTable.ask`, `NameTable.askAll` -- the table after a request, and after a row of them;
* `NameTable.Extends` -- requests only add names (`extends_askAll`);
* `NameTable.Sound` -- what all tables have that requests lead to;
* `find?_of_asked`, `askAll_again` -- a key that was asked for is settled, and asking for the same
  keys again changes nothing.
-/

namespace Lowering

/-! ## 1. Stems -/

/-- Whether the name of a key ends in a number. -/
def NameKey.isNumbered : NameKey → Bool
  | .type _ => false
  | _ => true

namespace Program

/-- The name of a type. An enumeration has none. -/
def typeStem (p : Program) (i : Nat) : Except Refusal String :=
  match p.typeAt i with
  | .error b => .error (.broken b)
  | .ok t =>
    match t.kind with
    | .classType | .structType => .ok t.name
    | .enumType =>
      .error (.unsupported "EnumDeclaration" (quoted t.name ++ " cannot be given a generated name"))

/-- The name of a key up to its number, or why the key has no name. -/
def stem (p : Program) : NameKey → Except Refusal String
  | .type i => p.typeStem i
  | .method i =>
    match p.methodAt i with
    | .error b => .error (.broken b)
    | .ok m =>
      match m.owner with
      | none => .error (.broken (.ownerless m.name))
      | some owner =>
        match p.typeAt owner.position with
        | .error b => .error (.broken b)
        | .ok t => .ok (t.name ++ "_" ++ m.name ++ "_")
  | .constructor i =>
    match p.constructorAt i with
    | .error b => .error (.broken b)
    | .ok k =>
      match p.typeAt k.owner.position with
      | .error b => .error (.broken b)
      | .ok t => .ok (t.name ++ "_constructor_")
  | .allocator i => (p.typeStem i).map (· ++ "_defaultConstructor_")

end Program

/-! ## 2. Tables after requests -/

/-- How keys are spelled in the unit. -/
abbrev Spelling := NameKey → String

namespace NameTable

variable {p : Program} {t : NameTable} {k key : NameKey} {name s : String}

/-- The names of a table. A key without a name is spelled by nothing. -/
def spelling (t : NameTable) : Spelling := fun key => (t.find? key).getD ""

/-- Enters a key with its stem, and with the next number where the name has one. -/
def enter (t : NameTable) (key : NameKey) (stem : String) : NameTable :=
  if key.isNumbered then { t with next := t.next + 1 }.grant key (stem ++ decimal t.next)
  else t.grant key stem

/-- Enters a key that has a stem and no name yet. -/
def settle (p : Program) (t : NameTable) (key : NameKey) : NameTable :=
  match t.find? key, p.stem key with
  | none, .ok stem => t.enter key stem
  | _, _ => t

/-- The table after a request. An allocator is asked for after its type. -/
def ask (p : Program) (t : NameTable) : NameKey → NameTable
  | .allocator i => (t.settle p (.type i)).settle p (.allocator i)
  | key => t.settle p key

/-- The table after requests, one after the other. -/
def askAll (p : Program) (t : NameTable) (keys : List NameKey) : NameTable := keys.foldl (ask p) t

/-- The names of one table are names of another. -/
def Extends (t t' : NameTable) : Prop :=
  ∀ key name, t.find? key = some name → t'.find? key = some name

/-- **What all tables have that requests lead to**: a name is granted only to a key that has a stem,
a type is named by its stem, and who has an allocator has a name. -/
structure Sound (p : Program) (t : NameTable) : Prop where
  stemmed : ∀ key name, t.find? key = some name → ∃ s, p.stem key = .ok s
  named : ∀ i name, t.find? (.type i) = some name → p.stem (.type i) = .ok name
  allocated : ∀ i name, t.find? (.allocator i) = some name → ∃ s, t.find? (.type i) = some s

theorem spelling_of_found (h : t.find? key = some name) : t.spelling key = name := by
  unfold spelling
  rw [h]
  rfl

theorem find?_grant (t : NameTable) (key k : NameKey) (name : String) :
    (t.grant key name).find? k = if k = key then some name else t.find? k := by
  unfold find? grant
  rw [List.lookup_cons]
  by_cases h : k = key
  · simp [h]
  · simp [h, beq_eq_false_iff_ne.mpr h]

theorem find?_enter (t : NameTable) (key k : NameKey) (s : String) :
    (t.enter key s).find? k =
      if k = key then some (if key.isNumbered then s ++ decimal t.next else s) else t.find? k := by
  unfold enter
  split <;> exact find?_grant _ _ _ _

theorem settle_of_found (h : t.find? key = some name) : t.settle p key = t := by
  simp [settle, h]

theorem settle_of_error {r : Refusal} (h : p.stem key = .error r) : t.settle p key = t := by
  unfold settle
  rw [h]
  cases t.find? key <;> rfl

theorem settle_of_new (h : t.find? key = none) (hs : p.stem key = .ok s) :
    t.settle p key = t.enter key s := by
  simp [settle, h, hs]

theorem find?_settle_ne (p : Program) (t : NameTable) (h : k ≠ key) :
    (t.settle p key).find? k = t.find? k := by
  unfold settle
  split
  · rw [find?_enter, if_neg h]
  · rfl

/-! ## 3. Requests only add names -/

theorem Extends.refl (t : NameTable) : t.Extends t := fun _ _ h => h

theorem Extends.trans {t₁ t₂ t₃ : NameTable} (h₁ : t₁.Extends t₂) (h₂ : t₂.Extends t₃) :
    t₁.Extends t₃ := fun key name h => h₂ key name (h₁ key name h)

theorem extends_settle (p : Program) (t : NameTable) (key : NameKey) :
    t.Extends (t.settle p key) := by
  intro k name h
  unfold settle
  split
  · rename_i hn _
    rw [find?_enter, if_neg]
    · exact h
    · rintro rfl
      rw [hn] at h
      cases h
  · exact h

theorem extends_ask (p : Program) (t : NameTable) (key : NameKey) : t.Extends (t.ask p key) := by
  cases key with
  | allocator i => exact (extends_settle p t _).trans (extends_settle p _ _)
  | type i => exact extends_settle p t _
  | method i => exact extends_settle p t _
  | constructor i => exact extends_settle p t _

theorem extends_askAll (p : Program) : ∀ (keys : List NameKey) (t : NameTable),
    t.Extends (t.askAll p keys)
  | [], t => Extends.refl t
  | key :: rest, t => (extends_ask p t key).trans (extends_askAll p rest (t.ask p key))

@[simp] theorem askAll_nil (p : Program) (t : NameTable) : t.askAll p [] = t := rfl

@[simp] theorem askAll_cons (p : Program) (t : NameTable) (key : NameKey) (rest : List NameKey) :
    t.askAll p (key :: rest) = (t.ask p key).askAll p rest := rfl

theorem askAll_append (p : Program) (t : NameTable) (ks ls : List NameKey) :
    t.askAll p (ks ++ ls) = (t.askAll p ks).askAll p ls := List.foldl_append

/-- A settled key has a name if it has a stem. -/
theorem find?_settle_self (t : NameTable) (hs : p.stem key = .ok s) :
    ∃ name, (t.settle p key).find? key = some name := by
  cases h : t.find? key with
  | none =>
    rw [settle_of_new h hs, find?_enter, if_pos rfl]
    exact ⟨_, rfl⟩
  | some name =>
    rw [settle_of_found h]
    exact ⟨name, h⟩

theorem find?_ask_self (t : NameTable) (hs : p.stem key = .ok s) :
    ∃ name, (t.ask p key).find? key = some name := by
  cases key <;> exact find?_settle_self _ hs

/-! ## 4. Sound tables -/

theorem Sound.empty (p : Program) : Sound p {} where
  stemmed _ _ h := nomatch h
  named _ _ h := nomatch h
  allocated _ _ h := nomatch h

theorem Sound.find?_none {r : Refusal} (h : t.Sound p) (hs : p.stem key = .error r) :
    t.find? key = none := by
  cases hf : t.find? key with
  | none => rfl
  | some name =>
    obtain ⟨s, hs'⟩ := h.stemmed key name hf
    rw [hs] at hs'
    cases hs'

/-- Entering a type, a method or a constructor keeps a table sound; an allocator needs its type. -/
theorem Sound.settle (h : t.Sound p)
    (ha : ∀ i s, key = .allocator i → p.stem key = .ok s → ∃ name, t.find? (.type i) = some name) :
    (t.settle p key).Sound p := by
  cases hk : t.find? key with
  | some name => rwa [settle_of_found hk]
  | none =>
    cases hs : p.stem key with
    | error r => rwa [settle_of_error hs]
    | ok s =>
      rw [settle_of_new hk hs]
      refine ⟨fun k name hn => ?_, fun i name hn => ?_, fun i name hn => ?_⟩
      · rw [find?_enter] at hn
        split at hn
        · subst k
          exact ⟨s, hs⟩
        · exact h.stemmed k name hn
      · rw [find?_enter] at hn
        split at hn
        · subst key
          simp only [NameKey.isNumbered, Bool.false_eq_true, ↓reduceIte, Option.some.injEq] at hn
          rw [hs, hn]
        · exact h.named i name hn
      · have hold : ∃ old, t.find? (.type i) = some old := by
          rw [find?_enter] at hn
          split at hn
          · rename_i e
            exact ha i s e.symm hs
          · exact h.allocated i name hn
        obtain ⟨old, ho⟩ := hold
        have hne : (NameKey.type i) ≠ key := by
          rintro rfl
          rw [hk] at ho
          cases ho
        exact ⟨old, by rw [find?_enter, if_neg hne]; exact ho⟩

/-- The type of an allocator has a stem if the allocator has one. -/
theorem typeStem_of_allocator {i : Nat} (hs : p.stem (.allocator i) = .ok s) :
    ∃ s', p.stem (.type i) = .ok s' ∧ s = s' ++ "_defaultConstructor_" := by
  simp only [Program.stem] at hs ⊢
  cases ht : p.typeStem i with
  | error r => rw [ht] at hs; cases hs
  | ok s' => rw [ht] at hs; cases hs; exact ⟨s', rfl, rfl⟩

theorem typeStem_error_of_allocator {i : Nat} {r : Refusal}
    (hs : p.stem (.allocator i) = .error r) : p.stem (.type i) = .error r := by
  simp only [Program.stem] at hs ⊢
  cases ht : p.typeStem i with
  | error r' => rw [ht] at hs; cases hs; rfl
  | ok s' => rw [ht] at hs; cases hs

theorem Sound.ask (h : t.Sound p) (key : NameKey) : (t.ask p key).Sound p := by
  cases key with
  | type i => exact h.settle fun _ _ e => by cases e
  | method i => exact h.settle fun _ _ e => by cases e
  | constructor i => exact h.settle fun _ _ e => by cases e
  | allocator i =>
    refine (h.settle fun _ _ e => by cases e).settle fun j s e hs => ?_
    cases e
    obtain ⟨s', hs', -⟩ := typeStem_of_allocator hs
    exact find?_settle_self t hs'

theorem Sound.askAll (p : Program) : ∀ (keys : List NameKey) {t : NameTable}, t.Sound p →
    (t.askAll p keys).Sound p
  | [], _, h => h
  | key :: rest, _, h => Sound.askAll p rest (h.ask key)

/-! ## 5. Asking again -/

theorem ask_of_found (h : t.Sound p) (hk : t.find? key = some name) : t.ask p key = t := by
  cases key with
  | type i => exact settle_of_found hk
  | method i => exact settle_of_found hk
  | constructor i => exact settle_of_found hk
  | allocator i =>
    obtain ⟨s, hs⟩ := h.allocated i name hk
    show (t.settle p (.type i)).settle p (.allocator i) = t
    rw [settle_of_found hs, settle_of_found hk]

theorem ask_of_error {r : Refusal} (hs : p.stem key = .error r) : t.ask p key = t := by
  cases key with
  | type i => exact settle_of_error hs
  | method i => exact settle_of_error hs
  | constructor i => exact settle_of_error hs
  | allocator i =>
    have ht := typeStem_error_of_allocator hs
    show (t.settle p (.type i)).settle p (.allocator i) = t
    rw [settle_of_error ht, settle_of_error hs]

/-- A key that was asked for has a name if it has a stem. -/
theorem find?_askAll_of_mem (t : NameTable) {keys : List NameKey} (hk : k ∈ keys)
    (hs : p.stem k = .ok s) : ∃ name, (t.askAll p keys).find? k = some name := by
  obtain ⟨ks, ls, rfl⟩ := List.append_of_mem hk
  obtain ⟨name, hn⟩ := find?_ask_self (t.askAll p ks) hs
  refine ⟨name, ?_⟩
  rw [askAll_append, askAll_cons]
  exact extends_askAll p ls _ k name hn

/-- A key that was asked for once keeps its state in all later tables. -/
theorem find?_of_asked (h : t.Sound p) (keys rest : List NameKey) (hk : k ∈ keys) :
    ((t.askAll p keys).askAll p rest).find? k = (t.askAll p keys).find? k := by
  have hsound := Sound.askAll p rest (Sound.askAll p keys h)
  cases hf : (t.askAll p keys).find? k with
  | some name => exact extends_askAll p rest _ k name hf
  | none =>
    -- the key has no stem, or the first request would have named it
    cases hl : ((t.askAll p keys).askAll p rest).find? k with
    | none => rfl
    | some name =>
      obtain ⟨s, hs⟩ := hsound.stemmed k name hl
      obtain ⟨name', hn⟩ := find?_askAll_of_mem t hk hs
      rw [hf] at hn
      cases hn

/-- A key that was asked for once is spelled alike by all later tables. -/
theorem spelling_of_asked (h : t.Sound p) (keys rest : List NameKey) (hk : k ∈ keys) :
    ((t.askAll p keys).askAll p rest).spelling k = (t.askAll p keys).spelling k := by
  unfold spelling
  rw [find?_of_asked h keys rest hk]

/-- **Asking again for keys that were asked for changes nothing.** -/
theorem askAll_of_subset (h : t.Sound p) (keys : List NameKey) :
    ∀ ks : List NameKey, (∀ k ∈ ks, k ∈ keys) →
    (t.askAll p keys).askAll p ks = t.askAll p keys := by
  intro ks
  induction ks with
  | nil => exact fun _ => rfl
  | cons k ks ih =>
    intro hks
    have hask : (t.askAll p keys).ask p k = t.askAll p keys := by
      have hsound := Sound.askAll p keys h
      cases hs : p.stem k with
      | error r => exact ask_of_error hs
      | ok s =>
        obtain ⟨name, hn⟩ := find?_askAll_of_mem t (hks k List.mem_cons_self) hs
        exact ask_of_found hsound hn
    rw [askAll_cons, hask]
    exact ih fun k' hk' => hks k' (List.mem_cons_of_mem _ hk')

/-- Asking for the same keys again changes nothing. -/
theorem askAll_again (h : t.Sound p) (keys : List NameKey) :
    (t.askAll p keys).askAll p keys = t.askAll p keys :=
  askAll_of_subset h keys keys fun _ hk => hk

end NameTable

end Lowering
