import Lowering.Proofs.Representations

/-!
# Names at file scope

A unit defines the names of its types, its allocators, its functions and its main function side by
side. Types keep the names that they were declared with, every method that is named as the entry
point becomes a main function, and only the names of allocators and of other functions have numbers.
So the numbers keep those apart from each other and from the main function, and nothing keeps the
others apart but the program.

* `TypeDefinition`, `Context.typeDefinitions` -- the definitions of types in a unit;
* `numbered_nodup`, `main_count` -- the names of its functions;
* `file_scope_names_distinct_iff` -- when all names at file scope are different;
* `file_scope_collisions` -- three programs with two definitions of one name.
-/

namespace Lowering

/-! ## 1. Definitions of types -/

/-- The definition of a type in a unit: its name, and its fields. -/
structure TypeDefinition where
  name : String
  fields : List FieldDecl

/-- The rows of the definition of a type. -/
def TypeDefinition.rows (d : TypeDefinition) : List Row := structRows d.name d.fields

/-- **The definitions of types in a unit**, in their order. -/
def Context.typeDefinitions (c : Context) (ν : Spelling) : List TypeDefinition :=
  c.program.types.zipIdx.flatMap fun d =>
    if c.lowers d.1 then [{ name := ν (.type d.2), fields := d.1.fields }] else []

/-- The names that a unit defines at file scope: types first, then functions. -/
def Context.fileScopeNames (c : Context) (ν : Spelling) : List String :=
  (c.typeDefinitions ν).map TypeDefinition.name ++ (c.definitions ν).map Definition.name

theorem typeRows_eq (c : Context) (ν : Spelling) (i : Nat) (t : TypeDecl) :
    typeRows c ν i t =
      (if c.lowers t then [(⟨ν (.type i), t.fields⟩ : TypeDefinition)] else []).flatMap
        TypeDefinition.rows := by
  unfold typeRows
  split
  · simp [TypeDefinition.rows]
  · rfl

/-- **A unit is its header lines, its types and its functions.** -/
theorem Context.rows_eq_fileScope (c : Context) (ν : Spelling) :
    c.rows ν = c.options.headers.map (.line 0) ++
      .blank :: ((c.typeDefinitions ν).flatMap TypeDefinition.rows ++
        (c.definitions ν).flatMap Definition.rows) := by
  rw [Context.rows_eq_definitions, Context.preamble, Context.typeDefinitions]
  simp only [typeRows_eq, List.flatMap_assoc, List.append_assoc, List.cons_append]

/-! ## 2. Lists of names -/

section Lists

variable {α β : Type}

/-- What is made of each declaration that is kept, read off the declarations alone. -/
theorem flatMap_kept (keep : α → Bool) (f : α → β) (decls : List α) :
    (decls.zipIdx.flatMap fun d => if keep d.1 then [f d.1] else []) =
      (decls.filter keep).map f := by
  have hfst : (decls.zipIdx.flatMap fun d => if keep d.1 then [f d.1] else []) =
      decls.flatMap fun d => if keep d then [f d] else [] := by
    conv_rhs => rw [← List.zipIdx_map_fst 0 decls, List.flatMap_map]
  rw [hfst]
  -- by induction on the declarations alone, now that the positions are gone
  clear hfst
  induction decls with
  | nil => rfl
  | cons d rest ih =>
    rw [List.flatMap_cons, List.filter_cons, ih]
    cases keep d <;> rfl

/-- A list has no repetitions if it has none apart from one value, and that value at most once. -/
theorem nodup_iff_apart [DecidableEq α] (a : α) (l : List α) :
    l.Nodup ↔ (l.filter (· != a)).Nodup ∧ l.count a ≤ 1 := by
  constructor
  · intro h
    exact ⟨h.filter _, List.nodup_iff_count_le_one.mp h a⟩
  · rintro ⟨hothers, ha⟩
    refine List.nodup_iff_count_le_one.mpr fun b => ?_
    by_cases hb : b = a
    · rw [hb]
      exact ha
    · have hkeep : (b != a) = true := bne_iff_ne.mpr hb
      rw [← List.count_filter (p := (· != a)) hkeep]
      exact List.nodup_iff_count_le_one.mp hothers b

end Lists

/-! ## 3. The names of a finished unit -/

section Names

variable {c : Context}

/-- A defined key has a name in a finished unit, and it is not that of the main function. -/
theorem definedKey_ne_main (hf : c.course.fault = none) {key : NameKey} (hk : key ∈ c.definedKeys) :
    c.table.spelling key ≠ "main" := by
  have hn := namesAfter_numbers c hf
  exact hn.name_ne_main (table_sound c) (isNumbered_of_definedKeys hk) (found_of_definedKeys hn hk)

/-- No two defined keys have the same name in a finished unit. -/
theorem definedKey_inj (hf : c.course.fault = none) {key key' : NameKey} (hk : key ∈ c.definedKeys)
    (hk' : key' ∈ c.definedKeys) (he : c.table.spelling key = c.table.spelling key') :
    key = key' := by
  have hn : Numbers c.program c.keys c.table := namesAfter_numbers c hf
  have hfound := found_of_definedKeys hn hk
  have hfound' := found_of_definedKeys hn hk'
  rw [← he] at hfound'
  exact hn.key_unique (table_sound c) (isNumbered_of_definedKeys hk)
    (isNumbered_of_definedKeys hk') hfound
    hfound'

/-- **The types of a finished unit have the names that they were declared with.** -/
theorem typeDefinitions_names (hf : c.course.fault = none) :
    (c.typeDefinitions c.table.spelling).map TypeDefinition.name =
      (c.program.types.filter c.lowers).map TypeDecl.name := by
  unfold Context.typeDefinitions
  rw [List.map_flatMap, ← flatMap_kept]
  refine List.flatMap_congr fun d hd => ?_
  have hat := List.mem_zipIdx_iff_getElem?.mp hd
  split
  · rename_i hl
    rw [List.map_singleton, type_spelled hf hat (request_of_lowers hat hl)]
  · rfl

/-- **The names of allocators and of methods are different from each other.** -/
theorem numbered_nodup (hfault : c.fault = none) (hf : c.course.fault = none) :
    (((c.definitions c.table.spelling).map Definition.name).filter (· != "main")).Nodup := by
  rw [definitions_names hfault fun key hk => definedKey_ne_main hf hk]
  exact (definedKeys_nodup c).map_on fun a ha b hb he => definedKey_inj hf ha hb he

/-- No allocator adds the name of the main function. -/
theorem allocatorDefinitions_main (hf : c.course.fault = none) {i : Nat} {t : TypeDecl}
    (ht : c.program.types[i]? = some t) :
    ((allocatorDefinitions c c.table.spelling i t).map Definition.name).filter
      (· == "main") = [] := by
  unfold allocatorDefinitions
  split
  · rename_i hl
    have hne := definedKey_ne_main hf ((allocator_mem_definedKeys ht).mpr hl)
    simp [hne]
  · rfl

/-- Only a method that is named as the entry point adds the name of the main function. -/
theorem functionDefinitions_main (hf : c.course.fault = none) {i : Nat} {m : MethodDecl}
    (hm : c.program.methods[i]? = some m) :
    ((functionDefinitions c c.table.spelling i m).map Definition.name).filter (· == "main") =
      if m.name == c.options.entryPoint then ["main"] else [] := by
  unfold functionDefinitions
  by_cases he : m.name = c.options.entryPoint
  · simp [he]
  · have hbeq : (m.name == c.options.entryPoint) = false := beq_eq_false_iff_ne.mpr he
    rw [if_neg he, hbeq]
    by_cases hn : (m.isNative || m.isStatic) = true
    · rw [if_pos hn]
      rfl
    · rw [if_neg hn]
      have hd : c.definesMethod m = true := by
        rw [Context.definesMethod, bne_iff_ne.mpr he, Bool.eq_false_iff.mpr hn]
        rfl
      have hne := definedKey_ne_main hf ((method_mem_definedKeys hm).mpr hd)
      cases m.owner with
      | none => rfl
      | some owner => simp [hne]

/-- **There are as many main functions as methods with the name of the entry point.** -/
theorem main_count (hf : c.course.fault = none) :
    ((c.definitions c.table.spelling).map Definition.name).count "main" =
      (c.program.methods.filter (·.name == c.options.entryPoint)).length := by
  have hsplit : c.definitions c.table.spelling =
      (c.program.types.zipIdx.flatMap fun d => allocatorDefinitions c c.table.spelling d.2 d.1) ++
        c.program.methods.zipIdx.flatMap fun d =>
          functionDefinitions c c.table.spelling d.2 d.1 := rfl
  have hallocators : (c.program.types.zipIdx.flatMap fun d =>
      ((allocatorDefinitions c c.table.spelling d.2 d.1).map Definition.name).filter
        (· == "main")) = [] :=
    List.flatMap_eq_nil_iff.mpr fun d hd =>
      allocatorDefinitions_main hf (List.mem_zipIdx_iff_getElem?.mp hd)
  have hfunctions : (c.program.methods.zipIdx.flatMap fun d =>
      ((functionDefinitions c c.table.spelling d.2 d.1).map Definition.name).filter (· == "main")) =
      (c.program.methods.filter (·.name == c.options.entryPoint)).map fun _ => "main" := by
    rw [← flatMap_kept]
    exact List.flatMap_congr fun d hd =>
      functionDefinitions_main hf (List.mem_zipIdx_iff_getElem?.mp hd)
  rw [List.count_eq_length_filter, hsplit, List.map_append, List.filter_append, List.map_flatMap,
    List.map_flatMap, List.filter_flatMap, List.filter_flatMap, hallocators, hfunctions,
    List.nil_append, List.length_map]

end Names

/-- **When the names at file scope are different.** In every unit that a fresh generator writes, the
code is the header lines, the types and the functions. The names of allocators and of methods are
different from each other and from the name of the main function. All names at file scope are
different if and only if no two lowered types have the same name, at most one method has the name of
the entry point, and no lowered type has the name of a function of the unit. -/
theorem file_scope_names_distinct_iff {p : Program} {o : Options} {g : Generator} {code : String}
    (hg : Generator.ofProgram p o = .ok g) (hrun : g.generate.1 = .ok code) :
    let c : Context := { program := p, options := o }
    let ν := g.generate.2.names.spelling
    let functions := (c.definitions ν).map Definition.name
    code = render 0 (o.headers.map (.line 0) ++ .blank ::
      ((c.typeDefinitions ν).flatMap TypeDefinition.rows ++
        (c.definitions ν).flatMap Definition.rows)) ∧
    (functions.filter (· != "main")).Nodup ∧
    functions.count "main" = (p.methods.filter (·.name == o.entryPoint)).length ∧
    ((c.fileScopeNames ν).Nodup ↔
      ((p.types.filter c.lowers).map TypeDecl.name).Nodup ∧
      (p.methods.filter (·.name == o.entryPoint)).length ≤ 1 ∧
      ∀ t ∈ p.types, c.lowers t = true → t.name ∉ functions) := by
  intro c ν functions
  obtain ⟨ho, rfl⟩ := Generator.eq_of_ofProgram hg
  obtain ⟨hf, -⟩ := generate_fresh c hrun
  have hempty : NameTable.Sound p {} := NameTable.Sound.empty p
  have hν : ν = c.table.spelling :=
    congrArg NameTable.spelling (Generator.generate_names (g := { context := c }) hempty)
  have hfault : c.fault = none := by
    rw [← Context.course_fault ho]
    exact hf
  have hcode : code = render 0 (c.rows ν) := by
    have hok := Generator.generate_of_ok (g := { context := c }) hempty hf
    rw [hrun] at hok
    rw [hν]
    exact Except.ok.inj hok
  have hnumbered : (functions.filter (· != "main")).Nodup := by
    show (((c.definitions ν).map Definition.name).filter (· != "main")).Nodup
    rw [hν]
    exact numbered_nodup hfault hf
  have hmain : functions.count "main" = (p.methods.filter (·.name == o.entryPoint)).length := by
    show ((c.definitions ν).map Definition.name).count "main" = _
    rw [hν]
    exact main_count hf
  have htypes : (c.typeDefinitions ν).map TypeDefinition.name =
      (p.types.filter c.lowers).map TypeDecl.name := by
    rw [hν]
    exact typeDefinitions_names hf
  have hapart : (∀ a ∈ (p.types.filter c.lowers).map TypeDecl.name, ∀ b ∈ functions, a ≠ b) ↔
      ∀ t ∈ p.types, c.lowers t = true → t.name ∉ functions := by
    constructor
    · intro h t ht hl hmem
      exact h _ (List.mem_map_of_mem (List.mem_filter.mpr ⟨ht, hl⟩)) _ hmem rfl
    · rintro h a ha b hb rfl
      obtain ⟨t, ht, rfl⟩ := List.mem_map.mp ha
      exact h t (List.mem_of_mem_filter ht) (List.mem_filter.mp ht).2 hb
  refine ⟨hcode.trans (congrArg _ (c.rows_eq_fileScope ν)), hnumbered, hmain, ?_⟩
  rw [Context.fileScopeNames, htypes, List.nodup_append, hapart,
    nodup_iff_apart "main" functions, hmain]
  simp only [hnumbered, true_and]

/-- The ship and the fleet of the convoy, the allocator of the ship, its method and the main
function have five different names. -/
theorem convoy_names_distinct :
    let c : Context := { program := convoy }
    let g : Generator := { context := c }
    Generator.ofProgram convoy {} = .ok g ∧ (∃ code, g.generate.1 = .ok code) ∧
      (c.fileScopeNames g.generate.2.names.spelling).Nodup := by
  intro c g
  have hg : Generator.ofProgram convoy {} = .ok g := rfl
  have hempty := NameTable.Sound.empty convoy
  have hrun := Generator.generate_of_ok (g := g) hempty (by decide +kernel)
  obtain ⟨-, -, -, hdistinct⟩ := file_scope_names_distinct_iff hg hrun
  have hfunctions : (c.definitions g.generate.2.names.spelling).map Definition.name =
      ["Ship_defaultConstructor_0", "main", "Ship_sail_1"] := by
    rw [Generator.generate_names hempty]
    decide +kernel
  refine ⟨hg, ⟨_, hrun⟩, hdistinct.mpr ⟨by decide +kernel, by decide +kernel, ?_⟩⟩
  rw [hfunctions]
  decide +kernel

/-! ## 4. Collisions -/

/-- Two types of one name. -/
def sisterShips : Program where
  types := [.classNamed "Ship", .classNamed "Ship"]

/-- Two types with an entry point each. -/
def rivalCaptains : Program where
  types := [.classNamed "Ship", .classNamed "Raft"]
  methods := [.instanceOf ⟨0⟩ "Main", .instanceOf ⟨1⟩ "Main"]

/-- A type that is named as the allocator of another one. -/
def falseFlag : Program where
  types := [.classNamed "Ship", .classNamed "Ship_defaultConstructor_0"]

/-- The unit of a program is written, and defines a name twice. -/
def DefinesTwice (p : Program) : Prop :=
  ∃ g code, Generator.ofProgram p {} = .ok g ∧ g.generate.1 = .ok code ∧
    ¬ (Context.fileScopeNames { program := p } g.generate.2.names.spelling).Nodup

theorem definesTwice_of_table {p : Program} (ho : p.checkOwners = .ok ())
    (hf : (Context.course { program := p }).fault = none)
    (hnames :
      ¬ (Context.fileScopeNames { program := p } (Context.table { program := p }).spelling).Nodup) :
    DefinesTwice p := by
  have hempty := NameTable.Sound.empty p
  have hg : Generator.ofProgram p {} = .ok { context := { program := p } } := by
    unfold Generator.ofProgram Context.ofProgram
    rw [ho]
    rfl
  refine ⟨_, _, hg, Generator.generate_of_ok hempty hf, ?_⟩
  rw [Generator.generate_names hempty]
  exact hnames

/-- Each of these programs has a unit that defines a name twice. -/
theorem file_scope_collisions :
    DefinesTwice sisterShips ∧ DefinesTwice rivalCaptains ∧ DefinesTwice falseFlag :=
  ⟨definesTwice_of_table rfl (by decide +kernel) (by decide +kernel),
    definesTwice_of_table rfl (by decide +kernel) (by decide +kernel),
    definesTwice_of_table rfl (by decide +kernel) (by decide +kernel)⟩

end Lowering
