import Lowering.Proofs.Callees
import Lowering.Proofs.NumberedNames
import Mathlib.Data.List.Nodup

/-!
# Numbered names and definitions

A unit is the header lines, the definitions of its types, and then one function after another. This
file takes the functions as a list and holds it against the table of names that a run leaves: every
function but the main one has a name of the table for itself, and the other names of the table
belong to declarations that the passes leave out.

* `Definition`, `Context.definitions` -- the functions of a unit, with
  `Context.rows_eq_definitions`;
* `definedKeys_nodup`, `definitions_names` -- one key for each function;
* `Context.OnlyCalled` -- what has a name and no function;
* `numbered_names_accounted` -- the account of the names that a fresh run leaves.
-/

namespace Lowering

/-! ## 1. Definitions -/

/-- A function of a unit: the text of its result type, its name, the text of its parameters, and the
rows between its braces. -/
structure Definition where
  result : String
  name : String
  params : String
  body : List Row

namespace Definition

/-- The line that a definition starts with. -/
def head (d : Definition) : String := d.result ++ " " ++ d.name ++ "(" ++ d.params ++ ")"

/-- The rows of a definition. -/
def rows (d : Definition) : List Row :=
  .line 0 d.head :: .line 0 "\x7b" :: (d.body.map Row.deeper ++ [.line 0 "\x7d", .blank])

end Definition

variable (c : Context) (ν : Spelling)

/-- The allocator of a type, if it has one. -/
def allocatorDefinitions (i : Nat) (t : TypeDecl) : List Definition :=
  if c.lowers t && !t.isStatic then
    [{ result := ν (.type i) ++ "*"
       name := ν (.allocator i)
       params := ""
       body :=
         [.line 0 ("return (" ++ ν (.type i) ++ "*)calloc(1, sizeof(" ++ ν (.type i) ++ "));")] }]
  else []

/-- The function of a method, if it has one. -/
def functionDefinitions (i : Nat) (m : MethodDecl) : List Definition :=
  if m.name = c.options.entryPoint then
    [{ result := "int", name := "main", params := "", body := allRows c ν (m.body.getD []) }]
  else if m.isNative || m.isStatic then []
  else
    match m.owner with
    | none => []
    | some owner =>
      [{ result := m.returnType
         name := ν (.method i)
         params := parameterList (ν (.type owner.position)) m.params
         body := allRows c ν (m.body.getD []) }]

/-- **The functions of a unit**, in their order. -/
def Context.definitions : List Definition :=
  (c.program.types.zipIdx.flatMap fun (t, i) => allocatorDefinitions c ν i t) ++
    c.program.methods.zipIdx.flatMap fun (m, i) => functionDefinitions c ν i m

/-- The rows in front of the functions: header lines, and definitions of types. -/
def Context.preamble : List Row :=
  c.options.headers.map (.line 0) ++
    .blank :: c.program.types.zipIdx.flatMap fun (t, i) => typeRows c ν i t

theorem allocatorRows_eq (i : Nat) (t : TypeDecl) :
    allocatorRows c ν i t = (allocatorDefinitions c ν i t).flatMap Definition.rows := by
  unfold allocatorRows allocatorDefinitions
  split
  · simp [allocatorBlock, Definition.rows, Definition.head, Row.deeper, String.append_assoc]
  · rfl

theorem functionRows_eq (i : Nat) (m : MethodDecl) :
    functionRows c ν i m = (functionDefinitions c ν i m).flatMap Definition.rows := by
  unfold functionRows functionDefinitions
  split
  · simp [functionBlock, Stmt.rows, Definition.rows, Definition.head]
  · split
    · rfl
    · cases m.owner with
      | none => rfl
      | some owner => simp [functionBlock, methodHead, Stmt.rows, Definition.rows, Definition.head]

/-- **A unit is its preamble and its functions.** -/
theorem Context.rows_eq_definitions :
    c.rows ν = c.preamble ν ++ (c.definitions ν).flatMap Definition.rows := by
  unfold Context.rows Context.preamble Context.definitions
  simp only [allocatorRows_eq, functionRows_eq, List.flatMap_append, List.flatMap_assoc,
    List.append_assoc, List.cons_append]

/-! ## 2. One key for each function -/

variable {c ν}

section Positions

variable {α : Type} (g : Nat → NameKey) (keep : α → Bool)

theorem kept_sublist : ∀ l : List (α × Nat),
    (l.flatMap fun (d, i) => if keep d then [g i] else []).Sublist (l.map fun d => g d.2)
  | [] => List.Sublist.slnil
  | (d, i) :: rest => by
      rw [List.flatMap_cons, List.map_cons]
      by_cases hd : keep d = true
      · simp only [hd, ↓reduceIte]
        exact (kept_sublist rest).cons_cons _
      · simp only [hd, Bool.false_eq_true, ↓reduceIte]
        exact (kept_sublist rest).cons _

theorem kept_nodup (hg : Function.Injective g) (l : List α) :
    (l.zipIdx.flatMap fun (d, i) => if keep d then [g i] else []).Nodup := by
  have hall : (l.zipIdx.map fun d => g d.2).Nodup := by
    have hmap : (l.zipIdx.map fun d => g d.2) = (l.zipIdx.map Prod.snd).map g := by
      rw [List.map_map]
      rfl
    rw [hmap, List.zipIdx_map_snd]
    exact List.Nodup.map hg (List.nodup_range' 1)
  exact hall.sublist (kept_sublist g keep _)

end Positions

/-- No key is defined twice. -/
theorem definedKeys_nodup (c : Context) : c.definedKeys.Nodup := by
  have hallocators : (c.program.types.zipIdx.flatMap fun (t, i) => allocatorKeys c i t).Nodup :=
    kept_nodup .allocator (fun t => c.lowers t && !t.isStatic) (fun _ _ => NameKey.allocator.inj) _
  have hmethods :=
    kept_nodup .method c.definesMethod (fun _ _ => NameKey.method.inj) c.program.methods
  refine List.nodup_append.mpr ⟨hallocators, hmethods, ?_⟩
  have hleft :=
    (kept_sublist .allocator (fun t => c.lowers t && !t.isStatic) c.program.types.zipIdx).subset
  have hright := (kept_sublist .method c.definesMethod c.program.methods.zipIdx).subset
  rintro a ha b hb rfl
  obtain ⟨_, _, rfl⟩ := List.mem_map.mp (hleft ha)
  obtain ⟨_, _, he⟩ := List.mem_map.mp (hright hb)
  cases he

/-- The names that a method adds to those of the functions, the main function apart. -/
theorem functionDefinitions_names {i : Nat} {m : MethodDecl} (hf : methodFault c m = none)
    (hmain : c.definesMethod m = true → ν (.method i) ≠ "main") :
    ((functionDefinitions c ν i m).map Definition.name).filter (· != "main") =
      (if c.definesMethod m then [.method i] else []).map ν := by
  by_cases hd : c.definesMethod m = true
  · obtain ⟨owner, hown⟩ := owner_of_definesMethod hf hd
    have hkeep : (ν (.method i) != "main") = true := bne_iff_ne.mpr (hmain hd)
    rw [if_pos hd]
    simp only [Context.definesMethod, Bool.and_eq_true, bne_iff_ne, Bool.not_eq_true'] at hd
    unfold functionDefinitions
    rw [if_neg hd.1, hd.2, hown]
    simp [hkeep]
  · rw [if_neg hd]
    unfold functionDefinitions
    by_cases he : m.name = c.options.entryPoint
    · rw [if_pos he]
      rfl
    · have hn : (m.isNative || m.isStatic) = true := by
        cases hb : m.isNative || m.isStatic with
        | true => rfl
        | false =>
          rw [Context.definesMethod, bne_iff_ne.mpr he, hb] at hd
          exact absurd rfl hd
      rw [if_neg he, if_pos hn]
      rfl

/-- **The names of the functions, the main function apart, are those of the defined keys.** -/
theorem definitions_names (hf : c.fault = none) (hmain : ∀ key ∈ c.definedKeys, ν key ≠ "main") :
    ((c.definitions ν).map Definition.name).filter (· != "main") = c.definedKeys.map ν := by
  unfold Context.definitions Context.definedKeys
  simp only [List.map_append, List.filter_append, List.map_flatMap, List.filter_flatMap]
  congr 1
  · refine List.flatMap_congr fun (t, i) ht => ?_
    unfold allocatorDefinitions allocatorKeys
    split
    · rename_i hl
      have hkey : .allocator i ∈ c.definedKeys :=
        (allocator_mem_definedKeys (List.mem_zipIdx_iff_getElem?.mp ht)).mpr hl
      have hkeep : (ν (.allocator i) != "main") = true := bne_iff_ne.mpr (hmain _ hkey)
      simp [hkeep]
    · rfl
  · refine List.flatMap_congr fun (m, i) hm => ?_
    have hat := List.mem_zipIdx_iff_getElem?.mp hm
    exact functionDefinitions_names (methodFault_of_fault hf (List.mem_of_getElem? hat)) fun hd =>
      hmain _ ((method_mem_definedKeys hat).mpr hd)

/-- **A key that a unit defines heads one function**, if no two defined keys are spelled alike and
none is spelled as the main function. -/
theorem count_definitions (hf : c.fault = none) (hmain : ∀ key ∈ c.definedKeys, ν key ≠ "main")
    (hinj : ∀ key ∈ c.definedKeys, ∀ key' ∈ c.definedKeys, ν key = ν key' → key = key')
    {key : NameKey} (hk : key ∈ c.definedKeys) :
    ((c.definitions ν).map Definition.name).count (ν key) = 1 := by
  have hnodup : (c.definedKeys.map ν).Nodup :=
    (definedKeys_nodup c).map_on fun a ha b hb => hinj a ha b hb
  have hkeep : (ν key != "main") = true := bne_iff_ne.mpr (hmain key hk)
  rw [← List.count_filter (p := (· != "main")) hkeep, definitions_names hf hmain, hnodup.count,
    if_pos (List.mem_map_of_mem hk)]

/-! ## 3. Keys with a name and no function -/

/-- **What is called and has no function of its own**: methods that are static or named as the entry
point, user constructors, and allocators of static types and of the definition of the marker. -/
def Context.OnlyCalled (c : Context) : NameKey → Prop
  | .type _ => False
  | .method i => ∃ m, c.program.methods[i]? = some m ∧ m.isNative = false ∧
      (m.isStatic = true ∨ m.name = c.options.entryPoint)
  | .constructor i => ∃ k, c.program.constructors[i]? = some k
  | .allocator i => ∃ t, c.program.types[i]? = some t ∧ t.kind ≠ .enumType ∧
      t.representation c.options.markerAttribute = .reference ∧
      (t.isStatic = true ∨ t.name = c.options.markerDefinition)

theorem onlyCalled_of_leftOut {key : NameKey} (hc : c.Callable key) (hn : c.program.Nameable key)
    (hl : c.leftOut key = true) : c.OnlyCalled key := by
  cases key with
  | type i => cases hl
  | constructor i => exact hn
  | method i =>
    obtain ⟨m, hm, hnative⟩ := hc
    refine ⟨m, hm, hnative, ?_⟩
    simpa [Context.leftOut, hm] using hl
  | allocator i =>
    obtain ⟨t, ht, hk, hr⟩ := hc
    refine ⟨t, ht, hk, hr, ?_⟩
    simpa [Context.leftOut, ht] using hl

/-- The numbered keys of a unit are those that it defines and those that it calls. -/
theorem mem_keys {key : NameKey} (h : key ∈ c.keys) : key ∈ c.definedKeys ∨ key ∈ c.calledKeys := by
  unfold Context.keys at h
  rcases List.mem_append.mp h with h | h
  · exact Or.inl (List.mem_append_left _ h)
  · obtain ⟨⟨m, i⟩, hm, hk⟩ := List.mem_flatMap.mp h
    have hat := List.mem_zipIdx_iff_getElem?.mp hm
    dsimp only at hk
    unfold functionKeys at hk
    by_cases he : m.name = c.options.entryPoint
    · rw [if_pos he] at hk
      refine Or.inr (List.mem_flatMap.mpr ⟨m, List.mem_of_getElem? hat, ?_⟩)
      rw [if_pos (by simp [Context.hasFunction, he])]
      exact hk
    · rw [if_neg he] at hk
      split at hk
      · cases hk
      · rename_i hn
        rcases List.mem_cons.mp hk with rfl | hk
        · refine Or.inl ((method_mem_definedKeys hat).mpr ?_)
          rw [Context.definesMethod, bne_iff_ne.mpr he, Bool.eq_false_iff.mpr hn]
          rfl
        · refine Or.inr (List.mem_flatMap.mpr ⟨m, List.mem_of_getElem? hat, ?_⟩)
          rw [if_pos (by rw [Context.hasFunction, Bool.eq_false_iff.mpr hn]; simp)]
          exact hk

theorem keys_of_definedKeys {key : NameKey} (h : key ∈ c.definedKeys) : key ∈ c.keys := by
  rcases List.mem_append.mp h with h | h
  · exact List.mem_append_left _ h
  · obtain ⟨⟨m, i⟩, hm, hk⟩ := List.mem_flatMap.mp h
    refine List.mem_append_right _ (List.mem_flatMap.mpr ⟨(m, i), hm, ?_⟩)
    dsimp only at hk ⊢
    split at hk
    · rename_i hd
      simp only [Context.definesMethod, Bool.and_eq_true, bne_iff_ne, Bool.not_eq_true'] at hd
      unfold functionKeys
      rw [if_neg hd.1, hd.2, List.mem_singleton.mp hk]
      exact List.mem_cons_self
    · cases hk

/-! ## 4. The account -/

section Account

variable {t : NameTable}

/-- The numbered keys that have a name are the keys of the unit. -/
theorem mem_keys_of_found (hn : Numbers c.program c.keys t) {key : NameKey} {name : String}
    (hkey : key.isNumbered = true) (hf : t.find? key = some name) : key ∈ c.keys := by
  rw [hn.found key hkey] at hf
  split at hf
  · assumption
  · cases hf

theorem isNumbered_of_definedKeys {key : NameKey} (h : key ∈ c.definedKeys) :
    key.isNumbered = true := by
  rcases mem_definedKeys.mp h with ⟨i, d, -, -, rfl⟩ | ⟨i, m, -, -, rfl⟩ <;> rfl

theorem found_of_definedKeys (hn : Numbers c.program c.keys t) {key : NameKey}
    (h : key ∈ c.definedKeys) : t.find? key = some (t.spelling key) := by
  have hfound := hn.found key (isNumbered_of_definedKeys h)
  rw [if_pos (keys_of_definedKeys h)] at hfound
  rw [NameTable.spelling_of_found hfound, hfound]

/-- **A defined key has a name, and the name heads one function.** -/
theorem definedKeys_head_one (hf : c.fault = none) (hn : Numbers c.program c.keys t)
    (ht : t.Sound c.program) {key : NameKey} (hk : key ∈ c.definedKeys) :
    ∃ name, t.find? key = some name ∧
      ((c.definitions t.spelling).map Definition.name).count name = 1 := by
  refine ⟨t.spelling key, found_of_definedKeys hn hk, count_definitions hf ?_ ?_ hk⟩
  · intro k hk
    exact hn.name_ne_main ht (isNumbered_of_definedKeys hk) (found_of_definedKeys hn hk)
  · intro a ha b hb hab
    have hfa := found_of_definedKeys hn ha
    have hfb := found_of_definedKeys hn hb
    rw [← hab] at hfb
    exact hn.key_unique ht (isNumbered_of_definedKeys ha) (isNumbered_of_definedKeys hb) hfa hfb

/-- **A numbered name belongs to a defined key or to one that is only called.** -/
theorem defined_or_onlyCalled (hf : c.fault = none) (hn : Numbers c.program c.keys t)
    (ht : t.Sound c.program) {key : NameKey} {name : String} (hkey : key.isNumbered = true)
    (hfound : t.find? key = some name) : key ∈ c.definedKeys ∨ c.OnlyCalled key := by
  rcases mem_keys (mem_keys_of_found hn hkey hfound) with hk | hk
  · exact Or.inl hk
  · obtain ⟨row, -, hcall⟩ := bodies_call (ν := t.spelling) hf hk
    obtain ⟨s, hs⟩ := ht.stemmed key name hfound
    cases hl : c.leftOut key with
    | false => exact Or.inl ((defined_iff_not_leftOut hcall.callable).mpr hl)
    | true => exact Or.inr (onlyCalled_of_leftOut hcall.callable (nameable_of_stem hs) hl)

/-- A native method has no numbered name. -/
theorem native_not_numbered {i : Nat} {m : MethodDecl} (hm : c.program.methods[i]? = some m)
    (hnative : m.isNative = true) : ¬ (.method i ∈ c.definedKeys ∨ c.OnlyCalled (.method i)) := by
  rintro (h | ⟨m', hm', hnative', -⟩)
  · rw [method_mem_definedKeys hm, Context.definesMethod, hnative] at h
    simp at h
  · rw [hm] at hm'
    cases hm'
    rw [hnative] at hnative'
    cases hnative'

/-- The allocator of a type that is held by value has no numbered name. -/
theorem value_not_numbered {i : Nat} {d : TypeDecl} (hd : c.program.types[i]? = some d)
    (hv : d.representation c.options.markerAttribute = .value) :
    ¬ (.allocator i ∈ c.definedKeys ∨ c.OnlyCalled (.allocator i)) := by
  rintro (h | ⟨d', hd', -, hr, -⟩)
  · rw [allocator_mem_definedKeys hd, Context.lowers, hv] at h
    simp at h
  · rw [hd] at hd'
    cases hd'
    rw [hv] at hr
    cases hr

end Account

/-- **The account of numbered names.** After a fresh run that writes a unit: the unit is its
preamble and its functions; every lowered type that is not static has an allocator name, and every
method that is neither native nor static nor the entry point has a name; each of these names heads
exactly one function. All other numbered names belong to declarations that are only called. So no
native method has a numbered name, and no allocator of a type that is held by value. -/
theorem numbered_names_accounted {p : Program} {o : Options} {g : Generator} {code : String}
    (hg : Generator.ofProgram p o = .ok g) (hrun : g.generate.1 = .ok code) :
    let c : Context := { program := p, options := o }
    let table := g.generate.2.names
    let unit := c.definitions table.spelling
    let heads := unit.map Definition.name
    code = render 0 (c.preamble table.spelling ++ unit.flatMap Definition.rows) ∧
    (∀ i d, p.types[i]? = some d → c.lowers d = true → d.isStatic = false →
      ∃ name, table.find? (.allocator i) = some name ∧ heads.count name = 1) ∧
    (∀ i m, p.methods[i]? = some m → m.isNative = false → m.isStatic = false →
      m.name ≠ o.entryPoint →
      ∃ name, table.find? (.method i) = some name ∧ heads.count name = 1) ∧
    (∀ key name, key.isNumbered = true → table.find? key = some name →
      key ∈ c.definedKeys ∨ c.OnlyCalled key) ∧
    (∀ i m, p.methods[i]? = some m → m.isNative = true → table.find? (.method i) = none) ∧
    (∀ i d, p.types[i]? = some d → d.representation o.markerAttribute = .value →
      table.find? (.allocator i) = none) := by
  intro c table unit heads
  obtain ⟨ho, rfl⟩ := Generator.eq_of_ofProgram hg
  obtain ⟨hcourse, -⟩ := generate_fresh c hrun
  have hf : c.fault = none := by
    rw [← Context.course_fault ho]
    exact hcourse
  have hempty : NameTable.Sound p {} := NameTable.Sound.empty p
  have hnames : table = Generator.namesAfter { context := c } := Generator.generate_names hempty
  have hn : Numbers p c.keys table := hnames ▸ namesAfter_numbers c hcourse
  have ht : table.Sound p := hnames ▸ NameTable.Sound.askAll p c.course.asked hempty
  have hcode : code = c.unitText table.spelling := by
    have hok := Generator.generate_of_ok (g := { context := c }) hempty hcourse
    rw [hrun, ← hnames] at hok
    exact Except.ok.inj hok
  have hother : ∀ key name, key.isNumbered = true → table.find? key = some name →
      key ∈ c.definedKeys ∨ c.OnlyCalled key :=
    fun key name hkey hfound => defined_or_onlyCalled hf hn ht hkey hfound
  refine ⟨?_, fun i d hd hl hs => ?_, fun i m hm hnative hstatic hentry => ?_, hother,
    fun i m hm hnative => ?_, fun i d hd hv => ?_⟩
  · rw [hcode, Context.unitText, Context.rows_eq_definitions]
  · refine definedKeys_head_one hf hn ht ((allocator_mem_definedKeys hd).mpr ?_)
    rw [hl, hs]
    rfl
  · refine definedKeys_head_one hf hn ht ((method_mem_definedKeys hm).mpr ?_)
    rw [Context.definesMethod, bne_iff_ne.mpr hentry, hnative, hstatic]
    rfl
  · refine Option.eq_none_iff_forall_ne_some.mpr fun name hfound => ?_
    exact native_not_numbered hm hnative (hother _ name rfl hfound)
  · refine Option.eq_none_iff_forall_ne_some.mpr fun name hfound => ?_
    exact value_not_numbered hd hv (hother _ name rfl hfound)

/-- A program with a name of each kind: a ship that is lowered, a static fleet that is created, a
static method that is called, a native method, and a point that is held by value. -/
def convoy : Program where
  types := [.classNamed "Ship", (TypeDecl.classNamed "Fleet").asStatic,
    (TypeDecl.structNamed "Point").withAttribute "C"]
  methods := [
    { name := "Main", isStatic := true, body := some [
        .expression (.callOn (.creation ⟨0⟩ none []) ⟨1⟩ [.creation ⟨2⟩ none []]),
        .expression (.callOn (.creation ⟨1⟩ none []) ⟨2⟩ [])] },
    .instanceOf ⟨0⟩ "sail",
    (MethodDecl.instanceOf ⟨1⟩ "count").asStatic,
    .native (some ⟨0⟩) "Print"]

/-- In the unit of the convoy `sail` and the allocator of the ship head one function each. The fleet
and its method have names and no functions, and neither `Print` nor the point has a numbered
name. -/
theorem convoy_names_accounted :
    let c : Context := { program := convoy }
    let g : Generator := { context := c }
    let table := g.generate.2.names
    let heads := (c.definitions table.spelling).map Definition.name
    Generator.ofProgram convoy {} = .ok g ∧
      (∃ name, table.find? (.allocator 0) = some name ∧ heads.count name = 1) ∧
      (∃ name, table.find? (.method 1) = some name ∧ heads.count name = 1) ∧
      table.find? (.allocator 1) = some "Fleet_defaultConstructor_2" ∧ c.OnlyCalled (.allocator 1) ∧
      table.find? (.method 3) = none ∧ table.find? (.allocator 2) = none := by
  intro c g table heads
  have hg : Generator.ofProgram convoy {} = .ok g := rfl
  have hfault : c.course.fault = none := by decide +kernel
  have hempty := NameTable.Sound.empty convoy
  obtain ⟨-, hallocators, hmethods, hother, hnative, hvalue⟩ :=
    numbered_names_accounted hg (Generator.generate_of_ok hempty hfault)
  have hnames : table = g.namesAfter := Generator.generate_names hempty
  have hfleet : table.find? (.allocator 1) = some "Fleet_defaultConstructor_2" := by
    rw [hnames]
    decide +kernel
  have hleft : .allocator 1 ∉ c.definedKeys := by decide +kernel
  exact ⟨hg, hallocators 0 _ rfl (by decide +kernel) rfl,
    hmethods 1 _ rfl rfl rfl (by decide), hfleet, (hother _ _ rfl hfleet).resolve_left hleft,
    hnative 3 _ rfl rfl, hvalue 2 _ rfl (by decide +kernel)⟩

end Lowering
