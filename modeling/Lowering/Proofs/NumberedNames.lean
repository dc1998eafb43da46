import Lowering.Proofs.RequestRows

/-!
# Numbered names do not collide

Types and methods may have any names: empty ones, names with underscores and digits in them, the
same name twice. So the stems of two keys can be the same text, and one stem can go on where another
ends. The names are different all the same: the digits behind the last underscore are the running
number, and no two keys share a number.

* `trailingDigits` -- the digits at the end of a text;
* `Numbers.name_eq` -- what a numbered name is made of;
* `Numbers.key_unique`, `Numbers.name_ne_main` -- no two keys of a table have the same name, and
  none has the name of the main function;
* `numbered_names_never_collide` -- the same for the answers to any row of requests.
-/

namespace Lowering

variable {p : Program} {t : NameTable} {keys : List NameKey} {key key' : NameKey} {name : String}

/-! ## 1. The number of a name -/

/-- The digits at the end of a text. -/
def trailingDigits (text : String) : List Char :=
  (text.toList.reverse.takeWhile Char.isDigit).reverse

theorem trailingDigits_numbered (s : String) (n : Nat) :
    trailingDigits (s ++ "_" ++ decimal n) = (decimal n).toList := by
  have hdigits : ∀ c ∈ (decimal n).toList.reverse, c.isDigit = true :=
    fun c hc => isDigit_of_mem_decimal (List.mem_reverse.mp hc)
  have hrest : (s ++ "_").toList.reverse.takeWhile Char.isDigit = [] := by
    have hlast : "_".toList = ['_'] := rfl
    rw [String.toList_append, hlast, List.reverse_append]
    rfl
  unfold trailingDigits
  rw [String.toList_append, List.reverse_append, List.takeWhile_append_of_pos hdigits, hrest,
    List.append_nil, List.reverse_reverse]

/-- The number of a name can be told from its text. -/
theorem number_unique {s s' : String} {m n : Nat}
    (h : s ++ "_" ++ decimal m = s' ++ "_" ++ decimal n) : m = n := by
  have hdigits : (decimal m).toList = (decimal n).toList := by
    rw [← trailingDigits_numbered s m, ← trailingDigits_numbered s' n, h]
  exact decimal_inj (String.toList_inj.mp hdigits)

/-- The stem of a numbered name ends in an underscore. -/
theorem stem_underscore {s : String} (hn : key.isNumbered = true) (hs : p.stem key = .ok s) :
    ∃ s', s = s' ++ "_" := by
  cases key with
  | type i => cases hn
  | method i =>
    simp only [Program.stem] at hs
    split at hs
    · cases hs
    · split at hs
      · cases hs
      · split at hs
        · cases hs
        · cases hs
          exact ⟨_, rfl⟩
  | constructor i =>
    simp only [Program.stem] at hs
    split at hs
    · cases hs
    · split at hs
      · cases hs
      · rename_i d _
        cases hs
        exact ⟨d.name ++ "_constructor", by rw [String.append_assoc]; rfl⟩
  | allocator i =>
    obtain ⟨s', -, rfl⟩ := NameTable.typeStem_of_allocator hs
    exact ⟨s' ++ "_defaultConstructor", by rw [String.append_assoc]; rfl⟩

/-! ## 2. Tables -/

/-- A numbered name ends in an underscore and the place of its key among the distinct ones. -/
theorem Numbers.name_eq (h : Numbers p keys t) (ht : t.Sound p) (hn : key.isNumbered = true)
    (hf : t.find? key = some name) :
    key ∈ keys ∧ ∃ s, name = s ++ "_" ++ decimal (keys.eraseDups.idxOf key) := by
  obtain ⟨stem, hs⟩ := ht.stemmed key name hf
  obtain ⟨s, rfl⟩ := stem_underscore hn hs
  rw [h.found key hn] at hf
  split at hf
  · rename_i hk
    refine ⟨hk, s, ?_⟩
    rw [← Option.some.inj hf]
    simp only [spellingOf, hs, hn, ↓reduceIte]
  · cases hf

/-- **No two keys of a table have the same numbered name.** -/
theorem Numbers.key_unique (h : Numbers p keys t) (ht : t.Sound p) (hn : key.isNumbered = true)
    (hn' : key'.isNumbered = true) (hf : t.find? key = some name) (hf' : t.find? key' = some name) :
    key = key' := by
  obtain ⟨hk, s, hname⟩ := h.name_eq ht hn hf
  obtain ⟨hk', s', hname'⟩ := h.name_eq ht hn' hf'
  have hplace : keys.eraseDups.idxOf key = keys.eraseDups.idxOf key' :=
    number_unique (hname ▸ hname')
  exact (List.idxOf_inj (List.mem_eraseDups.mpr hk)).mp hplace

/-- **No numbered name is the name of the main function**: that one has no underscore. -/
theorem Numbers.name_ne_main (h : Numbers p keys t) (ht : t.Sound p) (hn : key.isNumbered = true)
    (hf : t.find? key = some name) : name ≠ "main" := by
  obtain ⟨-, s, hname⟩ := h.name_eq ht hn hf
  intro hmain
  have hmem : '_' ∈ name.toList := by simp [hname]
  rw [hmain] at hmem
  exact absurd hmem (by decide)

/-! ## 3. Rows of requests -/

/-- An answer is the name that the last table has. -/
theorem find?_of_answer {i : Nat} (hk : keys[i]? = some key)
    (ha : (NameTable.requests p {} keys).1[i]? = some (.ok name)) :
    (NameTable.requests p {} keys).2.find? key = some name := by
  rw [NameTable.requests_answers, List.getElem?_map, hk] at ha
  have hanswer := Option.some.inj ha
  unfold NameTable.answer at hanswer
  cases hs : p.stem key with
  | error r =>
    rw [hs] at hanswer
    cases hanswer
  | ok s =>
    rw [hs] at hanswer
    obtain ⟨found, hfound⟩ := NameTable.find?_askAll_of_mem {} (List.mem_of_getElem? hk) hs
    rw [NameTable.requests_table, hfound, ← NameTable.spelling_of_found hfound]
    exact congrArg some (Except.ok.inj hanswer)

/-- **Numbered names never collide.** However the types and methods of a program are named, and
whatever row of requests is made on an empty table: two names that were answered for two different
keys are different, and none of them is the name of the main function. -/
theorem numbered_names_never_collide (p : Program) (keys : List NameKey) :
    let answers := (NameTable.requests p {} keys).1
    (∀ (i j : Nat) key key' name name', key.isNumbered = true → key'.isNumbered = true →
      keys[i]? = some key → answers[i]? = some (.ok name) →
      keys[j]? = some key' → answers[j]? = some (.ok name') → key ≠ key' → name ≠ name') ∧
    ∀ (i : Nat) key name, key.isNumbered = true →
      keys[i]? = some key → answers[i]? = some (.ok name) → name ≠ "main" := by
  intro answers
  have hnumbers := requests_numbers p keys
  have hsound : (NameTable.requests p {} keys).2.Sound p := by
    rw [NameTable.requests_table]
    exact NameTable.Sound.askAll p keys (NameTable.Sound.empty p)
  refine ⟨fun i j key key' name name' hn hn' hk ha hk' ha' hne hname => ?_,
    fun i key name hn hk ha => ?_⟩
  · have hf := find?_of_answer hk ha
    have hf' := find?_of_answer hk' ha'
    rw [← hname] at hf'
    exact hne (hnumbers.key_unique hsound hn hn' hf hf')
  · exact hnumbers.name_ne_main hsound hn (find?_of_answer hk ha)

/-- A program whose methods have the same stem, though neither they nor their types have the same
name. The last type is named as a numbered name would be. -/
def echo : Program where
  types := [.classNamed "A", .classNamed "A_B", .classNamed "A_B_C_0"]
  methods := [.instanceOf ⟨0⟩ "B_C", .instanceOf ⟨1⟩ "C", .instanceOf ⟨0⟩ "B_C"]

/-- The methods of the echo have the same stem and different names. -/
theorem echo_names_differ :
    let answers :=
      (NameTable.requests echo {} [.method 1, .type 2, .method 0, .method 2, .method 1]).1
    echo.stem (.method 0) = echo.stem (.method 1) ∧ answers[0]? = some (.ok "A_B_C_0") ∧
      answers[2]? = some (.ok "A_B_C_1") ∧ "A_B_C_0" ≠ "A_B_C_1" ∧ "A_B_C_1" ≠ "main" := by
  intro answers
  have hfirst : answers[0]? = some (.ok "A_B_C_0") := by decide +kernel
  have hsecond : answers[2]? = some (.ok "A_B_C_1") := by decide +kernel
  obtain ⟨hdiffer, hmain⟩ := numbered_names_never_collide echo _
  refine ⟨by decide +kernel, hfirst, hsecond, ?_, ?_⟩
  · exact hdiffer 0 2 (.method 1) (.method 0) _ _ rfl rfl rfl hfirst rfl hsecond (by decide)
  · exact hmain 2 (.method 0) _ rfl rfl hsecond

end Lowering
