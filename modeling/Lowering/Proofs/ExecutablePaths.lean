import Lowering.Proofs.Disks

/-!
# Paths of executables

A source and its executable lie in the same directory, and differ in the last name of their paths.
Only the name of a source that already has the extension of an executable stays as it is.

* `joinSlash_segments`, `segments_joinSlash` -- a path is the texts between its slashes;
* `Path.stem_cases` -- a name and its extension;
* `Path.outName`, `executable_toList` -- the last name of an executable;
* `Path.OutNamed`, `executable_eq_self_iff` -- the sources that lie where their executables do;
* `locate_executable_ne` -- all others lie at another place of the disk.
-/

namespace Lowering

/-! ## 1. The texts between slashes -/

theorem segments_ne_nil (cs : List Char) : segments cs ≠ [] := by
  cases cs with
  | nil => simp [segments]
  | cons c rest =>
    rw [segments]
    split
    · simp
    · split <;> simp

theorem noSlash_of_mem_segments {cs s : List Char} (h : s ∈ segments cs) : '/' ∉ s := by
  induction cs generalizing s with
  | nil =>
    rw [List.mem_singleton.mp h]
    exact List.not_mem_nil
  | cons c rest ih =>
    rw [segments] at h
    by_cases hc : c = '/'
    · rw [if_pos hc] at h
      rcases List.mem_cons.mp h with rfl | h
      · exact List.not_mem_nil
      · exact ih h
    rw [if_neg hc] at h
    cases hrest : segments rest with
    | nil => exact absurd hrest (segments_ne_nil rest)
    | cons t more =>
      rw [hrest] at h ih
      rcases List.mem_cons.mp h with rfl | h
      · have ht : '/' ∉ t := ih List.mem_cons_self
        simpa [ht] using Ne.symm hc
      · exact ih (List.mem_cons_of_mem _ h)

theorem segments_of_noSlash {s : List Char} (h : '/' ∉ s) : segments s = [s] := by
  induction s with
  | nil => rfl
  | cons c rest ih =>
    obtain ⟨hc, hrest⟩ := not_or.mp (mt List.mem_cons.mpr h)
    rw [segments, if_neg (Ne.symm hc), ih hrest]

theorem segments_append_slash {s : List Char} (h : '/' ∉ s) (rest : List Char) :
    segments (s ++ '/' :: rest) = s :: segments rest := by
  induction s with
  | nil => rfl
  | cons c s ih =>
    obtain ⟨hc, hs⟩ := not_or.mp (mt List.mem_cons.mpr h)
    rw [List.cons_append, segments, if_neg (Ne.symm hc), ih hs]

theorem joinSlash_cons (s : List Char) {rest : List (List Char)} (h : rest ≠ []) :
    joinSlash (s :: rest) = s ++ '/' :: joinSlash rest := by
  cases rest with
  | nil => exact absurd rfl h
  | cons t more => rfl

/-- **A path is put together again** from the texts between its slashes. -/
theorem joinSlash_segments (cs : List Char) : joinSlash (segments cs) = cs := by
  induction cs with
  | nil => rfl
  | cons c rest ih =>
    rw [segments]
    by_cases hc : c = '/'
    · rw [if_pos hc, joinSlash_cons [] (segments_ne_nil rest), ih, hc, List.nil_append]
    rw [if_neg hc]
    cases hrest : segments rest with
    | nil => exact absurd hrest (segments_ne_nil rest)
    | cons s more =>
      rw [hrest] at ih
      cases more with
      | nil => exact congrArg (List.cons c) ih
      | cons t more => exact congrArg (List.cons c) ih

/-- Texts without slashes are the texts between the slashes of what is put together from them. -/
theorem segments_joinSlash {l : List (List Char)} (hne : l ≠ []) (h : ∀ s ∈ l, '/' ∉ s) :
    segments (joinSlash l) = l := by
  induction l with
  | nil => exact absurd rfl hne
  | cons s rest ih =>
    have hs : '/' ∉ s := h s List.mem_cons_self
    cases rest with
    | nil => exact segments_of_noSlash hs
    | cons t more =>
      rw [joinSlash_cons s (List.cons_ne_nil t more), segments_append_slash hs,
        ih (List.cons_ne_nil t more) fun r hr => h r (List.mem_cons_of_mem _ hr)]

/-- What stands at the end of the last text stands at the end of the path. -/
theorem joinSlash_append_last (before : List (List Char)) (s t : List Char) :
    joinSlash (before ++ [s ++ t]) = joinSlash (before ++ [s]) ++ t := by
  induction before with
  | nil => rfl
  | cons r before ih =>
    rw [List.cons_append, List.cons_append, joinSlash_cons r (by simp),
      joinSlash_cons r (by simp), ih]
    simp

namespace Path

/-! ## 2. Names and their extensions -/

theorem stem_append {s ext : List Char} (hs : s ≠ []) (hext : '.' ∉ ext) :
    stem (s ++ '.' :: ext) = s := by
  have hdrop : (s ++ '.' :: ext).reverse.dropWhile (· != '.') = '.' :: s.reverse := by
    have hall : ∀ c ∈ ext.reverse, (c != '.') = true := fun c hc => by
      simpa using fun e : c = '.' => hext (e ▸ List.mem_reverse.mp hc)
    rw [List.reverse_append, List.reverse_cons, List.append_assoc,
      List.dropWhile_append_of_pos hall]
    rfl
  unfold stem
  rw [hdrop]
  cases hr : s.reverse with
  | nil => exact absurd (List.reverse_eq_nil_iff.mp hr) hs
  | cons c rest => exact (congrArg List.reverse hr).symm.trans (List.reverse_reverse s)

/-- **A name is its stem, or has an extension behind it.** -/
theorem stem_cases (name : List Char) :
    stem name = name ∨ ∃ s ext, name = s ++ '.' :: ext ∧ s ≠ [] ∧ '.' ∉ ext := by
  have hsplit := List.takeWhile_append_dropWhile (p := (· != '.')) (l := name.reverse)
  unfold stem
  cases hdrop : name.reverse.dropWhile (· != '.') with
  | nil => exact .inl rfl
  | cons c before =>
    cases before with
    | nil => exact .inl rfl
    | cons d before =>
      have hc : c = '.' := by
        have hhead := List.head?_dropWhile_not (· != '.') name.reverse
        simpa [hdrop] using hhead
      refine .inr ⟨(d :: before).reverse, (name.reverse.takeWhile (· != '.')).reverse, ?_,
        by simp, fun hmem => ?_⟩
      · rw [hdrop, hc] at hsplit
        simpa using congrArg List.reverse hsplit.symm
      · have hkept := List.all_eq_true.mp List.all_takeWhile '.' (List.mem_reverse.mp hmem)
        simp at hkept

theorem stem_ne_nil {name : List Char} (h : name ≠ []) : stem name ≠ [] := by
  rcases stem_cases name with hstem | ⟨s, ext, rfl, hs, hext⟩
  · rw [hstem]
    exact h
  · rw [stem_append hs hext]
    exact hs

theorem noSlash_stem {name : List Char} (h : '/' ∉ name) : '/' ∉ stem name := by
  rcases stem_cases name with hstem | ⟨s, ext, rfl, hs, hext⟩
  · rw [hstem]
    exact h
  · rw [stem_append hs hext]
    exact fun hmem => h (List.mem_append_left _ hmem)

/-! ## 3. The last name of an executable -/

/-- A path that leads to a file, with the texts before its last name. -/
structure LeadsToFile (cs : List Char) (before : List (List Char)) (name : List Char) : Prop where
  segments_eq : segments cs = before ++ [name]
  notIdle : isIdle name = false
  notUp : name ≠ ['.', '.']

theorem exists_leadsToFile {path : String} (h : namesDirectory path = false) :
    ∃ before name, LeadsToFile path.toList before name := by
  unfold namesDirectory at h
  cases hlast : (segments path.toList).getLast? with
  | none =>
    rw [hlast] at h
    cases h
  | some name =>
    rw [hlast] at h
    obtain ⟨before, hbefore⟩ := List.getLast?_eq_some_iff.mp hlast
    obtain ⟨hidle, hup⟩ := Bool.or_eq_false_iff.mp h
    exact ⟨before, name, hbefore, hidle, by simpa using hup⟩

namespace LeadsToFile

variable {cs name : List Char} {before : List (List Char)}

theorem ne_nil (h : LeadsToFile cs before name) : name ≠ [] := fun e => by
  have hidle := h.notIdle
  rw [e] at hidle
  cases hidle

theorem ne_dot (h : LeadsToFile cs before name) : name ≠ ['.'] := fun e => by
  have hidle := h.notIdle
  rw [e] at hidle
  cases hidle

theorem noSlash (h : LeadsToFile cs before name) : ∀ s ∈ before ++ [name], '/' ∉ s := fun s hs => by
  rw [← h.segments_eq] at hs
  exact noSlash_of_mem_segments hs

theorem eq_joinSlash (h : LeadsToFile cs before name) : cs = joinSlash (before ++ [name]) := by
  rw [← h.segments_eq, joinSlash_segments]

theorem fileName?_eq (h : LeadsToFile cs before name) :
    fileName? cs = some (name, before.reverse) := by
  have hup : (name == ['.', '.']) = false := beq_eq_false_iff_ne.mpr h.notUp
  unfold fileName?
  rw [h.segments_eq, List.reverse_append, List.reverse_singleton, List.singleton_append,
    List.dropWhile_cons_of_neg (by simp [h.notIdle])]
  simp only [hup]
  rfl

/-- The last name can be replaced. -/
theorem segments_replace (h : LeadsToFile cs before name) {other : List Char}
    (hslash : '/' ∉ other) : segments (joinSlash (before ++ [other])) = before ++ [other] := by
  refine segments_joinSlash (by simp) fun s hs => ?_
  rcases List.mem_append.mp hs with hs | hs
  · exact h.noSlash s (List.mem_append_left _ hs)
  · rw [List.mem_singleton.mp hs]
    exact hslash

end LeadsToFile

/-- The last name of the executable that is built from a source with a last name. -/
def outName (name : List Char) : List Char :=
  if stem name = ['.'] then ['.', '.'] else stem name ++ ".out".toList

theorem putExtension_eq {cs name : List Char} {before : List (List Char)}
    (h : LeadsToFile cs before name) (ext : List Char) :
    putExtension cs ext = joinSlash (before ++ [stem name ++ '.' :: ext]) := by
  unfold putExtension
  rw [h.fileName?_eq]
  simp only [List.reverse_reverse]

/-- A path that goes up at its end gets no extension. -/
theorem putExtension_of_up {cs : List Char} {before : List (List Char)}
    (h : segments cs = before ++ [['.', '.']]) (ext : List Char) : putExtension cs ext = cs := by
  have hnone : fileName? cs = none := by
    unfold fileName?
    rw [h, List.reverse_append]
    rfl
  unfold putExtension
  rw [hnone]

/-- Without an extension nothing is cut off. -/
theorem cutExtension_of_stem {cs name : List Char} {before : List (List Char)}
    (h : LeadsToFile cs before name) (hstem : stem name = name) : cutExtension cs = cs := by
  have hext : extension name = [] := by
    unfold extension
    rw [hstem]
    simp
  unfold cutExtension
  rw [h.fileName?_eq]
  simp [hext]

/-- An extension is cut off behind its dot. -/
theorem cutExtension_of_append {cs s ext : List Char} {before : List (List Char)}
    (h : LeadsToFile cs before (s ++ '.' :: ext)) (hs : s ≠ []) (hext : '.' ∉ ext) :
    cutExtension cs = joinSlash (before ++ [s ++ ['.']]) := by
  have hextension : extension (s ++ '.' :: ext) = ext := by
    unfold extension
    rw [stem_append hs hext]
    simp
  have hcs : cs = joinSlash (before ++ [s ++ ['.']]) ++ ext := by
    rw [h.eq_joinSlash, ← joinSlash_append_last]
    simp
  unfold cutExtension
  rw [h.fileName?_eq]
  simp only [hextension]
  rw [hcs]
  simp

/-- **The executable lies beside its source**, with a last name of its own. -/
theorem executable_toList {source : String} {before : List (List Char)} {name : List Char}
    (h : LeadsToFile source.toList before name) :
    (executable source).toList = joinSlash (before ++ [outName name]) := by
  unfold executable withExtension outName
  rw [String.toList_ofList]
  rcases stem_cases name with hstem | ⟨s, ext, rfl, hs, hext⟩
  · have hdot : stem name ≠ ['.'] := fun e => h.ne_dot (hstem.symm.trans e)
    rw [cutExtension_of_stem h hstem, putExtension_eq h, if_neg hdot]
    rfl
  · rw [cutExtension_of_append h hs hext, stem_append hs hext]
    have hname : '/' ∉ s ++ '.' :: ext :=
      h.noSlash _ (List.mem_append_right before List.mem_cons_self)
    have hslash : '/' ∉ s ++ ['.'] := by simp_all
    have hsegments := h.segments_replace hslash
    by_cases hdot : s = ['.']
    -- What is left of the name goes up, so nothing is put behind it.
    · subst hdot
      rw [putExtension_of_up hsegments, if_pos rfl]
      rfl
    · have hfile : LeadsToFile (joinSlash (before ++ [s ++ ['.']])) before (s ++ ['.']) := by
        refine ⟨hsegments, ?_, fun e =>
          hdot (List.append_cancel_right (e : s ++ ['.'] = ['.'] ++ ['.']))⟩
        simp [isIdle, hs]
      rw [putExtension_eq hfile, stem_append hs (List.not_mem_nil), if_neg hdot]
      rfl

/-! ## 4. Sources with the extension of an executable -/

/-- **A source has the extension of an executable**: its last name is `.out` behind a stem, which is
neither empty nor one dot. -/
def OutNamed (path : String) : Prop :=
  ∃ s, (segments path.toList).getLast? = some (s ++ ".out".toList) ∧ s ≠ [] ∧ s ≠ ['.']

theorem outNamed_iff {path : String} {before : List (List Char)} {name : List Char}
    (h : LeadsToFile path.toList before name) : OutNamed path ↔ outName name = name := by
  have hlast : (segments path.toList).getLast? = some name := by simp [h.segments_eq]
  unfold OutNamed outName
  rw [hlast]
  constructor
  · rintro ⟨s, hname, hs, hdot⟩
    have hname : name = s ++ ".out".toList := Option.some.inj hname
    have hstem : stem name = s := by
      rw [hname]
      exact stem_append hs (by decide)
    rw [hstem, if_neg hdot]
    exact hname.symm
  · intro hout
    by_cases hdot : stem name = ['.']
    · rw [if_pos hdot] at hout
      exact absurd hout.symm h.notUp
    · rw [if_neg hdot] at hout
      exact ⟨stem name, congrArg some hout.symm, stem_ne_nil h.ne_nil, hdot⟩

theorem noSlash_outName {name : List Char} (h : '/' ∉ name) : '/' ∉ outName name := by
  unfold outName
  split
  · decide
  · exact fun hmem => (List.mem_append.mp hmem).elim (noSlash_stem h) (by decide)

theorem segments_executable {source : String} {before : List (List Char)} {name : List Char}
    (h : LeadsToFile source.toList before name) :
    segments (executable source).toList = before ++ [outName name] := by
  have hname : '/' ∉ name := h.noSlash name (List.mem_append_right before List.mem_cons_self)
  rw [executable_toList h, h.segments_replace (noSlash_outName hname)]

theorem executable_leadsToFile {source : String} {before : List (List Char)} {name : List Char}
    (h : LeadsToFile source.toList before name)
    (hexecutable : namesDirectory (executable source) = false) :
    LeadsToFile (executable source).toList before (outName name) := by
  obtain ⟨before', name', hfile⟩ := exists_leadsToFile hexecutable
  have hsegments := hfile.segments_eq
  rw [segments_executable h] at hsegments
  obtain ⟨rfl, rfl⟩ : before = before' ∧ outName name = name' := by simpa using hsegments
  exact hfile

/-- **An executable lies where its source does** just if the source has the extension of an
executable. -/
theorem executable_eq_self_iff {source : String} (h : namesDirectory source = false) :
    executable source = source ↔ OutNamed source := by
  obtain ⟨before, name, hfile⟩ := exists_leadsToFile h
  rw [outNamed_iff hfile]
  constructor
  · intro heq
    have hsegments := segments_executable hfile
    rw [heq, hfile.segments_eq] at hsegments
    simpa using hsegments.symm
  · intro hout
    rw [← String.toList_inj, executable_toList hfile, hout, ← hfile.eq_joinSlash]

/-! ## 5. Where both paths lead -/

theorem isAbsolute_eq (path : String) :
    isAbsolute path = ((segments path.toList).dropLast.head? == some []) := by
  unfold isAbsolute
  cases path.toList with
  | nil => rfl
  | cons c rest =>
    rw [segments]
    cases hrest : segments rest with
    | nil => exact absurd hrest (segments_ne_nil rest)
    | cons s more =>
      by_cases hc : c = '/'
      · rw [if_pos hc, hc]
        rfl
      · rw [if_neg hc]
        cases more with
        | nil => simp [hc]
        | cons t more => simp [hc]

theorem LeadsToFile.names_eq {path : String} {before : List (List Char)} {name : List Char}
    (h : LeadsToFile path.toList before name) :
    names path = ((before.filter fun s => !isIdle s).map String.ofList) ++
      [String.ofList name] := by
  unfold names
  rw [h.segments_eq]
  simp [h.notIdle]

theorem LeadsToFile.name_ne_up {cs : List Char} {before : List (List Char)} {name : List Char}
    (h : LeadsToFile cs before name) : String.ofList name ≠ ".." := fun e => by
  have hname := congrArg String.toList e
  rw [String.toList_ofList] at hname
  exact h.notUp hname

end Path

namespace Disk

variable {d : Disk} {here : Place} {q : Place}

/-- **A path that leads to a file** ends with its last name. -/
theorem locate_of_leadsToFile {path : String} {before : List (List Char)} {name : List Char}
    (h : Path.LeadsToFile path.toList before name) (hl : d.locate here path = .ok q) :
    ∃ p, d.walk (if before.head? == some [] then [] else here)
        ((before.filter fun s => !Path.isIdle s).map String.ofList) = .ok p ∧
          q = p ++ [String.ofList name] := by
  have habsolute : Path.isAbsolute path = (before.head? == some []) := by
    rw [Path.isAbsolute_eq, h.segments_eq, List.dropLast_concat]
  have hwalk := (locate_ok_iff.mp hl).2.2.1
  rw [h.names_eq, habsolute, walk_append] at hwalk
  obtain ⟨p, hbefore, hwalk⟩ := bind_eq_ok.mp hwalk
  obtain ⟨_, -, hwalk⟩ := bind_eq_ok.mp hwalk
  obtain ⟨_, -, hwalk⟩ := bind_eq_ok.mp hwalk
  rw [if_neg h.name_ne_up] at hwalk
  exact ⟨p, hbefore, (Except.ok.inj hwalk).symm⟩

/-- **A source and its executable are at two places**, unless the source has the extension of an
executable. -/
theorem locate_executable_ne {source : String} (hsource : Path.namesDirectory source = false)
    (hnamed : ¬ Path.OutNamed source)
    (hexecutable : Path.namesDirectory (Path.executable source) = false)
    (hl : d.locate here source = .ok q) : d.locate here (Path.executable source) ≠ .ok q := by
  obtain ⟨before, name, hfile⟩ := Path.exists_leadsToFile hsource
  intro hl'
  -- Both paths go through the same directory, so they can only differ, or agree, in their last
  -- names.
  obtain ⟨p, hp, hq⟩ := locate_of_leadsToFile hfile hl
  obtain ⟨p', hp', hq'⟩ := locate_of_leadsToFile (Path.executable_leadsToFile hfile hexecutable) hl'
  obtain rfl : p = p' := Except.ok.inj (hp.symm.trans hp')
  have hlast : String.ofList (Path.outName name) = String.ofList name := by
    simpa using hq'.symm.trans hq
  exact hnamed ((Path.outNamed_iff hfile).mpr (String.ofList_injective hlast))

end Disk

end Lowering
