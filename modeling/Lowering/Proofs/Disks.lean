import Lowering.CommandLine.Machine

/-!
# Disks

What reading, writing and making directories do to each other. A path is followed by directories
alone, so it leads to the same place on any disk that has at least the same directories; writing a
file and making directories both leave such a disk.

* `at?_put_self`, `at?_put_ne` -- a place after something was put on the disk;
* `locate_ok_iff` -- where a path leads;
* `Disk.HasDirectoriesOf`, `locate_of_directories` -- where it leads on a disk with more
  directories;
* `Disk.Keeps`, `Disk.KeepsBut` -- nothing is lost, or nothing but what is at a place;
* `makeDirectory_keeps`, `makeDirectory_again` -- nothing is lost where directories are made;
* `readText_put`, `readText_of_keeps`, `readText_of_keepsBut` -- what can be read afterwards.
-/

namespace Lowering

namespace Disk

variable {d d' : Disk} {here place q : Place} {path : String} {node : Node}

/-! ## 1. Places -/

theorem at?_put_self (d : Disk) (h : place ≠ []) (node : Node) :
    (d.put place node).at? place = some node := by
  simp [at?, put, h]

theorem lookup_filter_ne {nodes : List (Place × Node)} (h : q ≠ place) :
    (nodes.filter (·.1 != place)).lookup q = nodes.lookup q := by
  induction nodes with
  | nil => rfl
  | cons entry rest ih =>
    obtain ⟨p, n⟩ := entry
    by_cases hp : p = place
    · subst hp
      have hq : (q == p) = false := beq_eq_false_iff_ne.mpr h
      simp [List.lookup_cons, hq, ih]
    · simp [hp, List.lookup_cons, ih]

theorem at?_put_ne (d : Disk) (h : q ≠ place) (node : Node) :
    (d.put place node).at? q = d.at? q := by
  have hq : (q == place) = false := beq_eq_false_iff_ne.mpr h
  simp [at?, put, List.lookup_cons, hq, lookup_filter_ne h]

theorem checkDirectory_ok_iff :
    d.checkDirectory place = .ok () ↔ d.at? place = some .directory := by
  unfold checkDirectory
  cases h : d.at? place with
  | none => simp
  | some n => cases n <;> simp

/-! ## 2. Where a path leads -/

/-- Every directory of a disk is also on another one. -/
def HasDirectoriesOf (d' d : Disk) : Prop :=
  ∀ place, d.at? place = some .directory → d'.at? place = some .directory

theorem checkDirectory_of_directories (h : d'.HasDirectoriesOf d)
    (hd : d.checkDirectory place = .ok ()) : d'.checkDirectory place = .ok () :=
  checkDirectory_ok_iff.mpr (h place (checkDirectory_ok_iff.mp hd))

theorem walk_of_directories (h : d'.HasDirectoriesOf d) {names : List String} {start : Place}
    (hw : d.walk start names = .ok q) : d'.walk start names = .ok q := by
  induction names generalizing start with
  | nil => exact hw
  | cons name rest ih =>
    rw [walk] at hw
    obtain ⟨_, hstart, hw⟩ := bind_eq_ok.mp hw
    obtain ⟨_, hname, hw⟩ := bind_eq_ok.mp hw
    rw [walk, checkDirectory_of_directories h hstart, hname]
    by_cases hup : name = ".."
    · rw [if_pos hup] at hw
      exact (if_pos hup).trans (ih hw)
    · rw [if_neg hup] at hw
      exact (if_neg hup).trans (ih hw)

theorem walk_append (d : Disk) (start : Place) (first second : List String) :
    d.walk start (first ++ second) = d.walk start first >>= fun p => d.walk p second := by
  induction first generalizing start with
  | nil => rfl
  | cons name rest ih =>
    rw [List.cons_append, walk, walk]
    cases d.checkDirectory start with
    | error e => rfl
    | ok u =>
      cases checkName name with
      | error e => rfl
      | ok u =>
        by_cases hup : name = ".."
        · refine (if_pos hup).trans ((ih _).trans ?_)
          rw [if_pos hup]
          rfl
        · refine (if_neg hup).trans ((ih _).trans ?_)
          rw [if_neg hup]
          rfl

/-- **Where a path leads**: it is neither empty nor too long, its names are followed, and if only a
directory can be at its end, one is there. -/
theorem locate_ok_iff :
    d.locate here path = .ok q ↔ path.isEmpty = false ∧ path.utf8ByteSize ≤ pathLimit ∧
      d.walk (if Path.isAbsolute path then [] else here) (Path.names path) = .ok q ∧
      (Path.namesDirectory path = true → d.checkDirectory q = .ok ()) := by
  unfold locate
  by_cases hempty : path.isEmpty = true
  · simp [hempty]
  by_cases hlong : pathLimit < path.utf8ByteSize
  · simp [hempty, hlong, Nat.not_le_of_lt hlong]
  rw [if_neg hempty, if_neg hlong, bind_eq_ok]
  have hshort : path.utf8ByteSize ≤ pathLimit := Nat.le_of_not_lt hlong
  simp only [Bool.eq_false_iff.mpr hempty, hshort, true_and]
  cases Path.namesDirectory path with
  | false => simp [pure, Except.pure]
  | true =>
    -- Checking a directory gives nothing but the fact that it is there.
    have hunit : ∀ p, (∃ u, d.checkDirectory p = .ok u) ↔ d.checkDirectory p = .ok () :=
      fun p => ⟨fun h => h.elim fun _ h => h, fun h => ⟨(), h⟩⟩
    simp [bind_eq_ok, pure, Except.pure, hunit]

theorem locate_of_directories (h : d'.HasDirectoriesOf d) (hl : d.locate here path = .ok q) :
    d'.locate here path = .ok q := by
  obtain ⟨hempty, hshort, hwalk, hcheck⟩ := locate_ok_iff.mp hl
  exact locate_ok_iff.mpr ⟨hempty, hshort, walk_of_directories h hwalk,
    fun hnames => checkDirectory_of_directories h (hcheck hnames)⟩

/-! ## 3. What is kept -/

/-- Everything on a disk is also on another one. -/
def Keeps (d' d : Disk) : Prop :=
  ∀ place node, d.at? place = some node → d'.at? place = some node

/-- Everything on a disk is also on another one, except what is at a place where no directory is. -/
structure KeepsBut (d' d : Disk) (place : Place) : Prop where
  file : d.at? place ≠ some .directory
  others : ∀ q node, q ≠ place → d.at? q = some node → d'.at? q = some node

theorem Keeps.refl (d : Disk) : d.Keeps d := fun _ _ h => h

theorem Keeps.trans {d'' : Disk} (h : d''.Keeps d') (h' : d'.Keeps d) : d''.Keeps d :=
  fun place node hn => h place node (h' place node hn)

theorem Keeps.hasDirectories (h : d'.Keeps d) : d'.HasDirectoriesOf d :=
  fun place => h place .directory

theorem KeepsBut.hasDirectories (h : d'.KeepsBut d place) : d'.HasDirectoriesOf d :=
  fun q hq => h.others q .directory (fun e => h.file (e ▸ hq)) hq

theorem put_keeps (h : d.at? place = none) (node : Node) : (d.put place node).Keeps d := by
  intro q n hq
  have hne : q ≠ place := fun e => by
    rw [e, h] at hq
    cases hq
  rw [at?_put_ne d hne]
  exact hq

/-- Where no directory is, a file can be put, and all else stays. -/
theorem put_keepsBut (h : d.at? place ≠ some .directory) (node : Node) :
    (d.put place node).KeepsBut d place :=
  ⟨h, fun q n hne hq => by rw [at?_put_ne d hne]; exact hq⟩

/-! ## 4. Making directories -/

section Making

variable {refused : Disk → Place → Option FileError} {start : Place} {names rest : List String}
  {name : String}

/-- Making directories loses nothing, also if it fails in the middle. -/
theorem makeAlong_keeps (refused : Disk → Place → Option FileError) (d : Disk) (start : Place)
    (names : List String) : (d.makeAlong refused start names).1.Keeps d := by
  induction names generalizing d start with
  | nil => exact .refl d
  | cons name rest ih =>
    rw [makeAlong]
    by_cases hup : name = ".."
    · rw [if_pos hup]
      exact ih d _
    · rw [if_neg hup]
      dsimp only
      split
      · exact ih d _
      · exact .refl d
      · rename_i hnext
        split
        · exact .refl d
        · exact .refl d
        · exact (ih _ _).trans (put_keeps hnext _)

theorem makeAlong_of_directory (hup : name ≠ "..")
    (h : d.at? (start ++ [name]) = some .directory) :
    d.makeAlong refused start (name :: rest) = d.makeAlong refused (start ++ [name]) rest := by
  rw [makeAlong, if_neg hup]
  simp only [h]

/-- One step of making directories. -/
theorem makeAlong_step (hup : name ≠ "..")
    (h : (d.makeAlong refused start (name :: rest)).2 = .ok ()) :
    ∃ d₁ : Disk,
      d.makeAlong refused start (name :: rest) = d₁.makeAlong refused (start ++ [name]) rest ∧
      d₁.at? (start ++ [name]) = some .directory := by
  rw [makeAlong, if_neg hup] at h ⊢
  dsimp only at h ⊢
  split at h
  · rename_i hnext
    exact ⟨d, rfl, hnext⟩
  · cases h
  · split at h
    · cases h
    · cases h
    · exact ⟨d.put (start ++ [name]) .directory, rfl, at?_put_self d (by simp) .directory⟩

/-- Directories that were made are there: making them again changes nothing. -/
theorem makeAlong_again (h : (d.makeAlong refused start names).2 = .ok ())
    (hd : d'.HasDirectoriesOf (d.makeAlong refused start names).1) :
    d'.makeAlong refused start names = (d', .ok ()) := by
  induction names generalizing d start with
  | nil => exact congrArg (Prod.mk d') (checkDirectory_of_directories hd h)
  | cons name rest ih =>
    by_cases hup : name = ".."
    · rw [makeAlong, if_pos hup] at h hd ⊢
      exact ih h hd
    · obtain ⟨d₁, hstep, hmade⟩ := makeAlong_step hup h
      rw [hstep] at h hd
      have hthere := hd _ (makeAlong_keeps refused d₁ _ rest _ _ hmade)
      rw [makeAlong_of_directory hup hthere]
      exact ih h hd

/-- **Making the directory of a path loses nothing**, whether it can be made or not. -/
theorem makeDirectory_keeps (refused : Disk → Place → Option FileError) (d : Disk) (here : Place)
    (path : String) : (d.makeDirectory refused here path).1.Keeps d := by
  unfold makeDirectory
  split
  · exact .refl d
  · exact makeAlong_keeps refused d _ _

/-- **A directory that was made is there**: making it again changes nothing. -/
theorem makeDirectory_again (h : (d.makeDirectory refused here path).2 = .ok ())
    (hd : d'.HasDirectoriesOf (d.makeDirectory refused here path).1) :
    d'.makeDirectory refused here path = (d', .ok ()) := by
  unfold makeDirectory at h hd ⊢
  split at h
  · cases h
  · rename_i hshort
    rw [if_neg hshort] at hd ⊢
    exact makeAlong_again h hd

end Making

/-! ## 5. Reading and writing -/

theorem readText_ok_iff {s : String} :
    d.readText here path = .ok s ↔
      ∃ q, d.locate here path = .ok q ∧ d.at? q = some (.text s) := by
  unfold readText
  rw [bind_eq_ok]
  refine exists_congr fun q => and_congr_right fun _ => ?_
  cases d.at? q with
  | none => simp
  | some n => cases n <;> simp

/-- What can be read can still be read where nothing is lost. -/
theorem readText_of_keeps (h : d'.Keeps d) {s : String} (hr : d.readText here path = .ok s) :
    d'.readText here path = .ok s := by
  obtain ⟨q, hl, hq⟩ := readText_ok_iff.mp hr
  exact readText_ok_iff.mpr ⟨q, locate_of_directories h.hasDirectories hl, h q _ hq⟩

/-- What can be read can still be read where only what is elsewhere is lost. -/
theorem readText_of_keepsBut (h : d'.KeepsBut d place) (hne : d.locate here path ≠ .ok place)
    {s : String} (hr : d.readText here path = .ok s) : d'.readText here path = .ok s := by
  obtain ⟨q, hl, hq⟩ := readText_ok_iff.mp hr
  have hplaces : q ≠ place := fun e => hne (e ▸ hl)
  exact readText_ok_iff.mpr
    ⟨q, locate_of_directories h.hasDirectories hl, h.others q _ hplaces hq⟩

/-- **Where a file can be**: its path leads to a place where no directory is. -/
theorem filePlace_ok_iff :
    d.filePlace here path = .ok q ↔ Path.namesDirectory path = false ∧
      d.locate here path = .ok q ∧ d.at? q ≠ some .directory := by
  unfold filePlace
  by_cases hnames : Path.namesDirectory path = true
  · rw [if_pos hnames, hnames]
    simp
  rw [if_neg hnames, bind_eq_ok, Bool.eq_false_iff.mpr hnames]
  simp only [true_and]
  constructor
  · rintro ⟨p, hp, h⟩
    cases hat : d.at? p with
    | none =>
      rw [hat] at h
      cases h
      exact ⟨hp, by simp [hat]⟩
    | some n =>
      rw [hat] at h
      cases n with
      | directory => cases h
      | _ =>
        cases h
        exact ⟨hp, by simp [hat]⟩
  · rintro ⟨hp, h⟩
    refine ⟨q, hp, ?_⟩
    cases hat : d.at? q with
    | none => rfl
    | some n =>
      cases n with
      | directory => exact absurd hat h
      | _ => rfl

/-- No file is at the root. -/
theorem ne_root (h : d.at? q ≠ some .directory) : q ≠ [] := fun e => h (by rw [e]; rfl)

/-- A file that was put at its place is found there. -/
theorem locate_put (h : d.filePlace here path = .ok q) (node : Node) :
    (d.put q node).locate here path = .ok q ∧ (d.put q node).at? q = some node := by
  obtain ⟨-, hl, hq⟩ := filePlace_ok_iff.mp h
  have hkept := put_keepsBut hq node
  exact ⟨locate_of_directories hkept.hasDirectories hl, at?_put_self d (ne_root hq) node⟩

/-- **A text that was written is read back.** -/
theorem readText_put (h : d.filePlace here path = .ok q) (s : String) :
    (d.put q (.text s)).readText here path = .ok s :=
  readText_ok_iff.mpr ⟨q, locate_put h (.text s)⟩

end Disk

end Lowering
