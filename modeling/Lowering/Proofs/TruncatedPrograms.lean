import Lowering.Program.Reader
import Lowering.Proofs.CutReadings
import Mathlib.Data.List.Basic

/-!
# Truncated programs

A program is written in brackets that close at the very end of the text. So a text that is cut off
anywhere before that bracket is noticed, even where all that is left of it would make a program.

* `Program.reader_strict` -- what a cut leaves of a program is refused at the cut;
* `refuses_of_prefix` -- so is a text that is cut off before its last bracket;
* `truncated_programs_refused` -- and if its numbers are plain integers, because the text has ended.
-/

namespace Lowering

open Json

/-! ## 1. Declarations -/

section Declarations

variable {α : Type} {r : Reader α} {room : Nat}

theorem Wary.field {π : Type} (h : Wary (r room)) (name : String) (wrap : α → π)
    (absent : Option α) : Wary (Reader.field name wrap r absent room).read := by
  intro e v w a hcut hw
  obtain ⟨b, hb⟩ := ok_of_map hw
  exact (h e v w b hcut hb).map wrap

theorem Strict.field {π : Type} (h : Strict (r room)) (name : String) (wrap : α → π)
    (absent : Option α) : Wary (Reader.field name wrap r absent room).read :=
  h.wary.field name wrap absent

theorem strict_listOf (h : ∀ room, Strict (r room)) (room : Nat) : Strict (Reader.list r room) :=
  strict_list (fun room => (h room).wary) room

theorem strict_recordOf {fields : Nat → List (RecordField Raw Entry)}
    (build : List Entry → Option α)
    (h : ∀ room, List.Forall (fun field => Wary field.read) (fields room)) (room : Nat) :
    Strict (recordOf fields build room) :=
  (strict_record (fun room => List.forall_iff_forall_mem.mp (h room)) room).andThen _

theorem TypeId.reader_wary (room : Nat) : Wary (TypeId.reader room) :=
  (wary_word32 room).andThen fun i => ⟨⟨i⟩, rfl⟩

theorem owner_wary (room : Nat) : Wary (Reader.option TypeId.reader room) :=
  wary_option (TypeId.reader_wary room) fun _ => rfl

theorem body_wary (room : Nat) : Wary (bodyReader room) :=
  wary_option (strict_listOf (strict_outermost stmtVariants Part.stmt?) room).wary fun _ => rfl

theorem FieldDecl.reader_strict (room : Nat) : Strict (FieldDecl.reader room) := by
  refine strict_recordOf _ (fun room => ?_) room
  exact ⟨(strict_text room).field _ _ _, (strict_text room).field _ _ _⟩

theorem Param.reader_strict (room : Nat) : Strict (Param.reader room) := by
  refine strict_recordOf _ (fun room => ?_) room
  exact ⟨(strict_text room).field _ _ _, (strict_text room).field _ _ _⟩

theorem TypeDecl.reader_strict (room : Nat) : Strict (TypeDecl.reader room) := by
  refine strict_recordOf _ (fun room => ?_) room
  exact ⟨(strict_text room).field _ _ _,
    (strict_choice TypeKind.names room).field _ _ _,
    (strict_listOf strict_text room).field _ _ _,
    (strict_flag room).field _ _ _,
    (strict_listOf FieldDecl.reader_strict room).field _ _ _⟩

theorem MethodDecl.reader_strict (room : Nat) : Strict (MethodDecl.reader room) := by
  refine strict_recordOf _ (fun room => ?_) room
  exact ⟨(owner_wary room).field _ _ _,
    (strict_text room).field _ _ _,
    (strict_flag room).field _ _ _,
    (strict_flag room).field _ _ _,
    (strict_listOf Param.reader_strict room).field _ _ _,
    (strict_text room).field _ _ _,
    (body_wary room).field _ _ _⟩

theorem ConstructorDecl.reader_strict (room : Nat) : Strict (ConstructorDecl.reader room) := by
  refine strict_recordOf _ (fun room => ?_) room
  exact ⟨(TypeId.reader_wary room).field _ _ _,
    (strict_listOf Param.reader_strict room).field _ _ _,
    (body_wary room).field _ _ _⟩

theorem PropertyDecl.reader_strict (room : Nat) : Strict (PropertyDecl.reader room) := by
  refine strict_recordOf _ (fun room => ?_) room
  exact ⟨(owner_wary room).field _ _ _,
    (strict_text room).field _ _ _,
    (strict_flag room).field _ _ _⟩

/-- **What a cut leaves of a program is refused at the cut.** Positions are the only parts that may
be taken for whole ones, and the brackets around them are still open. -/
theorem Program.reader_strict (room : Nat) : Strict (Program.reader room) := by
  refine strict_recordOf _ (fun room => ?_) room
  exact ⟨(strict_listOf TypeDecl.reader_strict room).field _ _ _,
    (strict_listOf MethodDecl.reader_strict room).field _ _ _,
    (strict_listOf ConstructorDecl.reader_strict room).field _ _ _,
    (strict_listOf PropertyDecl.reader_strict room).field _ _ _⟩

end Declarations

/-! ## 2. Texts -/

/-- The array of a record is asked for its closing bracket, whether it has an item for each field or
not. -/
theorem closed_of_inOrder {π : Type} {ending : Ending}
    {fields : List (RecordField Raw π)} {vs : List Raw} {parts : List π}
    (h : inOrder (Fault.check ending.fault?) (Reader.behind ending) fields vs = .ok parts) :
    ending = .closed := by
  induction fields generalizing vs parts with
  | nil =>
    obtain ⟨_, hb, _⟩ := bind_eq_ok.mp h
    cases vs with
    | nil =>
      cases ending with
      | closed => rfl
      | cut comma f => cases comma <;> cases hb
    | cons v rest => cases hb
  | cons field fields ih =>
    cases vs with
    | nil =>
      obtain ⟨_, hdry, _⟩ := bind_eq_ok.mp h
      cases ending with
      | closed => rfl
      | cut comma f => cases hdry
    | cons v rest =>
      obtain ⟨part, -, h⟩ := bind_eq_ok.mp h
      obtain ⟨rest, hrest, -⟩ := bind_eq_ok.mp h
      exact ih hrest

theorem closed_of_record {π : Type} {fields : Nat → List (RecordField Raw π)} {room : Nat} {v : Raw}
    {parts : List π} (h : Reader.record fields room v = .ok parts) : v.Closed := by
  cases v with
  | obj ms ending =>
    cases room with
    | zero => cases h
    | succ room =>
      obtain ⟨found, -, h⟩ := bind_eq_ok.mp h
      obtain ⟨_, hcheck, _⟩ := bind_eq_ok.mp h
      cases ending with
      | closed => trivial
      | cut comma f => cases hcheck
  | arr vs ending =>
    cases room with
    | zero => cases h
    | succ room =>
      rw [closed_of_inOrder h]
      trivial
  | _ => cases h

/-- A text that is accepted is one value, in brackets that the scanner has seen closed. -/
theorem scanned_of_accepted {text : String} {p : Program} (h : Program.ofJson text = .ok p) :
    text.toList.foldl State.feed (.value []) = .after [] (Document.scan text).root ∧
      Program.reader Raw.nestingLimit (Document.scan text).root = .ok p := by
  have hroot : Program.reader Raw.nestingLimit (Document.scan text).root = .ok p ∧
      (Document.scan text).trailing = false := by
    unfold Program.ofJson Document.readBy Document.read at h
    split at h
    · cases h
    · rename_i hread
      split at h
      · cases h
      · rename_i htrailing
        cases h
        exact ⟨hread, Bool.eq_false_iff.mpr htrailing⟩
  obtain ⟨entries, hentries, -⟩ := bind_eq_ok.mp hroot.1
  refine ⟨?_, hroot.1⟩
  exact (State.remembers_foldl text.toList).eq_after (closed_of_record hentries) hroot.2

/-- **A text that is cut off before its last bracket is refused.** If the cut falls into a number,
that is one of the whole text, and a sign that it leaves alone is the last character. -/
theorem refuses_of_prefix {cut rest : List Char} {whole : Raw} {p : Program}
    (hscan : (cut ++ rest).foldl State.feed (.value []) = .after [] whole)
    (hread : Program.reader Raw.nestingLimit whole = .ok p)
    (hrest : ∃ c ∈ rest, isBlank c = false) :
    ∃ e, Refuses e (Program.ofJson (String.ofList cut)) ∧ ∀ n m, e = .number n m →
      n.Begun ∧ n.Begins m ∧ m ∈ whole.numbers ∧ (n.stage = .sign → cut.getLast? = some '-') := by
  rw [List.foldl_append] at hscan
  have hs := State.remembers_foldl cut
  have hdocument : Document.scan (String.ofList cut) =
      (cut.foldl State.feed (.value [])).finish := by
    rw [Document.scan, String.toList_ofList]
    rfl
  generalize cut.foldl State.feed (.value []) = s at hs hscan hdocument
  have hopen : ∀ v, s ≠ .after [] v := by
    rintro v rfl
    obtain ⟨c, hc, hblank⟩ := hrest
    rw [State.blank_of_foldl hscan c hc] at hblank
    cases hblank
  obtain ⟨e, hcut, hnumber⟩ := State.finish_cut (State.completes_of_foldl hscan) hs hopen
  refine ⟨e, ?_, fun n m he => ?_⟩
  · obtain ⟨f, hf, hclean⟩ := Program.reader_strict Raw.nestingLimit e _ whole p hcut hread
    refine ⟨f, ?_, hclean⟩
    unfold Program.ofJson Document.readBy Document.read
    rw [hdocument, hf]
  · obtain ⟨frames, rfl⟩ := hnumber n m he
    obtain ⟨hbegins, hmem⟩ := hcut.number_mem he
    exact ⟨hs.1, hbegins, hmem, hs.2⟩

/-- **A truncated program is never accepted.** A text that is accepted ends with the bracket that
closes it, and blanks. If it is cut off anywhere before that bracket, what is left is refused, and
never for its shape. If all numbers of the text are plain integers, it is refused because the text
has ended. With negative integers the cut may also fall right behind a minus sign. -/
theorem truncated_programs_refused {text : String} {p : Program} (h : Program.ofJson text = .ok p) :
    ∃ body bracket blanks, text.toList = body ++ bracket :: blanks ∧
      (bracket = ']' ∨ bracket = '\x7d') ∧ (∀ c ∈ blanks, isBlank c = true) ∧
      ∀ cut : String, cut.toList <+: body → ∃ failure, Program.ofJson cut = .error failure ∧
        failure.category ≠ "data" ∧
        ((∀ n ∈ (Document.scan text).root.numbers, n.natural?.isSome = true) →
          failure.category = "eof") ∧
        ((∀ n ∈ (Document.scan text).root.numbers, n.IsInteger) →
          failure.category = "eof" ∨ cut.toList.getLast? = some '-') := by
  obtain ⟨hscan, hread⟩ := scanned_of_accepted h
  obtain ⟨entries, hentries, -⟩ := bind_eq_ok.mp hread
  have hends : EndsWithBracket text.toList := by
    have hremembers := State.remembers_foldl text.toList
    rw [hscan] at hremembers
    exact hremembers rfl (closed_of_record hentries)
  obtain ⟨body, bracket, blanks, htext, hbracket, hblanks⟩ := hends
  refine ⟨body, bracket, blanks, htext, hbracket, hblanks, fun cut hcut => ?_⟩
  obtain ⟨rest, hrest⟩ := hcut
  -- the rest of the text has the bracket, which is no blank
  have hnonblank : ∃ c ∈ rest ++ bracket :: blanks, isBlank c = false := by
    refine ⟨bracket, by simp, ?_⟩
    rcases hbracket with rfl | rfl <;> rfl
  rw [htext, ← hrest, List.append_assoc] at hscan
  obtain ⟨e, ⟨f, hf, hclean⟩, hnumber⟩ := refuses_of_prefix hscan hread hnonblank
  rw [String.ofList_toList] at hf
  have heof : e.Clean → (Failure.fault f).category = "eof" := by
    intro he
    rw [hclean he]
    rfl
  refine ⟨.fault f, hf, by cases f <;> decide, fun hplain => heof ?_, fun hintegers => ?_⟩
  · cases e with
    | elsewhere => trivial
    | number n m =>
      obtain ⟨hn, hbegins, hmem, -⟩ := hnumber n m rfl
      exact Edge.clean_of_natural hn hbegins (hplain m hmem)
  · cases e with
    | elsewhere => exact .inl (heof trivial)
    | number n m =>
      obtain ⟨hn, hbegins, hmem, hlast⟩ := hnumber n m rfl
      by_cases hs : n.stage = .sign
      · exact .inr (hlast hs)
      · exact .inl (heof (Edge.clean_of_integer hn hbegins (hintegers m hmem) hs))

/-- A text with blanks, escapes, both forms of a record and a value that is skipped. -/
def logbook : String :=
  "\x7b\"log\": [10, \"\\ud83d\\ude00\"], \"types\": [[\"Buoy\", \x7b\"class\": null\x7d]], " ++
    "\"methods\": [\x7b\"owner\": 12, \"name\": \"ring\"\x7d]\x7d \n"

/-- Wherever the logbook is cut off, its text has ended too early. -/
theorem logbook_truncations_refused : (∃ p, Program.ofJson logbook = .ok p) ∧
    ∃ body bracket blanks, logbook.toList = body ++ bracket :: blanks ∧
      (bracket = ']' ∨ bracket = '\x7d') ∧ (∀ c ∈ blanks, isBlank c = true) ∧
      ∀ cut : String, cut.toList <+: body → ∃ failure, Program.ofJson cut = .error failure ∧
        failure.category = "eof" := by
  have haccepted : ∃ p, Program.ofJson logbook = .ok p := by
    have hok : (Program.ofJson logbook).isOk = true := by decide +kernel
    cases hread : Program.ofJson logbook with
    | error failure =>
      rw [hread] at hok
      cases hok
    | ok p => exact ⟨p, rfl⟩
  have hplain : ∀ n ∈ (Document.scan logbook).root.numbers,
      n.natural?.isSome = true := by decide +kernel
  obtain ⟨p, hp⟩ := haccepted
  obtain ⟨body, bracket, blanks, htext, hbracket, hblanks, hcuts⟩ := truncated_programs_refused hp
  refine ⟨⟨p, hp⟩, body, bracket, blanks, htext, hbracket, hblanks, fun cut hcut => ?_⟩
  obtain ⟨failure, hfailure, -, heof, -⟩ := hcuts cut hcut
  exact ⟨failure, hfailure, heof hplain⟩

/-- A minus sign that stands alone in a member without a field is malformed, though it is the text
that ends. -/
example : Program.ofJson "\x7b\"depth\":-" = .error (.fault .malformed) := rfl

end Lowering
