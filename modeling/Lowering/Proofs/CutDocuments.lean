import Lowering.Json.Scan
import Lowering.Proofs.CutLiterals
import Mathlib.Data.List.Induction

/-!
# Documents that are cut off

The scanner reads a text in one pass. Where the text ends before the last bracket is closed, the
scanner still gives a value: what it has read, broken off on the right. This file compares that
value with the one that the whole text has.

* `Edge` -- what a text is cut off in: a number, or anything else;
* `Raw.Cut` -- what is left of a value when the text is cut off within it;
* `State.Completes` -- the values that a text may still have from a state on;
* `State.completes_of_foldl` -- the value of a text is among them at every place of the text;
* `State.finish_cut` -- the value of a text that ends there is cut off from each of them;
* `State.Remembers` -- what a state knows of the text before it: behind the closing bracket, only
  blanks.
-/

namespace Lowering.Json

/-! ## 1. Cut values -/

/-- **What a text is cut off in**: a number literal, of which `n` is left and which is `m` in the
whole text, or anything else. -/
inductive Edge where
  | elsewhere
  | number (n m : Number)

namespace Edge

/-- The fault that the brackets around the cut end with. A number that may not end where it is
counts as malformed there, even where it is the text that ends. -/
def fault : Edge → Fault
  | .elsewhere => .truncated
  | .number n _ => if n.complete then .truncated else .malformed

/-- The cut leaves no number with a fault of its own: it may end where it is, and it is not out of
range unless the whole number is. -/
def Clean : Edge → Prop
  | .elsewhere => True
  | .number n m => n.complete = true ∧ (n.overflows = true → m.overflows = true)

theorem Clean.fault_eq {e : Edge} (h : e.Clean) : e.fault = .truncated := by
  cases e with
  | elsewhere => rfl
  | number n m => exact if_pos h.1

/-- In an integer, only a cut right behind the sign is not clean. -/
theorem clean_of_integer {n m : Number} (hn : n.Begun) (h : n.Begins m) (hm : m.IsInteger)
    (hs : n.stage ≠ .sign) : (Edge.number n m).Clean := by
  have hi := ((h.integer hm).resolve_left hs).1
  exact ⟨hi.complete, h.overflows hn hi hm⟩

/-- In an integer without a sign, every cut is clean. -/
theorem clean_of_natural {n m : Number} (hn : n.Begun) (h : n.Begins m)
    (hm : m.natural?.isSome = true) : (Edge.number n m).Clean := by
  obtain ⟨k, hk⟩ := Option.isSome_iff_exists.mp hm
  obtain ⟨j, -, hj⟩ := h.natural hn hk
  obtain ⟨-, hi, -⟩ := Number.natural?_eq_some_iff.mp hj
  exact ⟨hi.complete, h.overflows hn hi (Number.natural?_eq_some_iff.mp hk).2.1⟩

end Edge

/-- **What is left of a value** when the text is cut off in front of it or within it. The whole
value stands on the right. Behind a comma there is one item or member more in the whole value. -/
inductive Raw.Cut : Edge → Raw → Raw → Prop
  | before (w : Raw) : Cut .elsewhere (.broken false .truncated) w
  | null : Cut .elsewhere (.broken true .truncated) .null
  | bool (b : Bool) : Cut .elsewhere (.broken true .truncated) (.bool b)
  | number {n m : Number} (h : n.Begins m) (hn : n.Begun) (hc : n.complete = true) :
      Cut (.number n m) (.num n none) (.num m none)
  | half {n m : Number} (h : n.Begins m) (hc : n.complete = false) :
      Cut (.number n m) (.num n (some .truncated)) (.num m none)
  | str {pieces : List Piece} {t : Text} (h : Text.Begins pieces t) :
      Cut .elsewhere (.str { pieces := pieces, cut := some .truncated }) (.str t)
  | arr (items more : List Raw) (comma : Bool) (h : comma = true → more ≠ []) :
      Cut .elsewhere (.arr items (.cut comma .truncated)) (.arr (items ++ more) .closed)
  | item {e : Edge} {v w : Raw} (items more : List Raw) (h : Cut e v w) :
      Cut e (.arr (items ++ [v]) (.cut false e.fault)) (.arr (items ++ w :: more) .closed)
  | obj (members more : List (Text × Raw)) (comma : Bool) (h : comma = true → more ≠ []) :
      Cut .elsewhere (.obj members (.cut comma .truncated)) (.obj (members ++ more) .closed)
  | name {pieces : List Piece} {key : Text} (members more : List (Text × Raw)) (w : Raw)
      (h : Text.Begins pieces key) :
      Cut .elsewhere
        (.obj
          (members ++ [({ pieces := pieces, cut := some .truncated }, .broken false .truncated)])
          (.cut false .truncated))
        (.obj (members ++ (key, w) :: more) .closed)
  | member {e : Edge} {v w : Raw} (members more : List (Text × Raw)) (key : Text) (h : Cut e v w) :
      Cut e (.obj (members ++ [(key, v)]) (.cut false e.fault))
        (.obj (members ++ (key, w) :: more) .closed)

/-! ## 2. The numbers of a value -/

namespace Raw

mutual

/-- **The number literals of a value**, in reading order. -/
def numbers : Raw → List Number
  | .num n _ => [n]
  | .arr items _ => numbersOfItems items
  | .obj members _ => numbersOfMembers members
  | _ => []

/-- The number literals of items. -/
def numbersOfItems : List Raw → List Number
  | [] => []
  | v :: rest => numbers v ++ numbersOfItems rest

/-- The number literals of members. -/
def numbersOfMembers : List (Text × Raw) → List Number
  | [] => []
  | (_, v) :: rest => numbers v ++ numbersOfMembers rest

end

theorem numbers_of_item {items : List Raw} {v : Raw} {n : Number} (hv : v ∈ items)
    (h : n ∈ v.numbers) : n ∈ numbersOfItems items := by
  induction items with
  | nil => cases hv
  | cons x rest ih =>
    rw [numbersOfItems, List.mem_append]
    rcases List.mem_cons.mp hv with rfl | hv
    · exact .inl h
    · exact .inr (ih hv)

theorem numbers_of_member {members : List (Text × Raw)} {k : Text} {v : Raw} {n : Number}
    (hv : (k, v) ∈ members) (h : n ∈ v.numbers) : n ∈ numbersOfMembers members := by
  induction members with
  | nil => cases hv
  | cons x rest ih =>
    rw [numbersOfMembers, List.mem_append]
    rcases List.mem_cons.mp hv with rfl | hv
    · exact .inl h
    · exact .inr (ih hv)

/-- **A number that is cut off is one of the whole value.** -/
theorem Cut.number_mem {n m : Number} {v w : Raw} {e : Edge} (h : Cut e v w)
    (he : e = .number n m) : n.Begins m ∧ m ∈ w.numbers := by
  induction h with
  | number h hn hc =>
    cases he
    exact ⟨h, List.mem_singleton.mpr rfl⟩
  | half h hc =>
    cases he
    exact ⟨h, List.mem_singleton.mpr rfl⟩
  | item items more h ih =>
    exact ⟨(ih he).1, numbers_of_item (by simp) (ih he).2⟩
  | member members more key h ih =>
    exact ⟨(ih he).1, numbers_of_member (k := key) (by simp) (ih he).2⟩
  | before | null | bool | str | arr | obj | name => cases he

end Raw

/-! ## 3. The values that a text may have -/

/-- The values of a text that has `v` in the brackets that are open: each bracket may get more items
or members, and is closed. -/
def Fills : List Frame → Raw → Raw → Prop
  | [], v, w => w = v
  | .arr items :: outer, v, w => ∃ more, Fills outer (.arr (items.reverse ++ v :: more) .closed) w
  | .obj members key :: outer, v, w =>
    ∃ more, Fills outer (.obj (members.reverse ++ (key, v) :: more) .closed) w

/-- **The values that a text may have** if the scanner is in a state at some place of it. -/
def State.Completes : State → Raw → Prop
  | .value (.arr items :: outer), w =>
    ∃ more, (items ≠ [] → more ≠ []) ∧ Fills outer (.arr (items.reverse ++ more) .closed) w
  | .value frames, w => ∃ v, Fills frames v w
  | .word frames _ _ v, w => Fills frames v w
  | .number frames n, w => ∃ m, n.Begins m ∧ Fills frames (.num m none) w
  | .quoted frames .value pieces _, w => ∃ t, Text.Begins pieces.reverse t ∧ Fills frames (.str t) w
  | .quoted frames (.name members) pieces _, w =>
    ∃ t v, Text.Begins pieces.reverse t ∧ Fills (.obj members t :: frames) v w
  | .name frames members, w =>
    ∃ more, (members ≠ [] → more ≠ []) ∧ Fills frames (.obj (members.reverse ++ more) .closed) w
  | .colon frames members key, w => ∃ v, Fills (.obj members key :: frames) v w
  | .after frames v, w => Fills frames v w
  | .ended _, _ => False

namespace State

variable {frames : List Frame} {v w : Raw} {c : Char} {s : State}

/-- Where a value has to begin, any value may stand. -/
theorem completes_value (h : Fills frames v w) : (State.value frames).Completes w := by
  cases frames with
  | nil => exact ⟨v, h⟩
  | cons frame outer =>
    cases frame with
    | arr items =>
      obtain ⟨more, h⟩ := h
      exact ⟨v :: more, fun _ => List.cons_ne_nil v more, h⟩
    | obj members key => exact ⟨v, h⟩

theorem completes_of_begin (h : (begin frames c).Completes w) :
    (State.value frames).Completes w := by
  unfold begin at h
  repeat' split at h
  · obtain ⟨t, -, h⟩ := h
    exact completes_value h
  · obtain ⟨more, -, h⟩ := h
    exact completes_value h
  · obtain ⟨more, -, h⟩ := h
    exact completes_value h
  · exact completes_value h
  · exact completes_value h
  · exact completes_value h
  · obtain ⟨m, -, h⟩ := h
    exact completes_value h
  · rename_i hempty
    rw [List.isEmpty_iff] at hempty
    subst hempty
    exact ⟨[], fun hne => absurd rfl hne, h⟩
  all_goals cases h

theorem fills_of_follow (h : (follow v c frames).Completes w) : Fills frames v w := by
  unfold follow at h
  repeat' split at h
  · exact h
  · cases h
  · exact h
  · obtain ⟨more, -, h⟩ := h
    exact ⟨more, by simpa using h⟩
  · rw [List.reverse_cons] at h
    exact ⟨[], h⟩
  · cases h
  · exact h
  · obtain ⟨more, -, h⟩ := h
    exact ⟨more, by simpa using h⟩
  · rw [List.reverse_cons] at h
    exact ⟨[], h⟩
  · cases h

/-- **One character back**: what a text may have behind a character, it may have in front of it. -/
theorem completes_of_feed (h : (s.feed c).Completes w) : s.Completes w := by
  cases s with
  | value frames =>
    rw [feed] at h
    split at h
    · exact h
    · exact completes_of_begin h
  | word frames next rest v =>
    cases rest with
    | nil =>
      simp only [feed] at h
      split at h
      · exact h
      · cases h
    | cons letter rest =>
      simp only [feed] at h
      split at h
      · exact h
      · cases h
  | number frames n =>
    rw [feed] at h
    repeat' split at h
    · rename_i n' hnext
      obtain ⟨m, hm, h⟩ := h
      exact ⟨m, .next hnext hm, h⟩
    · exact ⟨n, .refl n, fills_of_follow h⟩
    · cases h
  | quoted frames role pieces q =>
    rw [feed] at h
    split at h
    · rename_i pieces' q' hfeed
      cases role with
      | value =>
        obtain ⟨t, ht, h⟩ := h
        exact ⟨t, Quote.begins_of_more hfeed ht, h⟩
      | name members =>
        obtain ⟨t, v, ht, h⟩ := h
        exact ⟨t, v, Quote.begins_of_more hfeed ht, h⟩
    · rename_i pieces' hfeed
      rw [Quote.pieces_of_closed hfeed] at h
      cases role with
      | value => exact ⟨_, .self _, h⟩
      | name members =>
        obtain ⟨v, h⟩ := h
        exact ⟨_, v, .self _, h⟩
    · cases h
  | name frames members =>
    rw [feed] at h
    repeat' split at h
    · exact h
    · obtain ⟨t, v, -, more, h⟩ := h
      exact ⟨(t, v) :: more, fun _ => List.cons_ne_nil _ more, h⟩
    · rename_i hempty
      rw [List.isEmpty_iff] at hempty
      subst hempty
      exact ⟨[], fun hne => absurd rfl hne, h⟩
    all_goals cases h
  | colon frames members key =>
    rw [feed] at h
    repeat' split at h
    · exact h
    · exact h
    · cases h
  | after frames v => exact fills_of_follow h
  | ended d => cases h

/-- **The value of a text is among those that it may have**, at every place of the text. -/
theorem completes_of_foldl {cs : List Char} (h : cs.foldl feed s = .after [] w) :
    s.Completes w := by
  induction cs generalizing s with
  | nil =>
    rw [List.foldl_nil] at h
    rw [h]
    rfl
  | cons c cs ih => exact completes_of_feed (ih h)

end State

/-! ## 4. The text that leads to a state -/

/-- An array or object with its closing bracket. -/
def Raw.Closed : Raw → Prop
  | .arr _ .closed | .obj _ .closed => True
  | _ => False

/-- **A text with its closing bracket**, behind which there are only blanks. -/
def EndsWithBracket (cs : List Char) : Prop :=
  ∃ body bracket blanks, cs = body ++ bracket :: blanks ∧ (bracket = ']' ∨ bracket = '\x7d') ∧
    ∀ c ∈ blanks, isBlank c = true

theorem EndsWithBracket.blank {cs : List Char} {c : Char} (h : EndsWithBracket cs)
    (hc : isBlank c = true) : EndsWithBracket (cs ++ [c]) := by
  obtain ⟨body, bracket, blanks, rfl, hb, hblanks⟩ := h
  refine ⟨body, bracket, blanks ++ [c], by simp, hb, fun x hx => ?_⟩
  rcases List.mem_append.mp hx with hx | hx
  · exact hblanks x hx
  · rw [List.mem_singleton.mp hx]
    exact hc

theorem EndsWithBracket.bracket {c : Char} (cs : List Char) (hc : c = ']' ∨ c = '\x7d') :
    EndsWithBracket (cs ++ [c]) :=
  ⟨cs, c, [], rfl, hc, nofun⟩

section Broken

variable {f : Fault} {frames : List Frame} {v : Raw}

theorem not_closed_plug (h : ¬ v.Closed) : ¬ (plug f frames v).Closed := by
  induction frames generalizing v with
  | nil => exact h
  | cons frame outer ih =>
    cases frame with
    | arr items => exact ih id
    | obj members key => exact ih id

theorem not_closed_breakIn (h : ¬ v.Closed) : ¬ (breakIn frames v).root.Closed := not_closed_plug h

theorem not_closed_breakBefore : ¬ (breakBefore f frames).root.Closed := by
  unfold breakBefore
  split
  · exact not_closed_breakIn id
  · exact not_closed_breakIn id

theorem not_closed_breakInQuoted {role : Role} {pieces : List Piece} :
    ¬ (breakInQuoted f frames role pieces).root.Closed := by
  cases role with
  | value => exact not_closed_breakIn id
  | name members => exact not_closed_breakIn id

/-- Behind a value a text is complete only if no bracket is open. -/
theorem eq_nil_of_closed (h : (breakAfter f v frames).root.Closed) : frames = [] := by
  cases frames with
  | nil => rfl
  | cons frame outer =>
    cases frame with
    | arr items => exact absurd h (not_closed_breakIn id)
    | obj members key => exact absurd h (not_closed_breakIn id)

end Broken

/-- **What a state tells of the text that leads to it.** A sign that stands alone is its last
character. A value in brackets that stands in no other ones ends with its bracket. A document that
is fixed is not complete. -/
def State.Remembers (cs : List Char) : State → Prop
  | .word _ _ _ v => v = .null ∨ ∃ b, v = .bool b
  | .number _ n => n.Begun ∧ (n.stage = .sign → cs.getLast? = some '-')
  | .after frames v => frames = [] → v.Closed → EndsWithBracket cs
  | .ended d => d.trailing = true ∨ ¬ d.root.Closed
  | _ => True

namespace State

variable {cs : List Char} {c : Char} {s : State}

theorem remembers_follow {v : Raw} {frames : List Frame}
    (h : frames = [] → v.Closed → EndsWithBracket cs) :
    (follow v c frames).Remembers (cs ++ [c]) := by
  unfold follow
  repeat' split
  · rename_i hblank
    exact fun _ hv => (h rfl hv).blank hblank
  · exact .inl rfl
  · nofun
  · trivial
  · rename_i hc
    exact fun _ _ => .bracket cs (.inl hc)
  · exact .inr fun hclosed => nomatch eq_nil_of_closed hclosed
  · nofun
  · trivial
  · rename_i hc
    exact fun _ _ => .bracket cs (.inr hc)
  · exact .inr fun hclosed => nomatch eq_nil_of_closed hclosed

theorem remembers_begin (frames : List Frame) : (begin frames c).Remembers (cs ++ [c]) := by
  unfold begin
  repeat' split
  · trivial
  · trivial
  · trivial
  · exact .inl rfl
  · exact .inr ⟨true, rfl⟩
  · exact .inr ⟨false, rfl⟩
  · rename_i n hstart
    refine ⟨.start hstart, fun hs => ?_⟩
    rw [Number.start?_sign hstart hs]
    exact List.getLast?_concat
  · rename_i hc _
    exact fun _ _ => .bracket cs (.inl hc)
  · exact .inr not_closed_breakBefore
  · exact .inr (not_closed_breakIn id)
  · exact .inr (not_closed_breakIn id)

/-- **One character more**: a state tells of the text up to the character what the next one tells of
the text with it. -/
theorem Remembers.feed (h : s.Remembers cs) : (s.feed c).Remembers (cs ++ [c]) := by
  cases s with
  | value frames =>
    rw [State.feed]
    split
    · trivial
    · exact remembers_begin frames
  | word frames next rest v =>
    -- a word has no brackets
    have hv : ¬ v.Closed := by
      rcases h with rfl | ⟨b, rfl⟩
      · exact id
      · exact id
    cases rest with
    | nil =>
      simp only [State.feed]
      split
      · exact fun _ hclosed => absurd hclosed hv
      · exact .inr (not_closed_breakIn id)
    | cons letter rest =>
      simp only [State.feed]
      split
      · exact h
      · exact .inr (not_closed_breakIn id)
  | number frames n =>
    rw [State.feed]
    repeat' split
    · rename_i n' hnext
      exact ⟨h.1.next hnext, fun hs => absurd hs (Number.next?_cases hnext).2.1⟩
    · exact remembers_follow fun _ hclosed => absurd hclosed id
    · exact .inr (not_closed_breakIn id)
  | quoted frames role pieces q =>
    rw [State.feed]
    split
    · trivial
    · cases role with
      | value => exact fun _ hclosed => absurd hclosed id
      | name members => trivial
    · exact .inr not_closed_breakInQuoted
  | name frames members =>
    rw [State.feed]
    repeat' split
    · trivial
    · trivial
    · rename_i hc _
      exact fun _ _ => .bracket cs (.inr hc)
    · exact .inr (not_closed_breakIn id)
    · exact .inr (not_closed_breakIn id)
  | colon frames members key =>
    rw [State.feed]
    repeat' split
    · trivial
    · trivial
    · exact .inr (not_closed_breakIn id)
  | after frames v => exact remembers_follow h
  | ended d => exact h

/-- **What the scanner's state tells of a text.** -/
theorem remembers_foldl (cs : List Char) : (cs.foldl State.feed (.value [])).Remembers cs := by
  induction cs using List.reverseRecOn with
  | nil => trivial
  | append_singleton cs c ih =>
    rw [List.foldl_append]
    exact ih.feed

/-- **A complete value comes from a complete text**: the scanner has it, and no bracket is open. -/
theorem Remembers.eq_after (h : s.Remembers cs) (hclosed : s.finish.root.Closed)
    (htrailing : s.finish.trailing = false) : s = .after [] s.finish.root := by
  cases s with
  | value frames => exact absurd hclosed not_closed_breakBefore
  | word frames next rest v => exact absurd hclosed (not_closed_breakIn id)
  | number frames n =>
    rw [finish] at hclosed
    split at hclosed
    · rw [eq_nil_of_closed hclosed] at hclosed
      cases hclosed
    · exact absurd hclosed (not_closed_breakIn id)
  | quoted frames role pieces q => exact absurd hclosed not_closed_breakInQuoted
  | name frames members => exact absurd hclosed (not_closed_breakIn id)
  | colon frames members key => exact absurd hclosed (not_closed_breakIn id)
  | after frames v =>
    have hframes : frames = [] := eq_nil_of_closed hclosed
    subst hframes
    rfl
  | ended d =>
    rcases h with h | h
    · rw [show d.trailing = false from htrailing] at h
      cases h
    · exact absurd hclosed h

/-- A document that is fixed stays as it is. -/
theorem foldl_ended (cs : List Char) (d : Document) :
    cs.foldl State.feed (.ended d) = .ended d := by
  induction cs with
  | nil => rfl
  | cons c cs ih => exact ih

/-- Behind a value outside of all brackets only blanks may follow. -/
theorem blank_of_foldl {v w : Raw} (h : cs.foldl State.feed (.after [] v) = .after [] w) :
    ∀ c ∈ cs, isBlank c = true := by
  induction cs with
  | nil => nofun
  | cons c cs ih =>
    rw [List.foldl_cons] at h
    by_cases hc : isBlank c = true
    · have hstep : State.feed (.after [] v) c = .after [] v := if_pos hc
      rw [hstep] at h
      exact List.forall_mem_cons.mpr ⟨hc, ih h⟩
    · have hstep : State.feed (.after [] v) c = .ended { root := v, trailing := true } := if_neg hc
      rw [hstep, foldl_ended] at h
      cases h

end State

/-! ## 5. The value of a text that is cut off -/

section Cuts

variable {e : Edge} {frames : List Frame} {v w whole : Raw}

/-- A cut value breaks the brackets around it with its own fault. -/
theorem Raw.Cut.plug (h : Raw.Cut e v w) (hfills : Fills frames w whole) :
    Raw.Cut e (plug e.fault frames v) whole := by
  induction frames generalizing v w with
  | nil =>
    cases hfills
    exact h
  | cons frame outer ih =>
    cases frame with
    | arr items =>
      obtain ⟨more, hfills⟩ := hfills
      rw [Json.plug, List.reverse_cons]
      exact ih (.item items.reverse more h) hfills
    | obj members key =>
      obtain ⟨more, hfills⟩ := hfills
      rw [Json.plug, List.reverse_cons]
      exact ih (.member members.reverse more key h) hfills

theorem Raw.Cut.breakIn (h : Raw.Cut e v w) (hskip : v.skip = some e.fault)
    (hfills : Fills frames w whole) : Raw.Cut e (breakIn frames v).root whole := by
  have hroot : (Json.breakIn frames v).root = Json.plug e.fault frames v := by
    unfold Json.breakIn
    rw [hskip]
    rfl
  rw [hroot]
  exact h.plug hfills

/-- A number that is cut off where it may end, in the brackets around it. -/
theorem Raw.Cut.breakAfter {n m : Number} (h : Raw.Cut (.number n m) (.num n none) (.num m none))
    (hc : n.complete = true) (hfills : Fills frames (.num m none) whole) :
    Raw.Cut (.number n m) (breakAfter .truncated (.num n none) frames).root whole := by
  have hfault : (Edge.number n m).fault = .truncated := if_pos hc
  cases frames with
  | nil =>
    cases hfills
    exact h
  | cons frame outer =>
    cases frame with
    | arr items =>
      obtain ⟨more, hfills⟩ := hfills
      have hitem := Raw.Cut.item items.reverse more h
      rw [hfault, ← List.reverse_cons] at hitem
      exact hitem.breakIn (congrArg some hfault.symm) hfills
    | obj members key =>
      obtain ⟨more, hfills⟩ := hfills
      have hmember := Raw.Cut.member members.reverse more key h
      rw [hfault, ← List.reverse_cons] at hmember
      exact hmember.breakIn (congrArg some hfault.symm) hfills

/-- A text that ends behind a value, inside of brackets. -/
theorem cut_behind {frame : Frame} {outer : List Frame} (hfills : Fills (frame :: outer) v whole) :
    Raw.Cut .elsewhere (breakAfter .truncated v (frame :: outer)).root whole := by
  cases frame with
  | arr items =>
    obtain ⟨more, hfills⟩ := hfills
    have hcut := Raw.Cut.arr (v :: items).reverse more false nofun
    refine hcut.breakIn rfl ?_
    simpa using hfills
  | obj members key =>
    obtain ⟨more, hfills⟩ := hfills
    have hcut := Raw.Cut.obj ((key, v) :: members).reverse more false nofun
    refine hcut.breakIn rfl ?_
    simpa using hfills

/-- **The value of a text that ends somewhere is cut off from the values that it may have**, unless
one has been read completely. -/
theorem State.finish_cut {s : State} {cs : List Char} (hc : s.Completes whole) (hs : s.Remembers cs)
    (hopen : ∀ v, s ≠ .after [] v) :
    ∃ e, Raw.Cut e s.finish.root whole ∧ ∀ n m, e = .number n m →
      ∃ frames, s = .number frames n := by
  -- only the state within a number has an edge of its own
  have hno : ∀ n m, Edge.elsewhere = .number n m → ∃ frames, s = .number frames n := nofun
  cases s with
  | value frames =>
    refine ⟨.elsewhere, ?_, hno⟩
    cases frames with
    | nil =>
      obtain ⟨v, hfills⟩ := hc
      exact (Raw.Cut.before v).breakIn rfl hfills
    | cons frame outer =>
      cases frame with
      | arr items =>
        obtain ⟨more, hmore, hfills⟩ := hc
        refine (Raw.Cut.arr _ more _ fun hcomma => hmore ?_).breakIn rfl hfills
        rintro rfl
        cases hcomma
      | obj members key =>
        obtain ⟨v, hfills⟩ := hc
        exact (Raw.Cut.before v).breakIn rfl hfills
  | word frames next rest v =>
    refine ⟨.elsewhere, ?_, hno⟩
    rcases hs with rfl | ⟨b, rfl⟩
    · exact Raw.Cut.null.breakIn rfl hc
    · exact (Raw.Cut.bool b).breakIn rfl hc
  | number frames n =>
    obtain ⟨m, hm, hfills⟩ := hc
    refine ⟨.number n m, ?_, fun n' m' he => ?_⟩
    · rw [finish]
      split
      · rename_i hcomplete
        exact (Raw.Cut.number hm hs.1 hcomplete).breakAfter hcomplete hfills
      · rename_i hcomplete
        have hfault : (Edge.number n m).fault = .malformed := if_neg hcomplete
        exact (Raw.Cut.half hm (Bool.eq_false_iff.mpr hcomplete)).breakIn
          (congrArg some hfault.symm) hfills
    · cases he
      exact ⟨frames, rfl⟩
  | quoted frames role pieces q =>
    refine ⟨.elsewhere, ?_, hno⟩
    cases role with
    | value =>
      obtain ⟨t, ht, hfills⟩ := hc
      exact (Raw.Cut.str ht).breakIn rfl hfills
    | name members =>
      obtain ⟨t, v, ht, more, hfills⟩ := hc
      have hname := Raw.Cut.name members.reverse more v ht
      rw [← List.reverse_cons] at hname
      exact hname.breakIn rfl hfills
  | name frames members =>
    refine ⟨.elsewhere, ?_, hno⟩
    obtain ⟨more, hmore, hfills⟩ := hc
    refine (Raw.Cut.obj _ more _ fun hcomma => hmore ?_).breakIn rfl hfills
    rintro rfl
    cases hcomma
  | colon frames members key =>
    obtain ⟨v, hfills⟩ := hc
    exact ⟨.elsewhere, (Raw.Cut.before v).breakIn rfl hfills, hno⟩
  | after frames v =>
    refine ⟨.elsewhere, ?_, hno⟩
    cases frames with
    | nil => exact absurd rfl (hopen v)
    | cons frame outer => exact cut_behind hc
  | ended d => cases hc

end Cuts

end Lowering.Json
