import Lowering.Json.Scan

/-!
# Written values are scanned back

The text of a value is read in one pass, character by character. This file follows that pass through
the text of a written value: behind it the scanner has the value itself, whatever brackets are open
around it. A number is special, because only the character behind it ends it.

* `Value.Plain` -- values whose numbers are positions, as all written forms are;
* `State.HasRead` -- the state behind a complete value;
* `Value.render_scanned` -- the text of a value leads to that state;
* `scan_text` -- the document of the text of a value;
* `Raw.settle_ofValue` -- a scanned value is complete, if it does not nest too deep.
-/

namespace Lowering.Json

/-! ## 1. Plain values -/

mutual

/-- The numbers of a value are positions. -/
def Value.Plain : Value → Prop
  | .num n => ∃ i : UInt32, n = .ofNat i.toNat
  | .arr items => PlainItems items
  | .obj members => PlainMembers members
  | _ => True

/-- The numbers of items are positions. -/
def PlainItems : List Value → Prop
  | [] => True
  | v :: rest => v.Plain ∧ PlainItems rest

/-- The numbers of members are positions. -/
def PlainMembers : List (String × Value) → Prop
  | [] => True
  | (_, v) :: rest => v.Plain ∧ PlainMembers rest

end

theorem plainItems_iff : ∀ {items : List Value}, PlainItems items ↔ ∀ v ∈ items, v.Plain
  | [] => by simp [PlainItems]
  | v :: rest => by simp [PlainItems, @plainItems_iff rest]

theorem plainMembers_iff : ∀ {members : List (String × Value)},
    PlainMembers members ↔ ∀ m ∈ members, m.2.Plain
  | [] => by simp [PlainMembers]
  | (k, v) :: rest => by simp [PlainMembers, @plainMembers_iff rest]

/-! ## 2. String literals -/

theorem hexDigit?_hexChar : ∀ d < 16, hexDigit? (hexChar d) = some d := by decide

section Literals

variable (frames : List Frame) (role : Role) (pieces : List Piece)

/-- Two hexadecimal digits behind `\u00` add the control character that they name. -/
theorem feed_control {c : Char} (h : c.toNat < 0x20) :
    ['\\', 'u', '0', '0', hexChar (c.toNat / 16), hexChar (c.toNat % 16)].foldl State.feed
      (.quoted frames role pieces .plain) = .quoted frames role (.char c :: pieces) .plain := by
  have hhigh := hexDigit?_hexChar (c.toNat / 16) (by omega)
  have hlow := hexDigit?_hexChar (c.toNat % 16) (by omega)
  have hzero : hexDigit? '0' = some 0 := by decide
  have hunit : (c.toNat / 16) * 16 + c.toNat % 16 = c.toNat := by omega
  have hlead : ¬ (0xD800 ≤ c.toNat ∧ c.toNat ≤ 0xDBFF) := by omega
  have htrail : ¬ (0xDC00 ≤ c.toNat ∧ c.toNat ≤ 0xDFFF) := by omega
  simp [State.feed, Quote.feed, hzero, hhigh, hlow, hunit, addUnit, hlead, htrail, Char.ofNat_toNat]

/-- **A written character adds itself** to a string literal. -/
theorem feed_escapeChar (c : Char) :
    (escapeChar c).foldl State.feed (.quoted frames role pieces .plain) =
      .quoted frames role (.char c :: pieces) .plain := by
  unfold escapeChar
  split
  · subst c; rfl
  split
  · subst c; rfl
  split
  · subst c; rfl
  split
  · subst c; rfl
  split
  · subst c; rfl
  split
  · subst c; rfl
  split
  · subst c; rfl
  split
  · rename_i hlow
    exact feed_control frames role pieces hlow
  · rename_i hquote hback _ _ _ _ _ hlow
    simp [State.feed, Quote.feed, hquote, hback, hlow]

/-- Written characters add themselves in their order. -/
theorem feed_escaped : ∀ (cs : List Char) (pieces : List Piece),
    (cs.flatMap escapeChar).foldl State.feed (.quoted frames role pieces .plain) =
      .quoted frames role ((cs.map .char).reverse ++ pieces) .plain
  | [], _ => rfl
  | c :: rest, pieces => by
      rw [List.flatMap_cons, List.foldl_append, feed_escapeChar, feed_escaped rest]
      simp

end Literals

/-- A string literal where a value begins. -/
theorem feed_quote (frames : List Frame) (s : String) :
    (quote s).foldl State.feed (.value frames) = .after frames (.str (.ofString s)) := by
  have hopen : State.feed (.value frames) '"' = .quoted frames .value [] .plain := rfl
  unfold quote
  rw [List.cons_append, List.foldl_cons, hopen, List.foldl_append, feed_escaped]
  simp [State.feed, Quote.feed, Text.ofString]

/-- A string literal where the name of a member begins. -/
theorem feed_name (frames : List Frame) (members : List (Text × Raw)) (s : String) :
    (quote s).foldl State.feed (.name frames members) = .colon frames members (.ofString s) := by
  have hopen : State.feed (.name frames members) '"' = .quoted frames (.name members) [] .plain :=
    rfl
  unfold quote
  rw [List.cons_append, List.foldl_cons, hopen, List.foldl_append, feed_escaped]
  simp [State.feed, Quote.feed, Text.ofString]

/-! ## 3. Numbers -/

/-- What is written of a natural number is its digits. -/
theorem Number.render_ofNat (n : Nat) : (Number.ofNat n).render = digitChars (digits n) := by
  unfold Number.render Number.ofNat
  by_cases h : n = 0 <;> simp [h]

/-- A digit begins a number. -/
theorem feed_firstDigit (frames : List Frame) {d : Nat} (h : d < 10) :
    State.feed (.value frames) (digitChar d) =
      .number frames { stage := if d = 0 then .zero else .whole, whole := [d] } := by
  have hstart : ∀ d < 10, Number.start? (digitChar d) =
      some { stage := if d = 0 then .zero else .whole, whole := [d] } := by decide
  have hword : ∀ d < 10, isBlank (digitChar d) = false ∧ digitChar d ≠ '"' ∧ digitChar d ≠ '[' ∧
      digitChar d ≠ '\x7b' ∧ digitChar d ≠ 'n' ∧ digitChar d ≠ 't' ∧ digitChar d ≠ 'f' := by decide
  obtain ⟨hblank, hquote, hbracket, hbrace, hn, ht, hf⟩ := hword d h
  simp [State.feed, State.begin, hblank, hquote, hbracket, hbrace, hn, ht, hf, hstart d h]

/-- One digit more of a number that does not start with zero. -/
theorem feed_digit (frames : List Frame) (ds : List Nat) {d : Nat} (h : d < 10) :
    State.feed (.number frames { stage := .whole, whole := ds }) (digitChar d) =
      .number frames { stage := .whole, whole := d :: ds } := by
  simp [State.feed, Number.next?, digit?_digitChar d h]

/-- **The digits of a positive number** lead to its literal. -/
theorem feed_digits (frames : List Frame) {n : Nat} (h : n ≠ 0) :
    (digitChars (digits n)).foldl State.feed (.value frames) =
      .number frames { stage := .whole, whole := digits n } := by
  fun_induction digits n with
  | case1 n hn =>
    show State.feed (.value frames) (digitChar n) = _
    rw [feed_firstDigit frames hn, if_neg h]
  | case2 n hn ih =>
    have hlast : n % 10 < 10 := Nat.mod_lt n (by decide)
    have hrest : n / 10 ≠ 0 := by omega
    have happend : digitChars (n % 10 :: digits (n / 10)) =
        digitChars (digits (n / 10)) ++ [digitChar (n % 10)] := by simp [digitChars]
    rw [happend, List.foldl_append, ih hrest]
    exact feed_digit frames _ hlast

theorem feed_number (frames : List Frame) (n : Nat) :
    (Number.ofNat n).render.foldl State.feed (.value frames) = .number frames (.ofNat n) := by
  rw [Number.render_ofNat]
  by_cases h : n = 0
  · subst n
    have hdigits : digits 0 = [0] := by
      rw [digits]
      rfl
    rw [hdigits, Number.ofNat, hdigits]
    exact feed_firstDigit frames (d := 0) (by decide)
  · rw [feed_digits frames h, Number.ofNat, if_neg h]

/-! ## 4. Values -/

/-- The characters that can follow a value inside of brackets. -/
def endsValue (c : Char) : Prop := c = ',' ∨ c = ']' ∨ c = '\x7d'

/-- **The state behind a complete value**: what can follow the value ends it, and so does the end of
the text. -/
structure State.HasRead (s : State) (frames : List Frame) (v : Raw) : Prop where
  next : ∀ c, endsValue c → s.feed c = State.follow v c frames
  last : s.finish = breakAfter .truncated v frames

theorem State.HasRead.after (frames : List Frame) (v : Raw) :
    (State.after frames v).HasRead frames v :=
  ⟨fun _ _ => rfl, rfl⟩

theorem Number.complete_ofNat (n : Nat) : (Number.ofNat n).complete = true := by
  unfold Number.complete Number.ofNat
  by_cases h : n = 0 <;> simp [h]

/-- What follows a value does not continue a number. -/
theorem State.HasRead.number (frames : List Frame) (n : Nat) :
    (State.number frames (.ofNat n)).HasRead frames (.num (.ofNat n) none) where
  next c hc := by
    have hdigit : digit? c = none := by rcases hc with rfl | rfl | rfl <;> decide
    have hpoint : c ≠ '.' ∧ c ≠ 'e' ∧ c ≠ 'E' := by rcases hc with rfl | rfl | rfl <;> decide
    have hnext : (Number.ofNat n).next? c = none := by
      unfold Number.next? Number.ofNat
      by_cases h : n = 0 <;> simp [h, hdigit, Number.afterWhole?, hpoint]
    have hends : (Number.ofNat n).endsBefore c = true := by
      simp [Number.endsBefore, Number.complete_ofNat, hdigit]
    simp [State.feed, hnext, hends]
  last := by simp [State.finish, Number.complete_ofNat]

mutual

/-- **The text of a value leads to the value**, whatever is open around it. -/
theorem Value.render_scanned : ∀ v : Value, v.Plain → ∀ frames : List Frame,
    (v.render.foldl State.feed (.value frames)).HasRead frames (.ofValue v)
  | .null, _, frames => .after frames .null
  | .bool true, _, frames => .after frames (.bool true)
  | .bool false, _, frames => .after frames (.bool false)
  | .num n, h, frames => by
      obtain ⟨i, rfl⟩ := h
      simp only [Value.render, Raw.ofValue]
      rw [feed_number]
      exact .number frames _
  | .str s, _, frames => by
      simp only [Value.render, Raw.ofValue]
      rw [feed_quote]
      exact .after frames _
  | .arr [], _, frames => .after frames (.arr [] .closed)
  | .arr (v :: rest), h, frames => by
      have hopen : State.feed (.value frames) '[' = .value (.arr [] :: frames) := rfl
      simp only [Value.render, Raw.ofValue, List.cons_append, List.foldl_cons, hopen]
      rw [renderItems_scanned (v :: rest) (List.cons_ne_nil v rest) h [] frames]
      exact .after frames _
  | .obj [], _, frames => .after frames (.obj [] .closed)
  | .obj (m :: rest), h, frames => by
      have hopen : State.feed (.value frames) '\x7b' = .name frames [] := rfl
      simp only [Value.render, Raw.ofValue, List.cons_append, List.foldl_cons, hopen]
      rw [renderMembers_scanned (m :: rest) (List.cons_ne_nil m rest) h [] frames]
      exact .after frames _

/-- The items that are still to come, behind those that are there. -/
theorem renderItems_scanned : ∀ vs : List Value, vs ≠ [] → PlainItems vs →
    ∀ (items : List Raw) (outer : List Frame),
      (Value.renderItems vs ++ [']']).foldl State.feed (.value (.arr items :: outer)) =
        .after outer (.arr (items.reverse ++ Raw.ofItems vs) .closed)
  | [], hne, _, _, _ => absurd rfl hne
  | [v], _, h, items, outer => by
      have hv := Value.render_scanned v h.1 (.arr items :: outer)
      rw [Value.renderItems, List.foldl_append, List.foldl_cons, hv.next ']' (by simp [endsValue])]
      simp [State.follow, isBlank, Raw.ofItems]
  | v :: w :: rest, _, h, items, outer => by
      have hv := Value.render_scanned v h.1 (.arr items :: outer)
      have hrest :=
        renderItems_scanned (w :: rest) (List.cons_ne_nil w rest) h.2 (.ofValue v :: items) outer
      have hcomma : State.follow (.ofValue v) ',' (.arr items :: outer) =
          .value (.arr (.ofValue v :: items) :: outer) := rfl
      have hitems : Value.renderItems (v :: w :: rest) =
          v.render ++ ',' :: Value.renderItems (w :: rest) :=
        rfl
      rw [hitems, List.append_assoc, List.foldl_append, List.cons_append, List.foldl_cons,
        hv.next ',' (by simp [endsValue]), hcomma, hrest]
      simp [Raw.ofItems]

/-- The members that are still to come, behind those that are there. -/
theorem renderMembers_scanned : ∀ ms : List (String × Value), ms ≠ [] → PlainMembers ms →
    ∀ (members : List (Text × Raw)) (outer : List Frame),
      (Value.renderMembers ms ++ ['\x7d']).foldl State.feed (.name outer members) =
        .after outer (.obj (members.reverse ++ Raw.ofMembers ms) .closed)
  | [], hne, _, _, _ => absurd rfl hne
  | [(k, v)], _, h, members, outer => by
      have hv := Value.render_scanned v h.1 (.obj members (.ofString k) :: outer)
      have hcolon : State.feed (.colon outer members (.ofString k)) ':' =
          .value (.obj members (.ofString k) :: outer) := rfl
      have hmember : Value.renderMembers [(k, v)] = quote k ++ ':' :: v.render := rfl
      rw [hmember, List.append_assoc, List.foldl_append, feed_name, List.cons_append,
        List.foldl_cons, hcolon, List.foldl_append, List.foldl_cons,
        hv.next '\x7d' (by simp [endsValue])]
      simp [State.follow, isBlank, Raw.ofMembers]
  | (k, v) :: m :: rest, _, h, members, outer => by
      have hv := Value.render_scanned v h.1 (.obj members (.ofString k) :: outer)
      have hrest := renderMembers_scanned (m :: rest) (List.cons_ne_nil m rest) h.2
        ((.ofString k, .ofValue v) :: members) outer
      have hcolon : State.feed (.colon outer members (.ofString k)) ':' =
          .value (.obj members (.ofString k) :: outer) := rfl
      have hcomma : State.follow (.ofValue v) ',' (.obj members (.ofString k) :: outer) =
          .name outer ((.ofString k, .ofValue v) :: members) := rfl
      have hmembers : Value.renderMembers ((k, v) :: m :: rest) =
          quote k ++ ':' :: (v.render ++ ',' :: Value.renderMembers (m :: rest)) := by
        simp [Value.renderMembers]
      rw [hmembers, List.append_assoc, List.foldl_append, feed_name, List.cons_append,
        List.foldl_cons, hcolon, List.append_assoc, List.foldl_append, List.cons_append,
        List.foldl_cons, hv.next ',' (by simp [endsValue]), hcomma, hrest]
      simp [Raw.ofMembers]

end

/-- **The text of a value is the document of the value.** -/
theorem scan_text {v : Value} (h : v.Plain) :
    Document.scan v.text = { root := .ofValue v, trailing := false } := by
  unfold Document.scan Document.ofChars Value.text
  rw [String.toList_ofList, (Value.render_scanned v h []).last]
  rfl

/-! ## 5. Complete values -/

/-- Digits that fit 64 bits are all kept. -/
theorem Number.packWhole_of_lt : ∀ (ds : List Nat) (s : Nat),
    ds.foldl (fun s d => s * 10 + d) s < UInt64.size →
      packWhole ds s = (ds.foldl (fun s d => s * 10 + d) s, 0)
  | [], _, _ => rfl
  | d :: rest, s, h => by
      have hgrows : ∀ (ds : List Nat) (s : Nat), s ≤ ds.foldl (fun s d => s * 10 + d) s := by
        intro ds
        induction ds with
        | nil => exact fun s => Nat.le_refl s
        | cons d ds ih =>
          intro s
          have hstep : s ≤ s * 10 + d := by omega
          exact Nat.le_trans hstep (ih (s * 10 + d))
      have hfits : s * 10 + d < UInt64.size := Nat.lt_of_le_of_lt (hgrows rest (s * 10 + d)) h
      rw [packWhole, if_pos hfits]
      exact packWhole_of_lt rest (s * 10 + d) h

theorem foldl_reverse_eq_ofDigits (ds : List Nat) :
    ds.reverse.foldl (fun s d => s * 10 + d) 0 = ofDigits ds := by
  induction ds with
  | nil => rfl
  | cons d rest ih => simp [ofDigits, ih]

/-- A number below 2^32 is its own rounding to 53 bits. -/
theorem Number.round53_of_lt {m : Nat} (h : m < UInt32.size) : round53 m = m := by
  have hlog : m.log2 + 1 - 53 = 0 := by
    by_cases hm : m = 0
    · subst m
      decide
    · have hlt : m.log2 < 32 := (Nat.log2_lt hm).mpr h
      omega
  have hmod : m % 1 = 0 := Nat.mod_one m
  unfold round53
  simp [hlog, hmod]

/-- **A position does not overflow.** -/
theorem Number.ofNat_fits (i : UInt32) : (Number.ofNat i.toNat).overflows = false := by
  have hi : i.toNat < UInt32.size := i.toNat_lt
  have hfold : (digits i.toNat).reverse.foldl (fun s d => s * 10 + d) 0 = i.toNat := by
    rw [foldl_reverse_eq_ofDigits, ofDigits_digits]
  have hpack := packWhole_of_lt (digits i.toNat).reverse 0 (by
    rw [hfold]
    exact Nat.lt_trans hi (by decide))
  rw [hfold] at hpack
  have hone : round53 (Nat.pow 10 (0 : Int).toNat) = 1 := by decide
  have hlimit : UInt32.size ≤ Nat.pow 2 1024 - Nat.pow 2 970 := by decide +kernel
  have hsmall : ¬ Nat.pow 2 1024 - Nat.pow 2 970 ≤ i.toNat * 1 := by
    rw [Nat.mul_one]
    exact Nat.not_le.mpr (Nat.lt_of_lt_of_le hi hlimit)
  have hpower : ((0 : Nat) : Int) - ((0 : Nat) : Int) + ((0 : Nat) : Int) = 0 := rfl
  unfold overflows
  simp only [ofNat, hpack, packFraction, ofDigits, List.reverse_nil, Bool.false_eq_true,
    ↓reduceIte, hpower, round53_of_lt hi, hone, decide_eq_false hsmall]
  simp

theorem Text.read_ofString (s : String) : (Text.ofString s).read = .ok s := by
  have hchars : ∀ cs : List Char, Text.chars none (cs.map .char) = .ok cs := by
    intro cs
    induction cs with
    | nil => rfl
    | cons c rest ih => simp [Text.chars, ih]
  simp [Text.read, Text.ofString, hchars]

theorem Raw.numberFault_position (i : UInt32) : numberFault (.ofNat i.toNat) none = none := by
  simp [numberFault, Number.ofNat_fits]

mutual

/-- **A scanned value is complete** if it nests no deeper than there is room, and malformed if it
does. -/
theorem Raw.settle_ofValue : ∀ (v : Value), v.Plain → ∀ room : Nat,
    Raw.settle room (.ofValue v) = if v.depth ≤ room then .ok v else .error .malformed
  | .null, _, room => by simp [Raw.settle, Raw.ofValue, Value.depth]
  | .bool b, _, room => by simp [Raw.settle, Raw.ofValue, Value.depth]
  | .num n, h, room => by
      obtain ⟨i, rfl⟩ := h
      simp [Raw.settle, Raw.ofValue, Value.depth, numberFault_position]
  | .str s, _, room => by simp [Raw.settle, Raw.ofValue, Value.depth, Text.read_ofString]
  | .arr items, h, 0 => by simp [Raw.settle, Raw.ofValue, Value.depth]
  | .arr items, h, room + 1 => by
      simp only [Raw.settle, Raw.ofValue, Value.depth, settleItems_ofItems items h,
        Nat.add_le_add_iff_right]
      by_cases hitems : Value.depthItems items ≤ room <;> simp [hitems]
  | .obj members, h, 0 => by simp [Raw.settle, Raw.ofValue, Value.depth]
  | .obj members, h, room + 1 => by
      simp only [Raw.settle, Raw.ofValue, Value.depth, settleMembers_ofMembers members h,
        Nat.add_le_add_iff_right]
      by_cases hmembers : Value.depthMembers members ≤ room <;> simp [hmembers]

theorem Raw.settleItems_ofItems : ∀ (vs : List Value), PlainItems vs → ∀ room : Nat,
    Raw.settleItems room .closed (ofItems vs) =
      if Value.depthItems vs ≤ room then .ok vs else .error .malformed
  | [], _, room => by simp [Raw.settleItems, Raw.ofItems, Value.depthItems, Ending.fault?]
  | v :: rest, h, room => by
      simp only [Raw.settleItems, Raw.ofItems, Value.depthItems, settle_ofValue v h.1,
        settleItems_ofItems rest h.2, Nat.max_le]
      by_cases hv : v.depth ≤ room <;> by_cases hrest : Value.depthItems rest ≤ room <;>
        simp [hv, hrest]

theorem Raw.settleMembers_ofMembers :
    ∀ (ms : List (String × Value)), PlainMembers ms → ∀ room : Nat,
    Raw.settleMembers room .closed (ofMembers ms) =
      if Value.depthMembers ms ≤ room then .ok ms else .error .malformed
  | [], _, room => by simp [Raw.settleMembers, Raw.ofMembers, Value.depthMembers, Ending.fault?]
  | (k, v) :: rest, h, room => by
      simp only [Raw.settleMembers, Raw.ofMembers, Value.depthMembers, Text.read_ofString,
        settle_ofValue v h.1, settleMembers_ofMembers rest h.2, Nat.max_le]
      by_cases hv : v.depth ≤ room <;> by_cases hrest : Value.depthMembers rest ≤ room <;>
        simp [hv, hrest]

end

end Lowering.Json
