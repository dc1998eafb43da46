import Lowering.Proofs.CutDocuments
import Lowering.Tree.Reader

/-!
# Reading what a cut leaves

A reader looks at a value from left to right. If it accepts the whole value, then all it meets in
front of a cut is in order, and it comes to the cut before it can miss anything. This file follows
each kind of reader to that place. What it meets there is the end of the text, or a number that the
cut has spoilt.

* `Refuses`, `Bears` -- a reading that fails at the cut, and one that fails there or not at all;
* `CutRow`, `Walks`, `Walks.refuses` -- what a cut leaves of a row, and the law for all readers of
  rows;
* `Raw.Cut.settlesAlike` -- values that are read completely;
* `Strict`, `Wary` -- readers that always fail at the cut, and readers that may take a number for
  the whole one, with a law for each kind of reader;
* `strict_record`, `strict_outerNode` -- records and nodes, in both written forms.
-/

namespace Lowering

open Json

/-! ## 1. Readings -/

section Outcomes

variable {α β : Type} {e : Edge} {x : Except Failure α}

/-- **A reading that fails at the cut**: by a fault of the grammar, which is the end of the text if
the cut leaves no number with a fault of its own. -/
def Refuses (e : Edge) (x : Except Failure α) : Prop :=
  ∃ f, x = .error (.fault f) ∧ (e.Clean → f = .truncated)

/-- A reading that fails at the cut, or does not notice it. -/
def Bears (e : Edge) (x : Except Failure α) : Prop := Refuses e x ∨ ∃ a, x = .ok a

theorem Refuses.truncated : Refuses e (.error (.fault .truncated) : Except Failure α) :=
  ⟨.truncated, rfl, fun _ => rfl⟩

theorem Refuses.edge : Refuses e (.error (.fault e.fault) : Except Failure α) :=
  ⟨e.fault, rfl, Edge.Clean.fault_eq⟩

theorem Refuses.bind (h : Refuses e x) (next : α → Except Failure β) : Refuses e (x >>= next) := by
  obtain ⟨f, rfl, hf⟩ := h
  exact ⟨f, rfl, hf⟩

/-- A reading that fails at the cut behind a step that succeeds. -/
theorem Refuses.behind {a : α} {next : α → Except Failure β} (hx : x = .ok a)
    (h : Refuses e (next a)) : Refuses e (x >>= next) := by
  rw [hx]
  exact h

theorem Refuses.map (h : Refuses e x) (g : α → β) : Refuses e (g <$> x) := by
  obtain ⟨f, rfl, hf⟩ := h
  exact ⟨f, rfl, hf⟩

theorem Bears.ok (a : α) : Bears e (.ok a) := .inr ⟨a, rfl⟩

theorem Bears.bind {next : α → Except Failure β} (h : Bears e x) (hn : ∀ a, Bears e (next a)) :
    Bears e (x >>= next) := by
  obtain h | ⟨a, rfl⟩ := h
  · exact .inl (h.bind next)
  · exact hn a

theorem Bears.map (h : Bears e x) (g : α → β) : Bears e (g <$> x) := by
  obtain h | ⟨a, rfl⟩ := h
  · exact .inl (h.map g)
  · exact .ok (g a)

/-- What does not notice the cut is followed by something that does. -/
theorem Bears.thenRefuses {next : α → Except Failure β} (h : Bears e x)
    (hn : ∀ a, Refuses e (next a)) : Refuses e (x >>= next) := by
  obtain h | ⟨a, rfl⟩ := h
  · exact h.bind next
  · exact hn a

theorem Bears.of_bind {next : α → Except Failure β} (h : Refuses e (x >>= next)) : Bears e x := by
  cases x with
  | error failure =>
    obtain ⟨f, hf, hclean⟩ := h
    cases hf
    exact .inl ⟨f, rfl, hclean⟩
  | ok a => exact .ok a

theorem ok_of_map {g : α → β} {b : β} (h : g <$> x = .ok b) : ∃ a, x = .ok a := by
  cases x with
  | error failure => cases h
  | ok a => exact ⟨a, rfl⟩

theorem lift_eq_ok {x : Except Fault α} {a : α} : Fault.lift x = .ok a ↔ x = .ok a := by
  cases x with
  | error f => exact ⟨nofun, nofun⟩
  | ok b => exact ⟨fun h => by cases h; rfl, fun h => by cases h; rfl⟩

/-- A string literal that is cut off, where the whole one has a text. -/
theorem refuses_read {pieces : List Piece} {t : Text} {s : String} (h : Text.Begins pieces t)
    (hread : t.read = .ok s) :
    Refuses e (Fault.lift (Text.read { pieces := pieces, cut := some .truncated })) := by
  rw [h.read hread]
  exact .truncated

end Outcomes

/-! ## 2. What a cut leaves of a row -/

/-- **What is left of a row**: the text ends between two of its parts or within one, and `part` says
what is left of that. -/
inductive CutRow {σ : Type} (part : Edge → σ → σ → Prop) : Edge → List σ → Ending → List σ → Prop
  | between {xs more : List σ} {comma : Bool} (h : comma = true → more ≠ []) :
      CutRow part .elsewhere xs (.cut comma .truncated) (xs ++ more)
  | within {e : Edge} {x y : σ} (xs more : List σ) (h : part e x y) :
      CutRow part e (xs ++ [x]) (.cut false e.fault) (xs ++ y :: more)

namespace CutRow

variable {σ : Type} {part : Edge → σ → σ → Prop} {e : Edge} {xs ys : List σ} {y : σ}
  {ending : Ending}

/-- A row that is cut off ends with a fault. -/
theorem cut (h : CutRow part e xs ending ys) :
    ∃ comma f, ending = .cut comma f ∧ (e.Clean → f = .truncated) := by
  cases h with
  | between h => exact ⟨_, _, rfl, fun _ => rfl⟩
  | within xs more h => exact ⟨_, _, rfl, Edge.Clean.fault_eq⟩

theorem refuses_check (h : CutRow part e xs ending ys) : Refuses e (Fault.check ending.fault?) := by
  obtain ⟨comma, f, rfl, hclean⟩ := h.cut
  exact ⟨f, rfl, hclean⟩

theorem mono {part' : Edge → σ → σ → Prop} (h : CutRow part e xs ending ys)
    (hpart : ∀ x y, part e x y → part' e x y) : CutRow part' e xs ending ys := by
  cases h with
  | between h => exact .between h
  | within xs more h => exact .within xs more (hpart _ _ h)

/-- The text ends in front of the first part, within it or behind it. -/
theorem uncons (h : CutRow part e xs ending (y :: ys)) :
    xs = [] ∨ (∃ x, xs = [x] ∧ part e x y) ∨ ∃ rest, xs = y :: rest ∧
      CutRow part e rest ending ys := by
  generalize hrow : y :: ys = row at h
  cases h with
  | @between xs more comma h =>
    cases xs with
    | nil => exact .inl rfl
    | cons x rest =>
      cases hrow
      exact .inr (.inr ⟨rest, rfl, .between h⟩)
  | @within e x z xs more h =>
    cases xs with
    | nil =>
      cases hrow
      exact .inr (.inl ⟨x, rfl, h⟩)
    | cons first rest =>
      cases hrow
      exact .inr (.inr ⟨rest ++ [x], rfl, .within rest more h⟩)

/-- Behind the last part there is no comma. -/
theorem of_nil (h : CutRow part e xs ending []) : xs = [] ∧ ending = .cut false .truncated := by
  generalize hrow : [] = row at h
  cases h with
  | @between xs more comma h =>
    obtain ⟨rfl, rfl⟩ := List.append_eq_nil_iff.mp hrow.symm
    cases comma with
    | false => exact ⟨rfl, rfl⟩
    | true => exact absurd rfl (h rfl)
  | @within e x z xs more h => exact absurd hrow.symm (by simp)

end CutRow

/-- **What is left of a member**: its name or its value is cut off, and `part` says what is left of
a value. -/
def CutMember (part : Edge → Raw → Raw → Prop) (e : Edge) (m m' : Text × Raw) : Prop :=
  (∀ s, m'.1.read = .ok s → Refuses e (Fault.lift m.1.read)) ∨ m.1 = m'.1 ∧ part e m.2 m'.2

/-! ## 3. Readers of rows -/

section Rows

variable {S σ α β : Type}

/-- **A reader that walks along a row.** At each part it takes a step, which may depend on what it
has found before; the step also says how the result of the rest is completed. -/
def Walks (step : S → σ → Except Failure (S × (β → β))) (run : S → List σ → Except Failure β) :
    Prop :=
  ∀ s x rest, run s (x :: rest) = step s x >>= fun p => p.2 <$> run p.1 rest

variable {step : S → σ → Except Failure (S × (β → β))} {run run' : S → List σ → Except Failure β}

/-- Parts that one reader has read are passed by every reader that takes the same steps. -/
theorem Walks.pass (hw : Walks step run) (hw' : Walks step run') {xs ys : List σ} {s : S} {b : β}
    (h : run s (xs ++ ys) = .ok b) :
    ∃ s' b', run s' ys = .ok b' ∧ ∀ e zs, Refuses e (run' s' zs) →
      Refuses e (run' s (xs ++ zs)) := by
  induction xs generalizing s b with
  | nil => exact ⟨s, b, h, fun _ _ hr => hr⟩
  | cons x xs ih =>
    rw [List.cons_append, hw, bind_eq_ok] at h
    obtain ⟨p, hp, h⟩ := h
    obtain ⟨b', hb⟩ := ok_of_map h
    obtain ⟨s', b'', hrest, hpass⟩ := ih hb
    refine ⟨s', b'', hrest, fun e zs hr => ?_⟩
    rw [List.cons_append, hw', hp]
    exact (hpass e zs hr).map p.2

variable {part : Edge → σ → σ → Prop} {e : Edge} {xs ys : List σ} {ending : Ending} {s : S} {b : β}

/-- **The law of rows.** If the whole row is read, the reading of what is left fails at the cut,
provided that each step bears what is left of a part and that the end of the row is refused. Where a
comma stands in front of the end, the whole row has one part more. -/
theorem Walks.refuses (hw : Walks step run) (hw' : Walks step run')
    (hrow : CutRow part e xs ending ys) (h : run s ys = .ok b)
    (hstep : ∀ s x y p, part e x y → step s y = .ok p → Bears e (step s x))
    (hlast : ∀ s, (∀ f, ending = .cut true f → ∃ y more b, run s (y :: more) = .ok b) →
      Refuses e (run' s [])) :
    Refuses e (run' s xs) := by
  cases hrow with
  | @between xs more comma hmore =>
    obtain ⟨s', b', hb, hpass⟩ := hw.pass hw' h
    rw [← List.append_nil xs]
    refine hpass _ [] (hlast s' fun f hf => ?_)
    cases hf
    obtain ⟨y, rest, rfl⟩ := List.exists_cons_of_ne_nil (hmore rfl)
    exact ⟨y, rest, b', hb⟩
  | @within e x y xs more hpart =>
    obtain ⟨s', b', hb, hpass⟩ := hw.pass hw' h
    refine hpass _ [x] ?_
    rw [hw, bind_eq_ok] at hb
    obtain ⟨p, hp, -⟩ := hb
    rw [hw']
    refine (hstep s' x y p hpart hp).thenRefuses fun p' => ?_
    exact (hlast p'.1 nofun).map p'.2

/-- A reader that looks behind the row takes the same steps. -/
theorem Walks.thenFail (hw : Walks step run) (failure : Failure) :
    Walks step fun s xs => run s xs >>= fun _ => .error failure := by
  intro s x rest
  simp only [hw s x rest]
  cases step s x with
  | error _ => rfl
  | ok p =>
    show (p.2 <$> run p.1 rest >>= fun _ => .error failure) =
      p.2 <$> (run p.1 rest >>= fun _ => .error failure)
    cases run p.1 rest <;> rfl

/-- **A reader that leaves the end of the row to others** bears the cut. -/
theorem Walks.bears (hw : Walks step run) (hrow : CutRow part e xs ending ys) (h : run s ys = .ok b)
    (hstep : ∀ s x y p, part e x y → step s y = .ok p → Bears e (step s x))
    (hlast : ∀ s, ∃ b, run s [] = .ok b) : Bears e (run s xs) := by
  refine Bears.of_bind (hw.refuses (hw.thenFail (.fault .truncated)) hrow h hstep fun s _ => ?_)
  obtain ⟨b, hb⟩ := hlast s
  exact .behind hb .truncated

/-- The step of a reader that reads each part by itself. -/
def itemStep (r : σ → Except Failure α) (_ : Unit) (x : σ) :
    Except Failure (Unit × (List α → List α)) :=
  (fun a => ((), (a :: ·))) <$> r x

/-- **Rows of parts that are read by themselves.** -/
theorem Walks.refuses_items {r : σ → Except Failure α}
    {run run' : List σ → Except Failure (List α)} {as : List α}
    (hw : Walks (itemStep r) fun _ => run) (hw' : Walks (itemStep r) fun _ => run')
    (hrow : CutRow part e xs ending ys) (h : run ys = .ok as)
    (hpart : ∀ x y a, part e x y → r y = .ok a → Bears e (r x)) (hlast : Refuses e (run' [])) :
    Refuses e (run' xs) := by
  refine hw.refuses hw' hrow (s := ()) h (fun _ x y p hxy hy => ?_) fun _ _ => hlast
  obtain ⟨a, ha⟩ := ok_of_map hy
  exact (hpart x y a hxy ha).map _

end Rows

/-! ## 4. Values that are read completely -/

section Settling

variable {e : Edge} {vs ws : List Raw} {ms ms' : List (Text × Raw)} {ending : Ending} {room : Nat}

/-- What is left of a value, read completely, fails at the cut or does not notice it. -/
def SettlesAlike (e : Edge) (v w : Raw) : Prop :=
  ∀ room x, Raw.settle room w = .ok x → Bears e (Fault.lift (Raw.settle room v))

/-- A member that is read completely. -/
def settleMember (room : Nat) (m : Text × Raw) : Except Failure (String × Value) := do
  let name ← Fault.lift m.1.read
  let value ← Fault.lift (Raw.settle room m.2)
  return (name, value)

theorem settleItems_walks (room : Nat) (ending : Ending) :
    Walks (itemStep fun v => Fault.lift (Raw.settle room v))
      fun _ vs => Fault.lift (Raw.settleItems room ending vs) := by
  intro s v rest
  simp only [Raw.settleItems, itemStep]
  cases Raw.settle room v with
  | error f => rfl
  | ok x => cases Raw.settleItems room ending rest <;> rfl

theorem settleMembers_walks (room : Nat) (ending : Ending) :
    Walks (itemStep (settleMember room)) fun _ ms =>
      Fault.lift (Raw.settleMembers room ending ms) := by
  intro s m rest
  simp only [Raw.settleMembers, itemStep, settleMember]
  cases m.1.read with
  | error f => rfl
  | ok k =>
    cases Raw.settle room m.2 with
    | error f => rfl
    | ok x => cases Raw.settleMembers room ending rest <;> rfl

theorem settleItems_refuses {xs : List Value} (hrow : CutRow SettlesAlike e vs ending ws)
    (h : Raw.settleItems room .closed ws = .ok xs) :
    Refuses e (Fault.lift (Raw.settleItems room ending vs)) := by
  refine (settleItems_walks room .closed).refuses_items (settleItems_walks room ending) hrow
    (lift_eq_ok.mpr h) (fun v w x hvw hx => hvw room x (lift_eq_ok.mp hx)) ?_
  obtain ⟨comma, f, rfl, hclean⟩ := hrow.cut
  exact ⟨f, rfl, hclean⟩

theorem settleMember_bears {m m' : Text × Raw} {x : String × Value}
    (hm : CutMember SettlesAlike e m m') (h : settleMember room m' = .ok x) :
    Bears e (settleMember room m) := by
  obtain ⟨k, hk, h⟩ := bind_eq_ok.mp h
  obtain ⟨x, hx, -⟩ := bind_eq_ok.mp h
  obtain hname | ⟨hname, hvalue⟩ := hm
  · exact .inl ((hname k (lift_eq_ok.mp hk)).bind _)
  · rw [settleMember, hname, hk]
    exact (hvalue room x (lift_eq_ok.mp hx)).bind fun _ => .ok _

theorem settleMembers_refuses {xs : List (String × Value)}
    (hrow : CutRow (CutMember SettlesAlike) e ms ending ms')
    (h : Raw.settleMembers room .closed ms' = .ok xs) :
    Refuses e (Fault.lift (Raw.settleMembers room ending ms)) := by
  refine (settleMembers_walks room .closed).refuses_items (settleMembers_walks room ending) hrow
    (lift_eq_ok.mpr h) (fun m m' x hm hx => settleMember_bears hm hx) ?_
  obtain ⟨comma, f, rfl, hclean⟩ := hrow.cut
  exact ⟨f, rfl, hclean⟩

theorem lift_settle_arr : Fault.lift (Raw.settle (room + 1) (.arr vs ending)) =
    .arr <$> Fault.lift (Raw.settleItems room ending vs) := by
  rw [Raw.settle]
  cases Raw.settleItems room ending vs <;> rfl

theorem lift_settle_obj : Fault.lift (Raw.settle (room + 1) (.obj ms ending)) =
    .obj <$> Fault.lift (Raw.settleMembers room ending ms) := by
  rw [Raw.settle]
  cases Raw.settleMembers room ending ms <;> rfl

theorem SettlesAlike.arr (hrow : CutRow SettlesAlike e vs ending ws) :
    SettlesAlike e (.arr vs ending) (.arr ws .closed) := by
  intro room x hx
  cases room with
  | zero => cases hx
  | succ room =>
    rw [← lift_eq_ok, lift_settle_arr] at hx
    obtain ⟨xs, hxs⟩ := ok_of_map hx
    rw [lift_settle_arr]
    exact .inl ((settleItems_refuses hrow (lift_eq_ok.mp hxs)).map _)

theorem SettlesAlike.obj (hrow : CutRow (CutMember SettlesAlike) e ms ending ms') :
    SettlesAlike e (.obj ms ending) (.obj ms' .closed) := by
  intro room x hx
  cases room with
  | zero => cases hx
  | succ room =>
    rw [← lift_eq_ok, lift_settle_obj] at hx
    obtain ⟨xs, hxs⟩ := ok_of_map hx
    rw [lift_settle_obj]
    exact .inl ((settleMembers_refuses hrow (lift_eq_ok.mp hxs)).map _)

/-- What is left of a number in range is in range, or the cut is not clean. -/
theorem number_fits_or {n m : Number} (hm : Raw.numberFault m none = none) :
    Raw.numberFault n none = none ∨
      Raw.numberFault n none = some .malformed ∧ ¬ (Edge.number n m).Clean := by
  have hfits : m.overflows = false := by simpa [Raw.numberFault] using hm
  by_cases hn : n.overflows = true
  · refine .inr ⟨if_pos hn, fun hclean => ?_⟩
    rw [hclean.2 hn] at hfits
    cases hfits
  · exact .inl (if_neg hn)

/-- **Values that are read completely.** Only a number may be taken for the whole one. -/
theorem Json.Raw.Cut.settlesAlike {v w : Raw} (h : Raw.Cut e v w) : SettlesAlike e v w := by
  induction h with
  | before w => exact fun _ _ _ => .inl .truncated
  | null => exact fun _ _ _ => .inl .truncated
  | bool b => exact fun _ _ _ => .inl .truncated
  | @number n m h hn hc =>
    intro room x hx
    have hm : Raw.numberFault m none = none := by
      rw [Raw.settle] at hx
      split at hx
      · cases hx
      · assumption
    rw [Raw.settle]
    obtain hfits | ⟨hover, hclean⟩ := number_fits_or (n := n) hm
    · rw [hfits]
      exact .ok _
    · rw [hover]
      exact .inl ⟨.malformed, rfl, fun h => absurd h hclean⟩
  | half h hc => exact fun _ _ _ => .inl .truncated
  | str h =>
    intro room x hx
    rw [Raw.settle] at hx ⊢
    split at hx
    · rename_i s hs
      rw [h.read hs]
      exact .inl .truncated
    · cases hx
  | arr items more comma h => exact .arr (.between h)
  | item items more h ih => exact .arr (.within items more ih)
  | obj members more comma h => exact .obj (.between h)
  | name members more w h => exact .obj (.within members more (.inl fun s hs => refuses_read h hs))
  | member members more key h ih => exact .obj (.within members more (.inr ⟨rfl, ih⟩))

end Settling

/-! ## 5. What a cut leaves of a value -/

namespace Json.Raw.Cut

variable {e : Edge} {v : Raw} {ws : List Raw} {ms : List (Text × Raw)} {ending : Ending}

theorem of_arr (h : Raw.Cut e v (.arr ws ending)) : v = .broken false .truncated ∨
    ending = .closed ∧ ∃ vs cut, v = .arr vs cut ∧ CutRow Raw.Cut e vs cut ws := by
  cases h with
  | before => exact .inl rfl
  | arr items more comma h => exact .inr ⟨rfl, _, _, rfl, .between h⟩
  | item items more h => exact .inr ⟨rfl, _, _, rfl, .within items more h⟩

theorem of_obj (h : Raw.Cut e v (.obj ms ending)) : v = .broken false .truncated ∨
    ending = .closed ∧ ∃ ms' cut, v = .obj ms' cut ∧ CutRow (CutMember Raw.Cut) e ms' cut ms := by
  cases h with
  | before => exact .inl rfl
  | obj members more comma h => exact .inr ⟨rfl, _, _, rfl, .between h⟩
  | name members more w h =>
    exact .inr ⟨rfl, _, _, rfl, .within members more (.inl fun s hs => refuses_read h hs)⟩
  | member members more key h => exact .inr ⟨rfl, _, _, rfl, .within members more (.inr ⟨rfl, h⟩)⟩

theorem of_null (h : Raw.Cut e v .null) : ∃ begun, v = .broken begun .truncated := by
  cases h with
  | before => exact ⟨false, rfl⟩
  | null => exact ⟨true, rfl⟩

/-- **Values that are skipped.** A number that may not end where it is cut off is malformed
there. -/
theorem bears_skip {w : Raw} (h : Raw.Cut e v w) : Bears e (Fault.check v.skip) := by
  cases h with
  | before => exact .inl .truncated
  | null => exact .inl .truncated
  | bool b => exact .inl .truncated
  | number h hn hc => exact .ok ()
  | half h hc =>
    refine .inl ⟨.malformed, rfl, fun hclean => ?_⟩
    rw [hclean.1] at hc
    cases hc
  | str h => exact .inl .truncated
  | arr items more comma h => exact .inl .truncated
  | item items more h => exact .inl .edge
  | obj members more comma h => exact .inl .truncated
  | name members more w h => exact .inl .truncated
  | member members more key h => exact .inl .edge

end Json.Raw.Cut

/-! ## 6. Readers -/

section Readers

variable {α β : Type}

/-- **A reader that bears a cut**: of a value that it accepts, what is left is refused at the cut,
or the cut is not noticed. -/
def Wary (r : Raw → Except Failure α) : Prop :=
  ∀ e v w a, Raw.Cut e v w → r w = .ok a → Bears e (r v)

/-- **A reader that notices a cut**: of a value that it accepts, what is left is refused at the
cut. -/
def Strict (r : Raw → Except Failure α) : Prop :=
  ∀ e v w a, Raw.Cut e v w → r w = .ok a → Refuses e (r v)

variable {r : Reader α} {room : Nat}

theorem Strict.wary {r : Raw → Except Failure α} (h : Strict r) : Wary r :=
  fun e v w a hcut hw => .inl (h e v w a hcut hw)

theorem Strict.andThen (h : Strict (r room)) (f : α → Except Failure β) :
    Strict (r.andThen f room) := by
  intro e v w b hcut hw
  obtain ⟨a, ha, -⟩ := bind_eq_ok.mp hw
  exact (h e v w a hcut ha).bind f

theorem Wary.andThen {f : α → Except Failure β} (h : Wary (r room)) (hf : ∀ a, ∃ b, f a = .ok b) :
    Wary (r.andThen f room) := by
  intro e v w b hcut hw
  obtain ⟨a, ha, -⟩ := bind_eq_ok.mp hw
  exact (h e v w a hcut ha).bind fun a => .inr (hf a)

theorem strict_text (room : Nat) : Strict (Reader.text room) := by
  intro e v w a h hw
  cases h with
  | before => exact .truncated
  | str h => exact refuses_read h (lift_eq_ok.mp hw)
  | _ => cases hw

theorem strict_flag (room : Nat) : Strict (Reader.flag room) := by
  intro e v w a h hw
  cases h with
  | before => exact .truncated
  | bool b => exact .truncated
  | _ => cases hw

/-- What is left of a position is a position, because it is no larger. -/
theorem wary_word32 (room : Nat) : Wary (Reader.word32 room) := by
  intro e v w a h hw
  cases h with
  | before => exact .inl .truncated
  | @number n m h hn hc =>
    obtain ⟨hm, k, hk, hlt⟩ :
        Raw.numberFault m none = none ∧ ∃ k, m.natural? = some k ∧ k < UInt32.size := by
      simp only [Reader.word32] at hw
      repeat' split at hw
      · cases hw
      · exact ⟨‹_›, _, ‹_›, ‹_›⟩
      · cases hw
      · cases hw
    obtain ⟨j, hj, hnatural⟩ := h.natural hn hk
    simp only [Reader.word32, hnatural]
    obtain hfits | ⟨hover, hclean⟩ := number_fits_or (n := n) hm
    · rw [hfits]
      exact .inr ⟨_, if_pos (Nat.lt_of_le_of_lt hj hlt)⟩
    · rw [hover]
      exact .inl ⟨.malformed, rfl, fun h => absurd h hclean⟩
  | half h hc => exact .inl .truncated
  | _ => cases hw

/-- What is left of a value is never null, so that it is read as the value would be. -/
theorem wary_option (h : Wary (r room))
    (hbroken : ∀ begun, r room (.broken begun .truncated) = .error (.fault .truncated)) :
    Wary (Reader.option r room) := by
  intro e v w a hcut hw
  have hv : Reader.option r room v = some <$> r room v := by cases hcut <;> rfl
  rw [hv]
  cases w with
  | null =>
    obtain ⟨begun, rfl⟩ := hcut.of_null
    rw [hbroken]
    exact .inl .truncated
  | _ =>
    obtain ⟨b, hb⟩ := ok_of_map hw
    exact (h e v _ b hcut hb).map some

theorem items_walks (r : Raw → Except Failure α) (ending : Ending) :
    Walks (itemStep r) fun _ vs => Reader.items r ending vs := by
  intro s v rest
  simp only [Reader.items, itemStep]
  cases r v with
  | error f => rfl
  | ok a => cases Reader.items r ending rest <;> rfl

theorem strict_list (h : ∀ room, Wary (r room)) (room : Nat) : Strict (Reader.list r room) := by
  intro e v w as hcut hw
  cases w with
  | arr ws ending =>
    obtain rfl | ⟨rfl, vs, cut, rfl, hrow⟩ := hcut.of_arr
    · exact .truncated
    · cases room with
      | zero => cases hw
      | succ room =>
        exact (items_walks (r room) .closed).refuses_items (items_walks (r room) cut) hrow hw
          (h room e) (hrow.refuses_check.bind _)
  | _ => cases hw

/-- A choice that is written as an object has one member, which holds nothing. -/
theorem choice_of_obj {choices : List (String × α)} {ms : List (Text × Raw)}
    {ending : Ending} {a : α} (h : Reader.choice choices room (.obj ms ending) = .ok a) :
    ∃ room' key name, room = room' + 1 ∧ ms = [(key, .null)] ∧ key.read = .ok name ∧
      Reader.choose choices name = .ok a := by
  cases room with
  | zero => cases h
  | succ room =>
    cases ms with
    | nil => cases ending <;> cases h
    | cons m rest =>
      obtain ⟨name, hname, h⟩ := bind_eq_ok.mp h
      obtain ⟨b, hb, h⟩ := bind_eq_ok.mp h
      obtain ⟨key, payload⟩ := m
      cases payload with
      | null =>
        cases rest with
        | nil =>
          obtain ⟨-, -, h⟩ := bind_eq_ok.mp h
          cases h
          exact ⟨room, key, name, rfl, rfl, lift_eq_ok.mp hname, hb⟩
        | cons m' rest => cases h
      | _ => cases h

theorem strict_choice (choices : List (String × α)) (room : Nat) :
    Strict (Reader.choice choices room) := by
  intro e v w a hcut hw
  cases w with
  | str t =>
    obtain ⟨s, hs, -⟩ := bind_eq_ok.mp hw
    cases hcut with
    | before => exact .truncated
    | str h => exact (refuses_read h (lift_eq_ok.mp hs)).bind _
  | obj ms ending =>
    obtain rfl | ⟨rfl, ms', cut, rfl, hrow⟩ := hcut.of_obj
    · exact .truncated
    · obtain ⟨room, key, name, rfl, rfl, hkey, hname⟩ := choice_of_obj hw
      -- the text ends in front of the one member, within it or in front of the bracket
      obtain rfl | ⟨⟨key', payload⟩, rfl, hm⟩ | ⟨rest, rfl, hrest⟩ := hrow.uncons
      · obtain ⟨comma, f, rfl, hclean⟩ := hrow.cut
        exact ⟨f, rfl, hclean⟩
      · obtain hm | ⟨rfl, hvalue⟩ := hm
        · exact (hm name hkey).bind _
        · obtain ⟨begun, rfl⟩ := hvalue.of_null
          exact .behind (lift_eq_ok.mpr hkey) (.behind hname .truncated)
      · obtain ⟨rfl, rfl⟩ := hrest.of_nil
        exact .behind (lift_eq_ok.mpr hkey) (.behind hname .truncated)
  | broken begun f => cases begun <;> cases hw
  | _ => cases hw

end Readers

/-! ## 7. Records -/

section Records

variable {π : Type}

/-- What is done with the value of a member, which may belong to a field. -/
def memberStep (name : String) (found : List (String × π)) (v : Raw) :
    Option (RecordField Raw π) → Except Failure
      (List (String × π) × (List (String × π) → List (String × π)))
  | none => do
    Fault.check v.skip
    return (found, id)
  | some field =>
    if (found.lookup name).isSome then .error (.mismatch (.duplicate name))
    else do
      let part ← field.read v
      return ((name, part) :: found, id)

/-- The step of a record that is written as an object. -/
def gatherStep (fields : List (RecordField Raw π)) (found : List (String × π)) (m : Text × Raw) :
    Except Failure (List (String × π) × (List (String × π) → List (String × π))) := do
  let name ← Fault.lift m.1.read
  memberStep name found m.2 (fields.find? (·.name == name))

theorem gather_walks (fields : List (RecordField Raw π)) :
    Walks (gatherStep fields) fun found ms =>
      gather (fun k => Fault.lift k.read) (fun v => Fault.check v.skip) fields ms found := by
  rintro found ⟨k, v⟩ rest
  simp only [gatherStep, gather, bind_assoc]
  refine bind_congr fun name => ?_
  cases fields.find? (·.name == name) with
  | none =>
    rw [memberStep]
    cases Fault.check v.skip with
    | error f => rfl
    | ok _ => exact (id_map _).symm
  | some field =>
    rw [memberStep]
    by_cases hfound : (found.lookup name).isSome = true
    · simp only [if_pos hfound]
      rfl
    · simp only [if_neg hfound]
      cases field.read v with
      | error f => rfl
      | ok part => exact (id_map _).symm

theorem gatherStep_bears {fields : List (RecordField Raw π)}
    (h : ∀ field ∈ fields, Wary field.read) {e : Edge} {found : List (String × π)}
    {m m' : Text × Raw} {p : List (String × π) × (List (String × π) → List (String × π))}
    (hm : CutMember Raw.Cut e m m') (hp : gatherStep fields found m' = .ok p) :
    Bears e (gatherStep fields found m) := by
  obtain ⟨name, hname, hp⟩ := bind_eq_ok.mp hp
  obtain hm | ⟨hm, hvalue⟩ := hm
  · exact .inl ((hm name (lift_eq_ok.mp hname)).bind _)
  · rw [gatherStep, hm, hname]
    show Bears e (memberStep name found m.2 _)
    cases hfind : fields.find? (·.name == name) with
    | none => exact hvalue.bears_skip.bind fun _ => .ok _
    | some field =>
      rw [hfind, memberStep] at hp
      rw [memberStep]
      split at hp
      · cases hp
      · rename_i hfound
        obtain ⟨part, hpart, -⟩ := bind_eq_ok.mp hp
        rw [if_neg hfound]
        exact (h field (List.mem_of_find?_eq_some hfind) e _ _ part hvalue hpart).bind fun _ =>
          .ok _

/-- Fields whose readers bear a cut. -/
def WaryFields (π : Type) : Type :=
  { fields : List (RecordField Raw π) // ∀ field ∈ fields, Wary field.read }

/-- The step of a record that is written as an array: the next field reads the item. -/
def inOrderStep : WaryFields π → Raw → Except Failure (WaryFields π × (List π → List π))
  | ⟨[], _⟩, _ => .error (.fault .malformed)
  | ⟨field :: fields, h⟩, v => do
    let part ← field.read v
    return (⟨fields, fun f hf => h f (List.mem_cons_of_mem field hf)⟩, (part :: ·))

theorem inOrder_walks (ending : Ending) : Walks inOrderStep fun (fields : WaryFields π) vs =>
    inOrder (Fault.check ending.fault?) (Reader.behind ending) fields.val vs := by
  rintro ⟨fields, h⟩ v rest
  cases fields with
  | nil => rfl
  | cons field fields =>
    simp only [inOrderStep, inOrder, bind_assoc]
    refine bind_congr fun part => ?_
    rfl

theorem inOrderStep_bears {e : Edge} {fields : WaryFields π} {v w : Raw}
    {p : WaryFields π × (List π → List π)} (h : Raw.Cut e v w) (hp : inOrderStep fields w = .ok p) :
    Bears e (inOrderStep fields v) := by
  obtain ⟨fields, hfields⟩ := fields
  cases fields with
  | nil => cases hp
  | cons field fields =>
    obtain ⟨part, hpart, -⟩ := bind_eq_ok.mp hp
    exact (hfields field List.mem_cons_self e v w part h hpart).bind fun _ => .ok _

/-- **The law of records.** Members that are absent are asked for only behind the closing bracket,
so that a record is refused at the cut before it can miss any. -/
theorem strict_record {fields : Nat → List (RecordField Raw π)}
    (h : ∀ room, ∀ field ∈ fields room, Wary field.read) (room : Nat) :
    Strict (Reader.record fields room) := by
  intro e v w parts hcut hw
  cases w with
  | obj ms ending =>
    obtain rfl | ⟨rfl, ms', cut, rfl, hrow⟩ := hcut.of_obj
    · exact .truncated
    · cases room with
      | zero => cases hw
      | succ room =>
        obtain ⟨found, hfound, -⟩ := bind_eq_ok.mp hw
        have hgather := (gather_walks (fields room)).bears hrow hfound
          (fun s m m' p hm hp => gatherStep_bears (h room) hm hp) fun s => ⟨s, rfl⟩
        exact hgather.thenRefuses fun _ => hrow.refuses_check.bind _
  | arr ws ending =>
    obtain rfl | ⟨rfl, vs, cut, rfl, hrow⟩ := hcut.of_arr
    · exact .truncated
    · cases room with
      | zero => cases hw
      | succ room =>
        refine (inOrder_walks .closed).refuses (inOrder_walks cut) hrow
          (s := (⟨fields room, h room⟩ : WaryFields π)) hw
            (fun s v w p hvw hp => inOrderStep_bears hvw hp) ?_
        rintro ⟨rest, hrest⟩ hmore
        cases rest with
        | nil =>
          -- behind the last field a comma is malformed, but the whole record would not be read with
          -- it
          obtain ⟨comma, f, rfl, hclean⟩ := hrow.cut
          cases comma with
          | false => exact ⟨f, rfl, hclean⟩
          | true =>
            obtain ⟨y, more, b, hb⟩ := hmore f rfl
            cases hb
        | cons field rest => exact hrow.refuses_check.bind _
  | _ => cases hw

end Records

/-! ## 8. Nodes -/

section Nodes

variable {variants : List Variant} {room : Nat} {e : Edge}

/-- The step of a node that is written as an object. -/
def tagStep (variants : List Variant) (room : Nat) (found : Option Variant) (m : Text × Raw) :
    Except Failure (Option Variant ×
      (Option Variant × List (String × Value) → Option Variant × List (String × Value))) := do
  let name ← Fault.lift m.1.read
  if name = "kind" then
    if found.isSome then .error (.mismatch (.duplicate "kind"))
    else
      let t ← outerTag variants m.2
      return (some t, id)
  else
    let v ← Fault.lift (m.2.settle room)
    return (found, fun p => (p.1, (name, v) :: p.2))

theorem splitTag_walks (variants : List Variant) (room : Nat) :
    Walks (tagStep variants room) fun found ms =>
      splitTag (fun k => Fault.lift k.read) (outerTag variants)
        (fun v => Fault.lift (v.settle room))
        ms found := by
  rintro found ⟨k, v⟩ rest
  simp only [tagStep, splitTag, bind_assoc]
  refine bind_congr fun name => ?_
  by_cases hname : name = "kind"
  · simp only [if_pos hname]
    by_cases hfound : found.isSome = true
    · simp only [if_pos hfound]
      rfl
    · simp only [if_neg hfound]
      cases outerTag variants v with
      | error f => rfl
      | ok t => exact (id_map _).symm
  · simp only [if_neg hname]
    cases Fault.lift (v.settle room) <;> rfl

theorem strict_outerTag (variants : List Variant) : Strict (outerTag variants) := by
  intro e v w a h hw
  cases h with
  | before => exact .truncated
  | str h =>
    obtain ⟨s, hs, -⟩ := bind_eq_ok.mp hw
    exact (refuses_read h (lift_eq_ok.mp hs)).bind _
  | _ => cases hw

theorem tagStep_bears {found : Option Variant} {m m' : Text × Raw}
    {p : Option Variant ×
      (Option Variant × List (String × Value) → Option Variant × List (String × Value))}
    (hm : CutMember Raw.Cut e m m') (hp : tagStep variants room found m' = .ok p) :
    Bears e (tagStep variants room found m) := by
  obtain ⟨name, hname, hp⟩ := bind_eq_ok.mp hp
  obtain hm | ⟨hm, hvalue⟩ := hm
  · exact .inl ((hm name (lift_eq_ok.mp hname)).bind _)
  · rw [tagStep, hm, hname]
    show Bears e (if name = "kind" then _ else _)
    split at hp
    · rename_i hkind
      rw [if_pos hkind]
      split at hp
      · cases hp
      · rename_i hfound
        obtain ⟨t, ht, -⟩ := bind_eq_ok.mp hp
        rw [if_neg hfound]
        exact .inl ((strict_outerTag variants e _ _ t hvalue ht).bind _)
    · rename_i hkind
      obtain ⟨x, hx, -⟩ := bind_eq_ok.mp hp
      rw [if_neg hkind]
      exact (hvalue.settlesAlike room x (lift_eq_ok.mp hx)).bind fun _ => .ok _

/-- **The law of nodes.** The nodes inside are looked at only behind the closing bracket of the
outermost one, so that of all shapes only its own tag is seen before the cut. -/
theorem strict_outerNode (variants : List Variant) (room : Nat) :
    Strict (outerNode variants room) := by
  intro e v w part hcut hw
  cases w with
  | obj ms ending =>
    obtain rfl | ⟨rfl, ms', cut, rfl, hrow⟩ := hcut.of_obj
    · exact .truncated
    · cases room with
      | zero => cases hw
      | succ room =>
        obtain ⟨split, hsplit, -⟩ := bind_eq_ok.mp hw
        have htag := (splitTag_walks variants room).bears hrow hsplit
          (fun s m m' p hm hp => tagStep_bears hm hp) fun s => ⟨(s, []), rfl⟩
        exact htag.thenRefuses fun _ => hrow.refuses_check.bind _
  | arr ws ending =>
    obtain rfl | ⟨rfl, vs, cut, rfl, hrow⟩ := hcut.of_arr
    · exact .truncated
    · cases room with
      | zero => cases hw
      | succ room =>
        cases ws with
        | nil => cases hw
        | cons tag items =>
          obtain ⟨variant, hvariant, hw⟩ := bind_eq_ok.mp hw
          obtain ⟨xs, hxs, -⟩ := bind_eq_ok.mp hw
          obtain rfl | ⟨x, rfl, hx⟩ | ⟨rest, rfl, hrest⟩ := hrow.uncons
          · exact hrow.refuses_check.bind _
          · exact (strict_outerTag variants e x tag variant hx hvariant).bind _
          · refine .behind hvariant (.bind ?_ _)
            exact settleItems_refuses (hrest.mono fun x y => Raw.Cut.settlesAlike)
              (lift_eq_ok.mp hxs)
  | _ => cases hw

theorem strict_outermost {α : Type} (variants : List Variant)
    (get? : Part → Option α) (room : Nat) : Strict (outermost variants get? room) :=
  (strict_outerNode variants room).andThen _

end Nodes

end Lowering
