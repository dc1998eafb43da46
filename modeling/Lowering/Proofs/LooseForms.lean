import Lowering.Program.Reader
import Lowering.Proofs.WrittenText
import Mathlib.Data.List.Nodup

/-!
# Loose forms of written values

A document may be written more loosely than a writer does it: members of an object may stand in any
order, and a member may be left out if its absence means the value that it has. This file has the
loose forms of a value, and the law of reading a record from one of them: the fields find their
members wherever they stand, and what is absent has its default. A reader has room for so many
brackets, so each law says both what is read from a value that fits and what comes out for one that
nests too deep.

* `defaultMembers`, `Loose` -- what may be left out, and the loose forms of a value;
* `within` -- a result for a value that fits, and a fault for one that does not;
* `Filled`, `gather_within`, `supply_filled` -- the fields of a record with what they find;
* `Reader.Reads` -- a reader gives a result on all loose forms of a value, with a law for each kind
  of reader;
* `recordOf_reads` -- the law of records.
-/

namespace Lowering

open Json

/-! ## 1. Loose forms -/

/-- **The members that may be left out**, each with the value that its absence stands for. The names
alone tell which member is meant: where a member with one of these names may not be left out, such
as the owner of a constructor or the body of a loop, it never has the value in this list. -/
def defaultMembers : List (String × Value) :=
  [("types", .arr []), ("methods", .arr []), ("constructors", .arr []), ("properties", .arr []),
    ("attributes", .arr []), ("is_static", .bool false), ("fields", .arr []), ("owner", .null),
    ("is_native", .bool false), ("params", .arr []), ("return_type", .str "void"), ("body", .null),
    ("initializer", .null), ("receiver", .null), ("args", .arr []), ("initializers", .arr []),
    ("constructor", .null)]

/-- The default of a name is found in the list. -/
theorem mem_defaults {k : String} {v : Value} (h : defaultMembers.lookup k = some v) :
    (k, v) ∈ defaultMembers := by
  obtain ⟨before, behind, hsplit, -⟩ := List.lookup_eq_some_iff.mp h
  simp [hsplit]

/-- A member that may be left out has one default. -/
theorem default_value {k : String} {v d : Value} (h : (k, v) ∈ defaultMembers)
    (hd : (k, d) ∈ defaultMembers) : v = d := by
  have hnames : (defaultMembers.map Prod.fst).Nodup := by decide
  exact congrArg Prod.snd (List.inj_on_of_nodup_map hnames h hd rfl)

mutual

/-- **The loose forms of a value.** Members with their default may be left out, at any place and
depth, and the members of an object may stand in any order. -/
inductive Loose : Value → Value → Prop
  | null : Loose .null .null
  | bool (b : Bool) : Loose (.bool b) (.bool b)
  | num (n : Number) : Loose (.num n) (.num n)
  | str (s : String) : Loose (.str s) (.str s)
  | arr {items items' : List Value} (h : LooseItems items items') : Loose (.arr items) (.arr items')
  | obj {members kept members' : List (String × Value)} (h : LooseMembers members kept)
      (hp : kept.Perm members') : Loose (.obj members) (.obj members')

/-- The loose forms of items: one for each. -/
inductive LooseItems : List Value → List Value → Prop
  | nil : LooseItems [] []
  | cons {v v' : Value} {rest rest' : List Value} (h : Loose v v') (hr : LooseItems rest rest') :
      LooseItems (v :: rest) (v' :: rest')

/-- The members that are kept, in their first order, with loose forms of their values. -/
inductive LooseMembers : List (String × Value) → List (String × Value) → Prop
  | nil : LooseMembers [] []
  | keep (k : String) {v v' : Value} {rest rest' : List (String × Value)} (h : Loose v v')
      (hr : LooseMembers rest rest') : LooseMembers ((k, v) :: rest) ((k, v') :: rest')
  | drop {k : String} {v : Value} {rest rest' : List (String × Value)} (h : (k, v) ∈ defaultMembers)
      (hr : LooseMembers rest rest') : LooseMembers ((k, v) :: rest) rest'

end

mutual

/-- A value is a loose form of itself. -/
theorem Loose.refl : ∀ v : Value, Loose v v
  | .null => .null
  | .bool b => .bool b
  | .num n => .num n
  | .str s => .str s
  | .arr items => .arr (LooseItems.refl items)
  | .obj members => .obj (LooseMembers.refl members) (List.Perm.refl members)

theorem LooseItems.refl : ∀ items : List Value, LooseItems items items
  | [] => .nil
  | v :: rest => .cons (Loose.refl v) (LooseItems.refl rest)

theorem LooseMembers.refl : ∀ members : List (String × Value), LooseMembers members members
  | [] => .nil
  | (k, v) :: rest => .keep k (Loose.refl v) (LooseMembers.refl rest)

end

theorem depthMembers_perm {ms ms' : List (String × Value)} (h : ms.Perm ms') :
    Value.depthMembers ms = Value.depthMembers ms' := by
  induction h with
  | nil => rfl
  | cons m _ ih => simp [Value.depthMembers, ih]
  | swap m m' rest => simp [Value.depthMembers, Nat.max_left_comm]
  | trans _ _ ih ih' => exact ih.trans ih'

/-- Members nest no deeper than each of them does. -/
theorem depthMembers_le {d : Nat} {ms : List (String × Value)} (h : ∀ m ∈ ms, m.2.depth ≤ d) :
    Value.depthMembers ms ≤ d := by
  induction ms with
  | nil => exact Nat.zero_le d
  | cons m rest ih =>
    rw [List.forall_mem_cons] at h
    exact Nat.max_le.mpr ⟨h.1, ih h.2⟩

mutual

/-- **A loose form nests no deeper.** -/
theorem Loose.depth_le : ∀ {v v' : Value}, Loose v v' → v'.depth ≤ v.depth
  | _, _, .null => Nat.le_refl _
  | _, _, .bool _ => Nat.le_refl _
  | _, _, .num _ => Nat.le_refl _
  | _, _, .str _ => Nat.le_refl _
  | _, _, .arr h => Nat.succ_le_succ (LooseItems.depth_le h)
  | _, _, .obj h hp => by
      have hkept := LooseMembers.depth_le h
      rw [depthMembers_perm hp] at hkept
      exact Nat.succ_le_succ hkept

theorem LooseItems.depth_le : ∀ {vs vs' : List Value}, LooseItems vs vs' →
    Value.depthItems vs' ≤ Value.depthItems vs
  | _, _, .nil => Nat.le_refl _
  | _, _, .cons h hr => by
      have hv := Loose.depth_le h
      have hrest := LooseItems.depth_le hr
      simp only [Value.depthItems]
      omega

theorem LooseMembers.depth_le : ∀ {ms ms' : List (String × Value)}, LooseMembers ms ms' →
    Value.depthMembers ms' ≤ Value.depthMembers ms
  | _, _, .nil => Nat.le_refl _
  | _, _, .keep _ h hr => by
      have hv := Loose.depth_le h
      have hrest := LooseMembers.depth_le hr
      simp only [Value.depthMembers]
      omega
  | _, _, .drop _ hr => by
      have hrest := LooseMembers.depth_le hr
      simp only [Value.depthMembers]
      omega

end

mutual

/-- The loose forms of a plain value are plain. -/
theorem Loose.plain : ∀ {v v' : Value}, Loose v v' → v.Plain → v'.Plain
  | _, _, .null, h => h
  | _, _, .bool _, h => h
  | _, _, .num _, h => h
  | _, _, .str _, h => h
  | _, _, .arr hl, h => LooseItems.plain hl h
  | _, _, .obj hl hp, h => by
      have hkept := plainMembers_iff.mp (LooseMembers.plain hl h)
      exact plainMembers_iff.mpr fun m hm => hkept m (hp.mem_iff.mpr hm)

theorem LooseItems.plain :
    ∀ {vs vs' : List Value}, LooseItems vs vs' → PlainItems vs → PlainItems vs'
  | _, _, .nil, h => h
  | _, _, .cons hl hr, h => ⟨Loose.plain hl h.1, LooseItems.plain hr h.2⟩

theorem LooseMembers.plain : ∀ {ms ms' : List (String × Value)}, LooseMembers ms ms' →
    PlainMembers ms → PlainMembers ms'
  | _, _, .nil, h => h
  | _, _, .keep _ hl hr, h => ⟨Loose.plain hl h.1, LooseMembers.plain hr h.2⟩
  | _, _, .drop _ hr, h => LooseMembers.plain hr h.2

end

namespace LooseMembers

variable {ms kept : List (String × Value)}

/-- The names of the kept members are names of the members, in their order. -/
theorem names_sublist : ∀ {ms kept : List (String × Value)}, LooseMembers ms kept →
    (kept.map Prod.fst).Sublist (ms.map Prod.fst)
  | _, _, .nil => .slnil
  | _, _, .keep k _ hr => (names_sublist hr).cons_cons k
  | _, _, .drop _ hr => (names_sublist hr).cons _

/-- A kept member is a loose form of a member. -/
theorem kept_loose : ∀ {ms kept : List (String × Value)}, LooseMembers ms kept → ∀ m' ∈ kept,
    ∃ v, (m'.1, v) ∈ ms ∧ Loose v m'.2
  | _, _, .nil, _, h => nomatch h
  | _, _, .keep k hl hr, m', h => by
      rcases List.mem_cons.mp h with rfl | h
      · exact ⟨_, List.mem_cons_self, hl⟩
      · obtain ⟨v, hv, hloose⟩ := kept_loose hr m' h
        exact ⟨v, List.mem_cons_of_mem _ hv, hloose⟩
  | _, _, .drop _ hr, m', h => by
      obtain ⟨v, hv, hloose⟩ := kept_loose hr m' h
      exact ⟨v, List.mem_cons_of_mem _ hv, hloose⟩

/-- A member whose name is not kept has its default. -/
theorem default_of_dropped : ∀ {ms kept : List (String × Value)}, LooseMembers ms kept → ∀ m ∈ ms,
    m.1 ∉ kept.map Prod.fst → m ∈ defaultMembers
  | _, _, .nil, _, h, _ => nomatch h
  | _, _, .keep k _ hr, m, h, hn => by
      rw [List.map_cons, List.mem_cons, not_or] at hn
      rcases List.mem_cons.mp h with rfl | h
      · exact absurd rfl hn.1
      · exact default_of_dropped hr m h hn.2
  | _, _, .drop hd hr, m, h, hn => by
      rcases List.mem_cons.mp h with rfl | h
      · exact hd
      · exact default_of_dropped hr m h hn

end LooseMembers

/-! ## 2. Room -/

/-- **What is read where there is room for so many brackets**: the result, if the value nests no
deeper than that, and a fault of the grammar otherwise. -/
def within {α : Type} (depth room : Nat) (a : α) : Except Failure α :=
  if depth ≤ room then .ok a else .error (.fault .malformed)

section Within

variable {α β : Type} {d d' room : Nat} {a : α} {b : β}

theorem bind_of_ok {x : Except Failure α} (h : x = .ok a) (next : α → Except Failure β) :
    (x >>= next) = next a := by
  rw [h]
  rfl

theorem within_of_le (h : d ≤ room) : within d room a = .ok a := if_pos h

theorem within_of_lt (h : room < d) : within d room a = .error (.fault .malformed) :=
  if_neg (Nat.not_le.mpr h)

theorem within_succ_zero : within (d + 1) 0 a = .error (.fault .malformed) :=
  within_of_lt (Nat.succ_pos d)

theorem within_succ_succ : within (d + 1) (room + 1) a = within d room a := by
  simp [within]

/-- One part after another: the deeper one decides. -/
theorem within_bind {f : α → Except Failure β} (h : f a = within d' room b) :
    (within d room a >>= f) = within (max d d') room b := by
  by_cases hd : d ≤ room
  · rw [within_of_le hd]
    show f a = _
    rw [h]
    by_cases hd' : d' ≤ room
    · rw [within_of_le hd', within_of_le (Nat.max_le.mpr ⟨hd, hd'⟩)]
    · rw [within_of_lt (Nat.lt_of_not_le hd'), within_of_lt (by omega)]
  · rw [within_of_lt (Nat.lt_of_not_le hd), within_of_lt (by omega)]
    rfl

/-- What is done with a result does not need more room. -/
theorem within_bind_ok {f : α → Except Failure β} (h : d ≤ room → f a = .ok b) :
    (within d room a >>= f) = within d room b := by
  by_cases hd : d ≤ room
  · rw [within_of_le hd, within_of_le hd]
    exact h hd
  · rw [within_of_lt (Nat.lt_of_not_le hd), within_of_lt (Nat.lt_of_not_le hd)]
    rfl

theorem within_map (f : α → β) : f <$> within d room a = within d room (f a) := by
  unfold within
  split <;> rfl

end Within

/-! ## 3. Fields with their members -/

/-- A field of a record, with the value that the record has there and the part that is read from
it. -/
structure Filled (σ π : Type) where
  field : RecordField σ π
  value : Value
  part : π

namespace Filled

variable {κ σ π : Type} {rows : List (Filled σ π)}

/-- The name of a filled field. -/
def name (row : Filled σ π) : String := row.field.name

/-- The member of a filled field. -/
def member (row : Filled σ π) : String × Value := (row.name, row.value)

/-- A field is found by its name. -/
theorem find_field : ∀ {rows : List (Filled σ π)}, (rows.map name).Nodup → ∀ row ∈ rows,
    (rows.map field).find? (·.name == row.name) = some row.field
  | [], _, _, h => nomatch h
  | first :: rest, hn, row, h => by
      rw [List.map_cons, List.nodup_cons] at hn
      rw [List.map_cons, List.find?_cons]
      rcases List.mem_cons.mp h with rfl | h
      · have hself : (row.field.name == row.name) = true := beq_self_eq_true row.name
        rw [hself]
      · have hne : (first.field.name == row.name) = false :=
          beq_eq_false_iff_ne.mpr fun he => hn.1 (List.mem_map.mpr ⟨row, h, he.symm⟩)
        rw [hne]
        exact find_field hn.2 row h

end Filled

section Gathering

variable {κ σ π : Type} {rows : List (Filled σ π)} (key : κ → Except Failure String)
  (skip : σ → Except Failure Unit) (named : String → κ) (inject : Value → σ) (room : Nat)

/-- **Members are collected whatever their order is.** Behind them each field whose member was there
has its part, and the others have what they had before. -/
theorem gather_within (hn : (rows.map Filled.name).Nodup) (hkey : ∀ k, key (named k) = .ok k) :
    ∀ (doc : List (String × Value)) (found : List (String × π)), (doc.map Prod.fst).Nodup →
      (∀ m ∈ doc, found.lookup m.1 = none) →
      (∀ m ∈ doc, ∃ row ∈ rows, row.name = m.1 ∧
        row.field.read (inject m.2) = within m.2.depth room row.part) →
      ∃ found', gather key skip (rows.map Filled.field)
        (doc.map fun m => (named m.1, inject m.2)) found =
          within (Value.depthMembers doc) room found' ∧
        ∀ row ∈ rows, found'.lookup row.name =
          if row.name ∈ doc.map Prod.fst then some row.part else found.lookup row.name
  | [], found, _, _, _ => by
      refine ⟨found, ?_, fun row _ => ?_⟩
      · exact (within_of_le (Nat.zero_le room)).symm
      · simp
  | (k, v) :: rest, found, hdoc, hnew, hread => by
      rw [List.map_cons, List.nodup_cons] at hdoc
      obtain ⟨row, hrow, rfl, hv⟩ := hread (k, v) List.mem_cons_self
      -- the member is remembered in front of what was found, so it hides nothing of the others
      have hnew' : ∀ m ∈ rest, ((row.name, row.part) :: found).lookup m.1 = none := by
        intro m hm
        have hne : (m.1 == row.name) = false :=
          beq_eq_false_iff_ne.mpr fun he => hdoc.1 (List.mem_map.mpr ⟨m, hm, he⟩)
        rw [List.lookup_cons, hne]
        exact hnew m (List.mem_cons_of_mem _ hm)
      obtain ⟨found', hgather, hlookup⟩ := gather_within hn hkey rest
        ((row.name, row.part) :: found)
        hdoc.2 hnew' fun m hm => hread m (List.mem_cons_of_mem _ hm)
      refine ⟨found', ?_, fun other hother => ?_⟩
      · have hfind := Filled.find_field hn row hrow
        have hsome : (found.lookup row.name).isSome = false := by
          rw [hnew _ List.mem_cons_self]
          rfl
        rw [List.map_cons, gather, bind_of_ok (hkey row.name)]
        simp only [hfind, hsome, Bool.false_eq_true, ↓reduceIte, hv]
        exact within_bind hgather
      · rw [hlookup other hother, List.map_cons, List.lookup_cons]
        by_cases he : other.name = row.name
        · have hsame : other = row := List.inj_on_of_nodup_map hn hother hrow he
          subst hsame
          simp [hdoc.1]
        · have hne : (other.name == row.name) = false := beq_eq_false_iff_ne.mpr he
          simp only [hne, List.mem_cons, he, false_or]

/-- **The parts in declared order**, if each field has found its part or takes it for absence. -/
theorem supply_filled (found : List (String × π)) : ∀ {rows : List (Filled σ π)},
    (∀ row ∈ rows, (found.lookup row.name).or row.field.absent = some row.part) →
      supply found (rows.map Filled.field) = .ok (rows.map Filled.part)
  | [], _ => rfl
  | row :: rest, h => by
      have hrow := h row List.mem_cons_self
      have hrest := supply_filled found fun r hr => h r (List.mem_cons_of_mem _ hr)
      have hfield : (found.lookup row.field.name).or row.field.absent = some row.part := hrow
      rw [List.map_cons, supply]
      simp only [hfield, hrest]
      rfl

/-- **A record is read whatever the order of its members is**, and absent members have their
default. -/
theorem gather_supply_within (hn : (rows.map Filled.name).Nodup) (hkey : ∀ k, key (named k) = .ok k)
    {doc : List (String × Value)} (hdoc : (doc.map Prod.fst).Nodup)
    (hread : ∀ m ∈ doc, ∃ row ∈ rows, row.name = m.1 ∧
      row.field.read (inject m.2) = within m.2.depth room row.part)
    (habsent : ∀ row ∈ rows, row.name ∉ doc.map Prod.fst → row.field.absent = some row.part) :
    (gather key skip (rows.map Filled.field) (doc.map fun m => (named m.1, inject m.2)) [] >>=
        fun found => supply found (rows.map Filled.field)) =
      within (Value.depthMembers doc) room (rows.map Filled.part) := by
  obtain ⟨found, hgather, hlookup⟩ :=
    gather_within key skip named inject room hn hkey doc [] hdoc (fun _ _ => rfl) hread
  rw [hgather]
  refine within_bind_ok fun _ => supply_filled found fun row hrow => ?_
  rw [hlookup row hrow]
  by_cases hm : row.name ∈ doc.map Prod.fst
  · rw [if_pos hm]
    rfl
  · rw [if_neg hm]
    exact habsent row hrow hm

/-- What a loose form of an object says about a record that the object fills. -/
theorem loose_of_filled (hn : (rows.map Filled.name).Nodup) {doc : List (String × Value)}
    {kept : List (String × Value)} (hl : LooseMembers (rows.map Filled.member) kept)
    (hp : kept.Perm doc) :
    (doc.map Prod.fst).Nodup ∧
      (∀ m ∈ doc, ∃ row ∈ rows, row.name = m.1 ∧ Loose row.value m.2) ∧
      ∀ row ∈ rows, row.name ∉ doc.map Prod.fst → row.member ∈ defaultMembers := by
  have hnames : (rows.map Filled.member).map Prod.fst = rows.map Filled.name := by
    rw [List.map_map]
    rfl
  have hperm := hp.map Prod.fst
  refine ⟨?_, fun m hm => ?_, fun row hrow habsent => ?_⟩
  · refine hperm.nodup_iff.mp (hl.names_sublist.nodup ?_)
    rw [hnames]
    exact hn
  · obtain ⟨v, hv, hloose⟩ := hl.kept_loose m (hp.mem_iff.mpr hm)
    obtain ⟨row, hrow, he⟩ := List.mem_map.mp hv
    obtain ⟨hname, hvalue⟩ := Prod.mk.inj he
    exact ⟨row, hrow, hname, hvalue ▸ hloose⟩
  · refine hl.default_of_dropped row.member (List.mem_map_of_mem hrow) fun hmem => ?_
    exact habsent (hperm.mem_iff.mp hmem)

end Gathering

/-! ## 4. Readers -/

theorem Loose.ne_null {v v' : Value} (h : Loose v v') (hv : v ≠ .null) : v' ≠ .null := by
  cases h with
  | null => exact absurd rfl hv
  | _ => simp

/-- **A reader gives a result on all loose forms of a value**, which is plain. -/
structure Json.Reader.Reads {α : Type} (r : Reader α) (full : Value) (a : α) : Prop where
  plain : full.Plain
  reads : ∀ v, Loose full v → ∀ room, r room (.ofValue v) = within v.depth room a

namespace Json.Reader.Reads

variable {α β : Type} {r : Reader α} {full : Value} {a : α}

theorem text (s : String) : Reader.text.Reads (.str s) s where
  plain := trivial
  reads v hl room := by
    cases hl
    simp [Reader.text, Raw.ofValue, Text.read_ofString, Fault.lift, within, Value.depth]

theorem flag (b : Bool) : Reader.flag.Reads (.bool b) b where
  plain := trivial
  reads v hl room := by
    cases hl
    simp [Reader.flag, Raw.ofValue, within, Value.depth]

theorem natural_ofNat (n : Nat) : (Number.ofNat n).natural? = some n := by
  unfold Number.natural? Number.ofNat
  by_cases h : n = 0 <;> simp [h, ofDigits_digits]

theorem word32 (i : UInt32) : Reader.word32.Reads (indexValue i) i where
  plain := ⟨i, rfl⟩
  reads v hl room := by
    cases hl
    have hi : i.toNat < UInt32.size := i.toNat_lt
    simp [Reader.word32, Raw.ofValue, Raw.numberFault_position, natural_ofNat, hi,
      within, Value.depth]

theorem andThen {f : α → Except Failure β} {b : β} (h : r.Reads full a) (hf : f a = .ok b) :
    (r.andThen f).Reads full b where
  plain := h.plain
  reads v hl room := by
    unfold Reader.andThen
    rw [h.reads v hl room]
    exact within_bind_ok fun _ => hf

/-- One of several names. -/
theorem choice {choices : List (String × α)} {name : String} (h : choices.lookup name = some a) :
    (Reader.choice choices).Reads (.str name) a where
  plain := trivial
  reads v hl room := by
    cases hl
    simp [Reader.choice, Raw.ofValue, Text.read_ofString, Fault.lift, Reader.choose, h,
      within, Value.depth, bind, Except.bind]

/-- A value that may be null. -/
theorem option {write : α → Value} (o : Option α) (h : ∀ a, r.Reads (write a) a)
    (hnull : ∀ a, write a ≠ .null) : (Reader.option r).Reads (.option write o) o where
  plain := by
    cases o with
    | none => trivial
    | some a => exact (h a).plain
  reads v hl room := by
    cases o with
    | none =>
      cases hl
      simp [Reader.option, Raw.ofValue, within, Value.depth]
    | some a =>
      have hne := hl.ne_null (hnull a)
      have hread : Reader.option r room (.ofValue v) = some <$> r room (.ofValue v) := by
        cases v with
        | null => exact absurd rfl hne
        | _ => rfl
      rw [hread, (h a).reads v hl room, within_map]

/-- The items of an array, and its end. -/
theorem items {write : α → Value} (room : Nat) : ∀ (as : List α), (∀ a ∈ as, r.Reads (write a) a) →
    ∀ {vs : List Value}, LooseItems (as.map write) vs →
      Reader.items (r room) .closed (Raw.ofItems vs) = within (Value.depthItems vs) room as
  | [], _, _, .nil => by
      rw [Value.depthItems, within_of_le (Nat.zero_le room)]
      rfl
  | a :: rest, h, _, .cons hl hr => by
      have hrest := items room rest (fun b hb => h b (List.mem_cons_of_mem _ hb)) hr
      rw [Raw.ofItems, Reader.items, (h a List.mem_cons_self).reads _ hl room, Value.depthItems]
      refine within_bind ?_
      rw [hrest]
      exact within_bind_ok fun _ => rfl

/-- An array. -/
theorem list {write : α → Value} {as : List α} (h : ∀ a ∈ as, r.Reads (write a) a) :
    (Reader.list r).Reads (.list write as) as where
  plain := plainItems_iff.mpr (List.forall_mem_map.mpr fun a ha => (h a ha).plain)
  reads v hl room := by
    cases hl with
    | arr hitems =>
      rw [Value.depth]
      cases room with
      | zero =>
        rw [within_succ_zero]
        rfl
      | succ room =>
        rw [within_succ_succ]
        exact items room as h hitems

end Json.Reader.Reads

/-! ## 5. Records -/

namespace Filled

variable {α π : Type}

/-- **A filled field is sound** where there is room for so many brackets: it reads its part from all
loose forms of its value, and absence means the part if the member may be left out. -/
structure Sound (room : Nat) (row : Filled Raw π) : Prop where
  plain : row.value.Plain
  reads : ∀ v, Loose row.value v → row.field.read (.ofValue v) = within v.depth room row.part
  absent : row.member ∈ defaultMembers → row.field.absent = some row.part

/-- A field that is read by a reader, with what it reads. -/
def ofReader (name : String) (wrap : α → π) (r : Reader α) (absent : Option α)
    (room : Nat) (value : Value) (a : α) : Filled Raw π :=
  { field := Reader.field name wrap r absent room, value := value, part := wrap a }

theorem Sound.ofReader {name : String} {wrap : α → π} {r : Reader α}
    {absent : Option α} {room : Nat} {value : Value} {a : α} (h : r.Reads value a)
    (hd : (name, value) ∈ defaultMembers → absent = some a) :
    (Filled.ofReader name wrap r absent room value a).Sound room where
  plain := h.plain
  reads v hl := by
    show wrap <$> r room (.ofValue v) = _
    rw [h.reads v hl room, within_map]
    rfl
  absent hmem := by
    show absent.map wrap = _
    rw [hd hmem]
    rfl

/-- A member whose name is none of the defaults is never left out. -/
theorem Sound.required {name : String} {wrap : α → π} {r : Reader α}
    {absent : Option α} {room : Nat} {value : Value} {a : α} (h : r.Reads value a)
    (hn : name ∉ defaultMembers.map Prod.fst) :
    (Filled.ofReader name wrap r absent room value a).Sound room :=
  .ofReader h fun hd => absurd (List.mem_map_of_mem hd) hn

end Filled

/-- The names of members are read back. -/
theorem keyRead_ofString (k : String) : Fault.lift (Text.ofString k).read = .ok k := by
  rw [Text.read_ofString]
  rfl

theorem ofMembers_eq_map (ms : List (String × Value)) :
    Raw.ofMembers ms = ms.map fun m => (Text.ofString m.1, Raw.ofValue m.2) := by
  induction ms with
  | nil => rfl
  | cons m rest ih => rw [Raw.ofMembers, ih, List.map_cons]

section Records

variable {α : Type} {fields : Nat → List (RecordField Raw Entry)}
  {build : List Entry → Option α} {a : α}

/-- **A record inside of a bracket** is read from members in any order, if each of them fills its
field and what is absent has its default. -/
theorem recordOf_within {room : Nat} {rows : List (Filled Raw Entry)}
    (hfields : fields room = rows.map Filled.field) (hn : (rows.map Filled.name).Nodup)
    (hbuild : build (rows.map Filled.part) = some a) {doc : List (String × Value)}
    (hdoc : (doc.map Prod.fst).Nodup)
    (hread : ∀ m ∈ doc, ∃ row ∈ rows, row.name = m.1 ∧
      row.field.read (.ofValue m.2) = within m.2.depth room row.part)
    (habsent : ∀ row ∈ rows, row.name ∉ doc.map Prod.fst → row.field.absent = some row.part) :
    recordOf fields build (room + 1) (.ofValue (.obj doc)) =
      within (Value.depthMembers doc) room a := by
  have hrecord : Reader.record fields (room + 1) (.ofValue (.obj doc)) =
      within (Value.depthMembers doc) room (rows.map Filled.part) := by
    rw [← gather_supply_within (fun k => Fault.lift k.read) (fun v => Fault.check v.skip)
      Text.ofString Raw.ofValue room hn keyRead_ofString hdoc hread habsent, ← hfields,
      ← ofMembers_eq_map]
    rfl
  unfold recordOf Reader.andThen
  rw [hrecord]
  refine within_bind_ok fun _ => ?_
  rw [hbuild]

/-- **The law of records.** A record whose fields are sound is read from all loose forms of the
object that its members make. -/
theorem recordOf_reads {full : List (String × Value)} (rows : Nat → List (Filled Raw Entry))
    (hfields : ∀ room, fields room = (rows room).map Filled.field)
    (hfull : ∀ room, (rows room).map Filled.member = full) (hn : (full.map Prod.fst).Nodup)
    (hrows : ∀ room, List.Forall (Filled.Sound room) (rows room))
    (hbuild : ∀ room, build ((rows room).map Filled.part) = some a) :
    (recordOf fields build).Reads (.obj full) a := by
  have hsound := fun room => List.forall_iff_forall_mem.mp (hrows room)
  refine ⟨plainMembers_iff.mpr fun m hm => ?_, fun v hl room => ?_⟩
  · rw [← hfull 0] at hm
    obtain ⟨row, hrow, rfl⟩ := List.mem_map.mp hm
    exact (hsound 0 row hrow).plain
  · cases hl with
    | obj hmembers hp =>
      rw [Value.depth]
      cases room with
      | zero =>
        rw [within_succ_zero]
        rfl
      | succ room =>
        have hnames : ((rows room).map Filled.name).Nodup := by
          rw [← hfull room, List.map_map] at hn
          exact hn
        rw [← hfull room] at hmembers
        obtain ⟨hdoc, hcover, habsent⟩ := loose_of_filled hnames hmembers hp
        rw [within_succ_succ]
        refine recordOf_within (hfields room) hnames (hbuild room) hdoc (fun m hm => ?_)
          fun row hrow hm => (hsound room row hrow).absent (habsent row hrow hm)
        obtain ⟨row, hrow, hname, hloose⟩ := hcover m hm
        exact ⟨row, hrow, hname, (hsound room row hrow).reads m.2 hloose⟩

end Records

end Lowering
