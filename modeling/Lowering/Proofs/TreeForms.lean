import Lowering.Proofs.LooseForms

/-!
# Trees from their loose forms

A node is an object with a tag, and the tag may stand at any place among the other members. The
outermost node of a tree is first read completely and only then looked at, the nodes inside are
looked at when their turn comes. This file reads every tree from all loose forms of what the writer
makes of it.

* `Shape.Reads` -- a shape gives a part on all loose forms of a value;
* `FilledSlot`, `IsNode` -- a variant with its members, and the written form of a node;
* `IsNode.inner`, `IsNode.outer` -- the two ways to read a node;
* `Expr.isNode`, `Stmt.isNode` -- trees are written as nodes;
* `Stmt.reads` -- a statement is read from all loose forms of its written form.
-/

namespace Lowering

open Json

/-! ## 1. Members of nodes -/

/-- **A shape gives a part on all loose forms of a value**, if the budget is above the nesting. The
value is plain. -/
structure Shape.Reads (shape : Shape) (full : Value) (part : Part) : Prop where
  plain : full.Plain
  reads : ∀ v, Loose full v → ∀ budget, v.depth < budget → shape.read budget v = .ok part

/-- A member of a node, with its value and the part that is read there. -/
structure FilledSlot where
  slot : Slot
  value : Value
  part : Part

namespace FilledSlot

/-- The name of a filled member. -/
def name (row : FilledSlot) : String := row.slot.name

/-- The member of an object that a filled member makes. -/
def member (row : FilledSlot) : String × Value := (row.name, row.value)

/-- A filled member is sound if its part is read from all loose forms of its value, and absence
means the part where the member may be left out. -/
structure Sound (row : FilledSlot) : Prop where
  reads : row.slot.shape.Reads row.value row.part
  absent : row.member ∈ defaultMembers → row.slot.absent = some row.part

/-- A member whose name is none of the defaults is never left out. -/
theorem Sound.required {name : String} {shape : Shape} {value : Value} {part : Part}
    (h : shape.Reads value part) (hn : name ∉ defaultMembers.map Prod.fst) :
    Sound ⟨⟨name, shape, none⟩, value, part⟩ :=
  ⟨h, fun hd => absurd (List.mem_map_of_mem hd) hn⟩

/-- The field of a filled member, when the parts inside are read within a budget. -/
def filled (budget : Nat) (row : FilledSlot) : Filled Value Part :=
  { field := row.slot.field (Shape.read budget), value := row.value, part := row.part }

end FilledSlot

theorem depth_le_of_mem {m : String × Value} : ∀ {ms : List (String × Value)}, m ∈ ms →
    m.2.depth ≤ Value.depthMembers ms
  | [], h => nomatch h
  | (k, v) :: rest, h => by
      rw [Value.depthMembers]
      rcases List.mem_cons.mp h with rfl | h
      · exact Nat.le_max_left _ _
      · exact Nat.le_trans (depth_le_of_mem h) (Nat.le_max_right _ _)

/-- **A record inside of a tree** is read from all loose forms of its members. -/
theorem fromMembers_ok {rows : List FilledSlot} {build : List Part → Option Part}
    {p : Part} {budget : Nat} (hn : (rows.map FilledSlot.name).Nodup)
    (hrows : List.Forall FilledSlot.Sound rows) (hbuild : build (rows.map FilledSlot.part) = some p)
    {kept doc : List (String × Value)} (hl : LooseMembers (rows.map FilledSlot.member) kept)
    (hp : kept.Perm doc) (hd : Value.depthMembers doc < budget) :
    fromMembers (Shape.read budget) (rows.map FilledSlot.slot) build doc = .ok p := by
  have hsound := List.forall_iff_forall_mem.mp hrows
  have hn' : ((rows.map (FilledSlot.filled budget)).map Filled.name).Nodup := by
    rw [List.map_map]
    exact hn
  have hl' : LooseMembers ((rows.map (FilledSlot.filled budget)).map Filled.member) kept := by
    rw [List.map_map]
    exact hl
  obtain ⟨hdoc, hcover, habsent⟩ := loose_of_filled hn' hl' hp
  have hlaw := gather_supply_within (fun k => .ok k) (fun _ => .ok ()) (fun k => k)
    (fun v => v) budget hn' (fun _ => rfl) hdoc
    (fun m hm => by
      obtain ⟨row, hrow, hname, hloose⟩ := hcover m hm
      obtain ⟨slot, hslot, rfl⟩ := List.mem_map.mp hrow
      have hdepth := Nat.lt_of_le_of_lt (depth_le_of_mem hm) hd
      refine ⟨_, hrow, hname, ?_⟩
      rw [within_of_le (Nat.le_of_lt hdepth)]
      exact (hsound slot hslot).reads.reads m.2 hloose budget hdepth)
    (fun row hrow hm => by
      have hdefault := habsent row hrow hm
      obtain ⟨slot, hslot, rfl⟩ := List.mem_map.mp hrow
      exact (hsound slot hslot).absent hdefault)
  have hfields : (rows.map FilledSlot.slot).map (Slot.field (Shape.read budget)) =
      (rows.map (FilledSlot.filled budget)).map Filled.field := by
    rw [List.map_map, List.map_map]
    rfl
  have hparts : (rows.map (FilledSlot.filled budget)).map Filled.part =
      rows.map FilledSlot.part := by
    rw [List.map_map]
    rfl
  have hsame : (doc.map fun m => (m.1, m.2)) = doc := List.map_id' doc
  rw [hsame, within_of_le (Nat.le_of_lt hd), hparts, ← hfields] at hlaw
  unfold fromMembers
  rw [← bind_assoc, hlaw]
  show assemble build (rows.map FilledSlot.part) = _
  unfold assemble
  rw [hbuild]

/-! ## 2. Tags -/

section Tags

variable {κ σ τ : Type} (key : κ → Except Failure String) (tag : σ → Except Failure τ)
  (other : σ → Except Failure Value) (named : String → κ) (inject : Value → σ) (room : Nat)

/-- Members without a tag are all kept. -/
theorem splitTag_others (hkey : ∀ k, key (named k) = .ok k) (found : Option τ) :
    ∀ ms : List (String × Value), (∀ m ∈ ms, m.1 ≠ "kind") →
      (∀ m ∈ ms, other (inject m.2) = within m.2.depth room m.2) →
      splitTag key tag other (ms.map fun m => (named m.1, inject m.2)) found =
        within (Value.depthMembers ms) room (found, ms)
  | [], _, _ => (within_of_le (Nat.zero_le room)).symm
  | (k, v) :: rest, hkind, hother => by
      have hrest := splitTag_others hkey found rest
        (fun m hm => hkind m (List.mem_cons_of_mem _ hm))
        fun m hm => hother m (List.mem_cons_of_mem _ hm)
      have hk : k ≠ "kind" := hkind (k, v) List.mem_cons_self
      rw [List.map_cons, splitTag, hkey]
      show (if k = "kind" then _ else _) = _
      rw [if_neg hk, hother (k, v) List.mem_cons_self]
      refine within_bind ?_
      rw [hrest]
      exact within_bind_ok fun _ => rfl

/-- **The tag is found wherever it stands**, and the other members keep their order. -/
theorem splitTag_within (hkey : ∀ k, key (named k) = .ok k) {t : Value} {a : τ}
    (htag : tag (inject t) = .ok a) (after : List (String × Value)) :
    ∀ before : List (String × Value), (∀ m ∈ before ++ after, m.1 ≠ "kind") →
      (∀ m ∈ before ++ after, other (inject m.2) = within m.2.depth room m.2) →
      splitTag key tag other ((before ++ ("kind", t) :: after).map fun m =>
        (named m.1, inject m.2)) none =
        within (Value.depthMembers (before ++ after)) room (some a, before ++ after)
  | [], hkind, hother => by
      rw [List.nil_append, List.map_cons, splitTag, hkey]
      show (tag (inject t) >>= _) = _
      rw [htag]
      exact splitTag_others key tag other named inject room hkey (some a) after hkind hother
  | (k, v) :: rest, hkind, hother => by
      have hrest := splitTag_within hkey htag after rest
        (fun m hm => hkind m (List.mem_cons_of_mem _ hm)) fun m hm =>
          hother m (List.mem_cons_of_mem _ hm)
      have hk : k ≠ "kind" := hkind (k, v) List.mem_cons_self
      rw [List.cons_append, List.map_cons, splitTag, hkey]
      show (if k = "kind" then _ else _) = _
      rw [if_neg hk, hother (k, v) List.mem_cons_self]
      refine within_bind ?_
      rw [hrest]
      exact within_bind_ok fun _ => rfl

end Tags

/-! ## 3. Nodes -/

/-- **The written form of a node**: the tag of a variant, and the members of the variant with their
values. -/
def IsNode (variants : List Variant) (full : Value) (p : Part) : Prop :=
  ∃ (tag : String) (rows : List FilledSlot) (build : List Part → Option Part),
    full = node tag (rows.map FilledSlot.member) ∧
      chooseVariant variants tag = .ok { tag, slots := rows.map FilledSlot.slot, build } ∧
      build (rows.map FilledSlot.part) = some p ∧ List.Forall FilledSlot.Sound rows

/-- The members of each variant have names of their own, and none has the name of the tag. -/
def WellNamed (variants : List Variant) : Prop :=
  ∀ v ∈ variants, ("kind" :: v.slots.map Slot.name).Nodup

instance (variants : List Variant) : Decidable (WellNamed variants) :=
  inferInstanceAs (Decidable (∀ v ∈ variants, ("kind" :: v.slots.map Slot.name).Nodup))

theorem names_of_chosen {variants : List Variant} (hw : WellNamed variants) {tag : String}
    {rows : List FilledSlot} {build : List Part → Option Part}
    (h : chooseVariant variants tag = .ok { tag, slots := rows.map FilledSlot.slot, build }) :
    ("kind" :: rows.map FilledSlot.name).Nodup := by
  unfold chooseVariant Reader.choose at h
  cases hl : (variants.map fun v => (v.tag, v)).lookup tag with
  | none =>
    rw [hl] at h
    cases h
  | some v =>
    rw [hl] at h
    cases h
    obtain ⟨before, after, hsplit, -⟩ := List.lookup_eq_some_iff.mp hl
    have hmem : (tag, { tag, slots := rows.map FilledSlot.slot, build }) ∈
        variants.map fun v => (v.tag, v) := by
      rw [hsplit]
      exact List.mem_append_right _ List.mem_cons_self
    obtain ⟨v, hv, he⟩ := List.mem_map.mp hmem
    have hnames := hw v hv
    rw [(Prod.mk.inj he).2, List.map_map] at hnames
    exact hnames

/-- In a loose form of a node the tag stands between two rows of members, and they are a loose form
of the other members. -/
theorem loose_node {tag : String} {members doc : List (String × Value)}
    (hl : Loose (node tag members) (.obj doc)) :
    ∃ before after kept, doc = before ++ ("kind", .str tag) :: after ∧ LooseMembers members kept ∧
      kept.Perm (before ++ after) := by
  cases hl with
  | obj hm hp =>
    cases hm with
    | drop hd _ =>
      exact absurd (List.mem_map_of_mem hd) (by decide : "kind" ∉ defaultMembers.map Prod.fst)
    | keep _ ht hr =>
      cases ht
      rename_i kept
      have hmem : ("kind", .str tag) ∈ doc := hp.mem_iff.mp List.mem_cons_self
      obtain ⟨before, after, rfl⟩ := List.append_of_mem hmem
      exact ⟨before, after, kept, rfl, hr, (hp.trans List.perm_middle).cons_inv⟩

theorem depthMembers_node (tag : String) (before after : List (String × Value)) :
    Value.depthMembers (before ++ ("kind", .str tag) :: after) =
      Value.depthMembers (before ++ after) := by
  rw [depthMembers_perm List.perm_middle]
  simp [Value.depthMembers, Value.depth]

/-- No other member of a node has the name of the tag. -/
theorem ne_kind_of_loose {rows : List FilledSlot} (hn : ("kind" :: rows.map FilledSlot.name).Nodup)
    {kept rest : List (String × Value)} (hl : LooseMembers (rows.map FilledSlot.member) kept)
    (hp : kept.Perm rest) : ∀ m ∈ rest, m.1 ≠ "kind" := by
  intro m hm hkind
  have hmem : "kind" ∈ kept.map Prod.fst := List.mem_map.mpr ⟨m, hp.mem_iff.mpr hm, hkind⟩
  have hname := hl.names_sublist.subset hmem
  rw [List.map_map] at hname
  exact (List.nodup_cons.mp hn).1 hname

namespace IsNode

variable {variants : List Variant} {full : Value} {p : Part}

/-- **A node inside of a tree** is read from all its loose forms. -/
theorem inner (h : IsNode variants full p) (hw : WellNamed variants) {v : Value} (hl : Loose full v)
    {budget : Nat} (hd : v.depth ≤ budget) : innerNode (Shape.read budget) variants v = .ok p := by
  obtain ⟨tag, rows, build, rfl, hchoose, hbuild, hrows⟩ := h
  have hn := names_of_chosen hw hchoose
  cases v with
  | obj doc =>
    obtain ⟨before, after, kept, rfl, hmembers, hp⟩ := loose_node hl
    rw [Value.depth, depthMembers_node] at hd
    have hsplit := splitTag_within (fun k => .ok k) (innerTag variants) (fun v => .ok v)
      (fun k => k) (fun v => v) budget (fun _ => rfl) (t := .str tag) hchoose after before
      (ne_kind_of_loose hn hmembers hp)
      (fun m hm => (within_of_le (Nat.le_trans (depth_le_of_mem hm) (Nat.le_of_succ_le hd))).symm)
    have hsame : ∀ ms : List (String × Value), (ms.map fun m => (m.1, m.2)) = ms := List.map_id'
    rw [hsame, within_of_le (Nat.le_of_succ_le hd)] at hsplit
    simp only [innerNode, hsplit]
    exact fromMembers_ok (List.nodup_cons.mp hn).2 hrows hbuild hmembers hp hd
  | _ => cases hl

/-- The written form of a node is plain. -/
theorem plain (h : IsNode variants full p) : full.Plain := by
  obtain ⟨tag, rows, build, rfl, -, -, hrows⟩ := h
  refine ⟨trivial, plainMembers_iff.mpr (List.forall_mem_map.mpr fun row hrow => ?_)⟩
  exact (List.forall_iff_forall_mem.mp hrows row hrow).reads.plain

/-- **An outermost node** is read from all its loose forms that fit. -/
theorem outer (h : IsNode variants full p) (hw : WellNamed variants) :
    (outerNode variants).Reads full p := by
  refine ⟨h.plain, fun v hl room => ?_⟩
  have hplain := hl.plain h.plain
  obtain ⟨tag, rows, build, rfl, hchoose, hbuild, hrows⟩ := h
  have hn := names_of_chosen hw hchoose
  cases v with
  | obj doc =>
    obtain ⟨before, after, kept, rfl, hmembers, hp⟩ := loose_node hl
    rw [Value.depth, depthMembers_node]
    cases room with
    | zero =>
      rw [within_succ_zero]
      rfl
    | succ room =>
      have htag : outerTag variants (.ofValue (.str tag)) =
          .ok { tag, slots := rows.map FilledSlot.slot, build } := by
        rw [Raw.ofValue, outerTag, Text.read_ofString]
        exact hchoose
      have hother : ∀ m ∈ before ++ after,
          Fault.lift (Raw.settle room (.ofValue m.2)) = within m.2.depth room m.2 := by
        intro m hm
        have hmem : m ∈ before ++ ("kind", .str tag) :: after :=
          List.perm_middle.mem_iff.mpr (List.mem_cons_of_mem _ hm)
        rw [Raw.settle_ofValue m.2 (plainMembers_iff.mp hplain m hmem)]
        unfold within
        split <;> rfl
      have hsplit := splitTag_within (fun k => Fault.lift k.read) (outerTag variants)
        (fun v => Fault.lift (Raw.settle room v)) Text.ofString Raw.ofValue room keyRead_ofString
        htag after before (ne_kind_of_loose hn hmembers hp) hother
      rw [within_succ_succ, Raw.ofValue, ofMembers_eq_map]
      unfold outerNode
      simp only [hsplit]
      refine within_bind_ok fun hd => ?_
      exact fromMembers_ok (List.nodup_cons.mp hn).2 hrows hbuild hmembers hp (Nat.lt_succ_of_le hd)
  | _ => cases hl

end IsNode

/-! ## 4. Parts that are no nodes -/

namespace Shape.Reads

theorem index (i : UInt32) : Shape.index.Reads (indexValue i) (.index i) where
  plain := ⟨i, rfl⟩
  reads v hl budget hd := by
    cases hl
    cases budget with
    | zero => cases hd
    | succ budget =>
      have hi : i.toNat < UInt32.size := i.toNat_lt
      simp [Shape.read, Shape.readWith, innerIndex, Reader.Reads.natural_ofNat, hi]

theorem optionalIndex {α : Type} (index : α → UInt32) (o : Option α) :
    Shape.optionalIndex.Reads (.option (fun a => indexValue (index a)) o)
      (.optionalIndex (o.map index)) where
  plain := by
    cases o with
    | none => trivial
    | some a => exact ⟨index a, rfl⟩
  reads v hl budget hd := by
    cases budget with
    | zero => cases hd
    | succ budget =>
      cases o with
      | none =>
        cases hl
        rfl
      | some a =>
        cases hl
        have hi : (index a).toNat < UInt32.size := (index a).toNat_lt
        simp [Shape.read, Shape.readWith, innerIndex, Reader.Reads.natural_ofNat, hi]

theorem text (s : String) : Shape.text.Reads (.str s) (.text s) where
  plain := trivial
  reads v hl budget hd := by
    cases hl
    cases budget with
    | zero => cases hd
    | succ budget => rfl

theorem literal (kind : LiteralKind) : Shape.literal.Reads (.str kind.name) (.literal kind) where
  plain := trivial
  reads v hl budget hd := by
    cases hl
    cases budget with
    | zero => cases hd
    | succ budget => cases kind <;> rfl

/-- A node has the shape of its kind. -/
theorem node {shape : Shape} {variants : List Variant} {full : Value} {p : Part}
    (hshape : ∀ inner v, shape.readWith inner v = innerNode inner variants v)
    (hw : WellNamed variants) (h : IsNode variants full p) : shape.Reads full p where
  plain := h.plain
  reads v hl budget hd := by
    cases budget with
    | zero => cases hd
    | succ budget =>
      rw [Shape.read, hshape]
      exact h.inner hw hl (Nat.le_of_lt_succ hd)

/-- The items of an array, each of one shape. -/
theorem items {α : Type} {item : Shape} {get? : Part → Option α} (wrap : α → Part)
    {write : α → Value} (hget : ∀ a, get? (wrap a) = some a) {budget : Nat} : ∀ as : List α,
      (∀ a ∈ as, item.Reads (write a) (wrap a)) →
        ∀ {vs : List Value}, LooseItems (as.map write) vs →
        Value.depthItems vs < budget → innerList (Shape.read budget) item get? vs = .ok as
  | [], _, _, .nil, _ => rfl
  | a :: rest, h, _, .cons hl hr, hd => by
      rw [Value.depthItems, Nat.max_lt] at hd
      have hrest := items wrap hget rest (fun b hb => h b (List.mem_cons_of_mem _ hb)) hr hd.2
      rw [innerList, bind_of_ok ((h a List.mem_cons_self).reads _ hl budget hd.1)]
      simp only [hget, hrest]
      rfl

/-- An array. -/
theorem list {α : Type} {item whole : Shape} {get? : Part → Option α} {wrapAll : List α → Part}
    {write : α → Value} (wrap : α → Part)
    (hwhole : ∀ inner vs, whole.readWith inner (.arr vs) = wrapAll <$> innerList inner item get? vs)
    (hget : ∀ a, get? (wrap a) = some a) {as : List α}
    (h : ∀ a ∈ as, item.Reads (write a) (wrap a)) :
    whole.Reads (.arr (as.map write)) (wrapAll as) where
  plain := plainItems_iff.mpr (List.forall_mem_map.mpr fun a ha => (h a ha).plain)
  reads v hl budget hd := by
    cases hl with
    | arr hitems =>
      cases budget with
      | zero => cases hd
      | succ budget =>
        rw [Value.depth, Nat.add_lt_add_iff_right] at hd
        rw [Shape.read, hwhole, items wrap hget as h hitems hd]
        rfl

end Shape.Reads

/-! ## 5. Types and symbols -/

theorem typeRefVariants_wellNamed : WellNamed typeRefVariants := by decide

theorem symbolVariants_wellNamed : WellNamed symbolVariants := by decide

theorem TypeRef.isNode : ∀ type : TypeRef, IsNode typeRefVariants type.toValue (.typeRef type)
  | .declared id =>
      ⟨"declared", [⟨⟨"id", .index, none⟩, indexValue id.index, .index id.index⟩], _, rfl, rfl, rfl,
        .required (.index id.index) (by decide)⟩
  | .external name =>
      ⟨"external", [⟨⟨"name", .text, none⟩, .str name, .text name⟩], _, rfl, rfl, rfl,
        .required (.text name) (by decide)⟩
  | .array element =>
      ⟨"array", [⟨⟨"element", .typeRef, none⟩, element.toValue, .typeRef element⟩],
        _, rfl, rfl, rfl,
        .required (.node (fun _ _ => rfl) typeRefVariants_wellNamed element.isNode) (by decide)⟩

theorem TypeRef.reads (type : TypeRef) : Shape.typeRef.Reads type.toValue (.typeRef type) :=
  .node (fun _ _ => rfl) typeRefVariants_wellNamed type.isNode

/-- An optional position that may be left out. -/
theorem FilledSlot.Sound.optionalIndex {α : Type} {name : String}
    (index : α → UInt32) (o : Option α) (hn : (name, .null) ∈ defaultMembers) :
    FilledSlot.Sound ⟨⟨name, .optionalIndex, some (.optionalIndex none)⟩,
      .option (fun a => indexValue (index a)) o, .optionalIndex (o.map index)⟩ where
  reads := .optionalIndex index o
  absent hd := by
    cases o with
    | none => rfl
    | some a => exact nomatch default_value hd hn

theorem Symbol.isNode (symbol : Symbol) :
    IsNode symbolVariants symbol.toValue (.symbol symbol) := by
  cases symbol with
  | localVariable => exact ⟨"local", [], _, rfl, rfl, rfl, trivial⟩
  | field owner =>
    refine ⟨"field", [⟨⟨"owner", .optionalIndex, some (.optionalIndex none)⟩,
      .option (fun id : TypeId => indexValue id.index) owner,
      .optionalIndex (owner.map TypeId.index)⟩], _, rfl, rfl, ?_,
      .optionalIndex TypeId.index owner (mem_defaults rfl)⟩
    cases owner <;> rfl
  | property id =>
    exact ⟨"property", [⟨⟨"property", .index, none⟩, indexValue id.index, .index id.index⟩],
      _, rfl, rfl, rfl, .required (.index id.index) (by decide)⟩
  | enumMember => exact ⟨"enum_member", [], _, rfl, rfl, rfl, trivial⟩
  | method id =>
    exact ⟨"method", [⟨⟨"method", .index, none⟩, indexValue id.index, .index id.index⟩],
      _, rfl, rfl, rfl, .required (.index id.index) (by decide)⟩
  | typeName => exact ⟨"type", [], _, rfl, rfl, rfl, trivial⟩

theorem Symbol.reads (symbol : Symbol) : Shape.symbol.Reads symbol.toValue (.symbol symbol) :=
  .node (fun _ _ => rfl) symbolVariants_wellNamed symbol.isNode

/-! ## 6. Expressions -/

theorem exprVariants_wellNamed : WellNamed exprVariants := by decide

theorem elementVariants_wellNamed : WellNamed elementVariants := by decide

theorem listToValue_eq_map : ∀ es : List Expr, listToValue es = es.map Expr.toValue
  | [] => rfl
  | e :: rest => by rw [listToValue, listToValue_eq_map rest, List.map_cons]

theorem elementsToValue_eq_map : ∀ es : List Element, elementsToValue es = es.map Element.toValue
  | [] => rfl
  | e :: rest => by rw [elementsToValue, elementsToValue_eq_map rest, List.map_cons]

theorem initsToValue_eq_map : ∀ is : List MemberInit, initsToValue is = is.map MemberInit.toValue
  | [] => rfl
  | i :: rest => by rw [initsToValue, initsToValue_eq_map rest, List.map_cons]

/-- Expressions, given how each of them is read. -/
theorem exprs_read {es : List Expr} (h : ∀ e ∈ es, IsNode exprVariants e.toValue (.expr e)) :
    Shape.exprs.Reads (.arr (listToValue es)) (.exprs es) := by
  rw [listToValue_eq_map]
  exact .list .expr (fun _ _ => rfl) (fun _ => rfl) fun e he =>
    .node (fun _ _ => rfl) exprVariants_wellNamed (h e he)

/-- Elements, given how each of them is read. -/
theorem elements_read {es : List Element}
    (h : ∀ e ∈ es, IsNode elementVariants e.toValue (.element e)) :
    Shape.elements.Reads (.arr (elementsToValue es)) (.elements es) := by
  rw [elementsToValue_eq_map]
  exact .list .element (fun _ _ => rfl) (fun _ => rfl) fun e he =>
    .node (fun _ _ => rfl) elementVariants_wellNamed (h e he)

/-- A list that may be left out where it is empty. -/
theorem FilledSlot.Sound.list {α : Type} {name : String} {shape : Shape} {wrapAll : List α → Part}
    {write : List α → List Value} (as : List α) (h : shape.Reads (.arr (write as)) (wrapAll as))
    (hn : (name, .arr []) ∈ defaultMembers) (hwrite : write as = [] → as = []) :
    FilledSlot.Sound ⟨⟨name, shape, some (wrapAll [])⟩, .arr (write as), wrapAll as⟩ where
  reads := h
  absent hd := by
    have harr := default_value hd hn
    rw [hwrite (Value.arr.inj harr)]

/-- Arguments may be left out where there are none. -/
theorem args_sound {es : List Expr} (h : ∀ e ∈ es, IsNode exprVariants e.toValue (.expr e)) :
    FilledSlot.Sound ⟨⟨"args", .exprs, some (.exprs [])⟩, .arr (listToValue es), .exprs es⟩ := by
  refine .list es (exprs_read h) (mem_defaults rfl) fun hempty => ?_
  rw [listToValue_eq_map] at hempty
  exact List.map_eq_nil_iff.mp hempty

/-- A node is no null. -/
theorem IsNode.ne_null {variants : List Variant} {full : Value} {p : Part}
    (h : IsNode variants full p) : full ≠ .null := by
  obtain ⟨tag, rows, build, rfl, -⟩ := h
  exact nofun

/-- An optional expression, given how it is read. -/
theorem optionalExpr_reads (o : Option Expr)
    (h : ∀ e, o = some e → IsNode exprVariants e.toValue (.expr e)) :
    Shape.optionalExpr.Reads (optionToValue o) (.optionalExpr o) where
  plain := by
    cases o with
    | none => trivial
    | some e => exact (h e rfl).plain
  reads v hl budget hd := by
    cases budget with
    | zero => cases hd
    | succ budget =>
      cases o with
      | none =>
        cases hl
        rfl
      | some e =>
        have hnode := h e rfl
        have hne := hl.ne_null hnode.ne_null
        have hinner := hnode.inner exprVariants_wellNamed hl (Nat.le_of_lt_succ hd)
        cases v with
        | null => exact absurd rfl hne
        | _ =>
          simp only [Shape.read, Shape.readWith, hinner]
          rfl

/-- An optional expression may be left out where it is null. -/
theorem optionalExpr_sound {name : String} (hn : (name, .null) ∈ defaultMembers) (o : Option Expr)
    (h : ∀ e, o = some e → IsNode exprVariants e.toValue (.expr e)) :
    FilledSlot.Sound ⟨⟨name, .optionalExpr, some (.optionalExpr none)⟩, optionToValue o,
      .optionalExpr o⟩ where
  reads := optionalExpr_reads o h
  absent hd := by
    cases o with
    | none => rfl
    | some e => exact absurd (default_value hd hn) (h e rfl).ne_null

section Members

variable (name : String) (hn : name ∉ defaultMembers.map Prod.fst)
include hn

/-- A member that is an expression. -/
theorem expr_sound {e : Expr} (h : IsNode exprVariants e.toValue (.expr e)) :
    FilledSlot.Sound ⟨⟨name, .expr, none⟩, e.toValue, .expr e⟩ :=
  .required (.node (fun _ _ => rfl) exprVariants_wellNamed h) hn

/-- A member that is a text. -/
theorem text_sound (s : String) : FilledSlot.Sound ⟨⟨name, .text, none⟩, .str s, .text s⟩ :=
  .required (.text s) hn

end Members

/-- The value of a member, given how its expression is read. -/
theorem init_read {member : String} {value : Expr}
    (h : IsNode exprVariants value.toValue (.expr value)) :
    Shape.init.Reads (MemberInit.mk member value).toValue (.init (.mk member value)) where
  plain := ⟨trivial, h.plain, trivial⟩
  reads v hl budget hd := by
    cases hl with
    | obj hm hp =>
      cases budget with
      | zero => cases hd
      | succ budget =>
        rw [Value.depth, Nat.add_lt_add_iff_right] at hd
        let rows : List FilledSlot := [⟨⟨"member", .text, none⟩, .str member, .text member⟩,
          ⟨⟨"value", .expr, none⟩, value.toValue, .expr value⟩]
        have hn : (rows.map FilledSlot.name).Nodup := by simp [rows, FilledSlot.name]
        have hrows : List.Forall FilledSlot.Sound rows :=
          ⟨text_sound _ (by decide) member, expr_sound _ (by decide) h⟩
        have hbuild : buildInit (rows.map FilledSlot.part) = some (.init (.mk member value)) := rfl
        exact fromMembers_ok hn hrows hbuild hm hp hd

/-- The values of members, given how each of them is read. They may be left out where there are
none. -/
theorem inits_sound {is : List MemberInit} (h : ∀ i ∈ is, Shape.init.Reads i.toValue (.init i)) :
    FilledSlot.Sound ⟨⟨"initializers", .inits, some (.inits [])⟩, .arr (initsToValue is),
      .inits is⟩ := by
  have hreads : Shape.inits.Reads (.arr (initsToValue is)) (.inits is) := by
    rw [initsToValue_eq_map]
    exact .list .init (fun _ _ => rfl) (fun _ => rfl) h
  refine .list is hreads (mem_defaults rfl) fun hempty => ?_
  rw [initsToValue_eq_map] at hempty
  exact List.map_eq_nil_iff.mp hempty

mutual

/-- **Every expression is written as a node.** -/
theorem Expr.isNode : ∀ e : Expr, IsNode exprVariants e.toValue (.expr e)
  | .invocation receiver method args =>
      ⟨"invocation",
        [⟨⟨"receiver", .optionalExpr, some (.optionalExpr none)⟩, optionToValue receiver,
          .optionalExpr receiver⟩,
          ⟨⟨"method", .index, none⟩, indexValue method.index, .index method.index⟩,
          ⟨⟨"args", .exprs, some (.exprs [])⟩, .arr (listToValue args), .exprs args⟩],
        _, rfl, rfl, rfl, optionalExpr_sound (mem_defaults rfl) receiver (optional_isNode receiver),
        .required (.index method.index) (by decide), args_sound (all_isNode args)⟩
  | .elementAccess target index =>
      ⟨"element_access", [⟨⟨"target", .expr, none⟩, target.toValue, .expr target⟩,
        ⟨⟨"index", .expr, none⟩, index.toValue, .expr index⟩], _, rfl, rfl, rfl,
        expr_sound _ (by decide) (Expr.isNode target), expr_sound _ (by decide) (Expr.isNode index)⟩
  | .collection converted elements =>
      ⟨"collection", [⟨⟨"converted_type", .typeRef, none⟩, converted.toValue, .typeRef converted⟩,
        ⟨⟨"elements", .elements, none⟩, .arr (elementsToValue elements), .elements elements⟩],
        _, rfl, rfl, rfl, .required converted.reads (by decide),
        .required (elements_read (elements_isNode elements)) (by decide)⟩
  | .binary left op right =>
      ⟨"binary", [⟨⟨"left", .expr, none⟩, left.toValue, .expr left⟩,
        ⟨⟨"op", .text, none⟩, .str op, .text op⟩,
        ⟨⟨"right", .expr, none⟩, right.toValue, .expr right⟩], _, rfl, rfl, rfl,
        expr_sound _ (by decide) (Expr.isNode left), text_sound _ (by decide) op,
        expr_sound _ (by decide) (Expr.isNode right)⟩
  | .identifier name symbol =>
      ⟨"identifier", [⟨⟨"name", .text, none⟩, .str name, .text name⟩,
        ⟨⟨"symbol", .symbol, none⟩, symbol.toValue, .symbol symbol⟩], _, rfl, rfl, rfl,
        text_sound _ (by decide) name, .required symbol.reads (by decide)⟩
  | .implicitCreation args inits =>
      ⟨"implicit_object_creation",
        [⟨⟨"args", .exprs, some (.exprs [])⟩, .arr (listToValue args), .exprs args⟩,
          ⟨⟨"initializers", .inits, some (.inits [])⟩, .arr (initsToValue inits), .inits inits⟩],
        _, rfl, rfl, rfl, args_sound (all_isNode args), inits_sound (inits_read inits)⟩
  | .creation type constructor args => by
      refine ⟨"object_creation", [⟨⟨"ty", .index, none⟩, indexValue type.index, .index type.index⟩,
        ⟨⟨"constructor", .optionalIndex, some (.optionalIndex none)⟩,
          .option (fun id : ConstructorId => indexValue id.index) constructor,
          .optionalIndex (constructor.map ConstructorId.index)⟩,
        ⟨⟨"args", .exprs, some (.exprs [])⟩, .arr (listToValue args), .exprs args⟩],
        _, rfl, rfl, ?_, .required (.index type.index) (by decide),
        .optionalIndex ConstructorId.index constructor (mem_defaults rfl),
        args_sound (all_isNode args)⟩
      cases constructor <;> rfl
  | .memberAccess target name symbol =>
      ⟨"member_access", [⟨⟨"target", .expr, none⟩, target.toValue, .expr target⟩,
        ⟨⟨"name", .text, none⟩, .str name, .text name⟩,
        ⟨⟨"symbol", .symbol, none⟩, symbol.toValue, .symbol symbol⟩], _, rfl, rfl, rfl,
        expr_sound _ (by decide) (Expr.isNode target), text_sound _ (by decide) name,
        .required symbol.reads (by decide)⟩
  | .literal kind text =>
      ⟨"literal", [⟨⟨"literal", .literal, none⟩, .str kind.name, .literal kind⟩,
        ⟨⟨"text", .text, none⟩, .str text, .text text⟩], _, rfl, rfl, rfl,
        .required (.literal kind) (by decide), text_sound _ (by decide) text⟩
  | .prefixUnary op operand =>
      ⟨"prefix_unary", [⟨⟨"op", .text, none⟩, .str op, .text op⟩,
        ⟨⟨"operand", .expr, none⟩, operand.toValue, .expr operand⟩], _, rfl, rfl, rfl,
        text_sound _ (by decide) op, expr_sound _ (by decide) (Expr.isNode operand)⟩
  | .initializer elements =>
      ⟨"initializer", [⟨⟨"elements", .exprs, none⟩, .arr (listToValue elements), .exprs elements⟩],
        _, rfl, rfl, rfl, .required (exprs_read (all_isNode elements)) (by decide)⟩
  | .assignment left op right =>
      ⟨"assignment", [⟨⟨"left", .expr, none⟩, left.toValue, .expr left⟩,
        ⟨⟨"op", .text, none⟩, .str op, .text op⟩,
        ⟨⟨"right", .expr, none⟩, right.toValue, .expr right⟩], _, rfl, rfl, rfl,
        expr_sound _ (by decide) (Expr.isNode left), text_sound _ (by decide) op,
        expr_sound _ (by decide) (Expr.isNode right)⟩
  | .unsupported syntaxKind =>
      ⟨"unsupported", [⟨⟨"syntax_kind", .text, none⟩, .str syntaxKind, .text syntaxKind⟩],
        _, rfl, rfl, rfl, text_sound _ (by decide) syntaxKind⟩

theorem optional_isNode :
    ∀ o : Option Expr, ∀ e, o = some e → IsNode exprVariants e.toValue (.expr e)
  | none, _, h => nomatch h
  | some e, _, h => by
      cases h
      exact Expr.isNode e

theorem all_isNode : ∀ es : List Expr, ∀ e ∈ es, IsNode exprVariants e.toValue (.expr e)
  | [], _, h => nomatch h
  | first :: rest, e, h => by
      rcases List.mem_cons.mp h with he | h
      · rw [he]
        exact Expr.isNode first
      · exact all_isNode rest e h

theorem Element.isNode : ∀ e : Element, IsNode elementVariants e.toValue (.element e)
  | .single value =>
      ⟨"expression", [⟨⟨"expr", .expr, none⟩, value.toValue, .expr value⟩], _, rfl, rfl, rfl,
        expr_sound _ (by decide) (Expr.isNode value)⟩
  | .spread value =>
      ⟨"spread", [⟨⟨"expr", .expr, none⟩, value.toValue, .expr value⟩], _, rfl, rfl, rfl,
        expr_sound _ (by decide) (Expr.isNode value)⟩

theorem elements_isNode :
    ∀ es : List Element, ∀ e ∈ es, IsNode elementVariants e.toValue (.element e)
  | [], _, h => nomatch h
  | first :: rest, e, h => by
      rcases List.mem_cons.mp h with he | h
      · rw [he]
        exact Element.isNode first
      · exact elements_isNode rest e h

theorem MemberInit.reads : ∀ i : MemberInit, Shape.init.Reads i.toValue (.init i)
  | .mk _ value => init_read (Expr.isNode value)

theorem inits_read : ∀ is : List MemberInit, ∀ i ∈ is, Shape.init.Reads i.toValue (.init i)
  | [], _, h => nomatch h
  | first :: rest, i, h => by
      rcases List.mem_cons.mp h with hi | h
      · rw [hi]
        exact MemberInit.reads first
      · exact inits_read rest i h

end

/-! ## 7. Statements -/

theorem stmtVariants_wellNamed : WellNamed stmtVariants := by decide

theorem statementsToValue_eq_map : ∀ ss : List Stmt, statementsToValue ss = ss.map Stmt.toValue
  | [] => rfl
  | s :: rest => by rw [statementsToValue, statementsToValue_eq_map rest, List.map_cons]

/-- Statements, given how each of them is read. -/
theorem stmts_read {ss : List Stmt} (h : ∀ s ∈ ss, IsNode stmtVariants s.toValue (.stmt s)) :
    Shape.stmts.Reads (.arr (statementsToValue ss)) (.stmts ss) := by
  rw [statementsToValue_eq_map]
  exact .list .stmt (fun _ _ => rfl) (fun _ => rfl) fun s hs =>
    .node (fun _ _ => rfl) stmtVariants_wellNamed (h s hs)

/-- The body of a loop is never left out: it is a node, and the default of that name is null. -/
theorem loopBody_sound {s : Stmt} (h : IsNode stmtVariants s.toValue (.stmt s)) :
    FilledSlot.Sound ⟨⟨"body", .stmt, none⟩, s.toValue, .stmt s⟩ where
  reads := .node (fun _ _ => rfl) stmtVariants_wellNamed h
  absent hd := by
    have hnull : ("body", .null) ∈ defaultMembers := mem_defaults rfl
    exact absurd (default_value hd hnull) h.ne_null

mutual

/-- **Every statement is written as a node.** -/
theorem Stmt.isNode : ∀ s : Stmt, IsNode stmtVariants s.toValue (.stmt s)
  | .expression value =>
      ⟨"expression", [⟨⟨"expr", .expr, none⟩, value.toValue, .expr value⟩], _, rfl, rfl, rfl,
        expr_sound _ (by decide) value.isNode⟩
  | .whileLoop condition body =>
      ⟨"while", [⟨⟨"condition", .expr, none⟩, condition.toValue, .expr condition⟩,
        ⟨⟨"body", .stmt, none⟩, body.toValue, .stmt body⟩], _, rfl, rfl, rfl,
        expr_sound _ (by decide) condition.isNode, loopBody_sound (Stmt.isNode body)⟩
  | .block statements =>
      ⟨"block",
        [⟨⟨"statements", .stmts, none⟩, .arr (statementsToValue statements), .stmts statements⟩],
        _, rfl, rfl, rfl, .required (stmts_read (statements_isNode statements)) (by decide)⟩
  | .localDecl name type init =>
      ⟨"local_decl", [⟨⟨"name", .text, none⟩, .str name, .text name⟩,
        ⟨⟨"ty", .typeRef, none⟩, type.toValue, .typeRef type⟩,
        ⟨⟨"initializer", .optionalExpr, some (.optionalExpr none)⟩, optionToValue init,
          .optionalExpr init⟩],
        _, rfl, rfl, rfl, text_sound _ (by decide) name, .required type.reads (by decide),
        optionalExpr_sound (mem_defaults rfl) init (optional_isNode init)⟩
  | .unsupported syntaxKind =>
      ⟨"unsupported", [⟨⟨"syntax_kind", .text, none⟩, .str syntaxKind, .text syntaxKind⟩],
        _, rfl, rfl, rfl, text_sound _ (by decide) syntaxKind⟩

theorem statements_isNode : ∀ ss : List Stmt, ∀ s ∈ ss, IsNode stmtVariants s.toValue (.stmt s)
  | [], _, h => nomatch h
  | first :: rest, s, h => by
      rcases List.mem_cons.mp h with hs | h
      · rw [hs]
        exact Stmt.isNode first
      · exact statements_isNode rest s h

end

/-- **A statement is read from all loose forms of its written form.** -/
theorem Stmt.reads (s : Stmt) : Stmt.reader.Reads s.toValue s :=
  (s.isNode.outer stmtVariants_wellNamed).andThen rfl

end Lowering
