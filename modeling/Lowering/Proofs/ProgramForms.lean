import Lowering.Options
import Lowering.Proofs.TreeForms
import Mathlib.Data.List.Perm.Subperm

/-!
# Written programs are read back

Every declaration is read from all loose forms of its written form, and so is a program. A text that
is written by a program is read back as that program, up to the nesting that a document may have.

* `Program.reads` -- a program from all loose forms of its value, declaration by declaration;
* `ofJson_text` -- reading a text comes down to reading the value that it was written from;
* `Options.onlyAt` -- what options mean that say only some things.
-/

namespace Lowering

open Json

/-! ## 1. Declarations -/

/-- The position of a type is a number, so it is never null. -/
theorem indexValue_ne_null (i : UInt32) : indexValue i ≠ .null := by
  intro h
  cases h

theorem TypeId.reads (id : TypeId) : TypeId.reader.Reads (indexValue id.index) id :=
  (Reader.Reads.word32 id.index).andThen rfl

theorem TypeKind.reads (kind : TypeKind) : TypeKind.reader.Reads (.str kind.name) kind :=
  .choice (by cases kind <;> decide)

/-- A type text and a name are read, whatever is made of them. -/
theorem typedName_reads {α : Type} {build : List Entry → Option α} {a : α} {typeText name : String}
    (hbuild : build [.text typeText, .text name] = some a) :
    (recordOf (fun room => [Reader.field "type_text" .text Reader.text none room,
      Reader.field "name" .text Reader.text none room]) build).Reads
        (.obj [("type_text", .str typeText), ("name", .str name)]) a :=
  recordOf_reads
    (fun room => [.ofReader "type_text" .text Reader.text none room (.str typeText) typeText,
      .ofReader "name" .text Reader.text none room (.str name) name])
    (fun _ => rfl) (fun _ => rfl) (by simp)
    (fun _ => ⟨.required (.text typeText) (by decide), .required (.text name) (by decide)⟩)
    fun _ => hbuild

theorem FieldDecl.reads (f : FieldDecl) : FieldDecl.reader.Reads f.toValue f := typedName_reads rfl

theorem Param.reads (p : Param) : Param.reader.Reads p.toValue p := typedName_reads rfl

namespace Filled.Sound

variable {α π : Type} {r : Reader α} {write : α → Value} {name : String} {room : Nat}

/-- A list may be left out where it is empty. -/
theorem list {wrap : List α → π} (as : List α) (h : ∀ a, r.Reads (write a) a)
    (hn : (name, .arr []) ∈ defaultMembers) :
    (Filled.ofReader name wrap (Reader.list r) (some []) room (.list write as) as).Sound room := by
  refine .ofReader (.list fun a _ => h a) fun hd => ?_
  cases as with
  | nil => rfl
  | cons a rest => cases default_value hd hn

/-- A flag may be left out where it is down. -/
theorem flag {wrap : Bool → π} (b : Bool) (hn : (name, .bool false) ∈ defaultMembers) :
    (Filled.ofReader name wrap Reader.flag (some false) room (.bool b) b).Sound room := by
  refine .ofReader (.flag b) fun hd => ?_
  cases default_value hd hn
  rfl

/-- An optional part may be left out where it is null. -/
theorem option {wrap : Option α → π} (o : Option α) (h : ∀ a, r.Reads (write a) a)
    (hnull : ∀ a, write a ≠ .null) (hn : (name, .null) ∈ defaultMembers) :
    (Filled.ofReader name wrap (Reader.option r) (some none) room (.option write o) o).Sound
      room := by
  refine .ofReader (.option o h hnull) fun hd => ?_
  cases o with
  | none => rfl
  | some a => exact absurd (default_value hd hn) (hnull a)

end Filled.Sound

theorem TypeDecl.reads (t : TypeDecl) : TypeDecl.reader.Reads t.toValue t :=
  recordOf_reads
    (fun room => [.ofReader "name" .text Reader.text none room (.str t.name) t.name,
      .ofReader "kind" .kind TypeKind.reader none room (.str t.kind.name) t.kind,
      .ofReader "attributes" .texts (Reader.list Reader.text) (some []) room
        (.list .str t.attributes) t.attributes,
      .ofReader "is_static" .flag Reader.flag (some false) room (.bool t.isStatic) t.isStatic,
      .ofReader "fields" .fields (Reader.list FieldDecl.reader) (some []) room
        (.list FieldDecl.toValue t.fields) t.fields])
    (fun _ => rfl) (fun _ => rfl) (by simp)
    (fun _ => ⟨.required (.text t.name) (by decide), .required t.kind.reads (by decide),
      .list t.attributes .text (mem_defaults rfl), .flag t.isStatic (mem_defaults rfl),
      .list t.fields FieldDecl.reads (mem_defaults rfl)⟩)
    fun _ => rfl

/-- An optional owner may be left out. -/
theorem owner_sound (owner : Option TypeId) (room : Nat) :
    (Filled.ofReader "owner" Entry.optionalOwner (Reader.option TypeId.reader) (some none) room
      (ownerToValue owner) owner).Sound room :=
  .option owner TypeId.reads (fun id => indexValue_ne_null id.index) (mem_defaults rfl)

/-- A body may be left out where there is none. -/
theorem body_sound (body : Option (List Stmt)) (room : Nat) :
    (Filled.ofReader "body" Entry.body bodyReader (some none) room (bodyToValue body) body).Sound
      room := by
  have hbody : ∀ ss : List Stmt, (Reader.list Stmt.reader).Reads
      (.arr (statementsToValue ss)) ss := by
    intro ss
    rw [statementsToValue_eq_map]
    exact .list fun s _ => s.reads
  exact .option body hbody (fun _ => by simp) (mem_defaults rfl)

/-- Parameters may be left out where there are none. -/
theorem params_sound (params : List Param) (room : Nat) :
    (Filled.ofReader "params" Entry.params (Reader.list Param.reader) (some []) room
      (.list Param.toValue params) params).Sound room :=
  .list params Param.reads (mem_defaults rfl)

/-- Only a method without a result may leave its result type out. -/
theorem returnType_sound (returnType : String) (room : Nat) :
    (Filled.ofReader "return_type" Entry.text Reader.text (some "void") room (.str returnType)
      returnType).Sound room := by
  refine .ofReader (.text returnType) fun hd => ?_
  have hvoid : ("return_type", .str "void") ∈ defaultMembers := mem_defaults rfl
  cases default_value hd hvoid
  rfl

theorem MethodDecl.reads (m : MethodDecl) : MethodDecl.reader.Reads m.toValue m :=
  recordOf_reads
    (fun room => [
      .ofReader "owner" .optionalOwner (Reader.option TypeId.reader) (some none) room
        (ownerToValue m.owner) m.owner,
      .ofReader "name" .text Reader.text none room (.str m.name) m.name,
      .ofReader "is_native" .flag Reader.flag (some false) room (.bool m.isNative) m.isNative,
      .ofReader "is_static" .flag Reader.flag (some false) room (.bool m.isStatic) m.isStatic,
      .ofReader "params" .params (Reader.list Param.reader) (some []) room
        (.list Param.toValue m.params) m.params,
      .ofReader "return_type" .text Reader.text (some "void") room (.str m.returnType) m.returnType,
      .ofReader "body" .body bodyReader (some none) room (bodyToValue m.body) m.body])
    (fun _ => rfl) (fun _ => rfl) (by simp)
    (fun room => ⟨owner_sound m.owner room, .required (.text m.name) (by decide),
      .flag m.isNative (mem_defaults rfl), .flag m.isStatic (mem_defaults rfl),
      params_sound m.params room, returnType_sound m.returnType room, body_sound m.body room⟩)
    fun _ => rfl

theorem ConstructorDecl.reads (c : ConstructorDecl) : ConstructorDecl.reader.Reads c.toValue c := by
  -- the owner of a constructor has no default, and it never has the value for which others may be
  -- left out
  have howner : ("owner", indexValue c.owner.index) ∈ defaultMembers → none = some c.owner := by
    intro hd
    have hnull : ("owner", .null) ∈ defaultMembers := mem_defaults rfl
    exact absurd (default_value hd hnull) (indexValue_ne_null c.owner.index)
  exact recordOf_reads
    (fun room => [
      .ofReader "owner" .owner TypeId.reader none room (indexValue c.owner.index) c.owner,
      .ofReader "params" .params (Reader.list Param.reader) (some []) room
        (.list Param.toValue c.params) c.params,
      .ofReader "body" .body bodyReader (some none) room (bodyToValue c.body) c.body])
    (fun _ => rfl) (fun _ => rfl) (by simp)
    (fun room => ⟨.ofReader c.owner.reads howner, params_sound c.params room,
      body_sound c.body room⟩)
    fun _ => rfl

theorem PropertyDecl.reads (d : PropertyDecl) : PropertyDecl.reader.Reads d.toValue d :=
  recordOf_reads
    (fun room => [
      .ofReader "owner" .optionalOwner (Reader.option TypeId.reader) (some none) room
        (ownerToValue d.owner) d.owner,
      .ofReader "name" .text Reader.text none room (.str d.name) d.name,
      .ofReader "is_native" .flag Reader.flag (some false) room (.bool d.isNative) d.isNative])
    (fun _ => rfl) (fun _ => rfl) (by simp)
    (fun room => ⟨owner_sound d.owner room, .required (.text d.name) (by decide),
      .flag d.isNative (mem_defaults rfl)⟩)
    fun _ => rfl

/-! ## 2. Programs -/

/-- **A program is read from all loose forms of its written form.** -/
theorem Program.reads (p : Program) : Program.reader.Reads p.toValue p :=
  recordOf_reads
    (fun room => [
      .ofReader "types" .types (Reader.list TypeDecl.reader) (some []) room
        (.list TypeDecl.toValue p.types) p.types,
      .ofReader "methods" .methods (Reader.list MethodDecl.reader) (some []) room
        (.list MethodDecl.toValue p.methods) p.methods,
      .ofReader "constructors" .constructors (Reader.list ConstructorDecl.reader) (some []) room
        (.list ConstructorDecl.toValue p.constructors) p.constructors,
      .ofReader "properties" .properties (Reader.list PropertyDecl.reader) (some []) room
        (.list PropertyDecl.toValue p.properties) p.properties])
    (fun _ => rfl) (fun _ => rfl) (by simp)
    (fun _ => ⟨.list p.types TypeDecl.reads (mem_defaults rfl),
      .list p.methods MethodDecl.reads (mem_defaults rfl),
      .list p.constructors ConstructorDecl.reads (mem_defaults rfl),
      .list p.properties PropertyDecl.reads (mem_defaults rfl)⟩)
    fun _ => rfl

/-- Reading a text comes down to reading the value that it was written from. -/
theorem readBy_text {α : Type} (r : Reader α) {v : Value} (h : v.Plain) :
    (Document.scan v.text).readBy r = r Raw.nestingLimit (.ofValue v) := by
  rw [scan_text h]
  unfold Document.readBy Document.read
  cases r Raw.nestingLimit (.ofValue v) with
  | error e => rfl
  | ok a => rfl

/-- **What is read from a loose form of a program**: the program, if the text nests no deeper than a
document may. -/
theorem ofJson_text {p : Program} {v : Value} (h : Loose p.toValue v) :
    Program.ofJson v.text = within v.depth Raw.nestingLimit p := by
  unfold Program.ofJson
  rw [readBy_text _ (h.plain p.reads.plain), p.reads.reads v h]

/-- **A written program is read back.** Its text gives the program again if it nests no deeper than
127 brackets, and breaks the grammar if it does. -/
theorem ofJson_toJson (p : Program) :
    (Program.ofJson p.toJson).mapError Failure.category =
      if p.toValue.depth ≤ 127 then .ok p else .error "syntax" := by
  have hlimit : Raw.nestingLimit = 127 := rfl
  unfold Program.toJson
  rw [ofJson_text (.refl p.toValue), hlimit]
  by_cases h : p.toValue.depth ≤ 127
  · rw [if_pos h, within_of_le h]
    rfl
  · rw [if_neg h, within_of_lt (Nat.lt_of_not_le h)]
    rfl

/-! ## 3. Options -/

namespace Options

/-- The default options, overridden by others at some of the names. -/
def onlyAt (o : Options) (names : List String) : Options where
  entryPoint := if "entry_point" ∈ names then o.entryPoint else ({} : Options).entryPoint
  printPrimitive :=
    if "print_primitive" ∈ names then o.printPrimitive else ({} : Options).printPrimitive
  markerAttribute :=
    if "marker_attribute" ∈ names then o.markerAttribute else ({} : Options).markerAttribute
  headers := if "headers" ∈ names then o.headers else ({} : Options).headers

/-- The fields of options, filled with what the options have. -/
def filled (o : Options) (room : Nat) : List (Filled Raw Entry) :=
  [.ofReader "entry_point" .text Reader.text (some ({} : Options).entryPoint) room
      (.str o.entryPoint) o.entryPoint,
    .ofReader "print_primitive" .text Reader.text (some ({} : Options).printPrimitive) room
      (.str o.printPrimitive) o.printPrimitive,
    .ofReader "marker_attribute" .text Reader.text (some ({} : Options).markerAttribute) room
      (.str o.markerAttribute) o.markerAttribute,
    .ofReader "headers" .texts (Reader.list Reader.text) (some ({} : Options).headers) room
      (.list .str o.headers) o.headers]

/-- The options that are named stand where they were, in the overridden options too. -/
theorem mem_members_onlyAt {o : Options} {names : List String} {m : String × Value}
    (h : m ∈ o.members) (hm : m.1 ∈ names) : m ∈ (o.onlyAt names).members := by
  simp only [members, List.mem_cons, List.not_mem_nil, or_false] at h
  rcases h with rfl | rfl | rfl | rfl <;> simp [members, onlyAt, show _ ∈ names from hm]

/-- Each member of options fills its field. -/
theorem filled_reads {o : Options} {m : String × Value} (h : m ∈ o.members) (room : Nat) :
    ∃ row ∈ o.filled room, row.name = m.1 ∧
      row.field.read (.ofValue m.2) = within m.2.depth room row.part := by
  have htext : ∀ (name s : String) (absent : Option String),
      (Reader.field name Entry.text Reader.text absent room).read (.ofValue (.str s)) =
        within (Value.depth (.str s)) room (.text s) := by
    intro name s absent
    show Entry.text <$> Reader.text room (.ofValue (.str s)) = _
    rw [(Reader.Reads.text s).reads _ (.refl _) room, within_map]
  simp only [members, List.mem_cons, List.not_mem_nil, or_false] at h
  rcases h with rfl | rfl | rfl | rfl
  · exact ⟨_, .head _, rfl, htext _ _ _⟩
  · exact ⟨_, .tail _ (.head _), rfl, htext _ _ _⟩
  · exact ⟨_, .tail _ (.tail _ (.head _)), rfl, htext _ _ _⟩
  · refine ⟨_, .tail _ (.tail _ (.tail _ (.head _))), rfl, ?_⟩
    show Entry.texts <$> Reader.list Reader.text room (.ofValue (.list .str o.headers)) = _
    rw [(Reader.Reads.list fun s _ => Reader.Reads.text s).reads _ (.refl _) room, within_map]
    rfl

/-- Where options say nothing, the overridden ones are the default. -/
theorem absent_onlyAt (o : Options) (names : List String) (room : Nat) :
    ∀ row ∈ (o.onlyAt names).filled room, row.name ∉ names → row.field.absent = some row.part := by
  intro row hrow hname
  simp only [filled, List.mem_cons, List.not_mem_nil, or_false] at hrow
  rcases hrow with rfl | rfl | rfl | rfl
  · exact (congrArg (fun s => some (Entry.text s)) (if_neg hname)).symm
  · exact (congrArg (fun s => some (Entry.text s)) (if_neg hname)).symm
  · exact (congrArg (fun s => some (Entry.text s)) (if_neg hname)).symm
  · exact (congrArg (fun ss => some (Entry.texts ss)) (if_neg hname)).symm

/-- Members of options are texts or lists of texts. -/
theorem text_or_texts {o : Options} {m : String × Value} (h : m ∈ o.members) :
    (∃ s, m.2 = .str s) ∨ ∃ ss, m.2 = .list .str ss := by
  simp only [members, List.mem_cons, List.not_mem_nil, or_false] at h
  rcases h with rfl | rfl | rfl | rfl
  · exact .inl ⟨_, rfl⟩
  · exact .inl ⟨_, rfl⟩
  · exact .inl ⟨_, rfl⟩
  · exact .inr ⟨_, rfl⟩

theorem plain_of_member {o : Options} {m : String × Value} (h : m ∈ o.members) : m.2.Plain := by
  rcases text_or_texts h with ⟨s, hs⟩ | ⟨ss, hss⟩
  · rw [hs]
    trivial
  · rw [hss]
    exact (Reader.Reads.list fun s _ => Reader.Reads.text s).plain

/-- A member of options nests one array at most. -/
theorem depth_of_member {o : Options} {m : String × Value} (h : m ∈ o.members) : m.2.depth ≤ 1 := by
  have hitems : ∀ ss : List String, Value.depthItems (ss.map .str) = 0 := by
    intro ss
    induction ss with
    | nil => rfl
    | cons s rest ih => simp [Value.depthItems, Value.depth, ih]
  rcases text_or_texts h with ⟨s, hs⟩ | ⟨ss, hss⟩
  · have hdepth : m.2.depth = 0 := by
      rw [hs]
      rfl
    omega
  · have hdepth : m.2.depth = 1 := by
      rw [hss, Value.list, Value.depth, hitems ss]
    omega

/-- **Options that say only some things, in any order**, are the default options overridden at
these. -/
theorem ofJson_onlyAt {o : Options} {ms : List (String × Value)} (h : ms.Subperm o.members) :
    Options.ofJson (Value.text (.obj ms)) = .ok (o.onlyAt (ms.map Prod.fst)) := by
  have hplain : (Value.obj ms).Plain :=
    plainMembers_iff.mpr fun m hm => plain_of_member (h.subset hm)
  have hdoc : (ms.map Prod.fst).Nodup := by
    have hnames : (o.members.map Prod.fst).Nodup := by simp [members]
    obtain ⟨kept, hperm, hkept⟩ := h
    exact (hperm.map Prod.fst).nodup_iff.mp ((hkept.map Prod.fst).nodup hnames)
  have hdepth : Value.depthMembers ms ≤ 1 :=
    depthMembers_le fun m hm => depth_of_member (h.subset hm)
  have hnames : (((o.onlyAt (ms.map Prod.fst)).filled 126).map Filled.name).Nodup := by
    simp [filled, Filled.name, Filled.ofReader, Reader.field]
  have hread : ∀ m ∈ ms, ∃ row ∈ (o.onlyAt (ms.map Prod.fst)).filled 126, row.name = m.1 ∧
      row.field.read (.ofValue m.2) = within m.2.depth 126 row.part := fun m hm =>
    filled_reads (mem_members_onlyAt (h.subset hm) (List.mem_map_of_mem hm)) 126
  unfold Options.ofJson
  rw [readBy_text _ hplain]
  show recordOf _ _ (126 + 1) _ = _
  rw [← within_of_le (Nat.le_trans hdepth (show 1 ≤ 126 by omega))]
  refine recordOf_within ?_ hnames ?_ hdoc hread (o.absent_onlyAt _ 126)
  · rfl
  · rfl

end Options

/-! ## 4. Loose documents -/

/-- **Loose documents are read as what they stand for.** A document of a program may leave out what
has its default and order its members at will. A document of options may name any of them, in any
order. -/
theorem loose_documents_read {p : Program} {doc : Value} {o : Options} {ms : List (String × Value)}
    (hdepth : p.toValue.depth ≤ 127) (hdoc : Loose p.toValue doc) (hms : ms.Subperm o.members) :
    Program.ofJson doc.text = .ok p ∧
      Options.ofJson (Value.text (.obj ms)) = .ok (o.onlyAt (ms.map Prod.fst)) := by
  refine ⟨?_, Options.ofJson_onlyAt hms⟩
  rw [ofJson_text hdoc]
  exact within_of_le (Nat.le_trans hdoc.depth_le hdepth)

/-- A type with a method that calls itself. -/
def tender : Program :=
  { types := [.classNamed "Tender"],
    methods :=
      [(MethodDecl.instanceOf ⟨0⟩ "Ferry").withBody [.expression (.invocation none ⟨0⟩ [])]] }

/-- The same, with nothing that could be left out, and with tags behind. -/
def tenderLoosely : Value :=
  .obj [("methods", .arr [.obj [("body", .arr [.obj [
      ("expr", .obj [("method", .nat 0), ("kind", .str "invocation")]),
      ("kind", .str "expression")]]), ("name", .str "Ferry"), ("owner", .nat 0)]]),
    ("types", .arr [.obj [("kind", .str "class"), ("name", .str "Tender")]])]

theorem tender_loose : Loose tender.toValue tenderLoosely := by
  have hcall : Loose (Expr.toValue (.invocation none ⟨0⟩ []))
      (.obj [("method", .nat 0), ("kind", .str "invocation")]) :=
    .obj (.keep _ (.refl _) (.drop (mem_defaults rfl) (.keep _ (.refl _)
      (.drop (mem_defaults rfl) .nil)))) (.swap _ _ _)
  have hbody : Loose (Stmt.toValue (.expression (.invocation none ⟨0⟩ []))) (.obj [
      ("expr", .obj [("method", .nat 0), ("kind", .str "invocation")]),
      ("kind", .str "expression")]) :=
    .obj (.keep _ (.refl _) (.keep _ hcall .nil)) (.swap _ _ _)
  have htype : Loose (TypeDecl.classNamed "Tender").toValue
      (.obj [("kind", .str "class"), ("name", .str "Tender")]) :=
    .obj (.keep _ (.refl _) (.keep _ (.refl _) (.drop (mem_defaults rfl) (.drop (mem_defaults rfl)
      (.drop (mem_defaults rfl) .nil))))) (.swap _ _ _)
  have hmethod : Loose ((MethodDecl.instanceOf ⟨0⟩ "Ferry").withBody
      [.expression (.invocation none ⟨0⟩ [])]).toValue (.obj [("body", .arr [.obj [
        ("expr", .obj [("method", .nat 0), ("kind", .str "invocation")]),
        ("kind", .str "expression")]]), ("name", .str "Ferry"), ("owner", .nat 0)]) :=
    .obj (.keep _ (.refl _) (.keep _ (.refl _) (.drop (mem_defaults rfl) (.drop (mem_defaults rfl)
      (.drop (mem_defaults rfl) (.drop (mem_defaults rfl)
        (.keep _ (.arr (.cons hbody .nil)) .nil)))))))
      (List.reverse_perm [_, _, _]).symm
  exact .obj (.keep _ (.arr (.cons htype .nil)) (.keep _ (.arr (.cons hmethod .nil))
    (.drop (mem_defaults rfl) (.drop (mem_defaults rfl) .nil)))) (.swap _ _ _)

theorem tender_read_loosely :
    tender.toValue.depth ≤ 127 ∧ Program.ofJson tenderLoosely.text = .ok tender ∧
      Options.ofJson (Value.text (.obj [("headers", .arr []), ("entry_point", .str "Launch")])) =
        .ok { entryPoint := "Launch", headers := [] } := by
  have hdepth : tender.toValue.depth ≤ 127 := by decide
  have hmembers : [("headers", .arr []), ("entry_point", .str "Launch")].Subperm
      (Options.members { entryPoint := "Launch", headers := [] }) := by
    refine ⟨_, .swap _ _ _, ?_⟩
    exact .cons_cons _ (.cons _ (.cons _ (.cons_cons _ .slnil)))
  obtain ⟨hprogram, hoptions⟩ := loose_documents_read hdepth tender_loose hmembers
  exact ⟨hdepth, hprogram, hoptions⟩

end Lowering
