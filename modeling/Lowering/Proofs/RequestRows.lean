import Lowering.Proofs.NameRequests
import Lowering.Proofs.Numbering
import Lowering.Proofs.Owners
import Mathlib.Data.List.Perm.Subperm

/-!
# Rows of requests

Names may be asked for in any order, again and again, and also for keys that have none. What a row
of requests is answered can be read off the table at its end, because a name never changes once it
is there and a refused request leaves no mark. The running numbers count the keys that were granted.

* `NameTable.requests` -- requests one after the other, refused or not;
* `requests_answers` -- the answers, read off the last table;
* `grantedKeys` -- the numbered keys that were granted, in the order of the requests;
* `numbering_follows_first_requests` -- the law of the running numbers.
-/

namespace Lowering

variable {p : Program} {t : NameTable} {key : NameKey}

/-! ## 1. Requests one after the other -/

namespace NameTable

/-- The answer to a request for a name, and the table after it. -/
def request (p : Program) (t : NameTable) (key : NameKey) : Except Refusal String × NameTable :=
  match nameOf p key t with
  | .ok name t => (.ok name, t)
  | .error r t => (.error r, t)

/-- The answers to requests one after the other, refused or not, and the table after them. -/
def requests (p : Program) (t : NameTable) : List NameKey → List (Except Refusal String) × NameTable
  | [] => ([], t)
  | key :: rest =>
    let (answer, t) := t.request p key
    let (answers, t) := requests p t rest
    (answer :: answers, t)

/-- The answer for a key: the name that the table has, or why there is none. -/
def answer (p : Program) (t : NameTable) (key : NameKey) : Except Refusal String :=
  (p.stem key).map fun _ => t.spelling key

theorem request_eq (ht : t.Sound p) (key : NameKey) :
    t.request p key = ((t.ask p key).answer p key, t.ask p key) := by
  unfold request answer
  cases hs : p.stem key with
  | ok s =>
    rw [nameOf_ok ht hs]
    rfl
  | error r =>
    rw [nameOf_refused ht hs, ask_of_error hs]
    rfl

/-- The answer for a key that was asked for is the same on all later tables. -/
theorem answer_of_asked (ht : t.Sound p) (keys rest : List NameKey) (hk : key ∈ keys) :
    ((t.askAll p keys).askAll p rest).answer p key = (t.askAll p keys).answer p key := by
  unfold answer
  rw [spelling_of_asked ht keys rest hk]

/-- **The answers to a row of requests can be read off the last table**, and that table has exactly
what was asked for. -/
theorem requests_eq (ht : t.Sound p) (keys : List NameKey) :
    t.requests p keys = (keys.map ((t.askAll p keys).answer p), t.askAll p keys) := by
  induction keys generalizing t with
  | nil => rfl
  | cons key rest ih =>
    have hrest := ih (ht.ask key)
    have hkey : ((t.ask p key).askAll p rest).answer p key = (t.ask p key).answer p key :=
      answer_of_asked ht [key] rest (List.mem_singleton_self key)
    unfold requests
    rw [request_eq ht key]
    simp only [hrest, List.map_cons, askAll_cons, hkey]

theorem requests_answers (p : Program) (keys : List NameKey) :
    (requests p {} keys).1 = keys.map (answer p (askAll p {} keys)) := by
  rw [requests_eq (Sound.empty p)]

theorem requests_table (p : Program) (keys : List NameKey) :
    (requests p {} keys).2 = askAll p {} keys := by
  rw [requests_eq (Sound.empty p)]

end NameTable

/-! ## 2. Granted keys -/

/-- The numbered keys whose requests were granted, in the order of the requests. -/
def grantedKeys (keys : List NameKey) (answers : List (Except Refusal String)) : List NameKey :=
  ((keys.zip answers).filter fun (key, answer) => key.isNumbered && answer.isOk).map Prod.fst

/-- A key is granted if it has a stem. -/
theorem grantedKeys_answers (p : Program) (t : NameTable) (keys : List NameKey) :
    grantedKeys keys (keys.map (t.answer p)) =
      keys.filter fun key => key.isNumbered && (p.stem key).isOk := by
  unfold grantedKeys
  induction keys with
  | nil => rfl
  | cons key rest ih =>
    have hkey : (t.answer p key).isOk = (p.stem key).isOk := by
      unfold NameTable.answer
      cases p.stem key <;> rfl
    simp only [List.map_cons, List.zip_cons_cons, List.filter_cons, hkey]
    split
    · rw [List.map_cons, ih]
    · exact ih

/-- Requests for keys without a stem leave no mark. -/
theorem askAll_stemmed (p : Program) (t : NameTable) (keys : List NameKey) :
    t.askAll p keys = t.askAll p (keys.filter fun key => (p.stem key).isOk) := by
  induction keys generalizing t with
  | nil => rfl
  | cons key rest ih =>
    rw [NameTable.askAll_cons, List.filter_cons]
    cases hs : p.stem key with
    | ok s => exact ih (t.ask p key)
    | error r =>
      rw [NameTable.ask_of_error hs]
      exact ih t

theorem stem_of_isOk (h : (p.stem key).isOk = true) : ∃ s, p.stem key = .ok s := by
  cases hs : p.stem key with
  | ok s => exact ⟨s, rfl⟩
  | error r =>
    rw [hs] at h
    cases h

/-- **After a row of requests the table has the numbers of the granted keys.** -/
theorem requests_numbers (p : Program) (keys : List NameKey) :
    Numbers p (grantedKeys keys (NameTable.requests p {} keys).1)
      (NameTable.requests p {} keys).2 := by
  have hstemmed : ∀ k ∈ keys.filter (fun key => (p.stem key).isOk), ∃ s, p.stem k = .ok s :=
    fun k hk => stem_of_isOk (List.mem_filter.mp hk).2
  have hnumbers := Numbers.askAll _ (Numbers.empty p) hstemmed
  rw [List.nil_append, List.filter_filter, ← askAll_stemmed] at hnumbers
  rw [NameTable.requests_answers, NameTable.requests_table, grantedKeys_answers]
  exact hnumbers

/-- The place of a key among the distinct ones is the number of distinct keys before it. -/
theorem idxOf_eraseDups {keys : List NameKey} (h : key ∈ keys) :
    keys.eraseDups.idxOf key = (keys.takeWhile (· != key)).eraseDups.length := by
  obtain ⟨before, after, rfl, hnew⟩ := List.eq_append_cons_of_mem h
  have hbefore : (before ++ key :: after).takeWhile (· != key) = before := by
    have hne : ∀ k ∈ before, (k != key) = true := by
      rintro k hk
      rw [bne_iff_ne]
      rintro rfl
      exact hnew hk
    rw [List.takeWhile_append_of_pos hne]
    simp
  have hfirst : ((key :: after).removeAll before).eraseDups.idxOf key = 0 := by
    rw [List.removeAll, List.filter_cons_of_pos (by simpa using hnew), List.eraseDups_cons,
      List.idxOf_cons_self]
  rw [hbefore, List.eraseDups_append,
    List.idxOf_append_of_notMem (mt List.mem_eraseDups.mp hnew), hfirst, Nat.add_zero]

/-! ## 3. How many numbers there can be -/

theorem nodup_eraseDups : ∀ keys : List NameKey, keys.eraseDups.Nodup
  | [] => List.nodup_nil
  | key :: rest => by
      rw [List.eraseDups_cons, List.nodup_cons]
      exact ⟨by simp [List.mem_eraseDups], nodup_eraseDups _⟩
termination_by keys => keys.length
decreasing_by exact Nat.lt_succ_of_le (List.length_filter_le _ _)

/-- The keys of a program that could have a numbered name. -/
def Program.numberedKeys (p : Program) : List NameKey :=
  (List.range p.methods.length).map .method ++
    ((List.range p.constructors.length).map .constructor ++
      (List.range p.types.length).map .allocator)

theorem length_numberedKeys (p : Program) :
    p.numberedKeys.length = p.methods.length + p.constructors.length + p.types.length := by
  simp [Program.numberedKeys, Nat.add_assoc]

theorem mem_numberedKeys (hn : key.isNumbered = true) (h : p.Nameable key) :
    key ∈ p.numberedKeys := by
  unfold Program.numberedKeys
  cases key with
  | type i => cases hn
  | method i =>
    obtain ⟨m, hm, -⟩ := h
    have hi := (List.getElem?_eq_some_iff.mp hm).1
    exact List.mem_append_left _ (List.mem_map_of_mem (List.mem_range.mpr hi))
  | constructor i =>
    obtain ⟨k, hk⟩ := h
    have hi := (List.getElem?_eq_some_iff.mp hk).1
    exact List.mem_append_right _ (List.mem_append_left _
      (List.mem_map_of_mem (List.mem_range.mpr hi)))
  | allocator i =>
    obtain ⟨t, ht, -⟩ := h
    have hi := (List.getElem?_eq_some_iff.mp ht).1
    exact List.mem_append_right _ (List.mem_append_right _
      (List.mem_map_of_mem (List.mem_range.mpr hi)))

/-- **There are no more numbers than declarations**, however many requests there were. -/
theorem granted_le_declarations {keys : List NameKey}
    (h : ∀ k ∈ keys, k.isNumbered = true ∧ p.Nameable k) :
    keys.eraseDups.length ≤ p.methods.length + p.constructors.length + p.types.length := by
  have hsub : keys.eraseDups ⊆ p.numberedKeys := by
    intro k hk
    obtain ⟨hn, hname⟩ := h k (List.mem_eraseDups.mp hk)
    exact mem_numberedKeys hn hname
  have hle := ((nodup_eraseDups keys).subperm hsub).length_le
  rw [length_numberedKeys] at hle
  exact hle

/-! ## 4. The law -/

/-- A numbered name is the stem of its key, and the number of distinct keys that were granted
before. -/
theorem answer_numbered {granted : List NameKey} {name : String} (h : Numbers p granted t)
    (hn : key.isNumbered = true) (hk : key ∈ granted) (ha : t.answer p key = .ok name) :
    ∃ stem, p.stem key = .ok stem ∧
      name = stem ++ decimal (granted.takeWhile (· != key)).eraseDups.length := by
  have hfound := h.found key hn
  rw [if_pos hk] at hfound
  unfold NameTable.answer at ha
  cases hs : p.stem key with
  | error r =>
    rw [hs] at ha
    cases ha
  | ok stem =>
    rw [hs] at ha
    have hname : t.spelling key = name := Except.ok.inj ha
    refine ⟨stem, rfl, ?_⟩
    rw [← hname, NameTable.spelling_of_found hfound, ← idxOf_eraseDups hk]
    simp only [spellingOf, hs, hn, ↓reduceIte]

/-- The name of a type that was asked for is the one that it is declared with. -/
theorem answer_type {keys : List NameKey} {i : Nat} {name : String} (hk : .type i ∈ keys)
    (ha : NameTable.answer p (NameTable.askAll p {} keys) (.type i) = .ok name) :
    ∃ d, p.types[i]? = some d ∧ name = d.name := by
  have hsound := NameTable.Sound.askAll p keys (NameTable.Sound.empty p)
  unfold NameTable.answer at ha
  cases hs : p.stem (.type i) with
  | error r =>
    rw [hs] at ha
    cases ha
  | ok stem =>
    rw [hs] at ha
    obtain ⟨found, hfound⟩ := NameTable.find?_askAll_of_mem {} hk hs
    have hname : found = name := by
      rw [← NameTable.spelling_of_found hfound]
      exact Except.ok.inj ha
    obtain ⟨d, hd, -, hdname⟩ := typeStem_eq_ok.mp (hsound.named i found hfound)
    exact ⟨d, hd, by rw [hdname, hname]⟩

/-- In a checked program a request is refused exactly if the key cannot have a name. -/
theorem request_refused_iff (ho : p.checkOwners = .ok ()) (ht : t.Sound p) (key : NameKey) :
    (∃ r, (t.request p key).1 = .error r) ↔ ¬ p.Nameable key := by
  rw [NameTable.request_eq ht]
  unfold NameTable.answer
  cases hs : p.stem key with
  | ok s =>
    constructor
    · rintro ⟨r, hr⟩
      cases hr
    · exact fun h => absurd (nameable_of_stem hs) h
  | error r =>
    refine ⟨fun _ hn => ?_, fun _ => ⟨r, rfl⟩⟩
    obtain ⟨s, hs'⟩ := stem_of_nameable ho hn
    rw [hs] at hs'
    cases hs'

theorem request_refused_table {r : Refusal} (ht : t.Sound p) (h : (t.request p key).1 = .error r) :
    (t.request p key).2 = t := by
  rw [NameTable.request_eq ht] at h ⊢
  unfold NameTable.answer at h
  cases hs : p.stem key with
  | ok s =>
    rw [hs] at h
    cases h
  | error r' => exact NameTable.ask_of_error hs

/-- The granted keys are numbered and can have a name. -/
theorem of_mem_grantedKeys {keys : List NameKey}
    (h : key ∈ grantedKeys keys (NameTable.requests p {} keys).1) :
    key.isNumbered = true ∧ p.Nameable key := by
  rw [NameTable.requests_answers, grantedKeys_answers, List.mem_filter, Bool.and_eq_true] at h
  obtain ⟨s, hs⟩ := stem_of_isOk h.2.2
  exact ⟨h.2.1, nameable_of_stem hs⟩

theorem mem_grantedKeys {keys : List NameKey} {i : Nat} {name : String} (hn : key.isNumbered = true)
    (hk : keys[i]? = some key) (ha : (NameTable.requests p {} keys).1[i]? = some (.ok name)) :
    key ∈ grantedKeys keys (NameTable.requests p {} keys).1 := by
  have hzip : (keys.zip (NameTable.requests p {} keys).1)[i]? = some (key, .ok name) :=
    List.getElem?_zip_eq_some.mpr ⟨hk, ha⟩
  unfold grantedKeys
  refine List.mem_map.mpr ⟨(key, .ok name),
    List.mem_filter.mpr ⟨List.mem_of_getElem? hzip, ?_⟩, rfl⟩
  show (key.isNumbered && true) = true
  rw [hn, Bool.and_true]

/-- **Numbers follow the order of first requests.** After any row of requests on an empty table,
granted or refused: a granted numbered key has its stem and the number of distinct keys that were
granted before its own first grant; the same key always has the same answer; a type has the name it
is declared with, and takes no number; a request is refused exactly if the key cannot have a name,
and leaves the table as it is. So the counter is the number of keys granted. It stays below the
number of declarations, and a word of 32 bits holds it if there are fewer declarations than such
words. -/
theorem numbering_follows_first_requests (ho : p.checkOwners = .ok ()) (keys : List NameKey) :
    let answers := (NameTable.requests p {} keys).1
    let table := (NameTable.requests p {} keys).2
    let granted := grantedKeys keys answers
    (∀ (i : Nat) key name, key.isNumbered = true → keys[i]? = some key →
      answers[i]? = some (.ok name) →
      ∃ stem, p.stem key = .ok stem ∧
        name = stem ++ decimal (granted.takeWhile (· != key)).eraseDups.length) ∧
    (∀ i j : Nat, keys[i]? = keys[j]? → answers[i]? = answers[j]?) ∧
    (∀ (i k : Nat) name, keys[i]? = some (.type k) → answers[i]? = some (.ok name) →
      ∃ d, p.types[k]? = some d ∧ name = d.name) ∧
    (∀ k, (table.request p (.type k)).2.next = table.next) ∧
    (∀ key, (∃ r, (table.request p key).1 = .error r) ↔ ¬ p.Nameable key) ∧
    (∀ key r, (table.request p key).1 = .error r → (table.request p key).2 = table) ∧
    table.next = granted.eraseDups.length ∧
    table.next ≤ p.methods.length + p.constructors.length + p.types.length ∧
    (p.methods.length + p.constructors.length + p.types.length < UInt32.size →
      (UInt32.ofNat table.next).toNat = table.next) := by
  intro answers table granted
  have hend : table = NameTable.askAll p {} keys := NameTable.requests_table p keys
  have htable : table.Sound p := hend ▸ NameTable.Sound.askAll p keys (NameTable.Sound.empty p)
  have hanswers : ∀ i : Nat, answers[i]? = keys[i]?.map (table.answer p) := by
    intro i
    have hmap : answers = keys.map (table.answer p) := hend ▸ NameTable.requests_answers p keys
    rw [hmap, List.getElem?_map]
  have hnumbers : Numbers p granted table := requests_numbers p keys
  have hle : table.next ≤ p.methods.length + p.constructors.length + p.types.length := by
    rw [hnumbers.next]
    exact granted_le_declarations fun k hk => of_mem_grantedKeys hk
  refine ⟨fun i key name hn hk ha => ?_, fun i j h => ?_, fun i k name hk ha => ?_, fun k => ?_,
    request_refused_iff ho htable, fun key r => request_refused_table htable, hnumbers.next, hle,
    fun hlt => ?_⟩
  · have hgranted : key ∈ granted := mem_grantedKeys hn hk ha
    rw [hanswers, hk] at ha
    exact answer_numbered hnumbers hn hgranted (Option.some.inj ha)
  · rw [hanswers, hanswers, h]
  · rw [hanswers, hk] at ha
    exact answer_type (List.mem_of_getElem? hk) (hend ▸ Option.some.inj ha)
  · rw [NameTable.request_eq htable]
    exact next_settle_type p table k
  · rw [UInt32.toNat_ofNat']
    exact Nat.mod_eq_of_lt (Nat.lt_of_le_of_lt hle hlt)

/-- A program with a key of each kind that cannot have a name: an enumeration, its allocator, and a
method that belongs to no type. -/
def harbor : Program where
  types := [.classNamed "Dock", .enumNamed "Tide", .structNamed "Crane"]
  methods := [.instanceOf ⟨0⟩ "load", .native none "wait"]
  constructors := [{ owner := ⟨2⟩ }]

/-- Requests with refusals and repeats between them. -/
def harborRow : List NameKey :=
  [.allocator 1, .method 0, .method 1, .type 0, .constructor 0, .method 0, .type 1,
    .allocator 2, .method 7]

/-- In the harbor the allocator of the crane gets its number behind the method and the constructor.
The refused requests take no number, and a word of 32 bits holds the counter. -/
theorem harbor_numbering :
    let answers := (NameTable.requests harbor {} harborRow).1
    let table := (NameTable.requests harbor {} harborRow).2
    harbor.checkOwners = .ok () ∧
      answers[7]? = some (.ok "Crane_defaultConstructor_2") ∧ answers[1]? = answers[5]? ∧
      (∃ r, (table.request harbor (.allocator 1)).1 = .error r) ∧
      (table.request harbor (.allocator 1)).2 = table ∧
      table.next = 3 ∧ (UInt32.ofNat table.next).toNat = table.next := by
  intro answers table
  have ho : harbor.checkOwners = .ok () := rfl
  obtain ⟨-, hsame, -, -, hrefused, hkept, hnext, -, hword⟩ :=
    numbering_follows_first_requests ho harborRow
  have hnameless : ¬ harbor.Nameable (.allocator 1) := by
    rintro ⟨d, hd, hk⟩
    cases hd
    exact hk rfl
  obtain ⟨r, hr⟩ := (hrefused (.allocator 1)).mpr hnameless
  refine ⟨ho, ?_, hsame 1 5 rfl, ⟨r, hr⟩, hkept _ r hr, hnext.trans ?_, hword (by decide)⟩
  · decide +kernel
  · decide +kernel

end Lowering
