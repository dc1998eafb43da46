import Lowering.Proofs.NameTables

/-!
# Numbers follow first requests

The running numbers of a table are not stored with the keys. They can still be told from the
requests alone: a key has the place of its first request among the distinct keys that were asked
for.

* `spellingOf` -- the names that a row of requested keys leads to;
* `Numbers` -- a table that has the names of such a row;
* `Numbers.askAll` -- requests that are all granted keep this.
-/

namespace Lowering

/-- The spelling that keys get when the numbered ones are asked for in the order of `keys`: the
number is the place of the key among the distinct ones. -/
def spellingOf (p : Program) (keys : List NameKey) : Spelling := fun key =>
  match p.stem key with
  | .error _ => ""
  | .ok s => if key.isNumbered then s ++ decimal (keys.eraseDups.idxOf key) else s

/-- **The numbers of a table follow the order of first requests**: the numbered keys that have a
name are those of `keys`, and each has the number of its first occurrence. -/
structure Numbers (p : Program) (keys : List NameKey) (t : NameTable) : Prop where
  next : t.next = keys.eraseDups.length
  found : ∀ k, k.isNumbered = true →
    t.find? k = if k ∈ keys then some (spellingOf p keys k) else none

variable {p : Program} {keys : List NameKey} {t : NameTable} {key k : NameKey} {s : String}

/-! ## 1. One more key -/

theorem eraseDups_known (h : key ∈ keys) : (keys ++ [key]).eraseDups = keys.eraseDups := by
  rw [List.eraseDups_append]
  simp [List.removeAll, h]

theorem eraseDups_new (h : key ∉ keys) : (keys ++ [key]).eraseDups = keys.eraseDups ++ [key] := by
  rw [List.eraseDups_append]
  simp [List.removeAll, h, List.eraseDups_cons]

theorem spellingOf_known (h : key ∈ keys) : spellingOf p (keys ++ [key]) = spellingOf p keys := by
  unfold spellingOf
  rw [eraseDups_known h]

/-- A new key at the end leaves the numbers of the others. -/
theorem spellingOf_old (h : key ∉ keys) (hk : k ∈ keys) :
    spellingOf p (keys ++ [key]) k = spellingOf p keys k := by
  unfold spellingOf
  rw [eraseDups_new h, List.idxOf_append, if_pos (List.mem_eraseDups.mpr hk)]

theorem spellingOf_new (h : key ∉ keys) (hn : key.isNumbered = true) (hs : p.stem key = .ok s) :
    spellingOf p (keys ++ [key]) key = s ++ decimal keys.eraseDups.length := by
  unfold spellingOf
  rw [hs, eraseDups_new h, List.idxOf_append, if_neg (mt List.mem_eraseDups.mp h)]
  simp [hn]

/-! ## 2. Requests -/

theorem Numbers.empty (p : Program) : Numbers p [] {} where
  next := rfl
  found _ _ := rfl

/-- A key that was asked for before adds nothing to the row. -/
theorem Numbers.known (h : Numbers p keys t) (hm : key ∈ keys) : Numbers p (keys ++ [key]) t where
  next := by rw [eraseDups_known hm]; exact h.next
  found k hk := by
    have hiff : k ∈ keys ++ [key] ↔ k ∈ keys := by
      simp only [List.mem_append, List.mem_singleton]
      exact ⟨fun h => h.elim id fun e => e ▸ hm, Or.inl⟩
    rw [spellingOf_known hm, h.found k hk]
    simp only [hiff]

/-- A new key gets the next number. -/
theorem Numbers.enter (h : Numbers p keys t) (hn : key.isNumbered = true) (hm : key ∉ keys)
    (hs : p.stem key = .ok s) : Numbers p (keys ++ [key]) (t.enter key s) where
  next := by
    rw [eraseDups_new hm, List.length_append, ← h.next]
    unfold NameTable.enter
    rw [hn]
    rfl
  found k hk := by
    rw [NameTable.find?_enter]
    by_cases e : k = key
    · subst e
      rw [if_pos rfl, if_pos (List.mem_append_right _ (List.mem_singleton_self _)), hn,
        spellingOf_new hm hn hs, h.next]
      rfl
    · rw [if_neg e, h.found k hk]
      by_cases hkk : k ∈ keys
      · rw [if_pos hkk, if_pos (List.mem_append_left _ hkk), spellingOf_old hm hkk]
      · have hkk' : k ∉ keys ++ [key] := by
          simp only [List.mem_append, List.mem_singleton, not_or]
          exact ⟨hkk, e⟩
        rw [if_neg hkk, if_neg hkk']

/-- The name of a type takes no number. -/
theorem next_settle_type (p : Program) (t : NameTable) (i : Nat) :
    (t.settle p (.type i)).next = t.next := by
  unfold NameTable.settle NameTable.enter
  split <;> rfl

theorem Numbers.settle_type (h : Numbers p keys t) (i : Nat) :
    Numbers p keys (t.settle p (.type i)) where
  next := by rw [next_settle_type, h.next]
  found k hk := by
    have hne : k ≠ .type i := by
      rintro rfl
      cases hk
    rw [NameTable.find?_settle_ne p t hne]
    exact h.found k hk

theorem Numbers.settle (h : Numbers p keys t) (hn : key.isNumbered = true)
    (hs : p.stem key = .ok s) : Numbers p (keys ++ [key]) (t.settle p key) := by
  have hkey := h.found key hn
  by_cases hm : key ∈ keys
  · rw [if_pos hm] at hkey
    rw [NameTable.settle_of_found hkey]
    exact h.known hm
  · rw [if_neg hm] at hkey
    rw [NameTable.settle_of_new hkey hs]
    exact h.enter hn hm hs

theorem Numbers.ask (h : Numbers p keys t) (hs : p.stem key = .ok s) :
    Numbers p (keys ++ [key].filter NameKey.isNumbered) (t.ask p key) := by
  cases key with
  | type i =>
    show Numbers p (keys ++ []) _
    rw [List.append_nil]
    exact h.settle_type i
  | method i => exact h.settle rfl hs
  | constructor i => exact h.settle rfl hs
  | allocator i => exact (h.settle_type i).settle rfl hs

/-- **Requests that are all granted number the keys in the order of first requests.** -/
theorem Numbers.askAll : ∀ (asked : List NameKey) {keys : List NameKey} {t : NameTable},
    Numbers p keys t → (∀ k ∈ asked, ∃ s, p.stem k = .ok s) →
      Numbers p (keys ++ asked.filter NameKey.isNumbered) (t.askAll p asked)
  | [], _, _, h, _ => by simpa using h
  | key :: rest, keys, t, h, hs => by
      obtain ⟨s, hk⟩ := hs key List.mem_cons_self
      have hrest := Numbers.askAll rest (h.ask hk) fun k hk => hs k (List.mem_cons_of_mem _ hk)
      rw [List.append_assoc, ← List.filter_append] at hrest
      exact hrest

/-- A table spells the keys that have a name as the row of requests says. -/
theorem Numbers.spelling_eq (h : Numbers p keys t) (ht : t.Sound p) {name : String}
    (hf : t.find? key = some name) : t.spelling key = spellingOf p keys key := by
  rw [NameTable.spelling_of_found hf]
  cases hn : key.isNumbered with
  | true =>
    rw [h.found key hn] at hf
    split at hf
    · exact (Option.some.inj hf).symm
    · cases hf
  | false =>
    cases key with
    | type i =>
      unfold spellingOf
      rw [ht.named i name hf]
      rfl
    | method i => cases hn
    | constructor i => cases hn
    | allocator i => cases hn

end Lowering
