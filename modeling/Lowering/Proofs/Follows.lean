import Lowering.Proofs.Course
import Lowering.Proofs.NameRequests

/-!
# Actions that follow a course

An action works on a name table and on a rest beside it: nothing, a page, or a page with counters.
It follows a course if on every sound table it asks for the names of the course, in this order, and
ends as the course says. What it returns and what it does to the rest may depend on the spelling of
the names that it asked for, and on no other names. So the names that were granted before, and the
order in which they were granted, have no say in anything but the numbers.

* `Follows` -- an action follows a course;
* `Follows.bind` -- one action after another follows one course after another;
* `Follows.ok_iff`, `Follows.error_iff` -- the course decides how an action ends;
* `request_follows` -- the course of a request.
-/

namespace Lowering

variable {σ ρ α β : Type}

/-- **An action follows a course.** `join` makes the state of a name table and the rest, `result` is
what the action returns and `effect` what it does to the rest, if it is not refused. -/
structure Follows (p : Program) (join : NameTable → ρ → σ) (act : Act σ α) (course : Course)
    (result : Spelling → α) (effect : Spelling → ρ → ρ) : Prop where
  stemmed : ∀ k ∈ course.asked, ∃ s, p.stem k = .ok s
  reads : course.fault = none → ∀ ν ν' : Spelling, (∀ k ∈ course.asked, ν k = ν' k) →
    result ν = result ν' ∧ effect ν = effect ν'
  ends : course.fault = none → ∀ t rest, t.Sound p →
    act (join t rest) = .ok (result (t.askAll p course.asked).spelling)
      (join (t.askAll p course.asked) (effect (t.askAll p course.asked).spelling rest))
  stops : ∀ r, course.fault = some r → ∀ t rest, t.Sound p →
    ∃ rest', act (join t rest) = .error r (join (t.askAll p course.asked) rest')

/-- The state of an action that only asks for names. -/
def onlyNames (t : NameTable) (_ : Unit) : NameTable := t

/-- An action on names follows a course. -/
abbrev Asks (p : Program) (act : Naming α) (course : Course) (result : Spelling → α) : Prop :=
  Follows p onlyNames act course result fun _ => id

namespace Follows

variable {p : Program} {join : NameTable → ρ → σ} {act : Act σ α} {next : α → Act σ β}
  {course course₁ course₂ : Course} {result result₁ : Spelling → α} {result₂ : α → Spelling → β}
  {effect effect₁ : Spelling → ρ → ρ} {effect₂ : α → Spelling → ρ → ρ}

/-- The same course, seen otherwise. -/
theorem of_eq {course' : Course} {result' : Spelling → α} {effect' : Spelling → ρ → ρ}
    (h : Follows p join act course result effect) (hc : course = course')
    (hr : ∀ ν, result ν = result' ν) (he : ∀ ν rest, effect ν rest = effect' ν rest) :
    Follows p join act course' result' effect' := by
  have hr' : result = result' := funext hr
  have he' : effect = effect' := funext fun ν => funext (he ν)
  subst hc hr' he'
  exact h

theorem pure (a : α) : Follows p join (Pure.pure a) {} (fun _ => a) fun _ => id where
  stemmed _ hk := nomatch hk
  reads _ _ _ _ := ⟨rfl, rfl⟩
  ends _ _ _ _ := rfl
  stops _ h := nomatch h

theorem refuse (r : Refusal) : Follows p join (refuse r) (.refused r) result effect where
  stemmed _ hk := nomatch hk
  reads h := nomatch h
  ends h := nomatch h
  stops r' h t rest _ := by
    cases h
    exact ⟨rest, rfl⟩

/-- What comes after a refused action is not entered. -/
theorem bindRefused {result' : Spelling → β} {effect' : Spelling → ρ → ρ} {r : Refusal}
    (h : Follows p join act course result effect) (hf : course.fault = some r) :
    Follows p join (act >>= next) course result' effect' where
  stemmed := h.stemmed
  reads hn := by
    rw [hf] at hn
    cases hn
  ends hn := by
    rw [hf] at hn
    cases hn
  stops r' hr t rest ht := by
    obtain ⟨rest', hrun⟩ := h.stops r' hr t rest ht
    exact ⟨rest', bind_error hrun⟩

/-- **One action after another follows one course after another.** What the first one returns may be
used by the second one, but not to decide what is asked for. -/
theorem bind (h₁ : Follows p join act course₁ result₁ effect₁)
    (h₂ : ∀ a, Follows p join (next a) course₂ (result₂ a) (effect₂ a)) :
    Follows p join (act >>= next) (course₁ ++ course₂) (fun ν => result₂ (result₁ ν) ν)
      fun ν rest => effect₂ (result₁ ν) ν (effect₁ ν rest) := by
  cases hf : course₁.fault with
  | some r =>
    rw [Course.append_of_fault hf]
    exact h₁.bindRefused hf
  | none =>
    have hasked := Course.asked_append hf course₂
    have hfault : (course₁ ++ course₂).fault = course₂.fault := by
      rw [Course.fault_append, hf]
      rfl
    refine ⟨fun k hk => ?_, fun h ν ν' hν => ?_, fun h t rest ht => ?_, fun r hr t rest ht => ?_⟩
    · rw [hasked, List.mem_append] at hk
      -- any value will do to ask the second action for its keys
      exact hk.elim (h₁.stemmed k) ((h₂ (result₁ ({} : NameTable).spelling)).stemmed k)
    · rw [hfault] at h
      rw [hasked] at hν
      obtain ⟨hr, he⟩ := h₁.reads hf ν ν' fun k hk => hν k (List.mem_append_left _ hk)
      obtain ⟨hr', he'⟩ := (h₂ (result₁ ν')).reads h ν ν' fun k hk =>
        hν k (List.mem_append_right _ hk)
      rw [hr, he, hr', he']
      exact ⟨rfl, rfl⟩
    · rw [hfault] at h
      rw [hasked, NameTable.askAll_append]
      have ht₁ := NameTable.Sound.askAll p course₁.asked ht
      -- the names that the first action asked for do not change any more
      obtain ⟨hr, he⟩ := h₁.reads hf _ _ fun k hk =>
        (NameTable.spelling_of_asked ht course₁.asked course₂.asked hk).symm
      rw [bind_ok (h₁.ends hf t rest ht), (h₂ _).ends h _ _ ht₁, hr, he]
    · rw [hfault] at hr
      rw [hasked, NameTable.askAll_append]
      have ht₁ := NameTable.Sound.askAll p course₁.asked ht
      rw [bind_ok (h₁.ends hf t rest ht)]
      exact (h₂ _).stops r hr _ _ ht₁

/-- An action whose result is worked on afterwards. -/
theorem andReturn (h : Follows p join act course result effect) (f : α → β) :
    Follows p join (act >>= fun a => Pure.pure (f a)) course (fun ν => f (result ν)) effect :=
  (h.bind fun a => Follows.pure (f a)).of_eq (Course.append_nil course)
    (fun _ => rfl) fun _ _ => rfl

theorem map (h : Follows p join act course result effect) (f : α → β) :
    Follows p join (f <$> act) course (fun ν => f (result ν)) effect := by
  rw [map_eq_pure_bind]
  exact h.andReturn f

/-- An action that returns nothing before another one. -/
theorem andThen {act : Act σ Unit} {last : Act σ β} {result' : Spelling → β}
    {effect' : Spelling → ρ → ρ} (h₁ : Follows p join act course₁ (fun _ => ()) effect₁)
    (h₂ : Follows p join last course₂ result' effect') :
    Follows p join (act >>= fun _ => last) (course₁ ++ course₂) result' fun ν rest =>
      effect' ν (effect₁ ν rest) :=
  h₁.bind fun _ => h₂

section Outcomes

variable {t : NameTable}

/-- An action ends with a result exactly if its course ends without a refusal. -/
theorem ok_iff (h : Follows p join act course result effect) (ht : t.Sound p) (rest : ρ) :
    (∃ a x, act (join t rest) = .ok a x) ↔ course.fault = none := by
  cases hf : course.fault with
  | none => exact ⟨fun _ => rfl, fun _ => ⟨_, _, h.ends hf t rest ht⟩⟩
  | some r =>
    obtain ⟨rest', hrun⟩ := h.stops r hf t rest ht
    rw [hrun]
    refine ⟨?_, nofun⟩
    rintro ⟨_, _, hok⟩
    cases hok

/-- What an action has done that ended with a result. -/
theorem of_ok (h : Follows p join act course result effect) (ht : t.Sound p)
    (rest : ρ) {a : α} {x : σ} (hrun : act (join t rest) = .ok a x) :
    let t' := t.askAll p course.asked
    course.fault = none ∧ a = result t'.spelling ∧ x = join t' (effect t'.spelling rest) := by
  have hf : course.fault = none := (h.ok_iff ht rest).mp ⟨a, x, hrun⟩
  cases (h.ends hf t rest ht).symm.trans hrun
  exact ⟨hf, rfl, rfl⟩

/-- An action is refused exactly for the refusal that ends its course. -/
theorem error_iff (h : Follows p join act course result effect) (ht : t.Sound p)
    (rest : ρ) {r : Refusal} : (∃ x, act (join t rest) = .error r x) ↔ course.fault = some r := by
  constructor
  · rintro ⟨x, hrun⟩
    cases hf : course.fault with
    | none => cases (h.ends hf t rest ht).symm.trans hrun
    | some r' =>
      obtain ⟨rest', hstop⟩ := h.stops r' hf t rest ht
      cases hstop.symm.trans hrun
      rfl
  · intro hf
    obtain ⟨rest', hstop⟩ := h.stops r hf t rest ht
    exact ⟨_, hstop⟩

end Outcomes

end Follows

/-! ## Requests -/

section Requests

variable {p : Program} {key : NameKey}

theorem granted_follows {s : String} (hs : p.stem key = .ok s) :
    Asks p (nameOf p key) { asked := [key] } fun ν => ν key where
  stemmed k hk := by
    cases List.mem_singleton.mp hk
    exact ⟨s, hs⟩
  reads _ _ _ hν := ⟨hν key (List.mem_singleton_self key), rfl⟩
  ends _ _ _ ht := nameOf_ok ht hs
  stops _ h := nomatch h

theorem refused_follows {r : Refusal} (hs : p.stem key = .error r) :
    Asks p (nameOf p key) (.refused r) fun ν => ν key where
  stemmed _ hk := nomatch hk
  reads h := nomatch h
  ends h := nomatch h
  stops r' h t rest ht := by
    cases h
    exact ⟨rest, nameOf_refused ht hs⟩

/-- **A request follows its course** and returns the spelling of its key. -/
theorem request_follows (p : Program) (key : NameKey) :
    Asks p (nameOf p key) (.request p key) fun ν => ν key := by
  cases hs : p.stem key with
  | error r =>
    rw [Course.request_error hs]
    exact refused_follows hs
  | ok s =>
    rw [Course.request_ok hs]
    exact granted_follows hs

end Requests

end Lowering
