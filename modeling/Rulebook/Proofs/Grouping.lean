import Mathlib.Data.List.Basic
import Rulebook.Error.Catalog

/-!
# Events and the errors by path that they amount to

A run records one error after the other, each at a path.  As a list these are its events.  What
the run answers is the events sorted into one list for each path, `ErrorsByPath.group`, and
`find?_group` says what stands there: at a path the errors of its events in order, and nothing at
a path without events.
-/

namespace Rulebook.ErrorsByPath

section Positions

variable {π ρ : Type} [DecidableEq π] [DecidableEq ρ]

/-- The errors that a list of events has at a position, in order. -/
def idsAt (p : π) (events : List (π × ErrorId)) : List ErrorId :=
  (events.filter (·.1 = p)).map (·.2)

theorem idsAt_append (p : π) (events more : List (π × ErrorId)) :
    idsAt p (events ++ more) = idsAt p events ++ idsAt p more := by
  rw [idsAt, List.filter_append, List.map_append]
  rfl

theorem idsAt_cons_self (p : π) (id : ErrorId) (events : List (π × ErrorId)) :
    idsAt p ((p, id) :: events) = id :: idsAt p events := by
  simp [idsAt]

theorem idsAt_cons_of_ne {p q : π} (h : p ≠ q) (id : ErrorId) (events : List (π × ErrorId)) :
    idsAt p ((q, id) :: events) = idsAt p events := by
  simp [idsAt, h.symm]

theorem mem_idsAt {p : π} {id : ErrorId} {events : List (π × ErrorId)} :
    id ∈ idsAt p events ↔ (p, id) ∈ events := by
  simp [idsAt]

theorem idsAt_sublist (p : π) {events more : List (π × ErrorId)} (h : events.Sublist more) :
    (idsAt p events).Sublist (idsAt p more) :=
  (h.filter _).map _

/-- Nothing is recorded at a position without events. -/
theorem idsAt_eq_nil {p : π} {events : List (π × ErrorId)} (h : ∀ e ∈ events, e.1 ≠ p) :
    idsAt p events = [] := by
  simpa [idsAt, Prod.forall] using h

/-- Events at other positions are the same events, where the change keeps `p` apart. -/
theorem idsAt_map {f : π → ρ} {p : π} {events : List (π × ErrorId)}
    (h : ∀ e ∈ events, f e.1 = f p → e.1 = p) :
    idsAt (f p) (events.map (Prod.map f id)) = idsAt p events := by
  induction events with
  | nil => rfl
  | cons e rest ih =>
    rw [List.forall_mem_cons] at h
    obtain ⟨q, error⟩ := e
    rw [List.map_cons, Prod.map_apply]
    by_cases hq : q = p
    · rw [hq, idsAt_cons_self, id, idsAt_cons_self, ih h.2]
    · rw [idsAt_cons_of_ne (Ne.symm hq), idsAt_cons_of_ne (fun hf => hq (h.1 hf.symm)), ih h.2]

/-- Events that are told apart by less have more errors at a position. -/
theorem idsAt_sublist_map (f : π → ρ) (p : π) (events : List (π × ErrorId)) :
    (idsAt p events).Sublist (idsAt (f p) (events.map (Prod.map f id))) := by
  induction events with
  | nil => exact List.Sublist.refl _
  | cons e rest ih =>
    obtain ⟨q, error⟩ := e
    rw [List.map_cons, Prod.map_apply]
    by_cases hq : q = p
    · rw [hq, idsAt_cons_self, id, idsAt_cons_self]
      exact ih.cons_cons error
    · rw [idsAt_cons_of_ne (Ne.symm hq)]
      by_cases hf : f p = f q
      · rw [hf, idsAt_cons_self, ← hf]
        exact ih.cons _
      · rwa [idsAt_cons_of_ne hf]

end Positions

/-- Records events in order. -/
def recordAll (errors : ErrorsByPath) (events : List (String × ErrorId)) : ErrorsByPath :=
  events.foldl (fun errors e => errors.record e.1 e.2) errors

/-- Events, grouped by path. -/
def group (events : List (String × ErrorId)) : ErrorsByPath := recordAll ∅ events

@[simp] theorem recordAll_nil (errors : ErrorsByPath) : errors.recordAll [] = errors := rfl

@[simp] theorem recordAll_cons (errors : ErrorsByPath) (e : String × ErrorId)
    (events : List (String × ErrorId)) :
    errors.recordAll (e :: events) = (errors.record e.1 e.2).recordAll events := rfl

theorem recordAll_append (errors : ErrorsByPath) (events more : List (String × ErrorId)) :
    errors.recordAll (events ++ more) = (errors.recordAll events).recordAll more :=
  List.foldl_append

theorem find?_record (errors : ErrorsByPath) (path other : String) (id : ErrorId) :
    (errors.record path id).find? other =
      if other = path then some ((errors.find? path).getD [] ++ [id])
      else errors.find? other :=
  Dict.find?_alter errors path other _

/-- Recording events adds to the list of a path the errors that they have there. -/
theorem find?_recordAll (errors : ErrorsByPath) (events : List (String × ErrorId))
    (path : String) :
    (errors.recordAll events).find? path =
      if idsAt path events = [] then errors.find? path
      else some ((errors.find? path).getD [] ++ idsAt path events) := by
  induction events generalizing errors with
  | nil => exact (if_pos rfl).symm
  | cons e rest ih =>
    obtain ⟨other, id⟩ := e
    rw [recordAll_cons, ih, find?_record]
    by_cases h : path = other
    · subst h
      rw [idsAt_cons_self, if_pos rfl]
      by_cases hrest : idsAt path rest = []
      · simp [hrest]
      · simp [hrest]
    · rw [idsAt_cons_of_ne h, if_neg h]

/-- Only without events nothing changes. -/
theorem recordAll_eq_self_iff {errors : ErrorsByPath} {events : List (String × ErrorId)} :
    errors.recordAll events = errors ↔ events = [] := by
  constructor
  · intro h
    cases events with
    | nil => rfl
    | cons e rest =>
      have hfind := find?_recordAll errors (e :: rest) e.1
      rw [h, idsAt_cons_self, if_neg (List.cons_ne_nil _ _)] at hfind
      have hlength := congrArg (fun ids => (ids.getD []).length) hfind
      simp at hlength
  · rintro rfl
    rfl

/-- At a path stand the errors of its events in order, and nothing stands at other paths. -/
theorem find?_group (events : List (String × ErrorId)) (path : String) :
    (group events).find? path =
      if idsAt path events = [] then none else some (idsAt path events) := by
  rw [group, find?_recordAll, Dict.find?_empty]
  simp

theorem find?_group_eq_some_iff {events : List (String × ErrorId)} {path : String}
    {ids : List ErrorId} :
    (group events).find? path = some ids ↔ ids = idsAt path events ∧ ids ≠ [] := by
  rw [find?_group]
  split
  · rename_i hnone
    rw [hnone]
    simp
  · rename_i hsome
    rw [Option.some_inj]
    constructor
    · rintro rfl
      exact ⟨rfl, hsome⟩
    · rintro ⟨rfl, _⟩
      rfl

/-- At the path of an event stand its error and others. -/
theorem exists_find?_group {events : List (String × ErrorId)} {path : String} {id : ErrorId}
    (h : (path, id) ∈ events) : ∃ ids, (group events).find? path = some ids ∧ id ∈ ids := by
  have hid := mem_idsAt.2 h
  exact ⟨_, by rw [find?_group, if_neg (List.ne_nil_of_mem hid)], hid⟩

/-- Only without events there are no errors. -/
theorem group_eq_empty_iff {events : List (String × ErrorId)} :
    group events = ∅ ↔ events = [] := by
  constructor
  · intro h
    cases events with
    | nil => rfl
    | cons e rest =>
      have hfirst : (e.1, e.2) ∈ e :: rest := List.mem_cons_self
      obtain ⟨ids, hids, _⟩ := exists_find?_group hfirst
      rw [h, Dict.find?_empty] at hids
      exact nomatch hids
  · rintro rfl
    rfl

end Rulebook.ErrorsByPath
