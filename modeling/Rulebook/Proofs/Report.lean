import Rulebook.Proofs.Findings
import Rulebook.Proofs.Grouping

/-!
# What a survey tells

A survey is its report, applied finding by finding.  Here each part of a survey is read off the
report: the errors are the errors found, grouped by shape; the scopes are recursive if one was met
again; and every pair in the table of paths has its join, so that a look-up in the table is a
join.
-/

namespace Rulebook

open Rulebook.Path (Segment)

namespace PathTable

/-- Whatever is in the table is a join. -/
def Correct (t : PathTable) : Prop := ∀ b r p, t.find? b r = some p → p = Path.join b r

theorem correct_empty : Correct {} := fun _ _ _ h => nomatch h

theorem find?_insert (t : PathTable) (b r p b' r' : String) :
    (t.insert b r p).find? b' r' =
      if b' = b ∧ r' = r then some ((t.find? b r).getD p) else t.find? b' r' := by
  rw [find?, insert, Dict.find?_alter]
  by_cases hb : b' = b
  · subst hb
    rw [if_pos rfl, Option.bind_eq_bind, Option.bind_some, Dict.find?_insertNew]
    by_cases hr : r' = r
    · subst hr
      rw [if_pos rfl, if_pos ⟨rfl, rfl⟩, find?]
      cases t.bases.find? b' <;> rfl
    · rw [if_neg hr, if_neg (fun h => hr h.2), find?]
      cases t.bases.find? b' <;> rfl
  · rw [if_neg hb, if_neg (fun h => hb h.1), find?]

namespace Correct

variable {t : PathTable}

theorem insert (h : t.Correct) (b r : String) : (t.insert b r (Path.join b r)).Correct := by
  intro b' r' p hp
  rw [find?_insert] at hp
  split at hp
  · rename_i hsame
    obtain ⟨rfl, rfl⟩ := hsame
    cases hfind : t.find? b' r' with
    | none =>
      rw [hfind] at hp
      exact (Option.some.inj hp).symm
    | some q =>
      rw [hfind] at hp
      rw [← Option.some.inj hp]
      exact h b' r' q hfind
  · exact h b' r' p hp

/-- A look-up in the table is a join. -/
theorem resolve_eq (h : t.Correct) (b r : String) : t.resolve b r = Path.join b r := by
  rw [resolve]
  cases hfind : t.find? b r with
  | none => rfl
  | some p => exact h b r p hfind

end Correct

end PathTable

namespace Survey

/-- The error of a finding, with its segments. -/
def Finding.event? : Finding → Option (List Segment × ErrorId)
  | error segments id => some (segments, id)
  | _ => none

/-- The errors of a list of findings, with their segments. -/
def errorsOf (fs : List Finding) : List (List Segment × ErrorId) := fs.filterMap Finding.event?

@[simp] theorem errorsOf_append (fs gs : List Finding) :
    errorsOf (fs ++ gs) = errorsOf fs ++ errorsOf gs := List.filterMap_append

theorem mem_errorsOf {fs : List Finding} {segments : List Segment} {id : ErrorId} :
    (segments, id) ∈ errorsOf fs ↔ .error segments id ∈ fs := by
  rw [errorsOf, List.mem_filterMap]
  constructor
  · rintro ⟨f, hf, he⟩
    cases f with
    | error _ _ =>
      obtain ⟨rfl, rfl⟩ := Prod.mk.inj (Option.some.inj he)
      exact hf
    | entered _ _ => exact nomatch he
    | again _ _ => exact nomatch he
    | missing _ => exact nomatch he
  · intro h
    exact ⟨_, h, rfl⟩

/-! ## Parts of the state -/

section Parts

variable (fs : List Finding) (st : State)

theorem errors_apply (f : Finding) :
    (st.apply f).errors = st.errors.recordAll
      ((errorsOf [f]).map (Prod.map Path.ofSegments id)) := by
  cases f with
  | error _ _ => rfl
  | entered _ _ => rfl
  | again o g =>
    rw [State.apply]
    split <;> rfl
  | missing _ => rfl

theorem errors_foldl_apply :
    (fs.foldl State.apply st).errors = st.errors.recordAll
      ((errorsOf fs).map (Prod.map Path.ofSegments id)) := by
  induction fs generalizing st with
  | nil => rfl
  | cons f rest ih =>
    rw [List.foldl_cons, ih, errors_apply, ← ErrorsByPath.recordAll_append, ← List.map_append,
      ← errorsOf_append, List.singleton_append]

variable {fs st}

/-- Without a failure, each open scope that is met again makes the scopes recursive. -/
theorem recursive_foldl_apply (h : ∀ f ∈ fs, f.failure? = none) :
    (fs.foldl State.apply st).recursive = true ↔
      st.recursive = true ∨ ∃ o f, .again o f ∈ fs := by
  induction fs generalizing st with
  | nil => simp
  | cons f rest ih =>
    rw [List.forall_mem_cons] at h
    rw [List.foldl_cons, ih h.2]
    cases f with
    | error _ _ => simp [State.apply]
    | entered _ _ => simp [State.apply]
    | again o g =>
      have hsame : ¬o.sameNode g := fun hsame => by
        simp [Finding.failure?, hsame] at h
      rw [State.apply, if_neg hsame]
      exact iff_of_true (.inl rfl) (.inr ⟨o, g, List.mem_cons_self⟩)
    | missing _ => simp [State.apply, State.fail]

theorem paths_foldl_apply (h : st.paths.Correct) : (fs.foldl State.apply st).paths.Correct := by
  induction fs generalizing st with
  | nil => exact h
  | cons f rest ih =>
    refine ih ?_
    cases f with
    | error _ _ => exact h
    | entered segments s => exact h.insert (Path.ofSegments segments) s.text
    | again o g =>
      rw [State.apply]
      split <;> exact h
    | missing _ => exact h

end Parts

/-! ## Parts of the survey -/

section Tells

variable {outlines : Dict ScopeId Outline} {root : ScopeId} {s : Survey}

/-- The errors of a survey are those found, grouped by shape. -/
theorem errors_of_ofOutlines (h : ofOutlines outlines root = .ok s) :
    s.errors = ErrorsByPath.group
      ((errorsOf (report outlines root)).map (Prod.map Path.ofSegments id)) := by
  rw [← (ofOutlines_eq_ok_iff.1 h).2]
  exact errors_foldl_apply _ {}

/-- Scopes are recursive if one of them was met again. -/
theorem recursive_of_ofOutlines (h : ofOutlines outlines root = .ok s) :
    s.recursive = true ↔ ∃ o f, .again o f ∈ report outlines root := by
  obtain ⟨hfailure, rfl⟩ := ofOutlines_eq_ok_iff.1 h
  refine (recursive_foldl_apply hfailure).trans ?_
  simp

/-- Whatever a survey has put in its table is a join. -/
theorem paths_of_ofOutlines (h : ofOutlines outlines root = .ok s) : s.paths.Correct := by
  rw [← (ofOutlines_eq_ok_iff.1 h).2]
  exact paths_foldl_apply PathTable.correct_empty

end Tells

end Survey

end Rulebook
