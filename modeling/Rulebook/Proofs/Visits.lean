import Mathlib.Logic.Relation
import Rulebook.Proofs.Evaluation
import Rulebook.Proofs.Segments

/-!
# Visits

A visit is a scope with the value that it is for and the segments that led there.  `Visit.Leads`
says which visits a visit leads to, whatever else has been found and however deep the nesting is.
What an evaluation comes to is due to visits of this kind: an event is an error that a visit
violates, an evaluation that runs out of depth does so at a visit that it has led to, and one that
falls back has found an error.

All three are instances of `Visit.trace`.  A property of verdicts that does not come out of
nothing can be traced through the functions of `Evaluation` to a visit.
-/

namespace Rulebook

open Rulebook.Path (Segment)

variable {M : ModelSpace} {k : M.Kind}

/-- The segments of the node that a segment leads to. -/
def Path.extend (segments : List Segment) (s : Segment) : List Segment := segments ++ [s]

/-- A scope with a value for it, which may be absent, and the segments that lead to it. -/
structure Visit (M : ModelSpace) where
  id : ScopeId
  kind : M.Kind
  value : Option (M.Value kind)
  segments : List Segment

namespace Step

/-- How a step reaches its scope. -/
def approach : Step M k → Walk.Approach
  | inclusion _ => .staying
  | _ => .entering

/-- The visits that a step leads to from a value. -/
def visits (v : M.Value k) (segments : List Segment) : Step M k → List (Visit M)
  | rule _ _ => []
  | member name target kind get => [⟨target, kind, get v, Path.extend segments (.member name)⟩]
  | collection target kind elements =>
    (elements v).mapIdx fun i e => ⟨target, kind, e, Path.extend segments (.index i)⟩
  | inclusion target => [⟨target, k, some v, segments⟩]
  | narrowing target kind view => ((view v).map fun u => ⟨target, kind, some u, segments⟩).toList

end Step

namespace Visit

/-- One visit leads to another by one step. -/
inductive Leads (scopes : ScopeTable M) : Walk.Approach → Visit M → Visit M → Prop where
  /-- The step is one of the scope, and the value is present and not refused. -/
  | step {id : ScopeId} {k : M.Kind} {v : M.Value k} {segments : List Segment} {scope : Scope M k}
    {step : Step M k} {next : Visit M} (hscope : scopes.typed? id k = some scope)
    (hstep : step ∈ scope.live) (hnext : next ∈ step.visits v segments) :
    Leads scopes step.approach ⟨id, k, some v, segments⟩ next

/-- The visits that a visit leads to, in the order of the steps. -/
def nexts (scopes : ScopeTable M) : Visit M → List (Visit M)
  | ⟨id, k, some v, segments⟩ =>
    (scopes.typed? id k).toList.flatMap fun scope => scope.live.flatMap (Step.visits v segments)
  | ⟨_, _, none, _⟩ => []

theorem Leads.mem_nexts {scopes : ScopeTable M} {approach : Walk.Approach} {visit next : Visit M}
    (h : Leads scopes approach visit next) : next ∈ visit.nexts scopes := by
  cases h with
  | step hscope hstep hnext =>
    rw [nexts, hscope]
    exact List.mem_flatMap.2
      ⟨_, List.mem_singleton_self _, List.mem_flatMap.2 ⟨_, hstep, hnext⟩⟩

/-- One visit leads to another by any number of steps. -/
def Reaches (scopes : ScopeTable M) : Visit M → Visit M → Prop :=
  Relation.ReflTransGen fun visit next => ∃ approach, Leads scopes approach visit next

/-- An error that a visit calls for. -/
inductive Violates (scopes : ScopeTable M) : Visit M → ErrorId → Prop where
  /-- The value is absent. -/
  | absent {id : ScopeId} {k : M.Kind} {segments : List Segment} {scope : Scope M k}
    {error : ErrorId} (hscope : scopes.typed? id k = some scope)
    (hpresence : scope.absence? = some error) : Violates scopes ⟨id, k, none, segments⟩ error
  /-- The value is present. -/
  | present {id : ScopeId} {k : M.Kind} {v : M.Value k} {segments : List Segment}
    {scope : Scope M k} {error : ErrorId} (hscope : scopes.typed? id k = some scope)
    (hpresence : scope.refusal? = some error) : Violates scopes ⟨id, k, some v, segments⟩ error
  /-- The value does not hold the test of a rule. -/
  | rule {id : ScopeId} {k : M.Kind} {v : M.Value k} {segments : List Segment} {scope : Scope M k}
    {error : ErrorId} {test : M.Value k → Bool} (hscope : scopes.typed? id k = some scope)
    (hstep : .rule error test ∈ scope.live) (htest : test v = false) :
    Violates scopes ⟨id, k, some v, segments⟩ error

/-- What a reader says of a visit. -/
def readBy (read : Evaluation.Reader M (List Segment)) (approach : Walk.Approach)
    (visit : Visit M) : Verdict (List Segment) :=
  read approach visit.id visit.kind visit.value visit.segments

/-- What the evaluation of a visit finds. -/
def verdict (scopes : ScopeTable M) (guard : Bool) (depth : Nat) (opened : List M.Node)
    (approach : Walk.Approach) (visit : Visit M) : Verdict (List Segment) :=
  visit.readBy (Evaluation.eval Path.extend scopes guard depth opened) approach

/-- Evaluating with paths finds what the visit finds, at the paths of the segments. -/
theorem eval_eq_map (scopes : ScopeTable M) (guard : Bool) (depth : Nat) (opened : List M.Node)
    (approach : Walk.Approach) (visit : Visit M) :
    Evaluation.eval Path.below scopes guard depth opened approach visit.id visit.kind visit.value
      (Path.ofSegments visit.segments) =
        (visit.verdict scopes guard depth opened approach).map Path.ofSegments := by
  have hdown (segments : List Segment) (s : Segment) :
      Path.ofSegments (Path.extend segments s) = Path.below (Path.ofSegments segments) s :=
    Path.ofSegments_concat segments s
  exact Evaluation.eval_map hdown scopes guard depth opened approach visit.id visit.value
    visit.segments

end Visit

/-! ## Tracing a property to a visit -/

/-- A property of verdicts that does not come out of nothing. -/
structure Verdict.Traceable {π : Type} (P : Verdict π → Prop) : Prop where
  nothing : ¬P {}
  settle : ∀ {r}, P r.settle → P r
  andThen : ∀ {r next}, P (r.andThen next) → P r ∨ P next

namespace Verdict.Traceable

/-- An event is in one of the parts. -/
theorem event {π : Type} (e : π × ErrorId) : Traceable fun r => e ∈ r.events where
  nothing := List.not_mem_nil
  settle h := by rwa [events_settle] at h
  andThen {r next} h := by
    rcases events_andThen r next with hevents | hevents
    · rw [hevents] at h
      exact List.mem_append.1 h
    · rw [hevents] at h
      exact .inl h

/-- One of the parts runs out of depth. -/
theorem outOfDepth {π : Type} : Traceable (π := π) fun r => r.ending = .outOfDepth where
  nothing := Ending.noConfusion
  settle h := settle_ending_eq_outOfDepth_iff.1 h
  andThen h := (andThen_ending_eq_outOfDepth_iff.1 h).imp_right And.right

/-- Falling back without an error does not come out of nothing. -/
theorem silent {π : Type} :
    Traceable (π := π) fun r => r.ending = .fellBack ∧ r.events = [] where
  nothing h := nomatch h.1
  settle {r} h := by
    obtain ⟨events, ending⟩ := r
    cases ending with
    | finished => exact nomatch h.1
    | fellBack => exact nomatch h.1
    | outOfDepth => exact nomatch h.1
  andThen {r next} h := by
    by_cases hend : r.ending = .finished
    · rw [andThen_of_finished hend] at h
      exact .inr ⟨h.1, (List.append_eq_nil_iff.1 h.2).2⟩
    · rw [andThen_of_ne_finished hend] at h
      exact .inl h

variable {P : Verdict (List Segment) → Prop} {read : Evaluation.Reader M (List Segment)}
  {v : M.Value k} {segments : List Segment} {step : Step M k} {scope : Scope M k}

theorem evalElements (hP : Traceable P)
    {readOne : Option (M.Value k) → List Segment → Verdict (List Segment)} {index : Nat}
    {elements : List (Option (M.Value k))}
    (h : P (Evaluation.evalElements Path.extend readOne segments index elements)) :
    ∃ i e, elements[i]? = some e ∧ P (readOne e (Path.extend segments (.index (index + i)))) := by
  induction elements generalizing index with
  | nil => exact absurd h hP.nothing
  | cons e rest ih =>
    rcases hP.andThen h with hfirst | hrest
    · exact ⟨0, e, rfl, hP.settle hfirst⟩
    · obtain ⟨i, e', he', hread⟩ := ih hrest
      refine ⟨i + 1, e', he', ?_⟩
      rwa [Nat.add_right_comm, Nat.add_assoc] at hread

/-- A step has it from a test that fails, or from a visit that it leads to. -/
theorem evalStep (hP : Traceable P)
    (h : P (Evaluation.evalStep Path.extend read v segments step)) :
    (∃ error test, step = .rule error test ∧ test v = false ∧
      P { events := [(segments, error)] }) ∨
    ∃ next ∈ step.visits v segments, P (next.readBy read step.approach) := by
  cases step with
  | rule error test =>
    rw [Evaluation.evalStep] at h
    cases htest : test v with
    | true =>
      rw [htest, if_pos rfl] at h
      exact absurd h hP.nothing
    | false =>
      rw [htest, if_neg Bool.false_ne_true] at h
      exact .inl ⟨error, test, rfl, htest, h⟩
  | member name target kind get => exact .inr ⟨_, List.mem_singleton_self _, hP.settle h⟩
  | collection target kind elements =>
    obtain ⟨i, e, he, hread⟩ := hP.evalElements h
    rw [Nat.zero_add] at hread
    refine .inr ⟨⟨target, kind, e, Path.extend segments (.index i)⟩, ?_, hread⟩
    obtain ⟨hi, rfl⟩ := List.getElem?_eq_some_iff.1 he
    exact List.mem_mapIdx.2 ⟨i, hi, rfl⟩
  | inclusion target => exact .inr ⟨_, List.mem_singleton_self _, h⟩
  | narrowing target kind view =>
    rw [Evaluation.evalStep] at h
    cases hview : view v with
    | none =>
      rw [hview] at h
      exact absurd h hP.nothing
    | some u =>
      rw [hview] at h
      refine .inr ⟨⟨target, kind, some u, segments⟩, ?_, h⟩
      rw [Step.visits, hview]
      exact List.mem_singleton_self _

theorem evalSteps (hP : Traceable P) {steps : List (Step M k)}
    (h : P (Evaluation.evalSteps Path.extend read v segments steps)) :
    ∃ step ∈ steps, P (Evaluation.evalStep Path.extend read v segments step) := by
  induction steps with
  | nil => exact absurd h hP.nothing
  | cons step rest ih =>
    rcases hP.andThen h with hfirst | hrest
    · exact ⟨step, List.mem_cons_self, hfirst⟩
    · obtain ⟨step', hmem, hstep⟩ := ih hrest
      exact ⟨step', List.mem_cons_of_mem _ hmem, hstep⟩

end Verdict.Traceable

/-- Where an evaluation has a property, the visit calls for an error that has it, or leads to a
visit whose evaluation has it. -/
theorem Visit.trace {P : Verdict (List Segment) → Prop} (hP : Verdict.Traceable P)
    {scopes : ScopeTable M} {guard : Bool} {depth : Nat} {opened : List M.Node}
    {approach : Walk.Approach} {visit : Visit M}
    (h : P (visit.verdict scopes guard (depth + 1) opened approach)) :
    (∃ error ending, visit.Violates scopes error ∧ ending ≠ .outOfDepth ∧
      P ⟨[(visit.segments, error)], ending⟩) ∨
    Evaluation.passesOver guard opened approach visit.value = false ∧
      ∃ approach' next, visit.Leads scopes approach' next ∧
        P (next.verdict scopes guard depth
          (Evaluation.openedBelow guard opened approach visit.value) approach') := by
  obtain ⟨id, k, value, segments⟩ := visit
  rw [verdict, readBy, Evaluation.eval] at h
  cases hscope : scopes.typed? id k with
  | none =>
    rw [hscope] at h
    exact absurd h hP.nothing
  | some scope =>
    rw [hscope] at h
    dsimp only at h
    cases hpass : Evaluation.passesOver guard opened approach value with
    | true =>
      rw [hpass, if_pos rfl] at h
      exact absurd h hP.nothing
    | false =>
      rw [hpass, if_neg Bool.false_ne_true] at h
      cases value with
      | none =>
        rw [Evaluation.evalScope] at h
        cases habsence : scope.absence? with
        | none =>
          rw [habsence] at h
          exact absurd h hP.nothing
        | some error =>
          rw [habsence] at h
          exact .inl ⟨error, .fellBack, .absent hscope habsence, Ending.noConfusion, h⟩
      | some v =>
        rw [Evaluation.evalScope] at h
        cases hrefusal : scope.refusal? with
        | some error =>
          rw [hrefusal] at h
          exact .inl ⟨error, .fellBack, .present hscope hrefusal, Ending.noConfusion, h⟩
        | none =>
          rw [hrefusal] at h
          obtain ⟨step, hstep, hread⟩ := hP.evalSteps h
          rw [← Scope.live_eq_steps hrefusal] at hstep
          rcases hP.evalStep hread with ⟨error, test, rfl, htest, herror⟩ | ⟨next, hnext, hread⟩
          · exact .inl ⟨error, .finished, .rule hscope hstep htest, Ending.noConfusion, herror⟩
          · exact .inr ⟨rfl, step.approach, next, .step hscope hstep hnext, hread⟩

/-- An event is an error that a visit calls for. -/
theorem Visit.reaches_of_mem_events {scopes : ScopeTable M} {guard : Bool} {depth : Nat}
    {opened : List M.Node} {approach : Walk.Approach} {visit : Visit M}
    {e : List Segment × ErrorId}
    (h : e ∈ (visit.verdict scopes guard depth opened approach).events) :
    ∃ next, visit.Reaches scopes next ∧ next.segments = e.1 ∧ next.Violates scopes e.2 := by
  induction depth generalizing opened approach visit with
  | zero => exact absurd h List.not_mem_nil
  | succ depth ih =>
    rcases trace (.event e) h with
      ⟨error, ending, hviolates, _, hmem⟩ | ⟨_, a, next, hleads, hmem⟩
    · obtain rfl := List.mem_singleton.1 hmem
      exact ⟨visit, .refl, rfl, hviolates⟩
    · obtain ⟨last, hreaches, hlast⟩ := ih hmem
      exact ⟨last, .head ⟨a, hleads⟩ hreaches, hlast⟩

/-- An evaluation that runs out of depth leads to one with less depth that does. -/
theorem Visit.leads_of_outOfDepth {scopes : ScopeTable M} {guard : Bool} {depth : Nat}
    {opened : List M.Node} {approach : Walk.Approach} {visit : Visit M}
    (h : (visit.verdict scopes guard (depth + 1) opened approach).ending = .outOfDepth) :
    Evaluation.passesOver guard opened approach visit.value = false ∧
      ∃ approach' next, visit.Leads scopes approach' next ∧
        (next.verdict scopes guard depth
          (Evaluation.openedBelow guard opened approach visit.value) approach').ending =
            .outOfDepth := by
  rcases trace .outOfDepth h with ⟨error, ending, _, hending, hend⟩ | hnext
  · exact absurd hend hending
  · exact hnext

/-- A visit that falls back has found an error. -/
theorem Visit.events_ne_nil_of_fellBack {scopes : ScopeTable M} {guard : Bool} {depth : Nat}
    {opened : List M.Node} {approach : Walk.Approach} {visit : Visit M}
    (h : (visit.verdict scopes guard depth opened approach).ending = .fellBack) :
    (visit.verdict scopes guard depth opened approach).events ≠ [] := by
  intro hnone
  induction depth generalizing opened approach visit with
  | zero => exact nomatch h
  | succ depth ih =>
    rcases trace .silent ⟨h, hnone⟩ with
      ⟨error, ending, _, _, _, hevents⟩ | ⟨_, a, next, _, hnext⟩
    · exact nomatch hevents
    · exact ih hnext.1 hnext.2

/-! ## The visits of a scheme -/

namespace Scheme

/-- The visit that a run begins with. -/
def rootVisit (s : Scheme M k) (model : Option (M.Value k)) : Visit M := ⟨s.rootId, k, model, []⟩

/-- Evaluates a scheme for a model, with segments for positions. -/
def evaluateSegments (s : Scheme M k) (guard : Bool) (depth : Nat) (model : Option (M.Value k)) :
    Verdict (List Segment) :=
  (s.rootVisit model).verdict s.scopes guard depth [] .entering

/-- The paths that an evaluation finds are those of the segments. -/
theorem evaluate_eq_map (s : Scheme M k) (guard : Bool) (depth : Nat)
    (model : Option (M.Value k)) :
    s.evaluate guard depth model = (s.evaluateSegments guard depth model).map Path.ofSegments :=
  Visit.eval_eq_map s.scopes guard depth [] .entering (s.rootVisit model)

end Scheme

end Rulebook
