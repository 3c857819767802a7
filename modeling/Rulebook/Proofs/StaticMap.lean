import Rulebook.Proofs.Termination

/-!
# The survey is a map of what runs record

Where scopes are not recursive, a run and the survey go through the same steps in the same order.
The run leaves steps out: those of absent values, those behind a broken presence, those of lists
that are empty.  A list of many elements is one step of the survey, and what its elements record
is told apart by the index.  So the errors that a run records at a path are some of those that the
survey has noted at its shape, in the same order.

Positions are lists of segments here.  `Notes` of the survey at a shape and events of the run at a
node are compared with `ErrorsByPath.idsAt`.
-/

namespace Rulebook

open ErrorsByPath Rulebook.Path Survey

variable {M : ModelSpace} {k : M.Kind}

/-- What is read of a visit at a node is among what is found at the shape of the node, in
order. -/
def Verdict.Within (r : Verdict (List Segment)) (fs : List Finding) : Prop :=
  ∀ q, (idsAt q r.events).Sublist (idsAt (q.map Segment.shape) (errorsOf fs))

namespace Verdict.Within

variable {r next : Verdict (List Segment)} {fs gs : List Finding}

theorem nothing (fs : List Finding) : Within {} fs := fun _ => List.nil_sublist _

theorem settle (h : r.Within fs) : r.settle.Within fs := by
  rw [Within, events_settle]
  exact h

theorem append_left (h : r.Within gs) (fs : List Finding) : r.Within (fs ++ gs) := by
  intro q
  rw [errorsOf_append, idsAt_append]
  exact (h q).trans (List.sublist_append_right _ _)

theorem append_right (h : r.Within fs) (gs : List Finding) : r.Within (fs ++ gs) := by
  intro q
  rw [errorsOf_append, idsAt_append]
  exact (h q).trans (List.sublist_append_left _ _)

theorem andThen (h : r.Within fs) (hnext : next.Within gs) :
    (r.andThen next).Within (fs ++ gs) := by
  intro q
  rcases events_andThen r next with hevents | hevents
  · rw [hevents, errorsOf_append, idsAt_append, idsAt_append]
    exact (h q).append (hnext q)
  · rw [hevents]
    exact h.append_right gs q

/-- An error at a node is an error at its shape. -/
theorem event {segments : List Segment} {error : ErrorId} {ending : Ending} :
    Within ⟨[(segments, error)], ending⟩ [.error (segments.map Segment.shape) error] := fun q =>
  idsAt_sublist_map (List.map Segment.shape) q [(segments, error)]

end Verdict.Within

/-! ## Elements -/

/-- A node is below one element at most. -/
theorem index_eq_of_prefix {segments q : List Segment} {i j : Nat}
    (hi : extend segments (.index i) <+: q) (hj : extend segments (.index j) <+: q) : i = j := by
  have hlength : (extend segments (.index i)).length = (extend segments (.index j)).length := by
    rw [extend, extend, List.length_append, List.length_append]
    rfl
  have heq := (List.prefix_of_prefix_length_le hi hj (Nat.le_of_eq hlength)).eq_of_length hlength
  simpa [extend] using heq

/-- At a node below an element there are only errors of that element. -/
theorem evalElements_within {fs : List Finding} {segments : List Segment}
    {readOne : Option (M.Value k) → List Segment → Verdict (List Segment)}
    (hbelow : ∀ i e x, x ∈ (readOne e (extend segments (.index i))).events →
      extend segments (.index i) <+: x.1)
    (hread : ∀ i e, (readOne e (extend segments (.index i))).Within fs)
    (index : Nat) (elements : List (Option (M.Value k))) :
    (Evaluation.evalElements extend readOne segments index elements).Within fs := by
  induction elements generalizing index with
  | nil => exact .nothing fs
  | cons e rest ih =>
    intro q
    rw [Evaluation.evalElements]
    rcases Verdict.events_andThen (readOne e (extend segments (.index index))).settle
      (Evaluation.evalElements extend readOne segments (index + 1) rest) with hevents | hevents
    · rw [hevents, Verdict.events_settle, idsAt_append]
      -- A node `q` is below this element or below a later one, not both.
      by_cases hq : extend segments (.index index) <+: q
      · have hrest : idsAt q
            (Evaluation.evalElements extend readOne segments (index + 1) rest).events = [] := by
          refine idsAt_eq_nil fun x hx hxq => ?_
          obtain ⟨i, e', _, hmem⟩ := (Verdict.Traceable.event x).evalElements hx
          have hprefix := hbelow _ _ _ hmem
          rw [hxq] at hprefix
          have hindex := index_eq_of_prefix hq hprefix
          omega
        rw [hrest, List.append_nil]
        exact hread index e q
      · have hfirst : idsAt q (readOne e (extend segments (.index index))).events = [] :=
          idsAt_eq_nil fun x hx hxq => hq (hxq ▸ hbelow _ _ _ hx)
        rw [hfirst, List.nil_append]
        exact ih (index + 1) q
    · rw [hevents, Verdict.events_settle]
      exact hread index e q

/-! ## Steps -/

/-- What is read of the visits of a scope is within what the survey finds below. -/
def ReadsWithin (read : Evaluation.Reader M (List Segment)) (below : Frame → List Finding)
    (g : Frame) : Prop :=
  ∀ (approach : Walk.Approach) (visit : Visit M), visit.id = g.id →
    visit.segments.map Segment.shape = g.segments → (visit.readBy read approach).Within (below g)

/-- What is read of a visit is below its node. -/
def ReadsBelow (read : Evaluation.Reader M (List Segment)) : Prop :=
  ∀ (approach : Walk.Approach) (visit : Visit M) (x : List Segment × ErrorId),
    x ∈ (visit.readBy read approach).events → visit.segments <+: x.1

section Steps

variable {read : Evaluation.Reader M (List Segment)} {below : Frame → List Finding} {f : Frame}
  {segments : List Segment}

theorem evalStep_within (hbelow : ReadsBelow read) (hf : segments.map Segment.shape = f.segments)
    {step : Step M k}
    (hread : ∀ target, step.outline.target? = some target →
      ReadsWithin read below (f.next step.outline target))
    (v : M.Value k) :
    (Evaluation.evalStep extend read v segments step).Within
      (stepFindings below f step.outline) := by
  have hdown (s t : Segment) (hs : s.shape = t) :
      (extend segments s).map Segment.shape = f.segments ++ [t] := by
    rw [extend, List.map_append, hf, List.map_singleton, hs]
  have hstay : segments.map Segment.shape = f.segments ++ [] := by
    rw [hf, List.append_nil]
  cases step with
  | rule error test =>
    rw [Evaluation.evalStep]
    split
    · exact .nothing _
    · have hevent :
        Verdict.Within ⟨[(segments, error)], .finished⟩ [.error f.segments error] := by
        rw [← hf]
        exact .event
      exact hevent
  | member name target kind get =>
    refine Verdict.Within.settle
      (Verdict.Within.append_left ?_ [.entered f.segments (.member name)])
    exact hread target rfl .entering ⟨target, kind, get v, extend segments (.member name)⟩ rfl
      (hdown _ _ rfl)
  | collection target kind elements =>
    refine Verdict.Within.append_left ?_ [.entered f.segments .anyIndex]
    refine evalElements_within
      (fun i e x => hbelow .entering ⟨target, kind, e, extend segments (.index i)⟩ x)
      (fun i e => ?_) 0 (elements v)
    exact hread target rfl .entering ⟨target, kind, e, extend segments (.index i)⟩ rfl
      (hdown _ _ rfl)
  | inclusion target => exact hread target rfl .staying ⟨target, k, some v, segments⟩ rfl hstay
  | narrowing target kind view =>
    rw [Evaluation.evalStep]
    cases view v with
    | none => exact .nothing _
    | some u => exact hread target rfl .entering ⟨target, kind, some u, segments⟩ rfl hstay

theorem evalSteps_within (hbelow : ReadsBelow read) (hf : segments.map Segment.shape = f.segments)
    {steps : List (Step M k)}
    (hread : ∀ step ∈ steps, ∀ target, step.outline.target? = some target →
      ReadsWithin read below (f.next step.outline target))
    (v : M.Value k) :
    (Evaluation.evalSteps extend read v segments steps).Within
      ((steps.map Step.outline).flatMap (stepFindings below f)) := by
  induction steps with
  | nil => exact .nothing _
  | cons step rest ih =>
    rw [List.forall_mem_cons] at hread
    exact (evalStep_within hbelow hf hread.1 v).andThen (ih hread.2)

theorem evalScope_within (hbelow : ReadsBelow read) (hf : segments.map Segment.shape = f.segments)
    {scope : Scope M k}
    (hread : ∀ step ∈ scope.live, ∀ target, step.outline.target? = some target →
      ReadsWithin read below (f.next step.outline target))
    (value : Option (M.Value k)) :
    (Evaluation.evalScope extend read scope value segments).Within
      (scopeFindings below f scope.outline) := by
  have hbreach {error : ErrorId} (herror : scope.absence? = some error ∨
      scope.refusal? = some error) :
      Verdict.Within (.breach segments error) (scopeFindings below f scope.outline) := by
    rw [scopeFindings, Scope.presenceError?_outline herror, ← hf]
    exact Verdict.Within.event.append_right _
  cases value with
  | none =>
    rw [Evaluation.evalScope]
    cases habsence : scope.absence? with
    | none => exact .nothing _
    | some error => exact hbreach (.inl habsence)
  | some v =>
    rw [Evaluation.evalScope]
    cases hrefusal : scope.refusal? with
    | some error => exact hbreach (.inr hrefusal)
    | none =>
      rw [scopeFindings, Scope.live_outline, ← Scope.live_eq_steps hrefusal]
      exact (evalSteps_within hbelow hf hread v).append_left _

end Steps

/-! ## Visits -/

theorem verdict_readsBelow (scopes : ScopeTable M) (guard : Bool) (depth : Nat)
    (opened : List M.Node) : ReadsBelow (Evaluation.eval extend scopes guard depth opened) := by
  intro approach visit x hx
  obtain ⟨next, hreaches, hnext, _⟩ := Visit.reaches_of_mem_events hx
  rw [← hnext]
  exact hreaches.prefix_segments

namespace Scheme

variable {s : Scheme M k} {model : Option (M.Value k)}

/-- Where no scope is met again, what a visit finds is within what its branch finds. -/
theorem verdict_within (hagain : ∀ g f, .again g f ∉ report s.scopes.outlines s.rootId)
    (guard : Bool) (depth : Nat) (opened : List M.Node) {f : Frame} {stack : List Frame}
    (h : Branch s.scopes.outlines s.rootId f stack) :
    ReadsWithin (Evaluation.eval extend s.scopes guard depth opened)
      (findings s.scopes.outlines (s.scopes.outlines.size - stack.length) stack) f := by
  induction depth generalizing opened f stack with
  | zero => exact fun _ _ _ _ => .nothing _
  | succ depth ih =>
    intro approach visit hid hf
    obtain ⟨id, l, value, segments⟩ := visit
    rw [Visit.readBy, Evaluation.eval]
    dsimp only at hid hf ⊢
    subst hid
    cases hscope : s.scopes.typed? f.id l with
    | none => exact .nothing _
    | some scope =>
      have ho := ScopeTable.find?_outlines hscope
      dsimp only
      split
      · exact .nothing _
      · rw [h.findings_eq ho]
        refine evalScope_within (verdict_readsBelow s.scopes guard depth _) hf ?_ value
        intro step hstep target htarget
        have hlive : step.outline ∈ scope.outline.live := by
          rw [Scope.live_outline]
          exact List.mem_map_of_mem hstep
        rcases h.next_or_again ho hlive htarget with hnext | ⟨g, _, _, hmem⟩
        · exact ih _ hnext
        · exact absurd hmem (hagain _ _)

/-- Where scopes are not recursive, validation has an answer for every model, and what it records
at a path is some of what the survey has noted at the shape of the path, in the same order. -/
theorem validate_within_survey {table : ScopeTable M} {rootId : ScopeId} {catalog : Catalog}
    (h : compile table k rootId catalog = .ok s) (hrec : s.recursive = false)
    (model : Option (M.Value k)) (options : Options) :
    ∃ errors, s.validate model options = some errors ∧
      ∀ path ids, errors.find? path = some ids →
        ∃ listed, s.survey.errors.find? (Path.shape path) = some listed ∧ ids.Sublist listed := by
  have hs := isCompiled_of_compile h
  obtain ⟨w, hw⟩ := hs.exists_walk?_of_not_recursive hrec (s.size_lt_depthBound model) options
  refine ⟨w.errors, by rw [validate, run?, hw, Option.map_some], fun path ids hids => ?_⟩
  obtain ⟨events, hprefix, herrors⟩ := hs.errors_of_walk? hw
  have hgrouped := hids
  rw [herrors, find?_group_eq_some_iff] at hgrouped
  obtain ⟨rfl, hne⟩ := hgrouped
  obtain ⟨error, herror⟩ := List.exists_mem_of_ne_nil _ hne
  obtain ⟨q, rfl, hevent⟩ := hs.exists_event hw hids herror
  have hproper (e) (he : e ∈
      (s.evaluateSegments options.guardLoops (s.depthBound model) model).events) :
      ∀ t ∈ e.1, t.IsProper := fun t ht => ((hs.covered he).1 t ht).isProper
  have hrun : (idsAt (ofSegments q) events).Sublist (idsAt q
      (s.evaluateSegments options.guardLoops (s.depthBound model) model).events) := by
    rw [← idsAt_map (f := ofSegments) fun e he heq =>
      ofSegments_inj (hproper e he) (hproper _ hevent) heq]
    have hsub := idsAt_sublist (ofSegments q) hprefix.sublist
    rwa [evaluate_eq_map] at hsub
  have hfound := verdict_within (hs.not_again hrec) options.guardLoops (s.depthBound model) []
    .root .entering (s.rootVisit model) rfl rfl q
  have hsub := (hrun.trans hfound).trans (idsAt_sublist_map ofSegments (q.map Segment.shape) _)
  refine ⟨_, ?_, hsub⟩
  rw [shape_ofSegments (hproper _ hevent), errors_of_ofOutlines hs.surveyed,
    find?_group_eq_some_iff]
  refine ⟨rfl, fun hnil => hne ?_⟩
  rw [hnil] at hsub
  exact List.sublist_nil.1 hsub

/-- A full run over an order that is a line of its own, where lines are not orders.  The survey
lists three errors for lines; the first line has one of them and the second one the other two. -/
theorem validate_within_survey_knot :
    ∃ s : Scheme Orders.space .obj,
      compile (Orders.countedTable false) .obj ⟨0⟩ Orders.countedCatalog = .ok s ∧
      s.recursive = false ∧
      s.survey.errors.entries = [("", [⟨0⟩]), ("lines", [⟨1⟩]), ("lines[#]", [⟨2⟩, ⟨3⟩, ⟨4⟩])] ∧
      s.validate (some Orders.knotOrder) ⟨false, false⟩ = some Orders.knotErrors ∧
      Orders.knotErrors.entries = [("", [⟨0⟩]), ("lines[0]", [⟨2⟩]), ("lines[1]", [⟨3⟩, ⟨4⟩])] ∧
      ∀ path ids, Orders.knotErrors.find? path = some ids →
        ∃ listed, s.survey.errors.find? (Path.shape path) = some listed ∧ ids.Sublist listed := by
  have h : compile (Orders.countedTable false) .obj ⟨0⟩ Orders.countedCatalog = .ok _ := rfl
  obtain ⟨errors, herrors, hwithin⟩ :=
    validate_within_survey h rfl (some Orders.knotOrder) ⟨false, false⟩
  obtain rfl : errors = Orders.knotErrors := by
    refine Option.some.inj (herrors.symm.trans ?_)
    decide +kernel
  exact ⟨_, h, rfl, rfl, herrors, rfl, hwithin⟩

end Scheme

end Rulebook
