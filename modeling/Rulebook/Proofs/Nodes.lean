import Rulebook.Proofs.Acceptance

/-!
# Nodes and their paths

A run finds errors at nodes, which are lists of segments, and records them under paths, which are
texts.  Nothing is lost on the way: proper segments can be read off a path (`ofSegments_inj`), so
what is recorded under a path was found at one node, and `find?_group_node` says of any list of
events that at a path stand the errors of a single node.

This module applies that to the events of a run and to the errors that a survey has noted.  Both
are at proper segments because the check of a table looks at its member names:
`Visit.Reaches.isConcrete` says so for runs, and `Branch.isProper` for surveys.
-/

namespace Rulebook

open ErrorsByPath
open Rulebook.Path (Segment)

variable {M : ModelSpace} {k : M.Kind}

/-- Where all events are at proper segments, the errors under a path are those of one node. -/
theorem ErrorsByPath.find?_group_node {events : List (List Segment × ErrorId)}
    (hproper : ∀ e ∈ events, ∀ s ∈ e.1, s.IsProper) {path : String} {ids : List ErrorId} :
    (group (events.map (Prod.map Path.ofSegments id))).find? path = some ids ↔
      ∃ segments, Path.HasSegments path segments ∧ ids = idsAt segments events ∧ ids ≠ [] := by
  rw [find?_group_eq_some_iff]
  have hat {segments : List Segment} (hs : ∀ s ∈ segments, s.IsProper) :
      idsAt (Path.ofSegments segments) (events.map (Prod.map Path.ofSegments id)) =
        idsAt segments events :=
    idsAt_map fun e he heq => Path.ofSegments_inj (hproper e he) hs heq
  constructor
  · rintro ⟨rfl, hne⟩
    obtain ⟨error, herror⟩ := List.exists_mem_of_ne_nil _ hne
    obtain ⟨⟨segments, error'⟩, hevent, heq⟩ := List.mem_map.1 (mem_idsAt.1 herror)
    obtain ⟨rfl, _⟩ := Prod.mk.inj heq
    have hs := hproper _ hevent
    exact ⟨segments, ⟨rfl, hs⟩, hat hs, hne⟩
  · rintro ⟨segments, ⟨rfl, hs⟩, rfl, hne⟩
    exact ⟨(hat hs).symm, hne⟩

/-! ## What a run records -/

/-- The events that a run records: all of them, or the first. -/
def Verdict.recorded {π : Type} (r : Verdict π) (failFast : Bool) : List (π × ErrorId) :=
  if failFast then r.events.take 1 else r.events

theorem Verdict.recorded_subset {π : Type} (r : Verdict π) (failFast : Bool) :
    r.recorded failFast ⊆ r.events := by
  cases failFast with
  | true => exact List.take_subset 1 r.events
  | false => exact List.Subset.refl r.events

theorem Verdict.recorded_map {π ρ : Type} (f : π → ρ) (r : Verdict π) (failFast : Bool) :
    (r.map f).recorded failFast = (r.recorded failFast).map (Prod.map f id) := by
  cases failFast with
  | true => exact List.map_take.symm
  | false => rfl

/-- The errors that a walk has recorded where it plays a verdict from the start. -/
theorem Walk.Plays.errors_eq {failFast : Bool} {r : Verdict String} {w : Walk M}
    (h : Plays failFast r {} (some w)) : w.errors = group (r.recorded failFast) := by
  cases h with
  | ends hquiet hend =>
    rcases hquiet with rfl | hnone
    · rfl
    · cases failFast <;> simp [Verdict.recorded, hnone, group]
  | halts hfast hevents =>
    subst hfast
    simp only [Verdict.recorded, if_true, hevents, List.take_succ_cons, List.take_zero]
    rfl

namespace Scheme

variable {s : Scheme M k}

/-- A run has recorded its events at the paths of their nodes. -/
theorem IsCompiled.errors_eq_group (hs : s.IsCompiled) {depth : Nat} {model : Option (M.Value k)}
    {options : Options} {w : Walk M} (hw : s.walk? depth model options = some w) :
    w.errors = group (((s.evaluateSegments options.guardLoops depth model).recorded
      options.failFast).map (Prod.map Path.ofSegments id)) := by
  have hplays := hs.walk?_plays depth model options
  rw [hw, evaluate_eq_map] at hplays
  rw [hplays.errors_eq, Verdict.recorded_map]

theorem IsCompiled.isProper_of_mem_events (hs : s.IsCompiled) {guard : Bool} {depth : Nat}
    {model : Option (M.Value k)} {e : List Segment × ErrorId}
    (he : e ∈ (s.evaluateSegments guard depth model).events) : ∀ t ∈ e.1, t.IsProper := by
  intro t ht
  have hconcrete := (hs.covered he).1 t ht
  exact hconcrete.isProper

end Scheme

/-! ## What a survey notes -/

namespace Survey

variable {table : ScopeTable M} {catalog : Catalog} {root : ScopeId} {f : Frame}
  {stack : List Frame}

/-- A survey is led down by placeholders and by names, and not by the index of an element. -/
theorem Branch.shape_eq {outlines : Dict ScopeId Outline} (h : Branch outlines root f stack) :
    f.segments.map Segment.shape = f.segments := by
  induction h with
  | root => rfl
  | @next f stack o step target h ho hstep htarget hclosed ih =>
    rw [Frame.next, List.map_append, ih]
    cases step <;> rfl

/-- Where the references of a table are met, its survey is led down by proper segments. -/
theorem Branch.isProper (hfits : table.Fits catalog) (h : Branch table.outlines root f stack) :
    ∀ s ∈ f.segments, s.IsProper := by
  induction h with
  | root => exact List.forall_mem_nil _
  | @next f stack o step target h ho hstep htarget hclosed ih =>
    rw [Frame.next, List.forall_mem_append]
    refine ⟨ih, ?_⟩
    intro s hs
    cases step with
    | member name target =>
      obtain rfl := List.mem_singleton.1 hs
      obtain ⟨scope, hscope, rfl⟩ := ScopeTable.find?_outlines_eq_some_iff.1 ho
      rw [Scope.live_outline] at hstep
      obtain ⟨step, hmem, houtline⟩ := List.mem_map.1 hstep
      have hnames := (ScopeTable.fits_iff.1 hfits f.id scope hscope).steps step
        (Scope.mem_steps_of_mem_live hmem)
      cases step with
      | member name' _ _ _ =>
        obtain ⟨rfl, _⟩ := Outline.Step.member.inj houtline
        exact hnames.1
      | rule | collection | inclusion | narrowing => cases houtline
    | collection target =>
      obtain rfl := List.mem_singleton.1 hs
      trivial
    | rule | inclusion | narrowing => exact absurd hs List.not_mem_nil

theorem isProper_of_mem_errorsOf (hfits : table.Fits catalog) {e : List Segment × ErrorId}
    (he : e ∈ errorsOf (report table.outlines root)) : ∀ s ∈ e.1, s.IsProper := by
  obtain ⟨segments, id⟩ := e
  cases due_of_mem_report (mem_errorsOf.1 he) with
  | error hbranch ho herror => exact hbranch.isProper hfits

end Survey

/-! ## Paths name nodes -/

/-- Proper segments have one path each, and no two lists of them the same.  So what a run has
recorded under a path, and what a survey has noted under a shape, is what was found at one node:
the errors found there, in order, and none that were found elsewhere. -/
theorem Scheme.paths_name_nodes :
    (∀ xs ys : List Segment, (∀ t ∈ xs, t.IsProper) → (∀ t ∈ ys, t.IsProper) →
      (Path.ofSegments xs = Path.ofSegments ys ↔ xs = ys)) ∧
    ∀ {M : ModelSpace} {k : M.Kind} {table : ScopeTable M} {rootId : ScopeId} {catalog : Catalog}
      {s : Scheme M k}, compile table k rootId catalog = .ok s →
      (∀ depth model options w, s.walk? depth model options = some w → ∀ path ids,
        w.errors.find? path = some ids ↔ ∃ segments, Path.HasSegments path segments ∧
          ids = idsAt segments ((s.evaluateSegments options.guardLoops depth model).recorded
            options.failFast) ∧ ids ≠ []) ∧
      ∀ shape ids, s.survey.errors.find? shape = some ids ↔
        ∃ segments, Path.HasSegments shape segments ∧
          ids = idsAt segments (Survey.errorsOf (Survey.report s.scopes.outlines s.rootId)) ∧
          ids ≠ [] := by
  refine ⟨?_, ?_⟩
  · intro xs ys hx hy
    exact ⟨Path.ofSegments_inj hx hy, fun h => congrArg Path.ofSegments h⟩
  · intro M k table rootId catalog s h
    have hs := isCompiled_of_compile h
    refine ⟨?_, ?_⟩
    · intro depth model options w hw path ids
      rw [hs.errors_eq_group hw]
      refine find?_group_node ?_
      intro e he
      exact hs.isProper_of_mem_events (Verdict.recorded_subset _ _ he)
    · intro shape ids
      rw [Survey.errors_of_ofOutlines hs.surveyed]
      refine find?_group_node ?_
      intro e he
      exact Survey.isProper_of_mem_errorsOf hs.fits he

/-- A name may end like an index or a placeholder, and its path is still another one.  The missing
line of the inner order of the tower is recorded at its own node. -/
theorem Scheme.paths_name_nodes_tower :
    Path.ofSegments [.member "lines#0", .index 1] ≠ Path.ofSegments [.member "lines#", .index 1] ∧
    ∃ (s : Scheme Orders.space .obj) (w : Walk Orders.space),
      compile (Orders.table true) .obj ⟨0⟩ Orders.catalog = .ok s ∧
      s.walk? 40 (some Orders.towerOrder) ⟨false, true⟩ = some w ∧
      (∃ segments, Path.HasSegments "lines[0].order.lines[0]" segments ∧
        [⟨2⟩] = idsAt segments
          ((s.evaluateSegments true 40 (some Orders.towerOrder)).recorded false)) ∧
      ∃ segments, Path.HasSegments "lines[#]" segments ∧
        [⟨2⟩, ⟨3⟩] = idsAt segments
          (Survey.errorsOf (Survey.report s.scopes.outlines s.rootId)) := by
  obtain ⟨hinj, hscheme⟩ := Scheme.paths_name_nodes
  refine ⟨?_, ?_⟩
  · rw [ne_eq, hinj]
    · decide
    · simp only [List.forall_mem_cons, Segment.IsProper]
      exact ⟨by decide, trivial, List.forall_mem_nil _⟩
    · simp only [List.forall_mem_cons, Segment.IsProper]
      exact ⟨by decide, trivial, List.forall_mem_nil _⟩
  · have h : compile (Orders.table true) .obj ⟨0⟩ Orders.catalog = .ok _ := rfl
    obtain ⟨hrun, hsurvey⟩ := hscheme h
    refine ⟨_, _, h, rfl, ?_, ?_⟩
    · obtain ⟨segments, hsegments, hids, _⟩ :=
        (hrun 40 (some Orders.towerOrder) ⟨false, true⟩ _ rfl "lines[0].order.lines[0]"
          [⟨2⟩]).1 rfl
      exact ⟨segments, hsegments, hids⟩
    · obtain ⟨segments, hsegments, hids, _⟩ := (hsurvey "lines[#]" [⟨2⟩, ⟨3⟩]).1 rfl
      exact ⟨segments, hsegments, hids⟩

end Rulebook
