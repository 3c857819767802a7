import Rulebook.Proofs.Branch
import Rulebook.Proofs.Validation
import Rulebook.Proofs.Visits

/-!
# Surveys cover runs

Whatever a run visits, the survey has a branch for its scope, by segments that are among those of
the visit: a branch ends where a scope is met again, and the way round the loop is what it leaves
out.  So an error that a run records at a path is one that the survey has noted at a shape whose
segments are among those of the path, and an error that the survey has not noted is never
recorded.
-/

namespace Rulebook

open Rulebook.Path (Segment)

variable {M : ModelSpace} {k : M.Kind}

/-- The path has these segments, each of which can stand in a path. -/
def Path.HasSegments (path : String) (segments : List Segment) : Prop :=
  path = ofSegments segments ∧ ∀ s ∈ segments, s.IsProper

/-! ## Outlines of visits -/

theorem Scope.live_outline (scope : Scope M k) :
    scope.outline.live = scope.live.map Step.outline := by
  rw [live, refusal?, Outline.live, outline]
  cases scope.presence with
  | none => rfl
  | some policy => cases policy <;> rfl

theorem Scope.presenceError?_outline {scope : Scope M k} {error : ErrorId}
    (h : scope.absence? = some error ∨ scope.refusal? = some error) :
    scope.outline.presenceError? = some error := by
  rw [absence?, refusal?] at h
  rw [Outline.presenceError?, outline]
  cases hpresence : scope.presence with
  | none => simp [hpresence] at h
  | some policy => cases policy <;> simp_all [PresencePolicy.error?]

/-- What a visit of a step is: by which segment the step leads down, if it does, to which
scope. -/
theorem Step.down_of_mem_visits {v : M.Value k} {segments : List Segment} {step : Step M k}
    {next : Visit M} (h : next ∈ step.visits v segments) :
    step.outline.target? = some next.id ∧
      ∃ down : Option Segment, next.segments = segments ++ down.toList ∧
        step.outline.segment? = down.map Segment.shape ∧
        ∀ s ∈ down, (∀ name, .memberName name ∈ step.references → Path.isMemberName name) →
          s.IsConcrete := by
  cases step with
  | rule error test => exact absurd h List.not_mem_nil
  | member name target kind get =>
    obtain rfl := List.mem_singleton.1 h
    refine ⟨rfl, some (.member name), rfl, rfl, ?_⟩
    rintro _ ⟨⟩ hname
    exact hname name List.mem_cons_self
  | collection target kind elements =>
    obtain ⟨i, hi, rfl⟩ := List.mem_mapIdx.1 h
    refine ⟨rfl, some (.index i), rfl, rfl, ?_⟩
    rintro _ ⟨⟩ _
    trivial
  | inclusion target =>
    obtain rfl := List.mem_singleton.1 h
    exact ⟨rfl, none, (List.append_nil _).symm, rfl, nofun⟩
  | narrowing target kind view =>
    obtain ⟨u, _, rfl⟩ := Option.map_eq_some_iff.1 (Option.mem_toList.1 h)
    exact ⟨rfl, none, (List.append_nil _).symm, rfl, nofun⟩

namespace Visit

variable {scopes : ScopeTable M} {visit next : Visit M} {approach : Walk.Approach}

/-- One visit leads to another by a step of the outline. -/
theorem Leads.exists_step (h : Leads scopes approach visit next) :
    ∃ o step, scopes.outlines.find? visit.id = some o ∧ step ∈ o.live ∧
      step.target? = some next.id ∧
      next.segments.map Segment.shape =
        visit.segments.map Segment.shape ++ step.segment?.toList := by
  cases h with
  | @step id l v segments scope step next hscope hstep hnext =>
    obtain ⟨htarget, down, hsegments, hdown, _⟩ := Step.down_of_mem_visits hnext
    refine ⟨scope.outline, step.outline, ScopeTable.find?_outlines hscope, ?_, htarget, ?_⟩
    · rw [Scope.live_outline]
      exact List.mem_map_of_mem hstep
    · rw [hsegments, hdown, List.map_append, Option.toList_map]

/-- An error that a visit calls for is one of the outline. -/
theorem Violates.exists_outline {error : ErrorId} (h : Violates scopes visit error) :
    ∃ o, scopes.outlines.find? visit.id = some o ∧
      (o.presenceError? = some error ∨ .rule error ∈ o.live) := by
  cases h with
  | absent hscope hpresence =>
    have herror := Scope.presenceError?_outline (.inl hpresence)
    exact ⟨_, ScopeTable.find?_outlines hscope, .inl herror⟩
  | present hscope hpresence =>
    have herror := Scope.presenceError?_outline (.inr hpresence)
    exact ⟨_, ScopeTable.find?_outlines hscope, .inl herror⟩
  | rule hscope hstep htest =>
    refine ⟨_, ScopeTable.find?_outlines hscope, .inr ?_⟩
    rw [Scope.live_outline]
    exact List.mem_map_of_mem hstep

/-- Steps lead down. -/
theorem Leads.prefix_segments (h : Leads scopes approach visit next) :
    visit.segments <+: next.segments := by
  cases h with
  | @step id l v segments scope step next hscope hstep hnext =>
    obtain ⟨_, down, hsegments, _, _⟩ := Step.down_of_mem_visits hnext
    rw [hsegments]
    exact List.prefix_append _ _

theorem Reaches.prefix_segments (h : Reaches scopes visit next) :
    visit.segments <+: next.segments := by
  induction h with
  | refl => exact List.prefix_rfl
  | tail _ hstep ih =>
    obtain ⟨approach, hleads⟩ := hstep
    exact ih.trans hleads.prefix_segments

/-- In a table that fits, steps lead to nodes that can stand in paths. -/
theorem Leads.isConcrete {catalog : Catalog} (hfits : scopes.Fits catalog)
    (h : Leads scopes approach visit next) (hvisit : ∀ s ∈ visit.segments, s.IsConcrete) :
    ∀ s ∈ next.segments, s.IsConcrete := by
  cases h with
  | @step id l v segments scope step next hscope hstep hnext =>
    obtain ⟨_, down, hsegments, _, hdown⟩ := Step.down_of_mem_visits hnext
    rw [hsegments, List.forall_mem_append]
    refine ⟨hvisit, fun s hs => hdown s (Option.mem_toList.1 hs) fun name hname => ?_⟩
    exact hfits.isMemberName hscope (Scope.mem_steps_of_mem_live hstep) hname

theorem Reaches.isConcrete {catalog : Catalog} (hfits : scopes.Fits catalog)
    (h : Reaches scopes visit next) (hvisit : ∀ s ∈ visit.segments, s.IsConcrete) :
    ∀ s ∈ next.segments, s.IsConcrete := by
  induction h with
  | refl => exact hvisit
  | tail _ hstep ih =>
    obtain ⟨approach, hleads⟩ := hstep
    exact hleads.isConcrete hfits ih

end Visit

/-! ## The branch of a visit -/

namespace Scheme

variable {s : Scheme M k} {model : Option (M.Value k)} {visit : Visit M}

/-- The survey has a branch for every visit, by segments that are among those of the visit. -/
theorem exists_branch (h : (s.rootVisit model).Reaches s.scopes visit) :
    ∃ f stack, Survey.Branch s.scopes.outlines s.rootId f stack ∧ f.id = visit.id ∧
      f.segments.Sublist (visit.segments.map Segment.shape) := by
  induction h with
  | refl => exact ⟨_, _, .root, rfl, List.Sublist.refl _⟩
  | tail _ hstep ih =>
    obtain ⟨f, stack, hbranch, hid, hsegments⟩ := ih
    obtain ⟨approach, hleads⟩ := hstep
    obtain ⟨o, step, ho, hstep, htarget, hshape⟩ := hleads.exists_step
    rw [← hid] at ho
    -- Where the scope is open already, `g` is the frame where it was opened.
    obtain ⟨g, rest, hnext, hnextid, hsub⟩ := hbranch.exists_next ho hstep htarget
    refine ⟨g, rest, hnext, hnextid, hsub.trans ?_⟩
    rw [hshape]
    exact hsegments.append_right _

/-- An event is at the node of a visit, and the survey has found its error at a shape whose
segments are among those of the node. -/
theorem IsCompiled.covered (hs : s.IsCompiled) {guard : Bool} {depth : Nat}
    {segments : List Segment} {id : ErrorId}
    (h : (segments, id) ∈ (s.evaluateSegments guard depth model).events) :
    (∀ t ∈ segments, t.IsConcrete) ∧ ∃ found : List Segment,
      .error found id ∈ Survey.report s.scopes.outlines s.rootId ∧
      found.Sublist (segments.map Segment.shape) := by
  obtain ⟨visit, hreaches, rfl, hviolates⟩ := Visit.reaches_of_mem_events h
  obtain ⟨f, stack, hbranch, hid, hsub⟩ := exists_branch hreaches
  obtain ⟨o, ho, herror⟩ := hviolates.exists_outline
  rw [← hid] at ho
  exact ⟨hreaches.isConcrete hs.fits nofun, f.segments, hbranch.error_mem_report ho herror, hsub⟩

/-- What a walk has recorded at a path is the error of a node at that path. -/
theorem IsCompiled.exists_event (hs : s.IsCompiled) {depth : Nat} {options : Options} {w : Walk M}
    (hw : s.walk? depth model options = some w) {path : String} {ids : List ErrorId}
    (hids : w.errors.find? path = some ids) {id : ErrorId} (hid : id ∈ ids) :
    ∃ segments, path = Path.ofSegments segments ∧
      (segments, id) ∈ (s.evaluateSegments options.guardLoops depth model).events := by
  obtain ⟨events, hprefix, herrors⟩ := hs.errors_of_walk? hw
  rw [herrors] at hids
  rw [(ErrorsByPath.find?_group_eq_some_iff.1 hids).1, ErrorsByPath.mem_idsAt] at hid
  have hmem := hprefix.subset hid
  rw [evaluate_eq_map] at hmem
  obtain ⟨⟨segments, id'⟩, he, hpath⟩ := List.mem_map.1 hmem
  obtain ⟨rfl, rfl⟩ := Prod.mk.inj hpath
  exact ⟨segments, rfl, he⟩

/-- Whatever a run records at a path, the survey has noted at a shape whose segments are among
those of the path.  So an error that is said to be unreachable is never recorded. -/
theorem recorded_is_surveyed {table : ScopeTable M} {rootId : ScopeId} {catalog : Catalog}
    (h : compile table k rootId catalog = .ok s) {depth : Nat} {options : Options} {w : Walk M}
    (hw : s.walk? depth model options = some w) {path : String} {ids : List ErrorId}
    (hids : w.errors.find? path = some ids) {error : ErrorId}
    (herror : error ∈ ids) :
    (∃ key listed keySegments shapeSegments,
      s.survey.errors.find? key = some listed ∧ error ∈ listed ∧
      Path.HasSegments key keySegments ∧ Path.HasSegments (Path.shape path) shapeSegments ∧
      keySegments.Sublist shapeSegments) ∧
    error ∉ s.unreachableErrors := by
  have hs := isCompiled_of_compile h
  obtain ⟨segments, rfl, hevent⟩ := hs.exists_event hw hids herror
  obtain ⟨hconcrete, found, hfound, hsub⟩ := hs.covered hevent
  have hproper : ∀ t ∈ segments, t.IsProper := fun t ht => (hconcrete t ht).isProper
  have hshape := Path.isProper_map_shape hproper
  have hlisted : (Path.ofSegments found, error) ∈
      (Survey.errorsOf (Survey.report s.scopes.outlines s.rootId)).map
        (Prod.map Path.ofSegments id) :=
    List.mem_map.2 ⟨(found, error), Survey.mem_errorsOf.2 hfound, rfl⟩
  obtain ⟨listed, hfind, hmem⟩ := ErrorsByPath.exists_find?_group hlisted
  rw [← Survey.errors_of_ofOutlines hs.surveyed] at hfind
  refine ⟨⟨_, listed, found, _, hfind, hmem, ⟨rfl, fun t ht => hshape t (hsub.subset ht)⟩,
    ⟨Path.shape_ofSegments hproper, hshape⟩, hsub⟩, ?_⟩
  have hids : error ∈ s.survey.errors.ids :=
    List.mem_flatten.2 ⟨listed, Dict.mem_values_of_find? hfind, hmem⟩
  rw [unreachableErrors, List.mem_filter]
  rintro ⟨_, hnot⟩
  simp [hids] at hnot

/-- An order in a line of an order has a line that is missing, which is noted for the lines of the
order itself. -/
theorem recorded_is_surveyed_tower :
    ∃ (s : Scheme Orders.space .obj) (w : Walk Orders.space),
      compile (Orders.table true) .obj ⟨0⟩ Orders.catalog = .ok s ∧
      s.walk? 40 (some Orders.towerOrder) ⟨false, false⟩ = some w ∧
      w.errors.find? "lines[0].order.lines[0]" = some [⟨2⟩] ∧
      (∃ key listed keySegments shapeSegments,
        s.survey.errors.find? key = some listed ∧ ⟨2⟩ ∈ listed ∧
        Path.HasSegments key keySegments ∧
        Path.HasSegments (Path.shape "lines[0].order.lines[0]") shapeSegments ∧
        keySegments.Sublist shapeSegments) ∧
      ⟨2⟩ ∉ s.unreachableErrors := by
  have h : compile (Orders.table true) .obj ⟨0⟩ Orders.catalog = .ok _ := rfl
  refine ⟨_, _, h, rfl, rfl, ?_⟩
  exact recorded_is_surveyed h (show walk? _ 40 (some Orders.towerOrder) ⟨false, false⟩ = some _
    from rfl) rfl (List.mem_singleton_self _)

end Scheme

end Rulebook
