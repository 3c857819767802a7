import Rulebook.Proofs.Calls
import Rulebook.Proofs.Nodes
import Rulebook.Proofs.Termination

/-!
# The static map is tight

Whatever a run records has been noted by the survey.  Here it is the other way around: there is
nothing in the survey that a run could not record.  A model on which every rule is broken, every
member and every view is there and every collection has a single element leads a run through the
scopes as the survey went through them, and `survey_is_tight` says that such a run records what
the survey has noted, error by error, at the first element of each collection.

* A `Check` is a step that a run takes, with the value that it takes it with; `Scheme.checks`
  lists the checks of a run.
* `noted` is the verdict that a list of findings amounts to.  Nothing in it falls back, so the
  verdicts of one step after the other are put together by appending the findings.
* A scope that is met again ends a branch of the survey, but not the run, and a broken presence
  ends a scope in the run only.  So the scopes must not be recursive, and none of them may ask for
  presence or absence.
-/

namespace Rulebook

open Rulebook.Path (Segment)

variable {M : ModelSpace} {k : M.Kind}

/-! ## Checks -/

/-- A step that a walk takes, with the value that it takes it with. -/
structure Check (M : ModelSpace) where
  kind : M.Kind
  value : M.Value kind
  step : Step M kind

/-- The value brings out all that a step can find: it breaks the rule, it has the member or the
view, or it has a single element, which is there. -/
def Check.IsProvoked (check : Check M) : Prop :=
  match check.step with
  | .rule _ test => test check.value = false
  | .member _ _ _ get => (get check.value).isSome
  | .collection _ _ elements => ∃ u, elements check.value = [some u]
  | .inclusion _ => True
  | .narrowing _ _ view => (view check.value).isSome

namespace Walk

/-- The checks of steps in order, until one of them stops the scope. -/
def stepsChecks (c : Course M) (visit : Visitor M) (v : M.Value k) :
    List (Step M k) → Walk M → List (Check M)
  | [], _ => []
  | step :: rest, w =>
    ⟨k, v, step⟩ ::
      match takeStep c visit v w step with
      | some w => if w.stops then [] else stepsChecks c visit v rest w
      | none => []

/-- The checks of a scope with a value, which may be absent. -/
def scopeChecks (c : Course M) (visit : Visitor M) (scope : Scope M k)
    (value : Option (M.Value k))
    (w : Walk M) : List (Check M) :=
  match value with
  | some v => stepsChecks c visit v scope.live w
  | none => []

/-- The checks that a call makes itself, if there is this depth left for the calls below. -/
def Call.checks (c : Course M) (depth : Nat) (call : Call M) : List (Check M) :=
  match c.scopes.typed? call.id call.kind with
  | none => []
  | some scope =>
    if call.isPassedOver c.options.guardLoops then []
    else
      scopeChecks c (visit c depth) scope call.value
        (call.before.withOpened (Evaluation.openedBelow c.options.guardLoops call.before.opened
          call.approach call.value))

/-- The checks that are made for a call, by itself and by the calls below it. -/
def checks (c : Course M) : Nat → Call M → List (Check M)
  | 0, _ => []
  | depth + 1, call => call.checks c depth ++ (call.calls c depth).flatMap (checks c depth)

end Walk

/-- The checks of the walk through a model, if they are not nested deeper than `depth`. -/
def Scheme.checks (s : Scheme M k) (depth : Nat) (model : Option (M.Value k))
    (options : Options) :
    List (Check M) :=
  Walk.checks (s.course options) depth (s.rootCall depth model options)

/-! ## First elements -/

/-- A segment of a shape, with the first element for all elements. -/
def Path.Segment.first : Segment → Segment
  | .anyIndex => .index 0
  | s => s

namespace Path

theorem map_shape_map_first {segments : List Segment}
    (h : segments.map Segment.shape = segments) :
    (segments.map Segment.first).map Segment.shape = segments := by
  have hfirst : Segment.shape ∘ Segment.first = Segment.shape := by
    funext s
    cases s <;> rfl
  rwa [List.map_map, hfirst]

theorem isConcrete_map_first {segments : List Segment} (h : ∀ s ∈ segments, s.IsProper) :
    ∀ s ∈ segments.map Segment.first, s.IsConcrete := by
  intro s hs
  obtain ⟨t, ht, rfl⟩ := List.mem_map.1 hs
  have hproper := h t ht
  cases t with
  | member name => exact hproper
  | index i => trivial
  | anyIndex => trivial

/-- Filling nothing but zeros into a shape leads to the first elements. -/
theorem fillIndexes_zeros {segments : List Segment} (hproper : ∀ s ∈ segments, s.IsProper)
    (hshape : segments.map Segment.shape = segments) {zeros : Nat}
    (hzeros : placeholders (ofSegments segments) ≤ zeros) :
    fillIndexes (ofSegments segments) (List.replicate zeros 0) =
      ofSegments (segments.map Segment.first) := by
  have hconcrete := isConcrete_map_first hproper
  have hfirst := map_shape_map_first hshape
  have hindexes : (segments.map Segment.first).filterMap Segment.index? =
      List.replicate (placeholders (ofSegments segments)) 0 := by
    rw [List.eq_replicate_iff]
    refine ⟨?_, ?_⟩
    · have hcount := placeholders_ofSegments hconcrete
      rw [hfirst] at hcount
      exact hcount.symm
    · intro i hi
      obtain ⟨s, hs, hsome⟩ := List.mem_filterMap.1 hi
      obtain ⟨t, ht, rfl⟩ := List.mem_map.1 hs
      have hfixed : t.shape = t :=
        List.map_eq_map_iff.1 (hshape.trans (List.map_id segments).symm) t ht
      cases t with
      | member name => exact nomatch hsome
      | index j => exact nomatch hfixed
      | anyIndex => exact (Option.some.inj hsome).symm
  have hfill := fillIndexes_ofSegments_append hconcrete
    (List.replicate (zeros - placeholders (ofSegments segments)) 0)
  rwa [hfirst, hindexes, List.replicate_append_replicate, Nat.add_sub_cancel' hzeros] at hfill

end Path

namespace ErrorsByPath

/-- Errors at other paths are the same errors, where the change keeps the paths apart. -/
theorem find?_group_map {events : List (String × ErrorId)} {f : String → String}
    (hf : ∀ e ∈ events, ∀ e' ∈ events, f e.1 = f e'.1 → e.1 = e'.1) {path : String}
    {ids : List ErrorId} :
    (group (events.map (Prod.map f id))).find? path = some ids ↔
      ∃ shape, (group events).find? shape = some ids ∧ path = f shape := by
  simp only [find?_group_eq_some_iff]
  have hat {e : String × ErrorId} (he : e ∈ events) :
      idsAt (f e.1) (events.map (Prod.map f id)) = idsAt e.1 events :=
    idsAt_map fun e' he' => hf e' he' e he
  constructor
  · rintro ⟨rfl, hne⟩
    obtain ⟨error, herror⟩ := List.exists_mem_of_ne_nil _ hne
    obtain ⟨e, he, heq⟩ := List.mem_map.1 (mem_idsAt.1 herror)
    obtain ⟨rfl, _⟩ := Prod.mk.inj heq
    exact ⟨e.1, ⟨hat he, hne⟩, rfl⟩
  · rintro ⟨shape, ⟨rfl, hne⟩, rfl⟩
    obtain ⟨error, herror⟩ := List.exists_mem_of_ne_nil _ hne
    exact ⟨(hat (mem_idsAt.1 herror)).symm, hne⟩

end ErrorsByPath

/-! ## What a survey notes, as a verdict -/

namespace Survey

/-- The errors that a survey has noted, at the first elements. -/
def noted (fs : List Finding) : Verdict String :=
  { events := (errorsOf fs).map (Prod.map (fun s => Path.ofSegments (s.map Segment.first)) id) }

theorem noted_append (fs gs : List Finding) :
    noted (fs ++ gs) = (noted fs).andThen (noted gs) := by
  rw [Verdict.andThen_of_finished rfl]
  simp [noted]

end Survey

/-! ## A run beside the survey -/

namespace Walk

open Survey

variable {c : Course M} {catalog : Catalog}

/-- A call from the frame `f` with a value records what the survey notes below the step that leads
there, if it is made at the first elements. -/
def Call.Echoes (below : Frame → List Finding) (f : Frame) (o : Outline) (call : Call M) : Prop :=
  ∀ step ∈ o.live, ∀ target, step.target? = some target → call.id = target → call.value.isSome →
    Ready call.before [] ((f.next step target).segments.map Segment.first) →
      Plays false (noted (below (f.next step target))) call.before call.after

section Steps

variable {visit : Visitor M} {around : List M.Node} {below : Frame → List Finding} {f : Frame}
  {id : ScopeId} {scope : Scope M k} {w : Walk M} {v : M.Value k}
  (hfits : c.scopes.Fits catalog) (hpaths : ∀ b r, c.paths.resolve b r = Path.join b r)
  (hfull : c.options.failFast = false) (hscope : c.scopes.typed? id k = some scope)
  (hlive : scope.outline.live = scope.steps.map Step.outline)

include hfits hpaths hfull hscope hlive

theorem takeStep_echoes {step : Step M k} (hstep : step ∈ scope.steps)
    (hprovoked : Check.IsProvoked ⟨k, v, step⟩)
    (hcalls : ∀ call ∈ stepCalls c visit around v w step, call.Echoes below f scope.outline)
    (hw : Ready w [] (f.segments.map Segment.first)) :
    Plays false (noted (stepFindings below f step.outline)) w (takeStep c visit v w step) := by
  have houtline : step.outline ∈ scope.outline.live := by
    rw [hlive]
    exact List.mem_map_of_mem hstep
  have hsame {target : ScopeId} (hsegment : step.outline.segment? = none) :
      (f.next step.outline target).segments.map Segment.first = f.segments.map Segment.first := by
    rw [Frame.next, hsegment, Option.toList_none, List.append_nil]
  cases step with
  | rule error test =>
    have hbroken : test v = false := hprovoked
    rw [takeStep, hbroken]
    have hrecord := plays_record hw c.options error
    rwa [hfull] at hrecord
  | member name target kind get =>
    have hname := hfits.isMemberName hscope hstep List.mem_cons_self
    have hcall := hcalls _ List.mem_cons_self _ houtline target rfl rfl hprovoked
    rw [Frame.next, List.map_append] at hcall
    have hbelow := hcall (hw.enter hpaths hname)
    have hleft : Plays false (noted (stepFindings below f (.member name target))) w
        ((visit .entering target kind (get v) (w.enter c.paths name)).map leave) :=
      hbelow.within rfl rfl fun _ _ _ => rfl
    have htake : takeStep c visit v w (.member name target kind get) =
        ((visit .entering target kind (get v) (w.enter c.paths name)).map leave).map goOn := by
      rw [Option.map_map]
      exact Option.map_eq_bind.symm
    rw [htake]
    exact hleft.settle
  | collection target kind elements =>
    obtain ⟨u, hu⟩ := hprovoked
    rw [stepCalls, hu] at hcalls
    have hcall := hcalls _ List.mem_cons_self _ houtline target rfl rfl rfl
    rw [Frame.next, List.map_append] at hcall
    have hbelow := hcall (hw.enterIndex hpaths 0)
    have hleft : Plays false (noted (stepFindings below f (.collection target))) w
        ((visit .entering target kind (some u) (w.enterIndex c.paths 0)).map leaveIndex) :=
      hbelow.within rfl rfl fun _ _ _ => rfl
    have htake : takeStep c visit v w (.collection target kind elements) =
        ((visit .entering target kind (some u) (w.enterIndex c.paths 0)).map leaveIndex).map
          goOn := by
      rw [takeStep, hu, visitElements, Option.map_map, Option.map_eq_bind]
      refine congrArg _ (funext fun w' => ?_)
      exact ite_self _
    rw [htake]
    exact hleft.settle
  | inclusion target =>
    have hcall := hcalls _ List.mem_cons_self _ houtline target rfl rfl rfl
    rw [hsame rfl] at hcall
    exact hcall hw
  | narrowing target kind view =>
    obtain ⟨u, hu⟩ := Option.isSome_iff_exists.1 hprovoked
    dsimp only at hu
    rw [stepCalls, hu] at hcalls
    have hcall := hcalls _ List.mem_cons_self _ houtline target rfl rfl rfl
    rw [hsame rfl] at hcall
    rw [takeStep, hu]
    exact hcall hw

theorem takeSteps_echoes {steps : List (Step M k)} (hsteps : ∀ step ∈ steps, step ∈ scope.steps)
    (hprovoked : ∀ check ∈ stepsChecks c visit v steps w, check.IsProvoked)
    (hcalls : ∀ call ∈ stepsCalls c visit around v steps w, call.Echoes below f scope.outline)
    (hw : Ready w [] (f.segments.map Segment.first)) :
    Plays false (noted ((steps.map Step.outline).flatMap (stepFindings below f))) w
      (takeSteps c visit v steps w) := by
  induction steps generalizing w with
  | nil => exact plays_nothing hw false
  | cons step rest ih =>
    rw [List.forall_mem_cons] at hsteps
    rw [stepsChecks, List.forall_mem_cons] at hprovoked
    rw [stepsCalls, List.forall_mem_append] at hcalls
    have hstep := takeStep_echoes hfits hpaths hfull hscope hlive hsteps.1 hprovoked.1 hcalls.1 hw
    rw [List.map_cons, List.flatMap_cons, noted_append]
    refine hstep.andThen ?_ ?_ hw.running
    · intro w' _ hstops
      exact if_pos hstops
    · intro w' hw' hstops
      rw [hw'] at hstep hprovoked hcalls
      have hgo : ¬w'.stops = true := by rw [hstops]; exact Bool.false_ne_true
      dsimp only at hprovoked hcalls
      rw [if_neg hgo] at hprovoked hcalls ⊢
      exact ih hsteps.2 hprovoked.2 hcalls.2 (hstep.ready hw hstops)

end Steps

/-! ### Scopes that ask for nothing -/

section Calm

variable {call : Call M} {depth : Nat} {v : M.Value call.kind} {scope : Scope M call.kind}
  (hguard : c.options.guardLoops = false)
  (hscope : c.scopes.typed? call.id call.kind = some scope)
  (hcalm : scope.outline.presenceError? = none) (hvalue : call.value = some v)

theorem presenceError?_of_optional {scope : Scope M k}
    (h : ∀ policy, scope.presence = some policy → policy = .optional) :
    scope.outline.presenceError? = none := by
  obtain ⟨steps, presence⟩ := scope
  cases presence with
  | none => rfl
  | some policy =>
    rw [h policy rfl]
    rfl

theorem refusal?_of_calm {scope : Scope M k} (hcalm : scope.outline.presenceError? = none) :
    scope.refusal? = none := by
  obtain ⟨steps, presence⟩ := scope
  rcases presence with _ | _ | error | error
  · rfl
  · rfl
  · rfl
  · exact nomatch hcalm

theorem withOpened_self {w : Walk M} {approach : Approach} {value : Option (M.Value k)} :
    w.withOpened (Evaluation.openedBelow false w.opened approach value) = w := by
  cases approach <;> cases value <;> rfl

theorem Call.isPassedOver_false (call : Call M) : call.isPassedOver false = false := by
  rw [isPassedOver, Evaluation.passesOver.eq_def]
  split <;> rfl

include hguard hscope hcalm hvalue

theorem visit_of_calm :
    visit c (depth + 1) call.approach call.id call.kind call.value call.before =
    takeSteps c (visit c depth) v scope.steps call.before := by
  rw [visit, hscope, hguard, hvalue]
  obtain ⟨steps, presence⟩ := scope
  rcases presence with _ | _ | error | error
  · cases call.approach <;> rfl
  · cases call.approach <;> rfl
  · cases hcalm
  · cases hcalm

theorem Call.calls_of_calm : call.calls c depth =
    stepsCalls c (Walk.visit c depth)
      (Evaluation.openedBelow true call.around call.approach call.value) v scope.steps
      call.before := by
  rw [Call.calls, hscope, hguard]
  dsimp only
  rw [isPassedOver_false, if_neg Bool.false_ne_true, withOpened_self, hvalue, scopeCalls,
    Scope.live_eq_steps (refusal?_of_calm hcalm)]

theorem Call.checks_of_calm : call.checks c depth =
    stepsChecks c (Walk.visit c depth) v scope.steps call.before := by
  rw [Call.checks, hscope, hguard]
  dsimp only
  rw [isPassedOver_false, if_neg Bool.false_ne_true, withOpened_self, hvalue, scopeChecks,
    Scope.live_eq_steps (refusal?_of_calm hcalm)]

end Calm

/-- A call at the first elements, from a branch of the survey, records what the survey notes
there.  By induction on the depth that is left; there is enough of it, because each call opens a
scope. -/
theorem Call.plays_findings (hfits : c.scopes.Fits catalog)
    (hpaths : ∀ b r, c.paths.resolve b r = Path.join b r) (hfull : c.options.failFast = false)
    (hguard : c.options.guardLoops = false) {rootId : ScopeId}
    (hagain : ∀ g f, .again g f ∉ report c.scopes.outlines rootId)
    (hcalm : ∀ f stack, Branch c.scopes.outlines rootId f stack → ∀ o,
      c.scopes.outlines.find? f.id = some o → o.presenceError? = none)
    {depth : Nat} {call : Call M} {f : Frame} {stack : List Frame}
    (hbranch : Branch c.scopes.outlines rootId f stack)
    (hdepth : c.scopes.outlines.size ≤ depth + stack.length)
    (hplaced : call.Placed c (visit c depth)) (hid : call.id = f.id) (hvalue : call.value.isSome)
    (hready : Ready call.before [] (f.segments.map Segment.first))
    (hprovoked : ∀ check ∈ Walk.checks c depth call, check.IsProvoked) :
    Plays false
      (noted (findings c.scopes.outlines (c.scopes.outlines.size - stack.length) stack f))
      call.before call.after := by
  induction depth generalizing call f stack with
  | zero =>
    obtain ⟨scope, hscope⟩ := hplaced.typed
    rw [hid] at hscope
    have hlt := hbranch.length_lt (ScopeTable.find?_outlines hscope)
    omega
  | succ depth ih =>
    obtain ⟨scope, hscope⟩ := hplaced.typed
    obtain ⟨v, hv⟩ := Option.isSome_iff_exists.1 hvalue
    have ho : c.scopes.outlines.find? f.id = some scope.outline := by
      rw [← hid]
      exact ScopeTable.find?_outlines hscope
    have hquiet := hcalm f stack hbranch _ ho
    have hlive : scope.outline.live = scope.steps.map Step.outline := by
      rw [Scope.live_outline, Scope.live_eq_steps (refusal?_of_calm hquiet)]
    rw [Walk.checks, List.forall_mem_append] at hprovoked
    rw [hbranch.findings_eq ho, scopeFindings, hquiet, Option.map_none, Option.toList_none,
      List.nil_append, hlive, hplaced.after, visit_of_calm hguard hscope hquiet hv]
    have hchecks := hprovoked.1
    rw [Call.checks_of_calm hguard hscope hquiet hv] at hchecks
    have hcalls : ∀ next ∈ call.calls c depth, next.Echoes
        (findings c.scopes.outlines (c.scopes.outlines.size - (f :: stack).length) (f :: stack)) f
        scope.outline := by
      intro next hnext step hstep target htarget hnextId hnextValue hnextReady
      have hleads := (hbranch.next_or_again ho hstep htarget).resolve_right (by
        rintro ⟨g, _, _, hmet⟩
        exact hagain _ _ hmet)
      refine ih hleads ?_ (hplaced.calls hfits hpaths hnext) hnextId hnextValue hnextReady ?_
      · rw [List.length_cons]
        omega
      · intro check hcheck
        exact hprovoked.2 check (List.mem_flatMap.2 ⟨next, hnext, hcheck⟩)
    rw [Call.calls_of_calm hguard hscope hquiet hv] at hcalls
    exact takeSteps_echoes hfits hpaths hfull hscope hlive (fun _ h => h) hchecks hcalls hready

end Walk

/-! ## Schemes -/

namespace Scheme

variable {s : Scheme M k}

/-- The shapes in a report are told apart by their first elements. -/
theorem IsCompiled.shape_of_mem_errorsOf (hs : s.IsCompiled) {e : List Segment × ErrorId}
    (he : e ∈ Survey.errorsOf (Survey.report s.scopes.outlines s.rootId)) :
    (∀ t ∈ e.1, t.IsProper) ∧ e.1.map Segment.shape = e.1 := by
  refine ⟨Survey.isProper_of_mem_errorsOf hs.fits he, ?_⟩
  obtain ⟨segments, id⟩ := e
  cases Survey.due_of_mem_report (Survey.mem_errorsOf.1 he) with
  | error hbranch ho herror => exact hbranch.shape_eq

/-- The errors at the first elements are those of the survey with zeros filled in. -/
theorem IsCompiled.find?_group_first (hs : s.IsCompiled) {zeros : Nat}
    (hzeros : ∀ shape ∈ s.survey.errors.keys, Path.placeholders shape ≤ zeros) {path : String}
    {ids : List ErrorId} :
    (ErrorsByPath.group
      (Survey.noted (Survey.report s.scopes.outlines s.rootId)).events).find? path = some ids ↔
      ∃ shape, s.survey.errors.find? shape = some ids ∧
        path = Path.fillIndexes shape (List.replicate zeros 0) := by
  have herrors := Survey.errors_of_ofOutlines hs.surveyed
  have hfill {e : List Segment × ErrorId}
      (he : e ∈ Survey.errorsOf (Survey.report s.scopes.outlines s.rootId)) :
      Path.fillIndexes (Path.ofSegments e.1) (List.replicate zeros 0) =
        Path.ofSegments (e.1.map Segment.first) := by
    obtain ⟨hproper, hshape⟩ := hs.shape_of_mem_errorsOf he
    refine Path.fillIndexes_zeros hproper hshape (hzeros _ ?_)
    have hevent : (Path.ofSegments e.1, e.2) ∈
        (Survey.errorsOf (Survey.report s.scopes.outlines s.rootId)).map
          (Prod.map Path.ofSegments id) := List.mem_map.2 ⟨e, he, rfl⟩
    obtain ⟨ids, hids, _⟩ := ErrorsByPath.exists_find?_group hevent
    rw [← herrors] at hids
    exact Dict.mem_keys_iff.2 ⟨ids, hids⟩
  have hevents : (Survey.noted (Survey.report s.scopes.outlines s.rootId)).events =
      ((Survey.errorsOf (Survey.report s.scopes.outlines s.rootId)).map
        (Prod.map Path.ofSegments id)).map
          (Prod.map (fun shape => Path.fillIndexes shape (List.replicate zeros 0)) id) := by
    rw [Survey.noted, List.map_map]
    refine List.map_congr_left fun e he => ?_
    exact Prod.ext (hfill he).symm rfl
  rw [hevents, herrors]
  refine ErrorsByPath.find?_group_map ?_
  intro e he e' he' heq
  obtain ⟨d, hd, rfl⟩ := List.mem_map.1 he
  obtain ⟨d', hd', rfl⟩ := List.mem_map.1 he'
  obtain ⟨hproper, hshape⟩ := hs.shape_of_mem_errorsOf hd
  obtain ⟨hproper', hshape'⟩ := hs.shape_of_mem_errorsOf hd'
  have hfirst : Path.ofSegments (d.1.map Segment.first) =
      Path.ofSegments (d'.1.map Segment.first) :=
    (hfill hd).symm.trans (heq.trans (hfill hd'))
  have hsame := Path.ofSegments_inj
    (fun t ht => (Path.isConcrete_map_first hproper t ht).isProper)
    (fun t ht => (Path.isConcrete_map_first hproper' t ht).isProper) hfirst
  have hsegments : d.1 = d'.1 := by
    rw [← Path.map_shape_map_first hshape, hsame, Path.map_shape_map_first hshape']
  exact congrArg Path.ofSegments hsegments

section Provoked

variable (hs : s.IsCompiled) (hrec : s.recursive = false)
  (hcalm : ∀ id t, Relation.ReflTransGen s.scopes.LeadsTo s.rootId id →
    s.scopes.find? id = some t →
    ∀ policy, t.scope.presence = some policy → policy = .optional)
  {m : M.Value k}
  (hprovoked : ∀ check ∈ s.checks (s.depthBound (some m)) (some m) ⟨false, false⟩,
    check.IsProvoked)

include hs hrec hcalm hprovoked

theorem IsCompiled.validate_of_provoked : s.validate (some m) ⟨false, false⟩ =
    some (ErrorsByPath.group
      (Survey.noted (Survey.report s.scopes.outlines s.rootId)).events) := by
  have hagain (g f : Survey.Frame) : .again g f ∉ Survey.report s.scopes.outlines s.rootId := by
    intro hmet
    have hrecursive := (Survey.recursive_of_ofOutlines hs.surveyed).2 ⟨g, f, hmet⟩
    exact Bool.false_ne_true (hrec.symm.trans hrecursive)
  have hquiet (f : Survey.Frame) (stack : List Survey.Frame)
      (hbranch : Survey.Branch s.scopes.outlines s.rootId f stack) (o : Outline)
      (ho : s.scopes.outlines.find? f.id = some o) : o.presenceError? = none := by
    have hreach := hbranch.reachable
    rw [Survey.Reachable, ScopeTable.edge_outlines] at hreach
    obtain ⟨t, ht, rfl⟩ := ScopeTable.find?_outlines_eq_some_iff.1 ho
    exact Walk.presenceError?_of_optional (hcalm f.id t hreach ht)
  have hroom : s.scopes.outlines.size ≤ s.depthBound (some m) := by
    rw [ScopeTable.size_outlines]
    exact Nat.le_of_lt (size_lt_depthBound s (some m))
  have hplays : Walk.Plays false (Survey.noted (Survey.report s.scopes.outlines s.rootId)) {}
      (s.run? (some m) ⟨false, false⟩) :=
    Walk.Call.plays_findings (c := s.course ⟨false, false⟩) hs.fits hs.resolve_eq rfl rfl hagain
      hquiet .root hroom (hs.rootCall_placed (s.depthBound (some m)) (some m) ⟨false, false⟩) rfl
      rfl .start hprovoked
  rw [validate]
  generalize s.run? (some m) ⟨false, false⟩ = result at hplays
  cases hplays with
  | outOfDepth hquiet hend => cases hend
  | ends hquiet hend => rfl
  | halts hfast hevents => cases hfast

end Provoked

/-- The survey is tight.  In a compiled scheme whose scopes are not recursive and ask neither for
presence nor for absence, a model that provokes every check of its run has each error that the
survey has noted, at the first element of each collection, in the same order and as often, and it
has no other error. -/
theorem survey_is_tight {table : ScopeTable M} {rootId : ScopeId} {catalog : Catalog}
    (h : compile table k rootId catalog = .ok s) (hrec : s.recursive = false)
    (hcalm : ∀ id t, Relation.ReflTransGen table.LeadsTo rootId id → table.find? id = some t →
      ∀ policy, t.scope.presence = some policy → policy = .optional)
    (m : M.Value k)
    (hprovoked : ∀ check ∈ s.checks (s.depthBound (some m)) (some m) ⟨false, false⟩,
      check.IsProvoked) :
    ∃ errors, s.validate (some m) ⟨false, false⟩ = some errors ∧
      ∀ zeros, (∀ shape ∈ s.survey.errors.keys, Path.placeholders shape ≤ zeros) → ∀ path ids,
        errors.find? path = some ids ↔ ∃ shape, s.survey.errors.find? shape = some ids ∧
          path = Path.fillIndexes shape (List.replicate zeros 0) := by
  have hs := isCompiled_of_compile h
  obtain ⟨root, survey, _, _, _, _, rfl⟩ := compile_eq_ok h
  refine ⟨_, hs.validate_of_provoked hrec hcalm hprovoked, ?_⟩
  intro zeros hzeros path ids
  exact hs.find?_group_first hzeros

end Scheme

/-- Orders in which nothing has to be there. -/
def Orders.lax : ScopeTable Orders.space := Dict.ofList
  [(⟨0⟩, ⟨_, Orders.orderScope⟩), (⟨1⟩, ⟨_, { Orders.linesScope with presence := none }⟩),
    (⟨2⟩, ⟨_, { Orders.lineScope false with presence := some .optional }⟩),
    (⟨3⟩, ⟨_, Orders.articleScope⟩)]

/-- An order without a customer, with one line that has no article. -/
def Orders.bare : Document where
  root := some (.obj [("lines", .list [.obj []])])

/-- The order of the bare document. -/
def Orders.bareOrder : Document.View .obj := (bare.rootView? .obj).get rfl

/-- The bare order has both errors that the survey of lax orders has noted. -/
theorem Scheme.survey_is_tight_bare :
    ∃ s : Scheme Orders.space .obj,
      Scheme.compile Orders.lax .obj ⟨0⟩ Orders.catalog = .ok s ∧ s.recursive = false ∧
      s.survey.errors.entries = [("", [⟨0⟩]), ("lines[#]", [⟨3⟩])] ∧
      ∃ errors, s.validate (some Orders.bareOrder) ⟨false, false⟩ = some errors ∧
        errors.find? "lines[0]" = some [⟨3⟩] := by
  have h : Scheme.compile Orders.lax .obj ⟨0⟩ Orders.catalog = .ok _ := rfl
  have hcalm : ∀ e ∈ Orders.lax.entries, ∀ policy, e.2.scope.presence = some policy →
      policy = .optional := by
    have hentries : Orders.lax.entries =
        [(⟨0⟩, ⟨_, Orders.orderScope⟩), (⟨1⟩, ⟨_, { Orders.linesScope with presence := none }⟩),
          (⟨2⟩, ⟨_, { Orders.lineScope false with presence := some .optional }⟩),
          (⟨3⟩, ⟨_, Orders.articleScope⟩)] := rfl
    rw [hentries]
    simp [Orders.orderScope, Orders.articleScope, eq_comm]
  have htight := Scheme.survey_is_tight h rfl
    (fun id t _ ht => hcalm (id, t) (Dict.find?_eq_some_iff.1 ht)) Orders.bareOrder
  obtain ⟨errors, herrors, hfind⟩ := htight <| by
    change ∀ check ∈ ([_, _, _, _, _] : List (Check Orders.space)), check.IsProvoked
    simp only [List.forall_mem_cons]
    exact ⟨rfl, rfl, ⟨_, rfl⟩, trivial, rfl, List.forall_mem_nil _⟩
  refine ⟨_, h, rfl, rfl, errors, herrors, ?_⟩
  exact (hfind 1 (by decide) _ _).2 ⟨"lines[#]", rfl, rfl⟩

end Rulebook
