import Rulebook.Proofs.Validation
import Rulebook.Proofs.Visits

/-!
# The calls of a walk

A walk takes up one scope after the other.  A `Call` is a scope taken up: with what value, by what
sort of step, and what the walk was like before and after.  A call also has the nodes around it,
which are those that have been entered on the way to it and not been left.  They are noted whether
or not the walk keeps nodes open, so a run that does not guard loops can be asked where a guard
would have come in.

`Call.calls` lists the calls that a call makes itself, in order, and `trace` goes on with the
calls that those make.  The lists follow the functions of `Walk` one by one: they break off where
the walk stops, and there is nothing below a value that is passed over.

Each call is made for a visit: at the node that the visit is of, by a walk that has not stopped
and where no presence is broken (`Call.For`).  The calls that a call makes are for visits that its
own visit leads to (`Call.calls_for`), so those of a run are for visits that the root reaches.
-/

namespace Rulebook.Walk

open Rulebook.Path (Segment)

variable {M : ModelSpace} {k : M.Kind}

/-- The same walk with other open nodes. -/
def withOpened (opened : List M.Node) (w : Walk M) : Walk M := { w with opened }

theorem Ready.withOpened {w : Walk M} {opened : List M.Node} {segments : List Segment}
    (h : Ready w opened segments) (others : List M.Node) :
    Ready (w.withOpened others) others segments :=
  { h with opened := rfl }

/-- A scope that a walk takes up. -/
structure Call (M : ModelSpace) where
  approach : Approach
  id : ScopeId
  kind : M.Kind
  value : Option (M.Value kind)
  /-- The nodes that have been entered on the way and not been left, the last one first. -/
  around : List M.Node
  before : Walk M
  /-- The walk afterwards, if it ends. -/
  after : Option (Walk M)

/-- A call with what a visitor makes of it. -/
def Visitor.call (visit : Visitor M) (around : List M.Node) (approach : Approach) (id : ScopeId)
    (k : M.Kind) (value : Option (M.Value k)) (w : Walk M) : Call M :=
  ⟨approach, id, k, value, around, w, visit approach id k value w⟩

/-! ## Lists of calls -/

/-- The calls for elements, counting from `index`. -/
def elementCalls (paths : PathTable) (call : Option (M.Value k) → Walk M → Call M) :
    Nat → List (Option (M.Value k)) → Walk M → List (Call M)
  | _, [], _ => []
  | index, e :: rest, w =>
    let first := call e (w.enterIndex paths index)
    first ::
      match first.after with
      | some w =>
        let w := w.leaveIndex.goOn
        if w.halted then [] else elementCalls paths call (index + 1) rest w
      | none => []

/-- The calls of one step. -/
def stepCalls (c : Course M) (visit : Visitor M) (around : List M.Node) (v : M.Value k)
    (w : Walk M) : Step M k → List (Call M)
  | .rule _ _ => []
  | .member name target kind get =>
    [visit.call around .entering target kind (get v) (w.enter c.paths name)]
  | .collection target kind elements =>
    elementCalls c.paths (visit.call around .entering target kind) 0 (elements v) w
  | .inclusion target => [visit.call around .staying target k (some v) w]
  | .narrowing target kind view =>
    match view v with
    | some u => [visit.call around .entering target kind (some u) w]
    | none => []

/-- The calls of steps in order, until one of them stops the scope. -/
def stepsCalls (c : Course M) (visit : Visitor M) (around : List M.Node) (v : M.Value k) :
    List (Step M k) → Walk M → List (Call M)
  | [], _ => []
  | step :: rest, w =>
    stepCalls c visit around v w step ++
      match takeStep c visit v w step with
      | some w => if w.stops then [] else stepsCalls c visit around v rest w
      | none => []

/-- The calls of a scope with a value, which may be absent. -/
def scopeCalls (c : Course M) (visit : Visitor M) (around : List M.Node) (scope : Scope M k)
    (value : Option (M.Value k)) (w : Walk M) : List (Call M) :=
  match value with
  | some v => stepsCalls c visit around v scope.live w
  | none => []

/-- Whether the value of a call is passed over. -/
def Call.isPassedOver (guard : Bool) (call : Call M) : Bool :=
  Evaluation.passesOver guard call.before.opened call.approach call.value

/-- The calls that a call makes itself, if there is this depth left for each of them. -/
def Call.calls (c : Course M) (depth : Nat) (call : Call M) : List (Call M) :=
  match c.scopes.typed? call.id call.kind with
  | none => []
  | some scope =>
    if call.isPassedOver c.options.guardLoops then []
    else
      scopeCalls c (visit c depth)
        (Evaluation.openedBelow true call.around call.approach call.value) scope call.value
        (call.before.withOpened (Evaluation.openedBelow c.options.guardLoops call.before.opened
          call.approach call.value))

/-- A call, and below it all calls that are made for it. -/
def trace (c : Course M) : Nat → Call M → List (Call M)
  | 0, call => [call]
  | depth + 1, call => call :: (call.calls c depth).flatMap (trace c depth)

/-! ## Where calls are made -/

/-- A call is made at a node, of a scope that is there. -/
structure Call.Placed (c : Course M) (visit : Visitor M) (call : Call M) : Prop where
  typed : ∃ scope : Scope M call.kind, c.scopes.typed? call.id call.kind = some scope
  ready : ∃ segments, Ready call.before call.before.opened segments
  after : call.after = visit call.approach call.id call.kind call.value call.before

/-- The visit that a call is for, if it is made at the node that the segments lead to. -/
def Call.visitAt (call : Call M) (segments : List Segment) : Visit M :=
  ⟨call.id, call.kind, call.value, segments⟩

/-- A call is made for a visit, at the node of the visit. -/
structure Call.For (c : Course M) (visit : Visitor M) (call : Call M)
    (next : Visit M) : Prop where
  eq_visitAt : next = call.visitAt next.segments
  typed : ∃ scope : Scope M call.kind, c.scopes.typed? call.id call.kind = some scope
  ready : Ready call.before call.before.opened next.segments
  after : call.after = visit call.approach call.id call.kind call.value call.before

theorem Call.For.placed {c : Course M} {visit : Visitor M} {call : Call M} {next : Visit M}
    (h : call.For c visit next) : call.Placed c visit :=
  ⟨h.typed, ⟨next.segments, h.ready⟩, h.after⟩

/-- Back from an element, the walk is where it was. -/
theorem Plays.ready_of_element {failFast : Bool} {r : Verdict String} {paths : PathTable}
    {index : Nat} {w w' : Walk M} (h : Plays failFast r (w.enterIndex paths index) (some w'))
    {opened : List M.Node} {segments : List Segment} (hw : Ready w opened segments)
    (hgo : w'.leaveIndex.goOn.halted = false) : Ready w'.leaveIndex.goOn opened segments := by
  have hback : Plays failFast r w ((some w').map leaveIndex) :=
    h.within rfl rfl fun _ _ _ => rfl
  exact hback.settle.ready hw hgo

section Made

variable {c : Course M} {catalog : Catalog} {opened around : List M.Node}
  {read : Evaluation.Reader M String} {visit : Visitor M} {id : ScopeId} {scope : Scope M k}
  {segments : List Segment} {w : Walk M} {call : Call M}

theorem Visitor.call_for {approach : Approach} {value : Option (M.Value k)}
    (htyped : ∃ scope : Scope M k, c.scopes.typed? id k = some scope)
    (hw : Ready w opened segments) :
    (visit.call around approach id k value w).For c visit ⟨id, k, value, segments⟩ :=
  ⟨rfl, htyped, by rw [← hw.opened] at hw; exact hw, rfl⟩

theorem elementCalls_for (hpaths : ∀ b r, c.paths.resolve b r = Path.join b r)
    (hfollows : Follows c opened read visit)
    (htyped : ∃ scope : Scope M k, c.scopes.typed? id k = some scope) {index : Nat}
    {elements : List (Option (M.Value k))} (hw : Ready w opened segments)
    (h : call ∈ elementCalls c.paths (visit.call around .entering id k) index elements w) :
    call.approach = .entering ∧ ∃ i e, elements[i]? = some e ∧
      call.For c visit ⟨id, k, e, Path.extend segments (.index (index + i))⟩ := by
  induction elements generalizing index w with
  | nil => exact absurd h List.not_mem_nil
  | cons e rest ih =>
    have hin := hw.enterIndex hpaths index
    rcases List.mem_cons.1 h with rfl | h
    · exact ⟨rfl, 0, e, rfl, Visitor.call_for htyped hin⟩
    · have hplays := hfollows .entering id k e _ _ htyped hin
      dsimp only [Visitor.call] at h
      cases hafter : visit .entering id k e (w.enterIndex c.paths index) with
      | none =>
        rw [hafter] at h
        exact absurd h List.not_mem_nil
      | some w' =>
        rw [hafter] at h hplays
        dsimp only at h
        split at h
        · exact absurd h List.not_mem_nil
        · rename_i hgo
          obtain ⟨happroach, i, e', he', hfor⟩ :=
            ih (hplays.ready_of_element hw (Bool.eq_false_iff.2 hgo)) h
          rw [Nat.add_right_comm, Nat.add_assoc] at hfor
          exact ⟨happroach, i + 1, e', he', hfor⟩

/-- The calls of a step are for visits that the step leads to. -/
theorem stepCalls_for (hfits : c.scopes.Fits catalog)
    (hpaths : ∀ b r, c.paths.resolve b r = Path.join b r)
    (hscope : c.scopes.typed? id k = some scope) (hfollows : Follows c opened read visit)
    {step : Step M k} (hstep : step ∈ scope.steps) {v : M.Value k} (hw : Ready w opened segments)
    (h : call ∈ stepCalls c visit around v w step) :
    call.approach = step.approach ∧ ∃ next ∈ step.visits v segments, call.For c visit next := by
  cases step with
  | rule error test => exact absurd h List.not_mem_nil
  | member name target kind get =>
    have hname := hfits.isMemberName hscope hstep List.mem_cons_self
    obtain rfl := List.mem_singleton.1 h
    exact ⟨rfl, _, List.mem_singleton_self _, Visitor.call_for
      (hfits.exists_typed? hscope hstep (List.mem_cons_of_mem _ List.mem_cons_self))
      (hw.enter hpaths hname)⟩
  | collection target kind elements =>
    obtain ⟨happroach, i, e, he, hfor⟩ := elementCalls_for hpaths hfollows
      (hfits.exists_typed? hscope hstep List.mem_cons_self) hw h
    rw [Nat.zero_add] at hfor
    obtain ⟨hi, rfl⟩ := List.getElem?_eq_some_iff.1 he
    exact ⟨happroach, _, List.mem_mapIdx.2 ⟨i, hi, rfl⟩, hfor⟩
  | inclusion target =>
    obtain rfl := List.mem_singleton.1 h
    exact ⟨rfl, _, List.mem_singleton_self _,
      Visitor.call_for (hfits.exists_typed? hscope hstep List.mem_cons_self) hw⟩
  | narrowing target kind view =>
    rw [stepCalls] at h
    rw [Step.visits]
    cases hview : view v with
    | none =>
      rw [hview] at h
      exact absurd h List.not_mem_nil
    | some u =>
      rw [hview] at h
      obtain rfl := List.mem_singleton.1 h
      exact ⟨rfl, _, List.mem_singleton_self _,
        Visitor.call_for (hfits.exists_typed? hscope hstep List.mem_cons_self) hw⟩

theorem stepsCalls_for (hfits : c.scopes.Fits catalog)
    (hpaths : ∀ b r, c.paths.resolve b r = Path.join b r)
    (hscope : c.scopes.typed? id k = some scope) (hfollows : Follows c opened read visit)
    {steps : List (Step M k)} (hsteps : ∀ step ∈ steps, step ∈ scope.steps) {v : M.Value k}
    (hw : Ready w opened segments) (h : call ∈ stepsCalls c visit around v steps w) :
    ∃ step ∈ steps, call.approach = step.approach ∧
      ∃ next ∈ step.visits v segments, call.For c visit next := by
  induction steps generalizing w with
  | nil => exact absurd h List.not_mem_nil
  | cons step rest ih =>
    rw [List.forall_mem_cons] at hsteps
    rcases List.mem_append.1 h with h | h
    · exact ⟨step, List.mem_cons_self, stepCalls_for hfits hpaths hscope hfollows hsteps.1 hw h⟩
    · have hplays := takeStep_plays hfits hpaths hscope hfollows hsteps.1 v hw
      split at h
      · rename_i w' hw'
        rw [hw'] at hplays
        split at h
        · exact absurd h List.not_mem_nil
        · rename_i hgo
          obtain ⟨step', hstep', hfor⟩ :=
            ih hsteps.2 (hplays.ready hw (Bool.eq_false_iff.2 hgo)) h
          exact ⟨step', List.mem_cons_of_mem _ hstep', hfor⟩
      · exact absurd h List.not_mem_nil

/-- A call that is made for a visit makes its calls for visits that this one leads to. -/
theorem Call.calls_for (hfits : c.scopes.Fits catalog)
    (hpaths : ∀ b r, c.paths.resolve b r = Path.join b r)
    (hready : Ready call.before call.before.opened segments) {depth : Nat} {next : Call M}
    (h : next ∈ call.calls c depth) :
    ∃ visit, (call.visitAt segments).Leads c.scopes next.approach visit ∧
      next.For c (Walk.visit c depth) visit := by
  obtain ⟨approach, id, k, value, around, before, after⟩ := call
  rw [Call.calls] at h
  dsimp only at h hready
  split at h
  · exact absurd h List.not_mem_nil
  rename_i scope hscope
  split at h
  · exact absurd h List.not_mem_nil
  · cases value with
    | none => exact absurd h List.not_mem_nil
    | some v =>
      obtain ⟨step, hstep, happroach, visit, hvisit, hfor⟩ :=
        stepsCalls_for hfits hpaths hscope (visit_follows hfits hpaths rfl depth _)
          (fun _ => Scope.mem_steps_of_mem_live) (hready.withOpened _) h
      rw [happroach]
      exact ⟨visit, .step hscope hstep hvisit, hfor⟩

/-! ## Calls that end -/

theorem elementCalls_end {paths : PathTable} {index : Nat} {elements : List (Option (M.Value k))}
    {w' : Walk M} (hend : visitElements paths (visit .entering id k) index elements w = some w')
    (h : call ∈ elementCalls paths (visit.call around .entering id k) index elements w) :
    ∃ after, call.after = some after := by
  induction elements generalizing index w with
  | nil => exact absurd h List.not_mem_nil
  | cons e rest ih =>
    obtain ⟨w₁, hfirst, hrest⟩ := Option.bind_eq_some_iff.1 hend
    rcases List.mem_cons.1 h with rfl | h
    · exact ⟨w₁, hfirst⟩
    · dsimp only [Visitor.call] at h
      rw [hfirst] at h
      dsimp only at h
      split at h
      · exact absurd h List.not_mem_nil
      · rename_i hgo
        exact ih ((if_neg hgo).symm.trans hrest) h

theorem stepCalls_end {v : M.Value k} {step : Step M k} {w' : Walk M}
    (hend : takeStep c visit v w step = some w') (h : call ∈ stepCalls c visit around v w step) :
    ∃ after, call.after = some after := by
  cases step with
  | rule error test => exact absurd h List.not_mem_nil
  | member name target kind get =>
    obtain rfl := List.mem_singleton.1 h
    obtain ⟨w₁, hfirst, _⟩ := Option.bind_eq_some_iff.1 hend
    exact ⟨w₁, hfirst⟩
  | collection target kind elements => exact elementCalls_end hend h
  | inclusion target =>
    obtain rfl := List.mem_singleton.1 h
    exact ⟨w', hend⟩
  | narrowing target kind view =>
    rw [stepCalls] at h
    rw [takeStep] at hend
    cases hview : view v with
    | none =>
      rw [hview] at h
      exact absurd h List.not_mem_nil
    | some u =>
      rw [hview] at h hend
      obtain rfl := List.mem_singleton.1 h
      exact ⟨w', hend⟩

theorem stepsCalls_end {v : M.Value k} {steps : List (Step M k)} {w' : Walk M}
    (hend : takeSteps c visit v steps w = some w')
    (h : call ∈ stepsCalls c visit around v steps w) : ∃ after, call.after = some after := by
  induction steps generalizing w with
  | nil => exact absurd h List.not_mem_nil
  | cons step rest ih =>
    obtain ⟨w₁, hfirst, hrest⟩ := Option.bind_eq_some_iff.1 hend
    rcases List.mem_append.1 h with h | h
    · exact stepCalls_end hfirst h
    · rw [hfirst] at h
      dsimp only at h
      split at h
      · exact absurd h List.not_mem_nil
      · rename_i hgo
        exact ih ((if_neg hgo).symm.trans hrest) h

theorem checkWith_of_not_refused (h : scope.refusal? = none) (v : M.Value k) :
    checkWith c visit scope (some v) w = takeSteps c visit v scope.steps w := by
  rw [Scope.refusal?] at h
  unfold checkWith
  cases hpresence : scope.presence with
  | none => rfl
  | some policy =>
    rw [hpresence] at h
    cases policy with
    | optional => rfl
    | required error => rfl
    | forbidden error => exact absurd h (Option.some_ne_none error)

theorem scopeCalls_end {value : Option (M.Value k)} {w' : Walk M}
    (hend : checkWith c visit scope value w = some w')
    (h : call ∈ scopeCalls c visit around scope value w) : ∃ after, call.after = some after := by
  cases value with
  | none => exact absurd h List.not_mem_nil
  | some v =>
    cases hrefusal : scope.refusal? with
    | some error =>
      rw [scopeCalls, Scope.live, hrefusal] at h
      exact absurd h List.not_mem_nil
    | none =>
      rw [scopeCalls, Scope.live_eq_steps hrefusal] at h
      rw [checkWith_of_not_refused hrefusal] at hend
      exact stepsCalls_end hend h

/-- A visit that ends has checked the value, unless it has passed it over. -/
theorem exists_check_of_visit {depth : Nat} {approach : Approach} {value : Option (M.Value k)}
    {w' : Walk M} (hscope : c.scopes.typed? id k = some scope)
    (hpass : Evaluation.passesOver c.options.guardLoops w.opened approach value = false)
    (h : Walk.visit c (depth + 1) approach id k value w = some w') :
    ∃ checked, checkWith c (Walk.visit c depth) scope value
      (w.withOpened (Evaluation.openedBelow c.options.guardLoops w.opened approach value)) =
        some checked := by
  rw [Walk.visit, hscope] at h
  cases approach with
  | staying => exact ⟨w', h⟩
  | entering =>
    cases value with
    | none =>
      cases hguard : c.options.guardLoops <;> rw [hguard] at h <;> exact ⟨w', h⟩
    | some v =>
      cases hguard : c.options.guardLoops with
      | false =>
        rw [hguard] at h
        exact ⟨w', h⟩
      | true =>
        rw [hguard] at h hpass
        have hnode : M.nodeOf v ∉ w.opened :=
          mt Evaluation.passesOver_entering.2 (Bool.eq_false_iff.1 hpass)
        simp only [guarded, if_neg hnode] at h
        obtain ⟨checked, hchecked, _⟩ := Option.bind_eq_some_iff.1 h
        exact ⟨checked, hchecked⟩

/-- A call that ends makes calls that end. -/
theorem Call.calls_end {depth : Nat}
    (hafter : call.after =
      Walk.visit c (depth + 1) call.approach call.id call.kind call.value call.before)
    (hend : ∃ after, call.after = some after) {next : Call M} (h : next ∈ call.calls c depth) :
    ∃ after, next.after = some after := by
  obtain ⟨after, hend⟩ := hend
  rw [hafter] at hend
  rw [Call.calls] at h
  split at h
  · exact absurd h List.not_mem_nil
  rename_i hscope
  split at h
  · exact absurd h List.not_mem_nil
  rename_i hpass
  obtain ⟨checked, hchecked⟩ := exists_check_of_visit hscope (Bool.eq_false_iff.2 hpass) hend
  exact scopeCalls_end hchecked h

/-- A call that is made at a node makes its calls at nodes. -/
theorem Call.Placed.calls (hfits : c.scopes.Fits catalog)
    (hpaths : ∀ b r, c.paths.resolve b r = Path.join b r) (hcall : call.Placed c visit)
    {depth : Nat} {next : Call M} (h : next ∈ call.calls c depth) :
    next.Placed c (Walk.visit c depth) := by
  obtain ⟨segments, hready⟩ := hcall.ready
  obtain ⟨_, _, hfor⟩ := Call.calls_for hfits hpaths hready h
  exact hfor.placed

/-- The calls below a call that is made for a visit are for visits that this one reaches. -/
theorem trace_for (hfits : c.scopes.Fits catalog)
    (hpaths : ∀ b r, c.paths.resolve b r = Path.join b r) {depth : Nat} {first : Visit M}
    (hcall : call.For c (Walk.visit c depth) first) {next : Call M}
    (h : next ∈ trace c depth call) :
    ∃ left visit, first.Reaches c.scopes visit ∧ next.For c (Walk.visit c left) visit := by
  induction depth generalizing call first with
  | zero =>
    obtain rfl := List.mem_singleton.1 h
    exact ⟨0, first, .refl, hcall⟩
  | succ depth ih =>
    rcases List.mem_cons.1 h with rfl | h
    · exact ⟨depth + 1, first, .refl, hcall⟩
    · obtain ⟨below, hbelow, hnext⟩ := List.mem_flatMap.1 h
      obtain ⟨visit, hleads, hfor⟩ := Call.calls_for hfits hpaths hcall.ready hbelow
      rw [← hcall.eq_visitAt] at hleads
      obtain ⟨left, last, hreaches, hlast⟩ := ih hfor hnext
      exact ⟨left, last, .head ⟨_, hleads⟩ hreaches, hlast⟩

/-- All calls below a call that ends have an end. -/
theorem trace_end (hfits : c.scopes.Fits catalog)
    (hpaths : ∀ b r, c.paths.resolve b r = Path.join b r) {depth : Nat}
    (hcall : call.Placed c (Walk.visit c depth)) (hend : ∃ after, call.after = some after)
    {next : Call M} (h : next ∈ trace c depth call) : ∃ after, next.after = some after := by
  induction depth generalizing call with
  | zero =>
    obtain rfl := List.mem_singleton.1 h
    exact hend
  | succ depth ih =>
    rcases List.mem_cons.1 h with rfl | h
    · exact hend
    · obtain ⟨below, hbelow, hnext⟩ := List.mem_flatMap.1 h
      exact ih (hcall.calls hfits hpaths hbelow) (Call.calls_end hcall.after hend hbelow) hnext

end Made

end Rulebook.Walk

/-! ## The calls of a run -/

namespace Rulebook.Scheme

variable {M : ModelSpace} {k : M.Kind}

/-- The call that a run begins with. -/
def rootCall (s : Scheme M k) (depth : Nat) (model : Option (M.Value k)) (options : Options) :
    Walk.Call M :=
  (Walk.visit (s.course options) depth).call [] .entering s.rootId k model {}

/-- The calls of the walk through a model, if they are not nested deeper than `depth`. -/
def calls (s : Scheme M k) (depth : Nat) (model : Option (M.Value k)) (options : Options) :
    List (Walk.Call M) :=
  Walk.trace (s.course options) depth (s.rootCall depth model options)

section Run

variable {s : Scheme M k} {depth : Nat} {model : Option (M.Value k)} {options : Options}

theorem IsCompiled.rootCall_for (hs : s.IsCompiled) (depth : Nat) (model : Option (M.Value k))
    (options : Options) :
    (s.rootCall depth model options).For (s.course options)
      (Walk.visit (s.course options) depth) (s.rootVisit model) :=
  Walk.Visitor.call_for ⟨s.root, hs.root_typed⟩ .start

theorem IsCompiled.rootCall_placed (hs : s.IsCompiled) (depth : Nat) (model : Option (M.Value k))
    (options : Options) :
    (s.rootCall depth model options).Placed (s.course options)
      (Walk.visit (s.course options) depth) :=
  (hs.rootCall_for depth model options).placed

/-- Every call of a run is made for a visit that the root reaches. -/
theorem IsCompiled.calls_for (hs : s.IsCompiled) {call : Walk.Call M}
    (h : call ∈ s.calls depth model options) :
    ∃ left visit, (s.rootVisit model).Reaches s.scopes visit ∧
      call.For (s.course options) (Walk.visit (s.course options) left) visit :=
  Walk.trace_for (c := s.course options) hs.fits hs.resolve_eq
    (hs.rootCall_for depth model options) h

/-- Every call of a run is made at a node. -/
theorem IsCompiled.calls_placed (hs : s.IsCompiled) {call : Walk.Call M}
    (h : call ∈ s.calls depth model options) :
    ∃ left, call.Placed (s.course options) (Walk.visit (s.course options) left) := by
  obtain ⟨left, _, _, hfor⟩ := hs.calls_for h
  exact ⟨left, hfor.placed⟩

/-- Every call of a run that ends has an end. -/
theorem IsCompiled.calls_end (hs : s.IsCompiled) {w : Walk M}
    (hw : s.walk? depth model options = some w) {call : Walk.Call M}
    (h : call ∈ s.calls depth model options) : ∃ after, call.after = some after :=
  Walk.trace_end (c := s.course options) hs.fits hs.resolve_eq
    (hs.rootCall_placed depth model options) ⟨w, hw⟩ h

end Run

end Rulebook.Scheme
