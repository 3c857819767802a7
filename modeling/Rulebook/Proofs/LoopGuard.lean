import Rulebook.Proofs.Calls
import Rulebook.Proofs.Termination

/-!
# What guarding loops does to a run

A run that guards loops passes over a value whose node is open, and a node is kept by its kind and
its address only.  So the guard does not look for loops of scopes: it comes in wherever a node is
entered on the way from itself, with whatever scope.  Where an order is checked as an article in a
view of its own, no scope leads back to itself, but the view is the order, which is open, and the
errors of the article are lost.

What a guard would pass over can be seen in a run without one, as its calls have the nodes around
them.  A guarded run repeats such a run call by call (`Call.Placed.repeats`), with the nodes
around each call open, as long as the calls that enter a node around them leave the walk as it is.

* Where no call does so, it makes all the calls (`trace_guarded`), and nothing is passed over.
* At a node, a call that records nothing leaves the walk as it is
  (`Call.Placed.after_of_isSilent`).
-/

namespace Rulebook

variable {M : ModelSpace} {k : M.Kind}

/-- The same course with loops guarded. -/
def Course.guarded (c : Course M) : Course M := { c with options.guardLoops := true }

namespace Walk

open Rulebook.Path (Segment)

namespace Call

/-- The call enters a node that is around it. -/
def reenters (call : Call M) : Bool :=
  Evaluation.passesOver true call.around call.approach call.value

/-- The call of a walk that keeps the nodes around it open. -/
def tracked (call : Call M) : Call M :=
  { call with
    before := call.before.withOpened call.around
    after := call.after.map (withOpened call.around) }

/-- With the nodes around it open, a visitor makes of the call what has been made of it. -/
def Repeats (call : Call M) (visit : Visitor M) : Prop :=
  visit call.approach call.id call.kind call.value (call.before.withOpened call.around) =
    call.after.map (withOpened call.around)

end Call

section Tracking

variable {c : Course M} {on off : Visitor M} {around : List M.Node} {w : Walk M}

theorem record_guarded (w : Walk M) (around : List M.Node) (id : ErrorId) :
    (w.withOpened around).record c.guarded.options id =
      (w.record c.options id).withOpened around := by
  rw [record, record]
  by_cases hhalted : w.halted
  · rw [if_pos hhalted, if_pos]
    exact hhalted
  · rw [if_neg hhalted, if_neg]
    · rfl
    · exact hhalted

theorem breach_guarded (w : Walk M) (around : List M.Node) (id : ErrorId) :
    (w.withOpened around).breach c.guarded.options id =
      (w.breach c.options id).withOpened around := by
  rw [breach, record_guarded]
  rfl

theorem visitElements_guarded {paths : PathTable} {id : ScopeId} {index : Nat}
    {elements : List (Option (M.Value k))}
    (h : ∀ call ∈ elementCalls paths (off.call around .entering id k) index elements w,
      call.Repeats on) :
    visitElements paths (on .entering id k) index elements (w.withOpened around) =
      (visitElements paths (off .entering id k) index elements w).map (withOpened around) := by
  induction elements generalizing index w with
  | nil => rfl
  | cons e rest ih =>
    obtain ⟨hfirst, hrest⟩ := List.forall_mem_cons.1 h
    have hfirst : on .entering id k e ((w.withOpened around).enterIndex paths index) =
        (off .entering id k e (w.enterIndex paths index)).map (withOpened around) := hfirst
    rw [visitElements, visitElements, hfirst]
    dsimp only [Visitor.call] at hrest
    cases hafter : off .entering id k e (w.enterIndex paths index) with
    | none => rfl
    | some w' =>
      rw [hafter] at hrest
      show (if w'.leaveIndex.goOn.halted then _ else _) =
        Option.map _ (if w'.leaveIndex.goOn.halted then _ else _)
      cases hhalted : w'.leaveIndex.goOn.halted with
      | true => rfl
      | false =>
        dsimp only at hrest
        rw [hhalted] at hrest
        exact ih hrest

theorem takeStep_guarded {v : M.Value k} {step : Step M k}
    (h : ∀ call ∈ stepCalls c off around v w step, call.Repeats on) :
    takeStep c.guarded on v (w.withOpened around) step =
      (takeStep c off v w step).map (withOpened around) := by
  cases step with
  | rule error test =>
    rw [takeStep, takeStep, record_guarded]
    split <;> rfl
  | member name target kind get =>
    have hbelow : on .entering target kind (get v) ((w.withOpened around).enter c.paths name) =
        (off .entering target kind (get v) (w.enter c.paths name)).map (withOpened around) :=
      h _ (List.mem_singleton_self _)
    rw [takeStep, takeStep]
    show (on .entering target kind (get v) ((w.withOpened around).enter c.paths name)).bind _ = _
    rw [hbelow]
    cases off .entering target kind (get v) (w.enter c.paths name) <;> rfl
  | collection target kind elements => exact visitElements_guarded h
  | inclusion target => exact h _ (List.mem_singleton_self _)
  | narrowing target kind view =>
    rw [stepCalls] at h
    rw [takeStep, takeStep]
    cases hview : view v with
    | none => rfl
    | some u =>
      rw [hview] at h
      exact h _ (List.mem_singleton_self _)

theorem takeSteps_guarded {v : M.Value k} {steps : List (Step M k)}
    (h : ∀ call ∈ stepsCalls c off around v steps w, call.Repeats on) :
    takeSteps c.guarded on v steps (w.withOpened around) =
      (takeSteps c off v steps w).map (withOpened around) := by
  induction steps generalizing w with
  | nil => rfl
  | cons step rest ih =>
    obtain ⟨hfirst, hrest⟩ := List.forall_mem_append.1 h
    rw [takeSteps, takeSteps, takeStep_guarded hfirst]
    cases hafter : takeStep c off v w step with
    | none => rfl
    | some w' =>
      rw [hafter] at hrest
      show (if w'.stops then _ else _) = Option.map _ (if w'.stops then _ else _)
      cases hstops : w'.stops with
      | true => rfl
      | false =>
        dsimp only at hrest
        rw [hstops] at hrest
        exact ih hrest

theorem checkWith_guarded {scope : Scope M k} {value : Option (M.Value k)}
    (h : ∀ call ∈ scopeCalls c off around scope value w, call.Repeats on) :
    checkWith c.guarded on scope value (w.withOpened around) =
      (checkWith c off scope value w).map (withOpened around) := by
  unfold checkWith
  cases value with
  | none =>
    cases scope.presence with
    | none => rfl
    | some policy =>
      cases policy with
      | optional => rfl
      | required error => exact congrArg some (breach_guarded w around error)
      | forbidden error => rfl
  | some v =>
    have hsteps (hlive : scope.live = scope.steps) :
        takeSteps c.guarded on v scope.steps (w.withOpened around) =
          (takeSteps c off v scope.steps w).map (withOpened around) := by
      rw [← hlive]
      exact takeSteps_guarded h
    rw [Scope.live, Scope.refusal?] at hsteps
    cases hpresence : scope.presence with
    | none =>
      rw [hpresence] at hsteps
      exact hsteps rfl
    | some policy =>
      rw [hpresence] at hsteps
      cases policy with
      | optional => exact hsteps rfl
      | required error => exact hsteps rfl
      | forbidden error => exact congrArg some (breach_guarded w around error)

/-- A call that is repeated is the same call, tracked. -/
theorem Call.Repeats.call_eq {approach : Approach} {id : ScopeId} {value : Option (M.Value k)}
    (h : (off.call around approach id k value w).Repeats on) :
    on.call around approach id k value (w.withOpened around) =
      (off.call around approach id k value w).tracked := by
  have hafter : on approach id k value (w.withOpened around) =
      (off approach id k value w).map (withOpened around) := h
  rw [Visitor.call, hafter]
  rfl

theorem elementCalls_guarded {paths : PathTable} {id : ScopeId} {index : Nat}
    {elements : List (Option (M.Value k))}
    (h : ∀ call ∈ elementCalls paths (off.call around .entering id k) index elements w,
      call.Repeats on) :
    elementCalls paths (on.call around .entering id k) index elements (w.withOpened around) =
      (elementCalls paths (off.call around .entering id k) index elements w).map
        Call.tracked := by
  induction elements generalizing index w with
  | nil => rfl
  | cons e rest ih =>
    obtain ⟨hfirst, hrest⟩ := List.forall_mem_cons.1 h
    have hcall : on.call around .entering id k e ((w.withOpened around).enterIndex paths index) =
        (off.call around .entering id k e (w.enterIndex paths index)).tracked := hfirst.call_eq
    rw [elementCalls, elementCalls, List.map_cons, hcall]
    refine congrArg (List.cons _) ?_
    dsimp only [Visitor.call] at hrest
    dsimp only [Visitor.call, Call.tracked]
    cases hafter : off .entering id k e (w.enterIndex paths index) with
    | none => rfl
    | some w' =>
      rw [hafter] at hrest
      dsimp only at hrest
      show (if w'.leaveIndex.goOn.halted then _ else _) =
        List.map _ (if w'.leaveIndex.goOn.halted then _ else _)
      cases hhalted : w'.leaveIndex.goOn.halted with
      | true => rfl
      | false =>
        rw [hhalted] at hrest
        exact ih hrest

theorem stepCalls_guarded {v : M.Value k} {step : Step M k}
    (h : ∀ call ∈ stepCalls c off around v w step, call.Repeats on) :
    stepCalls c.guarded on around v (w.withOpened around) step =
      (stepCalls c off around v w step).map Call.tracked := by
  cases step with
  | rule error test => rfl
  | member name target kind get =>
    exact congrArg ([·]) (h _ (List.mem_singleton_self _)).call_eq
  | collection target kind elements => exact elementCalls_guarded h
  | inclusion target => exact congrArg ([·]) (h _ (List.mem_singleton_self _)).call_eq
  | narrowing target kind view =>
    rw [stepCalls] at h
    rw [stepCalls, stepCalls]
    cases hview : view v with
    | none => rfl
    | some u =>
      rw [hview] at h
      exact congrArg ([·]) (h _ (List.mem_singleton_self _)).call_eq

theorem stepsCalls_guarded {v : M.Value k} {steps : List (Step M k)}
    (h : ∀ call ∈ stepsCalls c off around v steps w, call.Repeats on) :
    stepsCalls c.guarded on around v steps (w.withOpened around) =
      (stepsCalls c off around v steps w).map Call.tracked := by
  induction steps generalizing w with
  | nil => rfl
  | cons step rest ih =>
    obtain ⟨hfirst, hrest⟩ := List.forall_mem_append.1 h
    rw [stepsCalls, stepsCalls, List.map_append, stepCalls_guarded hfirst,
      takeStep_guarded hfirst]
    refine congrArg (List.append _) ?_
    cases hafter : takeStep c off v w step with
    | none => rfl
    | some w' =>
      rw [hafter] at hrest
      show (if w'.stops then _ else _) = List.map _ (if w'.stops then _ else _)
      dsimp only at hrest
      cases hstops : w'.stops with
      | true => rfl
      | false =>
        rw [hstops] at hrest
        exact ih hrest

theorem scopeCalls_guarded {scope : Scope M k} {value : Option (M.Value k)}
    (h : ∀ call ∈ scopeCalls c off around scope value w, call.Repeats on) :
    scopeCalls c.guarded on around scope value (w.withOpened around) =
      (scopeCalls c off around scope value w).map Call.tracked := by
  cases value with
  | none => rfl
  | some v => exact stepsCalls_guarded h

/-- A node that is kept open while a check runs is not open afterwards. -/
theorem guarded_of_not_mem {node : M.Node} (hopen : node ∉ around)
    {check : Walk M → Option (Walk M)} {after : Option (Walk M)}
    (hcheck : check (w.withOpened (node :: around)) = after.map (withOpened (node :: around))) :
    guarded node check (w.withOpened around) = after.map (withOpened around) := by
  have hguarded : guarded node check (w.withOpened around) =
      (check (w.withOpened (node :: around))).bind
        fun w' => some { w' with opened := w'.opened.tail } := if_neg hopen
  rw [hguarded, hcheck]
  cases after <;> rfl

/-! ## Calls -/

/-- The calls of a call of a walk that does not guard loops. -/
theorem Call.calls_of_typed (hoff : c.options.guardLoops = false) {call : Call M}
    {scope : Scope M call.kind} (hscope : c.scopes.typed? call.id call.kind = some scope)
    (depth : Nat) :
    call.calls c depth = scopeCalls c (visit c depth)
      (Evaluation.openedBelow true call.around call.approach call.value) scope call.value
      call.before := by
  obtain ⟨approach, id, k, value, around, before, after⟩ := call
  rw [calls, hscope, isPassedOver, hoff]
  cases approach <;> cases value <;> rfl

/-- What becomes of a walk that does not guard loops is what its scope makes of it. -/
theorem Call.Placed.after_of_typed (hoff : c.options.guardLoops = false) {depth : Nat}
    {call : Call M} (hcall : call.Placed c (visit c (depth + 1))) {scope : Scope M call.kind}
    (hscope : c.scopes.typed? call.id call.kind = some scope) :
    call.after = checkWith c (visit c depth) scope call.value call.before := by
  rw [hcall.after, visit, hscope, hoff]
  dsimp only
  split
  · rename_i hguard _
    exact absurd hguard Bool.false_ne_true
  · rfl

/-- Where nothing that is around it is entered, a walk that guards loops makes the same calls for
a call. -/
theorem Call.calls_guarded (hoff : c.options.guardLoops = false) {call : Call M}
    {scope : Scope M call.kind} (hscope : c.scopes.typed? call.id call.kind = some scope)
    {depth : Nat} (henters : call.reenters = false)
    (hcalls : ∀ next ∈ call.calls c depth, next.Repeats (visit c.guarded depth)) :
    call.tracked.calls c.guarded depth = (call.calls c depth).map Call.tracked := by
  have hguarded : c.guarded.scopes.typed? call.tracked.id call.tracked.kind = some scope := hscope
  have hpass : call.tracked.isPassedOver c.guarded.options.guardLoops = false := henters
  rw [calls_of_typed hoff hscope] at hcalls ⊢
  rw [calls, hguarded]
  dsimp only
  rw [hpass]
  exact scopeCalls_guarded hcalls

/-- Where it enters a node that is around it, a call leaves the walk as it is. -/
def Call.IsIdle (call : Call M) : Prop := call.reenters = true → call.after = some call.before

theorem Call.isIdle_of_not_reenters {call : Call M} (h : call.reenters = false) : call.IsIdle :=
  fun hagain => nomatch h.symm.trans hagain

variable {catalog : Catalog}

/-- A walk that guards loops repeats every call, if it would pass over idle calls only. -/
theorem Call.Placed.repeats (hfits : c.scopes.Fits catalog)
    (hpaths : ∀ b r, c.paths.resolve b r = Path.join b r) (hoff : c.options.guardLoops = false)
    {depth : Nat} {call : Call M} (hcall : call.Placed c (visit c depth))
    (hidle : ∀ next ∈ trace c depth call, next.IsIdle) :
    call.Repeats (visit c.guarded depth) := by
  induction depth generalizing call with
  | zero =>
    rw [Repeats, hcall.after]
    rfl
  | succ depth ih =>
    obtain ⟨hself, hnext⟩ := List.forall_mem_cons.1 hidle
    have hcalls : ∀ next ∈ call.calls c depth, next.Repeats (visit c.guarded depth) := by
      intro next hmem
      refine ih (hcall.calls hfits hpaths hmem) fun last hlast => ?_
      exact hnext last (List.mem_flatMap.2 ⟨next, hmem, hlast⟩)
    obtain ⟨scope, hscope⟩ := hcall.typed
    rw [Call.calls_of_typed hoff hscope] at hcalls
    have hcheck := checkWith_guarded hcalls
    rw [← hcall.after_of_typed hoff hscope] at hcheck
    obtain ⟨approach, id, k, value, around, before, after⟩ := call
    have hguarded : c.guarded.scopes.typed? id k = some scope := hscope
    rw [Repeats, visit, hguarded]
    dsimp only at hcheck ⊢
    cases approach with
    | staying => exact hcheck
    | entering =>
      cases value with
      | none => exact hcheck
      | some v =>
        -- The guard comes in only here: it passes over the value where the call is idle, and
        -- otherwise keeps its node open for the calls below.
        by_cases hopen : M.nodeOf v ∈ around
        · have hafter : after = some before := hself (Evaluation.passesOver_entering.2 hopen)
          rw [hafter]
          exact if_pos hopen
        · exact guarded_of_not_mem hopen hcheck

/-- Where nothing that is around is entered, a walk that guards loops makes the same calls. -/
theorem trace_guarded (hfits : c.scopes.Fits catalog)
    (hpaths : ∀ b r, c.paths.resolve b r = Path.join b r) (hoff : c.options.guardLoops = false)
    {depth : Nat} {call : Call M} (hcall : call.Placed c (visit c depth))
    (henters : ∀ next ∈ trace c depth call, next.reenters = false) :
    trace c.guarded depth call.tracked = (trace c depth call).map Call.tracked := by
  induction depth generalizing call with
  | zero => rfl
  | succ depth ih =>
    obtain ⟨hself, hnext⟩ := List.forall_mem_cons.1 henters
    have hbelow : ∀ next ∈ call.calls c depth, ∀ last ∈ trace c depth next,
        last.reenters = false :=
      fun next hmem last hlast => hnext last (List.mem_flatMap.2 ⟨next, hmem, hlast⟩)
    have hplaced : ∀ next ∈ call.calls c depth, next.Placed c (visit c depth) :=
      fun next hmem => hcall.calls hfits hpaths hmem
    obtain ⟨scope, hscope⟩ := hcall.typed
    have hcalls : call.tracked.calls c.guarded depth = (call.calls c depth).map Call.tracked := by
      refine Call.calls_guarded hoff hscope hself fun next hmem => ?_
      exact (hplaced next hmem).repeats hfits hpaths hoff fun last hlast =>
        Call.isIdle_of_not_reenters (hbelow next hmem last hlast)
    rw [trace, trace, List.map_cons, hcalls, List.flatMap_map, List.map_flatMap]
    refine congrArg (List.cons _) (List.flatMap_congr fun next hmem => ?_)
    exact ih (hplaced next hmem) (hbelow next hmem)

/-! ## Silent calls -/

/-- A call that ends and records nothing. -/
def Call.IsSilent (call : Call M) : Prop :=
  call.after.map (·.errors) = some call.before.errors

/-- A walk that records nothing stays as it is. -/
theorem Plays.eq_of_errors {failFast : Bool} {r : Verdict String} {w' : Walk M}
    (h : Plays failFast r w (some w')) (hback : r.ending = .fellBack → r.events ≠ [])
    (hsteady : w.fellBack = false) (herrors : w'.errors = w.errors) : w' = w := by
  cases h with
  | ends hquiet hend =>
    have hnone : r.events = [] := ErrorsByPath.recordAll_eq_self_iff.1 herrors
    have hfinished : decide (r.ending = .fellBack) = w.fellBack := by
      rw [hsteady]
      exact decide_eq_false fun h => hback h hnone
    rw [hnone, hfinished]
    rfl
  | @halts e rest fellBack hfast hevents =>
    have hrecorded : w.errors.recordAll [e] = w.errors := herrors
    exact absurd (ErrorsByPath.recordAll_eq_self_iff.1 hrecorded) (List.cons_ne_nil _ _)

/-- A call that is made at a node and records nothing leaves the walk as it is. -/
theorem Call.Placed.after_of_isSilent (hfits : c.scopes.Fits catalog)
    (hpaths : ∀ b r, c.paths.resolve b r = Path.join b r) {depth : Nat} {call : Call M}
    (hcall : call.Placed c (visit c depth)) (h : call.IsSilent) :
    call.after = some call.before := by
  obtain ⟨segments, hready⟩ := hcall.ready
  obtain ⟨w', hafter, herrors⟩ := Option.map_eq_some_iff.1 h
  have hplays := visit_follows hfits hpaths rfl depth call.before.opened call.approach call.id
    call.kind call.value segments call.before hcall.typed hready
  rw [← hcall.after, hafter, Visit.eval_eq_map c.scopes _ depth _ call.approach
    ⟨call.id, call.kind, call.value, segments⟩] at hplays
  rw [hafter, hplays.eq_of_errors ?_ hready.steady herrors]
  intro hend hnone
  exact Visit.events_ne_nil_of_fellBack hend (List.map_eq_nil_iff.1 hnone)

end Tracking

end Walk

/-! ## Runs -/

namespace Scheme

variable {s : Scheme M k} {model : Option (M.Value k)} {depth : Nat} {failFast : Bool}

/-- A run that guards loops ends as one that does not, if it passes over idle calls only. -/
theorem IsCompiled.walk?_guarded (hs : s.IsCompiled)
    (hidle : ∀ call ∈ s.calls depth model ⟨failFast, false⟩, call.IsIdle) :
    s.walk? depth model ⟨failFast, true⟩ =
      (s.walk? depth model ⟨failFast, false⟩).map (Walk.withOpened []) :=
  (hs.rootCall_placed depth model ⟨failFast, false⟩).repeats hs.fits hs.resolve_eq rfl hidle

/-- Where a run enters no node that is around it, guarding loops makes no difference: the guarded
run records the same errors.  It makes the same calls in the same order, at the same nodes, and
passes over none of them, so a value that is reached in several ways is checked in each. -/
theorem guard_unseen_without_reentry {table : ScopeTable M} {rootId : ScopeId} {catalog : Catalog}
    (h : compile table k rootId catalog = .ok s) {w : Walk M}
    (hw : s.walk? depth model ⟨failFast, false⟩ = some w)
    (hcalls : ∀ call ∈ s.calls depth model ⟨failFast, false⟩, call.reenters = false) :
    (∃ w', s.walk? depth model ⟨failFast, true⟩ = some w' ∧ w'.errors = w.errors) ∧
    (depth = s.depthBound model → s.validate model ⟨failFast, false⟩ = some w.errors ∧
      s.validate model ⟨failFast, true⟩ = some w.errors) ∧
    s.calls depth model ⟨failFast, true⟩ =
      (s.calls depth model ⟨failFast, false⟩).map Walk.Call.tracked ∧
    ∀ call ∈ s.calls depth model ⟨failFast, true⟩, call.isPassedOver true = false := by
  have hs := isCompiled_of_compile h
  have hroot := hs.rootCall_placed depth model ⟨failFast, false⟩
  have hidle : ∀ call ∈ s.calls depth model ⟨failFast, false⟩, call.IsIdle :=
    fun call hmem => Walk.Call.isIdle_of_not_reenters (hcalls call hmem)
  have hguarded : s.walk? depth model ⟨failFast, true⟩ = some (w.withOpened []) := by
    rw [hs.walk?_guarded hidle, hw]
    rfl
  have hsame : s.calls depth model ⟨failFast, true⟩ =
      (s.calls depth model ⟨failFast, false⟩).map Walk.Call.tracked := by
    have hfirst : s.rootCall depth model ⟨failFast, true⟩ =
        (s.rootCall depth model ⟨failFast, false⟩).tracked :=
      (hroot.repeats hs.fits hs.resolve_eq rfl hidle).call_eq
    rw [calls, hfirst]
    exact Walk.trace_guarded hs.fits hs.resolve_eq rfl hroot hcalls
  refine ⟨⟨_, hguarded, rfl⟩, ?_, hsame, ?_⟩
  · rintro rfl
    rw [validate, validate, run?, run?, hw, hguarded]
    exact ⟨rfl, rfl⟩
  · intro call hmem
    rw [hsame] at hmem
    obtain ⟨unguarded, hunguarded, rfl⟩ := List.mem_map.1 hmem
    exact hcalls unguarded hunguarded

/-- Where scopes are not recursive, a run ends with loops guarded and without.  Guarding them
makes no difference if, without a guard, nothing is recorded by the calls that enter a node around
them: those are the calls that a guarded run passes over. -/
theorem guard_passes_over_silent_calls {table : ScopeTable M} {rootId : ScopeId}
    {catalog : Catalog} (h : compile table k rootId catalog = .ok s) (hrec : s.recursive = false)
    (model : Option (M.Value k)) (failFast : Bool) :
    ∃ errors guarded, s.validate model ⟨failFast, false⟩ = some errors ∧
      s.validate model ⟨failFast, true⟩ = some guarded ∧
      ((∀ call ∈ s.calls (s.depthBound model) model ⟨failFast, false⟩,
        call.reenters = true → call.IsSilent) → guarded = errors) := by
  have hs := isCompiled_of_compile h
  have hdepth := s.size_lt_depthBound model
  obtain ⟨w, hw⟩ := hs.exists_walk?_of_not_recursive hrec hdepth ⟨failFast, false⟩
  obtain ⟨w', hw'⟩ := hs.exists_walk?_of_not_recursive hrec hdepth ⟨failFast, true⟩
  refine ⟨w.errors, w'.errors, ?_, ?_, fun hsilent => ?_⟩
  · rw [validate, run?, hw, Option.map_some]
  · rw [validate, run?, hw', Option.map_some]
  · have hguarded := hs.walk?_guarded fun call hmem hagain => by
      obtain ⟨left, hplaced⟩ := hs.calls_placed hmem
      exact hplaced.after_of_isSilent hs.fits hs.resolve_eq (hsilent call hmem hagain)
    rw [hw, hw', Option.map_some, Option.some_inj] at hguarded
    rw [hguarded]
    rfl

end Scheme

/-! ## Orders with shared lines, and orders seen twice -/

namespace Orders

open Document

/-- An order of two lines that are one object. -/
def pair : Document where
  named := Dict.ofList [("line", .obj [])]
  root := some (.obj [("lines", .list [.ref "line", .ref "line"])])

/-- The order of the pair. -/
def pairOrder : View .obj := (pair.rootView? .obj).get rfl

/-- An order is an article in a view of its own. -/
def viewedScope : Scope space Kind.obj where
  steps := [.narrowing ⟨3⟩ Kind.obj fun v => View.narrow? (k := .obj) v .obj]
  presence := none

/-- The scopes of orders that are seen as articles. -/
def viewedTable : ScopeTable space := Dict.ofList
  [(⟨0⟩, ⟨_, viewedScope⟩), (⟨3⟩, ⟨_, articleScope⟩)]

/-- An order that names an article, or does not. -/
def viewed (article : Bool) : Document where
  root := some (.obj (if article then [("article", .text "")] else []))

/-- The order that may name an article. -/
def viewedOrder (article : Bool) : View .obj :=
  ((viewed article).rootView? .obj).get (by cases article <;> rfl)

end Orders

namespace Scheme

/-- A line that is two lines of an order is checked as both, with loops guarded and without. -/
theorem guard_unseen_without_reentry_pair :
    ∃ s : Scheme Orders.space .obj,
      compile (Orders.table true) .obj ⟨0⟩ Orders.catalog = .ok s ∧ s.recursive = true ∧
      (s.validate (some Orders.pairOrder) ⟨false, false⟩).map (·.entries) =
        some [("", [⟨0⟩]), ("lines[0]", [⟨3⟩]), ("lines[1]", [⟨3⟩])] ∧
      s.validate (some Orders.pairOrder) ⟨false, true⟩ =
        s.validate (some Orders.pairOrder) ⟨false, false⟩ := by
  have h : compile (Orders.table true) .obj ⟨0⟩ Orders.catalog = .ok _ := rfl
  have hrun (s : Scheme Orders.space .obj)
      (hs : compile (Orders.table true) .obj ⟨0⟩ Orders.catalog = .ok s) :
      (∃ w, s.walk? (s.depthBound (some Orders.pairOrder)) (some Orders.pairOrder)
        ⟨false, false⟩ = some w) ∧
      (s.calls (s.depthBound (some Orders.pairOrder)) (some Orders.pairOrder)
        ⟨false, false⟩).any Walk.Call.reenters = false := by
    obtain rfl := Except.ok.inj (h.symm.trans hs)
    exact ⟨⟨_, rfl⟩, rfl⟩
  obtain ⟨⟨w, hw⟩, hnone⟩ := hrun _ h
  obtain ⟨_, hvalidate, _⟩ := guard_unseen_without_reentry h hw fun call hmem =>
    Bool.eq_false_iff.2 (List.any_eq_false.1 hnone call hmem)
  obtain ⟨hoff, hon⟩ := hvalidate rfl
  exact ⟨_, h, rfl, rfl, hon.trans hoff.symm⟩

/-- Though the scopes of the order are not recursive, guarding loops loses an error: the view of
the order is the order, which is open. -/
theorem guard_loses_error_of_view :
    ∃ s : Scheme Orders.space .obj,
      compile Orders.viewedTable .obj ⟨0⟩ Orders.catalog = .ok s ∧ s.recursive = false ∧
      (s.validate (some (Orders.viewedOrder false)) ⟨false, false⟩).map (·.entries) =
        some [("", [⟨3⟩])] ∧
      (s.validate (some (Orders.viewedOrder false)) ⟨false, true⟩).map (·.entries) = some [] ∧
      s.validate (some (Orders.viewedOrder false)) ⟨false, true⟩ ≠
        s.validate (some (Orders.viewedOrder false)) ⟨false, false⟩ := by
  refine ⟨_, rfl, rfl, rfl, rfl, fun h => ?_⟩
  have hentries := congrArg (Option.map (·.entries)) h
  exact nomatch hentries

/-- The view is passed over without a loss where the order names an article. -/
theorem guard_passes_over_silent_calls_view :
    ∃ s : Scheme Orders.space .obj,
      compile Orders.viewedTable .obj ⟨0⟩ Orders.catalog = .ok s ∧ s.recursive = false ∧
      (∃ call ∈ s.calls (s.depthBound (some (Orders.viewedOrder true)))
        (some (Orders.viewedOrder true)) ⟨false, false⟩, call.reenters = true) ∧
      s.validate (some (Orders.viewedOrder true)) ⟨false, true⟩ =
        s.validate (some (Orders.viewedOrder true)) ⟨false, false⟩ := by
  have h : compile Orders.viewedTable .obj ⟨0⟩ Orders.catalog = .ok _ := rfl
  have hrun (s : Scheme Orders.space .obj)
      (hs : compile Orders.viewedTable .obj ⟨0⟩ Orders.catalog = .ok s) :
      ∃ root view, s.calls (s.depthBound (some (Orders.viewedOrder true)))
        (some (Orders.viewedOrder true)) ⟨false, false⟩ = [root, view] ∧
        root.reenters = false ∧ view.reenters = true ∧ view.IsSilent := by
    obtain rfl := Except.ok.inj (h.symm.trans hs)
    exact ⟨_, _, rfl, rfl, rfl, rfl⟩
  obtain ⟨root, view, hcalls, hroot, hview, hsilent⟩ := hrun _ h
  obtain ⟨errors, guarded, hoff, hon, hsame⟩ :=
    guard_passes_over_silent_calls h rfl (some (Orders.viewedOrder true)) false
  rw [hcalls] at hsame
  have hequal : guarded = errors := by
    refine hsame fun call hmem hagain => ?_
    rcases List.mem_cons.1 hmem with rfl | hmem
    · rw [hroot] at hagain
      exact nomatch hagain
    · rwa [List.mem_singleton.1 hmem]
  refine ⟨_, h, rfl, ⟨view, ?_, hview⟩, ?_⟩
  · rw [hcalls]
    exact List.mem_cons_of_mem _ List.mem_cons_self
  · rw [hon, hoff, hequal]

end Scheme

end Rulebook
