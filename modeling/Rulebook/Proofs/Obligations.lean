import Rulebook.Proofs.FirstError
import Rulebook.Proofs.Safety

/-!
# Runs and obligations

What has to be checked for a model is said here without a run.  `Scheme.Owes` is the smallest set
of scopes and values that holds the root with the model and, with a scope and a value, all that
the steps of the scope hand on.  A model that leads back to itself has finitely many of them,
although the ways to them are without end.

A guarded run passes over a value whose node is open, whatever scope it was to be checked with.
It is not said that nothing is lost by that, and in general something is.  Where no two scopes for
one kind of value are entered, though, the scope that opened the node is the scope in question,
and the same obligation is being met further up.  So the obligations that a run takes up are
closed under steps: they are all there are.  `nothing_recorded_iff` says that a run records
nothing if and only if no obligation is violated.

A run that records nothing leaves out no step.  Its verdict is that of nothing at all, `{}`, and
so are those of all visits that it comes to.
-/

namespace Rulebook

open Rulebook.Path (Segment)

variable {M : ModelSpace} {k : M.Kind}

/-! ## Obligations -/

/-- A step hands a value on to a scope. -/
inductive Step.Hands (v : M.Value k) :
    Step M k → ScopeId → (l : M.Kind) → Option (M.Value l) → Prop where
  | member {name : String} {target : ScopeId} {kind : M.Kind}
    {get : M.Value k → Option (M.Value kind)} :
    Hands v (.member name target kind get) target kind (get v)
  | element {target : ScopeId} {kind : M.Kind}
    {elements : M.Value k → List (Option (M.Value kind))}
    {e : Option (M.Value kind)} (he : e ∈ elements v) :
    Hands v (.collection target kind elements) target kind e
  | inclusion {target : ScopeId} : Hands v (.inclusion target) target k (some v)
  | narrowing {target : ScopeId} {kind : M.Kind} {view : M.Value k → Option (M.Value kind)}
    {u : M.Value kind} (hu : view v = some u) :
    Hands v (.narrowing target kind view) target kind (some u)

/-- What a step hands on is what it visits, wherever it is. -/
theorem Step.hands_iff {v : M.Value k} {step : Step M k} (segments : List Segment) {id : ScopeId}
    {l : M.Kind} {value : Option (M.Value l)} :
    step.Hands v id l value ↔ ∃ below, ⟨id, l, value, below⟩ ∈ step.visits v segments := by
  constructor
  · intro h
    cases h with
    | member => exact ⟨_, List.mem_singleton_self _⟩
    | element he =>
      obtain ⟨i, hi, rfl⟩ := List.getElem_of_mem he
      exact ⟨_, List.mem_mapIdx.2 ⟨i, hi, rfl⟩⟩
    | inclusion => exact ⟨_, List.mem_singleton_self _⟩
    | narrowing hu =>
      refine ⟨segments, ?_⟩
      rw [visits, hu]
      exact List.mem_singleton_self _
  · rintro ⟨below, h⟩
    cases step with
    | rule error test => exact absurd h List.not_mem_nil
    | member name target kind get =>
      cases List.mem_singleton.1 h
      exact .member
    | collection target kind elements =>
      obtain ⟨i, hi, heq⟩ := List.mem_mapIdx.1 h
      cases heq
      exact .element (List.getElem_mem hi)
    | inclusion target =>
      cases List.mem_singleton.1 h
      exact .inclusion
    | narrowing target kind view =>
      obtain ⟨u, hu, heq⟩ := Option.map_eq_some_iff.1 (Option.mem_toList.1 h)
      cases heq
      exact .narrowing hu

namespace Scheme

/-- What has to be checked for a model: a scope and a value for it, which may be absent. -/
inductive Owes (s : Scheme M k) (model : Option (M.Value k)) :
    ScopeId → (l : M.Kind) → Option (M.Value l) → Prop where
  /-- The model has to be checked with the root scope. -/
  | root : Owes s model s.rootId k model
  /-- What a step of a scope hands on has to be checked, unless presence itself is an error. -/
  | step {id target : ScopeId} {l kind : M.Kind} {v : M.Value l} {scope : Scope M l}
    {step : Step M l} {value : Option (M.Value kind)} (h : Owes s model id l (some v))
    (hscope : s.scopes.typed? id l = some scope) (hstep : step ∈ scope.live)
    (hvalue : step.Hands v target kind value) : Owes s model target kind value

/-- A scope calls for an error with a value, whatever it leads to. -/
def Violated (s : Scheme M k) (id : ScopeId) {l : M.Kind} (value : Option (M.Value l)) : Prop :=
  ∃ segments error, (⟨id, l, value, segments⟩ : Visit M).Violates s.scopes error

/-- All that has to be checked is as it should be. -/
def Met (s : Scheme M k) (model : Option (M.Value k)) : Prop :=
  ∀ (id : ScopeId) (l : M.Kind) (value : Option (M.Value l)), s.Owes model id l value →
    ¬s.Violated id value

/-- Among the values that have to be checked, a node stands for one value. -/
def OneValueEach (s : Scheme M k) (model : Option (M.Value k)) : Prop :=
  ∀ {id id' : ScopeId} {l : M.Kind} {u v : M.Value l}, s.Owes model id l (some u) →
    s.Owes model id' l (some v) → M.nodeOf u = M.nodeOf v → u = v

end Scheme

namespace ScopeTable

/-- A scope that nodes are entered with: the root, or one that a member, a collection or a
narrowing of a scope that can be reached leads to. -/
inductive Enters (table : ScopeTable M) (rootId : ScopeId) : ScopeId → Prop where
  | root : Enters table rootId rootId
  | step {a b : ScopeId} {s : AnyScope M} {step : Step M s.kind}
    (hreach : Relation.ReflTransGen table.LeadsTo rootId a) (hs : table.find? a = some s)
    (hstep : step ∈ s.scope.live) (happroach : step.approach = .entering)
    (htarget : step.outline.target? = some b) : Enters table rootId b

/-- No two scopes for values of one kind are entered. -/
def EntersByKind (table : ScopeTable M) (rootId : ScopeId) : Prop :=
  ∀ a b, table.Enters rootId a → table.Enters rootId b → table.kind? a = table.kind? b → a = b

end ScopeTable

namespace Visit

variable {scopes : ScopeTable M} {visit next : Visit M} {approach : Walk.Approach}

theorem Violates.of_segments {id : ScopeId} {value : Option (M.Value k)} {segments : List Segment}
    {error : ErrorId} (h : Violates scopes ⟨id, k, value, segments⟩ error)
    (others : List Segment) : Violates scopes ⟨id, k, value, others⟩ error := by
  cases h with
  | absent hscope hpresence => exact .absent hscope hpresence
  | present hscope hpresence => exact .present hscope hpresence
  | rule hscope hstep htest => exact .rule hscope hstep htest

/-- A node is entered with a scope that is entered. -/
theorem Leads.enters {rootId : ScopeId} (h : Leads scopes .entering visit next)
    (hreach : Relation.ReflTransGen scopes.LeadsTo rootId visit.id) :
    scopes.Enters rootId next.id := by
  generalize happroach : Walk.Approach.entering = approach at h
  cases h with
  | step hscope hstep hnext =>
    obtain ⟨htarget, _⟩ := Step.down_of_mem_visits hnext
    exact .step hreach (ScopeTable.typed?_eq_some_iff.1 hscope) hstep happroach.symm htarget

theorem owes_of_reaches {s : Scheme M k} {model : Option (M.Value k)}
    (h : (s.rootVisit model).Reaches s.scopes visit) :
    s.Owes model visit.id visit.kind visit.value := by
  induction h with
  | refl => exact .root
  | tail _ hstep ih =>
    obtain ⟨approach, hleads⟩ := hstep
    cases hleads with
    | step hscope hstep hnext => exact .step ih hscope hstep ((Step.hands_iff _).2 ⟨_, hnext⟩)

/-- What has to be checked is visited, and nothing else. -/
theorem owes_iff_reaches {s : Scheme M k} {model : Option (M.Value k)} {id : ScopeId} {l : M.Kind}
    {value : Option (M.Value l)} :
    s.Owes model id l value ↔
      ∃ segments, (s.rootVisit model).Reaches s.scopes ⟨id, l, value, segments⟩ := by
  constructor
  · intro h
    induction h with
    | root => exact ⟨[], .refl⟩
    | step _ hscope hstep hvalue ih =>
      obtain ⟨segments, hreaches⟩ := ih
      obtain ⟨below, hnext⟩ := (Step.hands_iff segments).1 hvalue
      exact ⟨below, hreaches.tail ⟨_, .step hscope hstep hnext⟩⟩
  · rintro ⟨segments, hreaches⟩
    exact owes_of_reaches hreaches

end Visit

/-! ## Verdicts of nothing -/

namespace Verdict

variable {π : Type} {r next : Verdict π}

theorem breach_ne_nothing (p : π) (id : ErrorId) : breach p id ≠ {} := by
  intro h
  have hevents := congrArg Verdict.events h
  exact List.cons_ne_nil _ _ hevents

theorem andThen_eq_nothing (h : r.andThen next = {}) : r = {} ∧ next = {} := by
  by_cases hend : r.ending = .finished
  · rw [andThen_of_finished hend] at h
    obtain ⟨hevents, hnext⟩ := Verdict.mk.inj h
    obtain ⟨hr, hnone⟩ := List.append_eq_nil_iff.1 hevents
    obtain ⟨events, ending⟩ := r
    obtain ⟨nextEvents, nextEnding⟩ := next
    simp_all
  · rw [andThen_of_ne_finished hend] at h
    rw [h] at hend
    exact absurd rfl hend

end Verdict

namespace Visit

variable {scopes : ScopeTable M} {guard : Bool} {depth : Nat} {opened : List M.Node}
  {approach : Walk.Approach} {visit next : Visit M}

theorem verdict_eq_nothing (hend : (visit.verdict scopes guard depth opened approach).ending ≠
    .outOfDepth) (hevents : (visit.verdict scopes guard depth opened approach).events = []) :
    visit.verdict scopes guard depth opened approach = {} := by
  have hback := mt events_ne_nil_of_fellBack (not_not_intro hevents)
  generalize visit.verdict scopes guard depth opened approach = r at *
  obtain ⟨events, ending⟩ := r
  cases ending with
  | finished => rw [show events = [] from hevents]
  | fellBack => exact absurd rfl hback
  | outOfDepth => exact absurd rfl hend

/-- Where a node below has settled to nothing, there was nothing. -/
theorem verdict_eq_nothing_of_settle
    (h : (visit.verdict scopes guard depth opened approach).settle = {}) :
    visit.verdict scopes guard depth opened approach = {} := by
  refine verdict_eq_nothing ?_ ?_
  · rw [ne_eq, ← Verdict.settle_ending_eq_outOfDepth_iff, h]
    exact Ending.noConfusion
  · rw [← Verdict.events_settle, h]

end Visit

/-! ## What a verdict of nothing says of its parts -/

namespace Evaluation

variable {read : Reader M (List Segment)} {v : M.Value k} {segments : List Segment}

theorem evalElements_eq_nothing
    {readOne : Option (M.Value k) → List Segment → Verdict (List Segment)} {index : Nat}
    {elements : List (Option (M.Value k))}
    (h : evalElements Path.extend readOne segments index elements = {}) {i : Nat}
    (hi : i < elements.length) :
    (readOne elements[i] (Path.extend segments (.index (index + i)))).settle = {} := by
  induction elements generalizing index i with
  | nil => exact absurd hi (Nat.not_lt_zero i)
  | cons e rest ih =>
    obtain ⟨hfirst, hrest⟩ := Verdict.andThen_eq_nothing h
    cases i with
    | zero => exact hfirst
    | succ i =>
      have hlater := ih hrest (Nat.lt_of_succ_lt_succ hi)
      rwa [Nat.add_right_comm, Nat.add_assoc] at hlater

/-- A step with a verdict of nothing leads to visits with such verdicts only. -/
theorem evalStep_eq_nothing
    (hread : ∀ (approach : Walk.Approach) (visit : Visit M),
      (visit.readBy read approach).settle = {} → visit.readBy read approach = {})
    {step : Step M k} (h : evalStep Path.extend read v segments step = {}) {next : Visit M}
    (hnext : next ∈ step.visits v segments) : next.readBy read step.approach = {} := by
  cases step with
  | rule error test => exact absurd hnext List.not_mem_nil
  | member name target kind get =>
    obtain rfl := List.mem_singleton.1 hnext
    exact hread _ _ h
  | collection target kind elements =>
    obtain ⟨i, hi, rfl⟩ := List.mem_mapIdx.1 hnext
    have hone := evalElements_eq_nothing h hi
    rw [Nat.zero_add] at hone
    exact hread .entering ⟨target, kind, _, _⟩ hone
  | inclusion target =>
    obtain rfl := List.mem_singleton.1 hnext
    exact h
  | narrowing target kind view =>
    obtain ⟨u, hu, rfl⟩ := Option.map_eq_some_iff.1 (Option.mem_toList.1 hnext)
    rw [evalStep, hu] at h
    exact h

theorem evalSteps_eq_nothing {steps : List (Step M k)}
    (h : evalSteps Path.extend read v segments steps = {}) :
    ∀ step ∈ steps, evalStep Path.extend read v segments step = {} := by
  induction steps with
  | nil => exact nofun
  | cons step rest ih =>
    obtain ⟨hfirst, hrest⟩ := Verdict.andThen_eq_nothing h
    rw [List.forall_mem_cons]
    exact ⟨hfirst, ih hrest⟩

end Evaluation

namespace Visit

variable {scopes : ScopeTable M} {guard : Bool} {depth : Nat} {opened : List M.Node}
  {approach approach' : Walk.Approach} {visit next : Visit M}

/-- What the evaluation of a visit is, unless its value is passed over. -/
theorem verdict_of_typed {id : ScopeId} {value : Option (M.Value k)} {segments : List Segment}
    {scope : Scope M k} (hscope : scopes.typed? id k = some scope)
    (hpass : Evaluation.passesOver guard opened approach value = false) :
    (⟨id, k, value, segments⟩ : Visit M).verdict scopes guard (depth + 1) opened approach =
      Evaluation.evalScope Path.extend (Evaluation.eval Path.extend scopes guard depth
        (Evaluation.openedBelow guard opened approach value)) scope value segments := by
  rw [verdict, readBy, Evaluation.eval, hscope, hpass]
  rfl

theorem evalSteps_of_verdict {id : ScopeId} {v : M.Value k} {segments : List Segment}
    {scope : Scope M k} (hscope : scopes.typed? id k = some scope)
    (hpass : Evaluation.passesOver guard opened approach (some v) = false)
    (h : (⟨id, k, some v, segments⟩ : Visit M).verdict scopes guard (depth + 1) opened approach =
      {}) :
    Evaluation.evalSteps Path.extend (Evaluation.eval Path.extend scopes guard depth
      (Evaluation.openedBelow guard opened approach (some v))) v segments scope.live = {} := by
  rw [verdict_of_typed hscope hpass, Evaluation.evalScope] at h
  cases hrefusal : scope.refusal? with
  | none =>
    rw [hrefusal] at h
    rwa [Scope.live_eq_steps hrefusal]
  | some error =>
    rw [hrefusal] at h
    exact absurd h (Verdict.breach_ne_nothing segments error)

/-- Where nothing is found, no error is called for. -/
theorem not_violates_of_verdict
    (h : visit.verdict scopes guard (depth + 1) opened approach = {})
    (hpass : Evaluation.passesOver guard opened approach visit.value = false) (error : ErrorId) :
    ¬visit.Violates scopes error := by
  intro hviolates
  cases hviolates with
  | absent hscope hpresence =>
    rw [verdict_of_typed hscope hpass, Evaluation.evalScope, hpresence] at h
    exact Verdict.breach_ne_nothing _ _ h
  | present hscope hpresence =>
    rw [verdict_of_typed hscope hpass, Evaluation.evalScope, hpresence] at h
    exact Verdict.breach_ne_nothing _ _ h
  | rule hscope hstep htest =>
    have hrule := Evaluation.evalSteps_eq_nothing (evalSteps_of_verdict hscope hpass h) _ hstep
    rw [Evaluation.evalStep, htest] at hrule
    have hevents := congrArg Verdict.events hrule
    exact List.cons_ne_nil _ _ hevents

/-- Where nothing is found, nothing is found below. -/
theorem Leads.verdict_eq_nothing (hleads : Leads scopes approach' visit next)
    (h : visit.verdict scopes guard (depth + 1) opened approach = {})
    (hpass : Evaluation.passesOver guard opened approach visit.value = false) :
    next.verdict scopes guard depth (Evaluation.openedBelow guard opened approach visit.value)
      approach' = {} := by
  cases hleads with
  | step hscope hstep hnext =>
    have hsteps := Evaluation.evalSteps_eq_nothing (evalSteps_of_verdict hscope hpass h) _ hstep
    exact Evaluation.evalStep_eq_nothing (fun _ _ => verdict_eq_nothing_of_settle) hsteps hnext

end Visit

/-! ## The visits of a run -/

namespace Scheme

variable {s : Scheme M k} {guard : Bool} {model : Option (M.Value k)} {total depth : Nat}
  {opened : List M.Node} {approach : Walk.Approach} {visit : Visit M}

/-- The evaluation of a model comes to a visit, with these nodes open and so much depth left. -/
inductive Comes (s : Scheme M k) (guard : Bool) (model : Option (M.Value k)) (total : Nat) :
    Nat → List M.Node → Walk.Approach → Visit M → Prop where
  | root : Comes s guard model total total [] .entering (s.rootVisit model)
  | step {depth : Nat} {opened : List M.Node} {approach approach' : Walk.Approach}
    {visit next : Visit M} (h : Comes s guard model total (depth + 1) opened approach visit)
    (hpass : Evaluation.passesOver guard opened approach visit.value = false)
    (hleads : visit.Leads s.scopes approach' next) :
    Comes s guard model total depth (Evaluation.openedBelow guard opened approach visit.value)
      approach' next

namespace Comes

theorem verdict_eq_nothing (h : s.Comes guard model total depth opened approach visit)
    (hroot : s.evaluateSegments guard total model = {}) :
    visit.verdict s.scopes guard depth opened approach = {} := by
  induction h with
  | root => exact hroot
  | step _ hpass hleads ih => exact hleads.verdict_eq_nothing ih hpass

theorem reaches (h : s.Comes guard model total depth opened approach visit) :
    (s.rootVisit model).Reaches s.scopes visit := by
  induction h with
  | root => exact .refl
  | step _ _ hleads ih => exact ih.tail ⟨_, hleads⟩

theorem enters (h : s.Comes guard model total depth opened .entering visit) :
    s.scopes.Enters s.rootId visit.id := by
  generalize happroach : Walk.Approach.entering = approach at h
  cases h with
  | root => exact .root
  | step h _ hleads =>
    rw [← happroach] at hleads
    exact hleads.enters h.reaches.leadsTo

/-- A run that finds nothing has depth left for every visit. -/
theorem exists_succ (h : s.Comes guard model total depth opened approach visit)
    (hroot : s.evaluateSegments guard total model = {}) : ∃ left, depth = left + 1 := by
  cases depth with
  | zero => exact nomatch h.verdict_eq_nothing hroot
  | succ left => exact ⟨left, rfl⟩

end Comes

/-- The evaluation of a model takes up a scope with a value, and does not pass over it. -/
def TakesUp (s : Scheme M k) (guard : Bool) (model : Option (M.Value k)) (total : Nat)
    (id : ScopeId) (l : M.Kind) (value : Option (M.Value l)) : Prop :=
  ∃ depth opened approach segments,
    s.Comes guard model total (depth + 1) opened approach ⟨id, l, value, segments⟩ ∧
      Evaluation.passesOver guard opened approach value = false

/-- A node that is open has been entered with a value that was taken up. -/
theorem Comes.exists_opener (h : s.Comes guard model total depth opened approach visit)
    {node : M.Node} (hnode : node ∈ opened) :
    ∃ (id : ScopeId) (l : M.Kind) (v : M.Value l), s.TakesUp guard model total id l (some v) ∧
      s.scopes.Enters s.rootId id ∧ M.nodeOf v = node := by
  induction h with
  | root => exact absurd hnode List.not_mem_nil
  | @step depth opened approach approach' visit next h hpass hleads ih =>
    obtain ⟨id, l, value, segments⟩ := visit
    cases approach with
    | staying => exact ih hnode
    | entering =>
      cases value with
      | none => exact ih hnode
      | some v =>
        cases guard with
        | false => exact ih hnode
        | true =>
          rcases List.mem_cons.1 hnode with rfl | hnode
          · exact ⟨id, l, v, ⟨_, _, _, _, h, hpass⟩, h.enters, rfl⟩
          · exact ih hnode

/-! ## Nothing is left out -/

namespace TakesUp

variable {id : ScopeId} {l : M.Kind} {value : Option (M.Value l)}

theorem owes (h : s.TakesUp guard model total id l value) : s.Owes model id l value := by
  obtain ⟨_, _, _, _, hcomes, _⟩ := h
  exact Visit.owes_of_reaches hcomes.reaches

theorem kind? (h : s.TakesUp guard model total id l value) (hs : s.IsCompiled) :
    s.scopes.kind? id = some l := by
  obtain ⟨_, _, _, _, hcomes, _⟩ := h
  exact hcomes.reaches.kind? hs.fits hs.kind?_root

theorem not_violated (h : s.TakesUp guard model total id l value)
    (hroot : s.evaluateSegments guard total model = {}) : ¬s.Violated id value := by
  obtain ⟨_, _, _, segments, hcomes, hpass⟩ := h
  rintro ⟨others, error, hviolates⟩
  exact Visit.not_violates_of_verdict (hcomes.verdict_eq_nothing hroot) hpass error
    (hviolates.of_segments segments)

end TakesUp

/-- Where the guard passes over a value, the scope that opened its node is the one that the value
is for. -/
def PassesOverSame (s : Scheme M k) (guard : Bool) (model : Option (M.Value k)) : Prop :=
  guard = false ∨ s.scopes.EntersByKind s.rootId ∧ s.OneValueEach model

/-- Whatever a run that finds nothing comes to, it takes up, here or further up. -/
theorem IsCompiled.takesUp_of_comes (hs : s.IsCompiled)
    (hroot : s.evaluateSegments guard total model = {}) (hsame : s.PassesOverSame guard model)
    (h : s.Comes guard model total depth opened approach visit) :
    s.TakesUp guard model total visit.id visit.kind visit.value := by
  obtain ⟨id, l, value, segments⟩ := visit
  cases hpass : Evaluation.passesOver guard opened approach value with
  | false =>
    obtain ⟨left, rfl⟩ := h.exists_succ hroot
    exact ⟨_, _, _, _, h, hpass⟩
  | true =>
    cases approach with
    | staying => exact nomatch hpass
    | entering =>
      cases value with
      | none => exact nomatch hpass
      | some v =>
        cases guard with
        | false => exact nomatch hpass
        | true =>
          -- The value that opened the node is the same one, and so is its scope.
          obtain ⟨hkinds, hvalues⟩ := hsame.resolve_left Bool.noConfusion
          obtain ⟨id', l', u, htaken, henters, hnode⟩ :=
            h.exists_opener (Evaluation.passesOver_entering.1 hpass)
          have howes : s.Owes model id l (some v) := Visit.owes_of_reaches h.reaches
          have hkind : s.scopes.kind? id = some l := h.reaches.kind? hs.fits hs.kind?_root
          obtain rfl : l' = l := congrArg Prod.fst hnode
          obtain rfl : u = v := hvalues htaken.owes howes hnode
          obtain rfl : id' = id :=
            hkinds id' id henters h.enters ((htaken.kind? hs).trans hkind.symm)
          exact htaken

/-- What a run that finds nothing takes up is closed under steps, so it is all there is. -/
theorem IsCompiled.takesUp_of_owes (hs : s.IsCompiled)
    (hroot : s.evaluateSegments guard total model = {}) (hsame : s.PassesOverSame guard model)
    {id : ScopeId} {l : M.Kind} {value : Option (M.Value l)} (h : s.Owes model id l value) :
    s.TakesUp guard model total id l value := by
  induction h with
  | root => exact hs.takesUp_of_comes hroot hsame .root
  | @step id target l kind v scope step value _ hscope hstep hvalue ih =>
    obtain ⟨depth, opened, approach, segments, hcomes, hpass⟩ := ih
    obtain ⟨below, hnext⟩ := (Step.hands_iff segments).1 hvalue
    exact hs.takesUp_of_comes hroot hsame (.step hcomes hpass (.step hscope hstep hnext))

/-- A walk that ends has recorded nothing if and only if the evaluation finds nothing. -/
theorem IsCompiled.errors_eq_empty_iff (hs : s.IsCompiled) {options : Options} {w : Walk M}
    (hw : s.walk? depth model options = some w) :
    w.errors = ∅ ↔ s.evaluateSegments options.guardLoops depth model = {} := by
  have hplays := hs.walk?_plays depth model options
  rw [hw, evaluate_eq_map] at hplays
  cases hplays with
  | ends hquiet hend =>
    constructor
    · intro hempty
      have hevents := ErrorsByPath.group_eq_empty_iff.1 hempty
      exact Visit.verdict_eq_nothing hend (List.map_eq_nil_iff.1 hevents)
    · intro hnothing
      rw [hnothing]
      rfl
  | @halts e rest fellBack hfast hevents =>
    constructor
    · intro hempty
      have hone : ErrorsByPath.group [e] = ∅ := hempty
      exact nomatch ErrorsByPath.group_eq_empty_iff.1 hone
    · intro hnothing
      rw [hnothing] at hevents
      exact nomatch hevents

/-- Where no obligation is violated there is no error to find. -/
theorem events_eq_nil_of_met (hmet : s.Met model) :
    (s.evaluateSegments guard depth model).events = [] := by
  rw [List.eq_nil_iff_forall_not_mem]
  intro e he
  obtain ⟨visit, hreaches, _, hviolates⟩ := Visit.reaches_of_mem_events he
  exact hmet _ _ _ (Visit.owes_of_reaches hreaches) ⟨_, _, hviolates⟩

/-- A walk that ends has recorded nothing if and only if no obligation is violated. -/
theorem IsCompiled.nothing_recorded_iff (hs : s.IsCompiled) {options : Options} {w : Walk M}
    (hw : s.walk? depth model options = some w)
    (hsame : s.PassesOverSame options.guardLoops model) :
    w.errors = ∅ ↔ s.Met model := by
  constructor
  · intro hempty id l value howes
    have hnothing := (hs.errors_eq_empty_iff hw).1 hempty
    exact (hs.takesUp_of_owes hnothing hsame howes).not_violated hnothing
  · intro hmet
    obtain ⟨events, hprefix, herrors⟩ := hs.errors_of_walk? hw
    rw [evaluate_eq_map, Verdict.map, events_eq_nil_of_met hmet, List.map_nil,
      List.prefix_nil] at hprefix
    rw [herrors, hprefix]
    rfl

/-- The options that suit a scheme do not pass over anything that is still owed, if the scheme is
not recursive or enters no two scopes with values of one kind. -/
theorem passesOverSame_defaultOptions (hvalues : s.OneValueEach model)
    (hscheme : s.recursive = false ∨ s.scopes.EntersByKind s.rootId) (failFast : Bool) :
    s.PassesOverSame (s.defaultOptions failFast).guardLoops model :=
  hscheme.imp_right fun hkinds => ⟨hkinds, hvalues⟩

/-- With the options that suit a scheme, validation of a model with finitely many nodes ends, and
finds nothing if and only if no obligation is violated.  The scheme is not recursive, or it enters
no two scopes with values of one kind. -/
theorem validate_eq_empty_iff_met {table : ScopeTable M} {rootId : ScopeId} {catalog : Catalog}
    (h : compile table k rootId catalog = .ok s) {nodes : List M.Node}
    (hnodes : s.ReachesOnly model nodes) (hvalues : s.OneValueEach model)
    (hscheme : s.recursive = false ∨ table.EntersByKind rootId) (failFast : Bool) :
    (∀ depth, (s.scopes.size + 1) * (nodes.length + 1) ≤ depth →
      ∃ w, s.walk? depth model (s.defaultOptions failFast) = some w ∧
        (w.errors = ∅ ↔ s.Met model)) ∧
    (nodes.length ≤ (model.map M.reach).getD 0 →
      ∃ errors, s.validate model (s.defaultOptions failFast) = some errors ∧
        (errors = ∅ ↔ s.Met model)) := by
  have hs := isCompiled_of_compile h
  have hsame : s.PassesOverSame (s.defaultOptions failFast).guardLoops model := by
    obtain ⟨_, _, _, _, _, _, rfl⟩ := compile_eq_ok h
    exact passesOverSame_defaultOptions hvalues hscheme failFast
  have hwalk (depth : Nat) (hdepth : (s.scopes.size + 1) * (nodes.length + 1) ≤ depth) :
      ∃ w, s.walk? depth model (s.defaultOptions failFast) = some w := by
    rw [Nat.mul_succ, Nat.mul_comm] at hdepth
    cases hrec : s.recursive with
    | true => exact hs.exists_walk?_of_guardLoops hnodes (by omega) hrec
    | false => exact hs.exists_walk?_of_not_recursive hrec (by omega) _
  constructor
  · intro depth hdepth
    obtain ⟨w, hw⟩ := hwalk depth hdepth
    exact ⟨w, hw, hs.nothing_recorded_iff hw hsame⟩
  · intro hreach
    obtain ⟨w, hw⟩ := hwalk (s.depthBound model) (Nat.mul_le_mul_left _ (by omega))
    refine ⟨w.errors, ?_, hs.nothing_recorded_iff hw hsame⟩
    rw [validate, run?, hw, Option.map_some]

end Scheme

/-! ## An order among its own lines -/

namespace Orders

open Document

/-- An order names an article, like its lines, which are orders. -/
def setScope : Scope space Kind.obj where
  steps := [
    .rule ⟨0⟩ fun v => (Test.contains "customer").holds (k := .obj) v,
    .inclusion ⟨3⟩,
    .member "lines" ⟨1⟩ Kind.list fun v => View.field? (k := .obj) v "lines" .list]
  presence := some (.required ⟨2⟩)

/-- The lines are orders. -/
def setLinesScope : Scope space Kind.list where
  steps := [.collection ⟨0⟩ Kind.obj fun v => View.children (k := .list) v .obj]
  presence := some (.required ⟨1⟩)

/-- The scopes of orders whose lines are orders. -/
def setTable : ScopeTable space := Dict.ofList
  [(⟨0⟩, ⟨_, setScope⟩), (⟨1⟩, ⟨_, setLinesScope⟩), (⟨3⟩, ⟨_, articleScope⟩)]

/-- An order that is its own only line. -/
def ring : Document where
  named := Dict.ofList [("order",
    .obj [("article", .text ""), ("customer", .text ""), ("lines", .list [.ref "order"])])]
  root := some (.ref "order")

/-- The order of the ring. -/
def ringOrder : View .obj := (ring.rootView? .obj).get rfl

/-- The lines of the ring. -/
def ringLines : View .list := (ringOrder.field? "lines" .list).get rfl

/-- The visits of the ring, less their segments. -/
def ringVisits (segments : List Segment) : List (Visit space) :=
  [⟨⟨0⟩, Kind.obj, some ringOrder, segments⟩, ⟨⟨3⟩, Kind.obj, some ringOrder, segments⟩,
    ⟨⟨1⟩, Kind.list, some ringLines, segments⟩]

/-- The nodes of the ring. -/
def ringNodes : List space.Node :=
  [space.nodeOf (k := Kind.obj) ringOrder, space.nodeOf (k := Kind.list) ringLines]

theorem ringVisits_of_reaches {visit : Visit space}
    (h : Visit.Reaches setTable ⟨⟨0⟩, Kind.obj, some ringOrder, []⟩ visit) :
    visit ∈ ringVisits visit.segments := by
  induction h with
  | refl => exact List.mem_cons_self
  | @tail last next _ hstep ih =>
    obtain ⟨approach, hleads⟩ := hstep
    have hcases : next ∈ (ringVisits last.segments).flatMap (Visit.nexts setTable) :=
      List.mem_flatMap.2 ⟨last, ih, hleads.mem_nexts⟩
    have hnexts (segments : List Segment) :
        (ringVisits segments).flatMap (Visit.nexts setTable) =
          [⟨⟨3⟩, Kind.obj, some ringOrder, segments⟩,
            ⟨⟨1⟩, Kind.list, some ringLines, Path.extend segments (.member "lines")⟩,
            ⟨⟨0⟩, Kind.obj, some ringOrder, Path.extend segments (.index 0)⟩] := rfl
    rw [hnexts] at hcases
    simp only [List.mem_cons, List.not_mem_nil, or_false] at hcases
    rcases hcases with rfl | rfl | rfl <;> simp [ringVisits]

theorem nodeOf_mem_ringNodes {visit : Visit space}
    (h : Visit.Reaches setTable ⟨⟨0⟩, Kind.obj, some ringOrder, []⟩ visit) :
    ∀ v, visit.value = some v → space.nodeOf v ∈ ringNodes := by
  have hmem := ringVisits_of_reaches h
  obtain ⟨id, l, value, segments⟩ := visit
  simp only [ringVisits, List.mem_cons, List.not_mem_nil, or_false] at hmem
  rcases hmem with h | h | h <;> cases h <;> rintro _ ⟨⟩ <;> simp [ringNodes]

/-- The ring has one object and one list. -/
theorem ring_value_unique {s : Scheme space Kind.obj} (hs : s.scopes = setTable)
    (hroot : s.rootId = ⟨0⟩) {id id' : ScopeId} {l : Kind} {u v : View l}
    (hu : s.Owes (some ringOrder) id l (some u)) (hv : s.Owes (some ringOrder) id' l (some v)) :
    u = v := by
  obtain ⟨_, hu⟩ := Visit.owes_iff_reaches.1 hu
  obtain ⟨_, hv⟩ := Visit.owes_iff_reaches.1 hv
  rw [Scheme.rootVisit, hroot, hs] at hu hv
  have hmem := ringVisits_of_reaches hu
  have hmem' := ringVisits_of_reaches hv
  simp only [ringVisits, List.mem_cons, List.not_mem_nil, or_false] at hmem hmem'
  rcases hmem with h | h | h <;> cases h <;> rcases hmem' with h' | h' | h' <;> cases h' <;> rfl

/-- Objects are entered with one scope, and so are lists. -/
theorem setTable_entersByKind : setTable.EntersByKind ⟨0⟩ := by
  have henters {id : ScopeId} (h : setTable.Enters ⟨0⟩ id) : id = ⟨0⟩ ∨ id = ⟨1⟩ := by
    cases h with
    | root => exact .inl rfl
    | @step a _ s step _ hs hstep happroach htarget =>
      have hmem : (a, s) ∈
          [(⟨0⟩, ⟨_, setScope⟩), (⟨1⟩, ⟨_, setLinesScope⟩), (⟨3⟩, ⟨_, articleScope⟩)] :=
        Dict.find?_eq_some_iff.1 hs
      simp only [List.mem_cons, List.not_mem_nil, or_false, Prod.mk.injEq] at hmem
      rcases hmem with ⟨_, rfl⟩ | ⟨_, rfl⟩ | ⟨_, rfl⟩
      · rcases List.mem_cons.1 hstep with rfl | hstep
        · exact nomatch htarget
        rcases List.mem_cons.1 hstep with rfl | hstep
        · exact nomatch happroach
        · obtain rfl := List.mem_singleton.1 hstep
          exact .inr (Option.some.inj htarget).symm
      · obtain rfl := List.mem_singleton.1 hstep
        exact .inl (Option.some.inj htarget).symm
      · obtain rfl := List.mem_singleton.1 hstep
        exact nomatch htarget
  intro a b ha hb hkind
  rcases henters ha with rfl | rfl <;> rcases henters hb with rfl | rfl
  · rfl
  · exact nomatch hkind
  · exact nomatch hkind
  · rfl

end Orders

/-- An order among its own lines has no error, as no obligation is violated. -/
theorem Scheme.validate_eq_empty_iff_met_ring :
    ∃ s : Scheme Orders.space .obj,
      Scheme.compile Orders.setTable .obj ⟨0⟩ Orders.catalog = .ok s ∧ s.recursive = true ∧
      s.validate (some Orders.ringOrder) (s.defaultOptions true) = some ∅ ∧
      s.Met (some Orders.ringOrder) := by
  have h : Scheme.compile Orders.setTable .obj ⟨0⟩ Orders.catalog = .ok _ := rfl
  obtain ⟨_, hvalidate⟩ := Scheme.validate_eq_empty_iff_met h
    (fun _ hreaches => Orders.nodeOf_mem_ringNodes hreaches)
    (fun hu hv _ => Orders.ring_value_unique rfl rfl hu hv)
    (.inr Orders.setTable_entersByKind) true
  obtain ⟨errors, herrors, hiff⟩ := hvalidate (by decide)
  have hempty : errors = ∅ := (Option.some.inj (Eq.trans rfl herrors)).symm
  exact ⟨_, h, rfl, hempty ▸ herrors, hiff.1 hempty⟩

end Rulebook
