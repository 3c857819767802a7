import Mathlib.Data.List.Basic
import Rulebook.Scheme.Walk

/-!
# Evaluating a scope without a state

A walk keeps a state: a trail, indexes, two flags and the open nodes.  `Evaluation.eval` says what
a scope finds with none of it.  It is given the value, the position and the open nodes, and
answers a `Verdict`: the errors with their positions, in order, and how it ended.

* Steps are evaluated from left to right, up to the first that fell back.
* A broken presence falls back.  Inclusions and narrowings pass that on, members and collections
  do not.
* With `guard`, a value whose node is open is passed over when a member, a collection, a narrowing
  or the root hands it on.  Otherwise its node is open for what is below.

What a position is, is left open: `down` says which position a segment leads to.  With paths it is
`Path.below`, with lists of segments it is to put the segment at the end, and `eval_map` goes from
one to the other.

The nesting is bounded by a number, as it is for a walk.  A verdict that runs into the bound keeps
the errors that came before it.
-/

namespace Rulebook

namespace Scope

variable {M : ModelSpace} {k : M.Kind}

/-- The error of an absent value, if absence is one. -/
def absence? (scope : Scope M k) : Option ErrorId :=
  match scope.presence with
  | some (.required error) => some error
  | _ => none

/-- The error of a present value, if presence is one. -/
def refusal? (scope : Scope M k) : Option ErrorId :=
  match scope.presence with
  | some (.forbidden error) => some error
  | _ => none

/-- The steps that can be taken: none where presence is an error. -/
def live (scope : Scope M k) : List (Step M k) :=
  match scope.refusal? with
  | some _ => []
  | none => scope.steps

theorem live_eq_steps {scope : Scope M k} (h : scope.refusal? = none) :
    scope.live = scope.steps := by
  rw [live, h]

theorem mem_steps_of_mem_live {scope : Scope M k} {step : Step M k} (h : step ∈ scope.live) :
    step ∈ scope.steps := by
  rw [live] at h
  split at h
  · exact absurd h List.not_mem_nil
  · exact h

end Scope

/-- How an evaluation ends. -/
inductive Ending where
  /-- All that was to be done is done. -/
  | finished
  /-- A presence was broken at the position itself. -/
  | fellBack
  /-- The nesting was too deep. -/
  | outOfDepth
  deriving DecidableEq, Repr

/-- What an evaluation finds. -/
structure Verdict (π : Type) where
  /-- The errors with their positions, in order. -/
  events : List (π × ErrorId) := []
  /-- How it ended. -/
  ending : Ending := .finished
  deriving Repr

namespace Verdict

variable {π ρ : Type}

/-- A broken presence. -/
def breach (p : π) (id : ErrorId) : Verdict π := ⟨[(p, id)], .fellBack⟩

/-- One verdict and then another, if the first has not ended early. -/
def andThen (first next : Verdict π) : Verdict π :=
  match first.ending with
  | .finished => ⟨first.events ++ next.events, next.ending⟩
  | _ => first

/-- A verdict of a node below, whose broken presence is no matter here. -/
def settle (r : Verdict π) : Verdict π :=
  match r.ending with
  | .fellBack => ⟨r.events, .finished⟩
  | _ => r

/-- The same verdict with other positions. -/
def map (f : π → ρ) (r : Verdict π) : Verdict ρ := ⟨r.events.map (Prod.map f id), r.ending⟩

@[simp] theorem events_settle (r : Verdict π) : r.settle.events = r.events := by
  rw [settle]
  split <;> rfl

theorem map_settle (f : π → ρ) (r : Verdict π) : (r.map f).settle = r.settle.map f := by
  obtain ⟨events, ending⟩ := r
  cases ending <;> rfl

theorem map_andThen (f : π → ρ) (first next : Verdict π) :
    (first.map f).andThen (next.map f) = (first.andThen next).map f := by
  obtain ⟨events, ending⟩ := first
  cases ending with
  | finished => simp [andThen, map]
  | fellBack => rfl
  | outOfDepth => rfl

theorem andThen_of_finished {first : Verdict π} (h : first.ending = .finished)
    (next : Verdict π) : first.andThen next = ⟨first.events ++ next.events, next.ending⟩ := by
  rw [andThen, h]

theorem andThen_of_ne_finished {first : Verdict π} (h : first.ending ≠ .finished)
    (next : Verdict π) : first.andThen next = first := by
  rw [andThen]
  split
  · contradiction
  · rfl

theorem andThen_assoc (first second third : Verdict π) :
    (first.andThen second).andThen third = first.andThen (second.andThen third) := by
  obtain ⟨events, ending⟩ := first
  obtain ⟨events', ending'⟩ := second
  cases ending <;> cases ending' <;> simp [andThen]

/-- Going on adds errors behind those that are there, or none. -/
theorem events_andThen (first next : Verdict π) :
    (first.andThen next).events = first.events ++ next.events ∨
      (first.andThen next).events = first.events := by
  by_cases h : first.ending = .finished
  · exact .inl (by rw [andThen_of_finished h])
  · exact .inr (by rw [andThen_of_ne_finished h])

theorem settle_ending_eq_outOfDepth_iff {r : Verdict π} :
    r.settle.ending = .outOfDepth ↔ r.ending = .outOfDepth := by
  obtain ⟨events, ending⟩ := r
  cases ending <;> simp [settle]

theorem andThen_ending_eq_outOfDepth_iff {first next : Verdict π} :
    (first.andThen next).ending = .outOfDepth ↔
      first.ending = .outOfDepth ∨ first.ending = .finished ∧ next.ending = .outOfDepth := by
  obtain ⟨events, ending⟩ := first
  cases ending <;> simp [andThen]

/-- The second verdict says what the first one says, and goes on where that runs out of depth. -/
inductive GoesOn (r : Verdict π) : Verdict π → Prop where
  | same : GoesOn r r
  | further {r' : Verdict π} (hend : r.ending = .outOfDepth) (hevents : r.events <+: r'.events) :
    GoesOn r r'

namespace GoesOn

variable {r r' r'' next next' : Verdict π}

/-- Nothing has been said before the depth is used up. -/
theorem of_nothing (r' : Verdict π) : GoesOn { ending := .outOfDepth } r' :=
  .further rfl List.nil_prefix

theorem eq (h : GoesOn r r') (hend : r.ending ≠ .outOfDepth) : r' = r := by
  cases h with
  | same => rfl
  | further hout => exact absurd hout hend

theorem trans (h : GoesOn r r') (h' : GoesOn r' r'') : GoesOn r r'' := by
  cases h with
  | same => exact h'
  | further hend hevents =>
    cases h' with
    | same => exact .further hend hevents
    | further _ hmore => exact .further hend (hevents.trans hmore)

theorem settle (h : GoesOn r r') : GoesOn r.settle r'.settle := by
  cases h with
  | same => exact .same
  | further hend hevents =>
    refine .further (settle_ending_eq_outOfDepth_iff.2 hend) ?_
    rwa [events_settle, events_settle]

theorem andThen (h : GoesOn r r') (hnext : GoesOn next next') :
    GoesOn (r.andThen next) (r'.andThen next') := by
  cases h with
  | same =>
    by_cases hfinished : r.ending = .finished
    · rw [andThen_of_finished hfinished, andThen_of_finished hfinished]
      cases hnext with
      | same => exact .same
      | further hend hevents => exact .further hend ((List.prefix_append_right_inj _).2 hevents)
    · rw [andThen_of_ne_finished hfinished, andThen_of_ne_finished hfinished]
      exact .same
  | further hend hevents =>
    rw [andThen_of_ne_finished (by rw [hend]; exact Ending.noConfusion)]
    refine .further hend ?_
    rcases events_andThen r' next' with h | h
    · rw [h]
      exact hevents.trans (List.prefix_append _ _)
    · rwa [h]

end GoesOn

end Verdict

/-- The path of the node that a segment leads to. -/
def Path.below (path : String) (segment : Path.Segment) : String := join path segment.text

namespace Evaluation

variable {M : ModelSpace} {k : M.Kind} {π ρ : Type}

/-- What is made of a scope that a step leads to, with a value at a position. -/
abbrev Reader (M : ModelSpace) (π : Type) :=
  Walk.Approach → ScopeId → (k : M.Kind) → Option (M.Value k) → π → Verdict π

/-- Evaluates elements in order, counting from `index`. -/
def evalElements (down : π → Path.Segment → π) (read : Option (M.Value k) → π → Verdict π)
    (p : π) :
    Nat → List (Option (M.Value k)) → Verdict π
  | _, [] => {}
  | index, e :: rest =>
    (read e (down p (.index index))).settle.andThen (evalElements down read p (index + 1) rest)

/-- Evaluates one step. -/
def evalStep (down : π → Path.Segment → π) (read : Reader M π) (v : M.Value k) (p : π) :
    Step M k → Verdict π
  | .rule error test => if test v then {} else { events := [(p, error)] }
  | .member name target kind get =>
    (read .entering target kind (get v) (down p (.member name))).settle
  | .collection target kind elements =>
    evalElements down (read .entering target kind) p 0 (elements v)
  | .inclusion target => read .staying target k (some v) p
  | .narrowing target kind view =>
    match view v with
    | some u => read .entering target kind (some u) p
    | none => {}

/-- Evaluates steps in order. -/
def evalSteps (down : π → Path.Segment → π) (read : Reader M π) (v : M.Value k) (p : π) :
    List (Step M k) → Verdict π
  | [] => {}
  | step :: rest => (evalStep down read v p step).andThen (evalSteps down read v p rest)

theorem evalSteps_append (down : π → Path.Segment → π) (read : Reader M π) (v : M.Value k) (p : π)
    (steps more : List (Step M k)) :
    evalSteps down read v p (steps ++ more) =
      (evalSteps down read v p steps).andThen (evalSteps down read v p more) := by
  induction steps with
  | nil => rfl
  | cons step rest ih => rw [List.cons_append, evalSteps, evalSteps, ih, Verdict.andThen_assoc]

/-- Evaluates a scope for a value, which may be absent. -/
def evalScope (down : π → Path.Segment → π) (read : Reader M π) (scope : Scope M k)
    (value : Option (M.Value k)) (p : π) : Verdict π :=
  match value with
  | none =>
    match scope.absence? with
    | some error => .breach p error
    | none => {}
  | some v =>
    match scope.refusal? with
    | some error => .breach p error
    | none => evalSteps down read v p scope.steps

/-- Whether a value is passed over: it is handed on while its node is open. -/
def passesOver (guard : Bool) (opened : List M.Node) : Walk.Approach → Option (M.Value k) → Bool
  | .entering, some v => guard && opened.contains (M.nodeOf v)
  | _, _ => false

/-- The nodes that are open below a value. -/
def openedBelow (guard : Bool) (opened : List M.Node) :
    Walk.Approach → Option (M.Value k) → List M.Node
  | .entering, some v => if guard then M.nodeOf v :: opened else opened
  | _, _ => opened

/-- Evaluates the scope of an identifier.  The number bounds the nesting of scopes. -/
def eval (down : π → Path.Segment → π) (scopes : ScopeTable M) (guard : Bool) :
    Nat → List M.Node → Reader M π
  | 0, _, _, _, _, _, _ => { ending := .outOfDepth }
  | depth + 1, opened, approach, id, k, value, p =>
    match scopes.typed? id k with
    | none => {}
    | some scope =>
      if passesOver guard opened approach value then {}
      else
        evalScope down (eval down scopes guard depth (openedBelow guard opened approach value))
          scope value p

theorem passesOver_entering {opened : List M.Node} {v : M.Value k} :
    passesOver true opened .entering (some v) = true ↔ M.nodeOf v ∈ opened := by
  rw [passesOver, Bool.true_and, List.contains_iff_mem]

/-! ## Changing positions -/

section Positions

variable {down : π → Path.Segment → π} {down' : ρ → Path.Segment → ρ} {f : π → ρ}

theorem evalElements_map (hf : ∀ p s, f (down p s) = down' (f p) s)
    {read : Option (M.Value k) → π → Verdict π} {read' : Option (M.Value k) → ρ → Verdict ρ}
    (hread : ∀ e p, read' e (f p) = (read e p).map f) (p : π) (index : Nat)
    (elements : List (Option (M.Value k))) :
    evalElements down' read' (f p) index elements =
      (evalElements down read p index elements).map f := by
  induction elements generalizing index with
  | nil => rfl
  | cons e rest ih =>
    rw [evalElements, evalElements, ← hf, hread, ih, Verdict.map_settle, Verdict.map_andThen]

theorem evalStep_map (hf : ∀ p s, f (down p s) = down' (f p) s) {read : Reader M π}
    {read' : Reader M ρ}
    (hread : ∀ a id l u p, read' a id l u (f p) = (read a id l u p).map f) (v : M.Value k) (p : π)
    (step : Step M k) :
    evalStep down' read' v (f p) step = (evalStep down read v p step).map f := by
  cases step with
  | rule error test =>
    rw [evalStep, evalStep]
    split <;> rfl
  | member name target kind get => rw [evalStep, evalStep, ← hf, hread, Verdict.map_settle]
  | collection target kind elements =>
    exact evalElements_map hf (hread .entering target kind) p 0 (elements v)
  | inclusion target => exact hread .staying target k (some v) p
  | narrowing target kind view =>
    rw [evalStep, evalStep]
    cases view v with
    | none => rfl
    | some u => exact hread .entering target kind (some u) p

theorem evalSteps_map (hf : ∀ p s, f (down p s) = down' (f p) s) {read : Reader M π}
    {read' : Reader M ρ}
    (hread : ∀ a id l u p, read' a id l u (f p) = (read a id l u p).map f) (v : M.Value k) (p : π)
    (steps : List (Step M k)) :
    evalSteps down' read' v (f p) steps = (evalSteps down read v p steps).map f := by
  induction steps with
  | nil => rfl
  | cons step rest ih =>
    rw [evalSteps, evalSteps, evalStep_map hf hread, ih, Verdict.map_andThen]

theorem evalScope_map (hf : ∀ p s, f (down p s) = down' (f p) s) {read : Reader M π}
    {read' : Reader M ρ}
    (hread : ∀ a id l u p, read' a id l u (f p) = (read a id l u p).map f) (scope : Scope M k)
    (value : Option (M.Value k)) (p : π) :
    evalScope down' read' scope value (f p) = (evalScope down read scope value p).map f := by
  cases value with
  | none =>
    rw [evalScope, evalScope]
    cases scope.absence? <;> rfl
  | some v =>
    rw [evalScope, evalScope]
    cases scope.refusal? with
    | none => exact evalSteps_map hf hread v p scope.steps
    | some error => rfl

/-- Evaluating with other positions finds the same errors at other positions. -/
theorem eval_map (hf : ∀ p s, f (down p s) = down' (f p) s) (scopes : ScopeTable M) (guard : Bool)
    (depth : Nat) (opened : List M.Node) (approach : Walk.Approach) (id : ScopeId)
    (value : Option (M.Value k)) (p : π) :
    eval down' scopes guard depth opened approach id k value (f p) =
      (eval down scopes guard depth opened approach id k value p).map f := by
  induction depth generalizing opened approach id k value p with
  | zero => rfl
  | succ depth ih =>
    rw [eval, eval]
    cases scopes.typed? id k with
    | none => rfl
    | some scope =>
      dsimp only
      split
      · rfl
      · exact evalScope_map hf (fun a id l u p => ih (k := l) _ a id u p) scope value p

end Positions

/-- What is evaluated below a path is what is evaluated at the root, at paths that are laid behind
that one. -/
theorem eval_below (scopes : ScopeTable M) (guard : Bool) (depth : Nat) (opened : List M.Node)
    (approach : Walk.Approach) (id : ScopeId) (value : Option (M.Value k)) (base : String) :
    eval Path.below scopes guard depth opened approach id k value base =
      (eval Path.below scopes guard depth opened approach id k value "").map
        (Path.join base) := by
  have hdown (p : String) (s : Path.Segment) :
      Path.join base (Path.below p s) = Path.below (Path.join base p) s :=
    (Path.join_assoc base p s.text).symm
  have h := eval_map hdown scopes guard depth opened approach id value ""
  rwa [Path.join_empty] at h

/-! ## Without a guard -/

theorem passesOver_unguarded (opened : List M.Node) (approach : Walk.Approach)
    (value : Option (M.Value k)) : passesOver false opened approach value = false := by
  cases approach <;> cases value <;> rfl

theorem openedBelow_unguarded (opened : List M.Node) (approach : Walk.Approach)
    (value : Option (M.Value k)) : openedBelow false opened approach value = opened := by
  cases approach <;> cases value <;> rfl

/-- Where loops are not guarded, it does not matter what is open and how a scope is reached. -/
theorem eval_unguarded {down : π → Path.Segment → π} (scopes : ScopeTable M) (depth : Nat)
    (opened opened' : List M.Node) (approach approach' : Walk.Approach) (id : ScopeId)
    (value : Option (M.Value k)) (p : π) :
    eval down scopes false depth opened approach id k value p =
      eval down scopes false depth opened' approach' id k value p := by
  induction depth generalizing opened opened' approach approach' id k value p with
  | zero => rfl
  | succ depth ih =>
    have hread : eval down scopes false depth opened = eval down scopes false depth opened' := by
      funext a id l u p
      exact ih opened opened' a a id u p
    simp only [eval, passesOver_unguarded, openedBelow_unguarded, hread]

/-! ## More depth -/

section Depth

variable {down : π → Path.Segment → π}

theorem evalElements_goesOn {read read' : Option (M.Value k) → π → Verdict π}
    (hread : ∀ e p, (read e p).GoesOn (read' e p)) (p : π) (index : Nat)
    (elements : List (Option (M.Value k))) :
    (evalElements down read p index elements).GoesOn
      (evalElements down read' p index elements) := by
  induction elements generalizing index with
  | nil => exact .same
  | cons e rest ih => exact (hread e _).settle.andThen (ih (index + 1))

/-- One reader says what the other one says, and goes on where that runs out of depth. -/
def GoesOn (read read' : Reader M π) : Prop :=
  ∀ a id l u p, (read a id l u p).GoesOn (read' a id l u p)

variable {read read' : Reader M π}

theorem evalStep_goesOn (hread : GoesOn read read') (v : M.Value k) (p : π) (step : Step M k) :
    (evalStep down read v p step).GoesOn (evalStep down read' v p step) := by
  cases step with
  | rule error test => exact .same
  | member name target kind get => exact (hread _ _ _ _ _).settle
  | collection target kind elements => exact evalElements_goesOn (hread _ _ _) p 0 (elements v)
  | inclusion target => exact hread _ _ _ _ _
  | narrowing target kind view =>
    rw [evalStep, evalStep]
    cases view v with
    | none => exact .same
    | some u => exact hread _ _ _ _ _

theorem evalSteps_goesOn (hread : GoesOn read read') (v : M.Value k) (p : π)
    (steps : List (Step M k)) :
    (evalSteps down read v p steps).GoesOn (evalSteps down read' v p steps) := by
  induction steps with
  | nil => exact .same
  | cons step rest ih => exact (evalStep_goesOn hread v p step).andThen ih

theorem evalScope_goesOn (hread : GoesOn read read') (scope : Scope M k)
    (value : Option (M.Value k)) (p : π) :
    (evalScope down read scope value p).GoesOn (evalScope down read' scope value p) := by
  cases value with
  | none => exact .same
  | some v =>
    rw [evalScope, evalScope]
    cases scope.refusal? with
    | none => exact evalSteps_goesOn hread v p scope.steps
    | some error => exact .same

/-- With more depth, an evaluation goes on where it has run out of it. -/
theorem eval_goesOn {scopes : ScopeTable M} {guard : Bool} {depth depth' : Nat}
    (hle : depth ≤ depth') (opened : List M.Node) :
    GoesOn (eval down scopes guard depth opened) (eval down scopes guard depth' opened) := by
  induction depth generalizing depth' opened with
  | zero => exact fun _ _ _ _ _ => .of_nothing _
  | succ depth ih =>
    cases depth' with
    | zero => exact absurd hle (Nat.not_succ_le_zero depth)
    | succ depth' =>
      intro approach id l value p
      rw [eval, eval]
      cases scopes.typed? id l with
      | none => exact .same
      | some scope =>
        dsimp only
        split
        · exact .same
        · exact evalScope_goesOn (ih (Nat.le_of_succ_le_succ hle) _) scope value p

/-- An evaluation that does not run out of depth says the same with more of it. -/
theorem eval_of_deeper {scopes : ScopeTable M} {guard : Bool} {depth depth' : Nat}
    (hle : depth ≤ depth') {opened : List M.Node} {approach : Walk.Approach} {id : ScopeId}
    {value : Option (M.Value k)} {p : π}
    (h : (eval down scopes guard depth opened approach id k value p).ending ≠ .outOfDepth) :
    eval down scopes guard depth' opened approach id k value p =
      eval down scopes guard depth opened approach id k value p :=
  (eval_goesOn hle opened approach id k value p).eq h

/-- Evaluations that do not run out of depth say the same, however much of it they have. -/
theorem eval_eq_of_ends {scopes : ScopeTable M} {guard : Bool} {depth depth' : Nat}
    {opened : List M.Node} {approach : Walk.Approach} {id : ScopeId} {value : Option (M.Value k)}
    {p : π}
    (h : (eval down scopes guard depth opened approach id k value p).ending ≠ .outOfDepth)
    (h' : (eval down scopes guard depth' opened approach id k value p).ending ≠ .outOfDepth) :
    eval down scopes guard depth' opened approach id k value p =
      eval down scopes guard depth opened approach id k value p := by
  rcases Nat.le_total depth depth' with hle | hle
  · exact eval_of_deeper hle h
  · exact (eval_of_deeper hle h').symm

end Depth

end Evaluation

/-- Evaluates a scheme for a model, which may be absent, from the root path. -/
def Scheme.evaluate {M : ModelSpace} {k : M.Kind} (s : Scheme M k) (guard : Bool) (depth : Nat)
    (model : Option (M.Value k)) : Verdict String :=
  Evaluation.eval Path.below s.scopes guard depth [] .entering s.rootId k model ""

end Rulebook
