import Rulebook.Scheme.Basic

/-!
# Walks through a model

A run of a scheme walks through a model, from the root scope along the steps.  The walk keeps the
shapes of the nodes that it has entered and, apart from them, the indexes; only where an error is
recorded the two are put together.

* A broken presence stops the scope it is met in and those that led to it by inclusion or
  narrowing.  The member or the collection that entered the node goes on with what comes next.
* With `failFast` the first error stops everything.
* With `guardLoops` a node that is open is not entered again, whether by member, collection or
  narrowing.  Inclusions stay at their node and are not guarded.

A walk can be endless, where loops are not guarded, so `visit` has a bound for the nesting and
answers `none` when it is used up.  `Scheme.validate` takes a bound that every walk that ends
stays below.

This is the validation engine (section 4.5 of the specification), and a `Walk` is the validation
context.  `record`, `breach`, `enter`, `leave`, `enterIndex` and `leaveIndex` are its `add_error`,
`add_presence_error`, `enter_path`, `leave_path`, `enter_index` and `leave_index`; `stops` is
`should_fall_back`, and `goOn` is `clear_fall_back`.  `visit` is `descend`, `narrow` and `include`
in one, and `guarded` is `validate_guarded`.  `checkWith` is `validate` of a scope, `takeStep` is
`validate` of a command, and `visitElements` is `visit_items`.
-/

namespace Rulebook

/-- How a model is checked. -/
structure Options where
  /-- Whether to stop at the first error. -/
  failFast : Bool := false
  /-- Whether to pass over nodes that are open. -/
  guardLoops : Bool := false
  deriving DecidableEq, Repr, Inhabited

/-- What a walk relies on. -/
structure Course (M : ModelSpace) where
  scopes : ScopeTable M
  paths : PathTable
  options : Options

/-- A walk in progress. -/
structure Walk (M : ModelSpace) where
  errors : ErrorsByPath := ∅
  /-- The shapes from the current one up, without the root. -/
  trail : List String := []
  /-- The indexes of the elements entered, the innermost first. -/
  indexes : List Nat := []
  /-- Whether the walk has stopped for good. -/
  halted : Bool := false
  /-- Whether a presence was broken at this node. -/
  fellBack : Bool := false
  /-- The open nodes, the last entered first, where loops are guarded. -/
  opened : List M.Node := []
  /-- The scopes that were looked up in vain, with the kinds asked for. -/
  missed : List (ScopeId × M.Kind) := []

namespace Walk

variable {M : ModelSpace} {k : M.Kind}

/-- The current shape. -/
def path (w : Walk M) : String := w.trail.headD ""

/-- Records an error at the current node, unless the walk has stopped. -/
def record (options : Options) (id : ErrorId) (w : Walk M) : Walk M :=
  if w.halted then w
  else
    { w with
      errors := w.errors.record (Path.fillIndexes w.path w.indexes.reverse) id
      halted := options.failFast }

/-- Records a broken presence. -/
def breach (options : Options) (id : ErrorId) (w : Walk M) : Walk M :=
  { w.record options id with fellBack := true }

/-- Whether the steps of the current scope end here. -/
def stops (w : Walk M) : Bool := w.fellBack || w.halted

/-- Forgets a broken presence. -/
def goOn (w : Walk M) : Walk M := { w with fellBack := false }

/-- Enters a member. -/
def enter (paths : PathTable) (segment : String) (w : Walk M) : Walk M :=
  { w with trail := paths.resolve w.path segment :: w.trail }

/-- Leaves a member. -/
def leave (w : Walk M) : Walk M := { w with trail := w.trail.tail }

/-- Enters an element. -/
def enterIndex (paths : PathTable) (index : Nat) (w : Walk M) : Walk M :=
  { w with indexes := index :: w.indexes }.enter paths Path.anyIndex

/-- Leaves an element. -/
def leaveIndex (w : Walk M) : Walk M := { w.leave with indexes := w.indexes.tail }

/-- How a scope is reached: by a step that enters a node, or at the node where the walk is. -/
inductive Approach where
  /-- From another node or another view. -/
  | entering
  /-- At the same node, with the same value. -/
  | staying
  deriving DecidableEq, Repr

/-- What is done with a scope that a step leads to. -/
abbrev Visitor (M : ModelSpace) :=
  Approach → ScopeId → (k : M.Kind) → Option (M.Value k) → Walk M → Option (Walk M)

/-- Visits elements in order, counting from `index`, until the walk stops for good. -/
def visitElements (paths : PathTable) (visitOne : Option (M.Value k) → Walk M → Option (Walk M)) :
    Nat → List (Option (M.Value k)) → Walk M → Option (Walk M)
  | _, [], w => some w
  | index, e :: rest, w => do
    let w ← visitOne e (w.enterIndex paths index)
    let w := w.leaveIndex.goOn
    if w.halted then some w else visitElements paths visitOne (index + 1) rest w

/-- Takes one step with a value. -/
def takeStep (c : Course M) (visit : Visitor M) (v : M.Value k) (w : Walk M) :
    Step M k → Option (Walk M)
  | .rule error test => some (if test v then w else w.record c.options error)
  | .member name target kind get => do
    let w ← visit .entering target kind (get v) (w.enter c.paths name)
    return w.leave.goOn
  | .collection target kind elements =>
    visitElements c.paths (visit .entering target kind) 0 (elements v) w
  | .inclusion target => visit .staying target k (some v) w
  | .narrowing target kind view =>
    match view v with
    | some u => visit .entering target kind (some u) w
    | none => some w

/-- Takes steps in order until one of them stops the scope. -/
def takeSteps (c : Course M) (visit : Visitor M) (v : M.Value k) :
    List (Step M k) → Walk M → Option (Walk M)
  | [], w => some w
  | step :: rest, w => do
    let w ← takeStep c visit v w step
    if w.stops then some w else takeSteps c visit v rest w

/-- Checks a value, which may be absent, with a scope. -/
def checkWith (c : Course M) (visit : Visitor M) (scope : Scope M k) (value : Option (M.Value k))
    (w : Walk M) : Option (Walk M) :=
  match scope.presence, value with
  | some (.required error), none => some (w.breach c.options error)
  | some (.forbidden error), some _ => some (w.breach c.options error)
  | _, none => some w
  | _, some v => takeSteps c visit v scope.steps w

/-- Keeps a node open while `check` runs, and passes over a node that is open. -/
def guarded (node : M.Node) (check : Walk M → Option (Walk M)) (w : Walk M) : Option (Walk M) :=
  if node ∈ w.opened then some w
  else do
    let w ← check { w with opened := node :: w.opened }
    return { w with opened := w.opened.tail }

/-- Checks a value with the scope of an identifier.  The number bounds the nesting of scopes. -/
def visit (c : Course M) : Nat → Visitor M
  | 0, _, _, _, _, _ => none
  | depth + 1, approach, target, k, value, w =>
    match c.scopes.typed? target k with
    | none => some { w with missed := w.missed ++ [(target, k)] }
    | some scope =>
      match approach, c.options.guardLoops, value with
      | .entering, true, some v =>
        guarded (M.nodeOf v) (checkWith c (visit c depth) scope value) w
      | _, _, _ => checkWith c (visit c depth) scope value w

end Walk

namespace Scheme

variable {M : ModelSpace} {k : M.Kind}

/-- What a walk through a model relies on. -/
def course (s : Scheme M k) (options : Options) : Course M := ⟨s.scopes, s.survey.paths, options⟩

/-- The walk through a model, or `none` if the nesting exceeds `depth`. -/
def walk? (s : Scheme M k) (depth : Nat) (model : Option (M.Value k)) (options : Options) :
    Option (Walk M) :=
  Walk.visit (s.course options) depth .entering s.rootId k model {}

/-- How deep scopes can be nested in a walk that ends.  A walk that meets a scope at a node where
it is already in that scope would meet it again without end, so each nested visit is of another
scope or another node, or of an absent value. -/
def depthBound (s : Scheme M k) (model : Option (M.Value k)) : Nat :=
  (s.scopes.size + 1) * ((model.map M.reach).getD 0 + 2)

/-- The walk through a model, which may be absent.  The answer is `none` if it has no end. -/
def run? (s : Scheme M k) (model : Option (M.Value k)) (options : Options) : Option (Walk M) :=
  s.walk? (s.depthBound model) model options

/-- Checks a model: the errors that the walk has recorded, if it ends. -/
def validate (s : Scheme M k) (model : Option (M.Value k)) (options : Options) :
    Option ErrorsByPath :=
  (s.run? model options).map (·.errors)

/-- The options that suit a scheme: loops are guarded where there can be any. -/
def defaultOptions (s : Scheme M k) (failFast : Bool) : Options := ⟨failFast, s.recursive⟩

/-- What a walk tells. -/
def walkEvents (w : Walk M) (options : Options) : List Event :=
  w.missed.map (fun (id, kind) =>
    ⟨.error, "typed scope lookup failed, skipping step",
      [("scope", id.label), ("expected", M.kindName kind)]⟩) ++
  [⟨.trace, "validated model",
    [("paths", toString w.errors.size),
     ("errors", toString w.errors.count),
     ("fail_fast", toString options.failFast)]⟩]

/-- What checking a model tells. -/
def runEvents (s : Scheme M k) (model : Option (M.Value k)) (options : Options) : List Event :=
  ((s.run? model options).map fun w => walkEvents w options).getD []

end Scheme

end Rulebook
