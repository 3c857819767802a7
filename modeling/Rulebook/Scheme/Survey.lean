import Rulebook.Error.Catalog
import Rulebook.PathTable
import Rulebook.Scheme.Scope

/-!
# Surveys

A survey walks through the outlines of scopes once, from a root, and finds out what can be known
without a model: which errors can be recorded at which shape, how paths are joined on the way, how
deep they get, and whether the scopes lead back to themselves.

* An error is noted at the current shape, in the order of the walk, as often as it is met.
* A member goes one path deeper under its name, a collection under the placeholder.
* A node that has to be absent is not looked into.
* A scope that is already open ends its branch.  If nothing but inclusions lies between the two
  visits, the scopes include one another without end at one node, which is an error; otherwise the
  scopes are recursive.

The walk ends because each nested visit opens a scope that was not open.

This is the discovery engine (section 4.4 of the specification): `ofOutlines` is `discover`, and
`State` is the discovery context.  `note`, `enter` and `leave` are its `add_error`, `enter_path`
and `leave_path`, and `visit` is its `discover_scope`.  `look` is `discover` of a scope and
`followStep` is `discover` of a command; there a narrowing goes through `discover_narrowed`, which
counts it.
-/

namespace Rulebook

/-- What a survey finds. -/
structure Survey where
  /-- The errors that can be recorded at each shape. -/
  errors : ErrorsByPath
  paths : PathTable
  /-- Whether the scopes lead back to themselves. -/
  recursive : Bool
  /-- The greatest number of steps down from the root. -/
  maxDepth : Nat
  deriving Inhabited

namespace Survey

/-- The number of shapes with errors. -/
def errorPaths (s : Survey) : Nat := s.errors.size

/-- A scope that is being looked into, with where it was opened. -/
structure Opened where
  id : ScopeId
  /-- The number of steps down at that time. -/
  depth : Nat
  /-- The number of narrowings at that time. -/
  narrowings : Nat
  deriving DecidableEq, Repr

/-- A walk in progress. -/
structure State where
  errors : ErrorsByPath := ∅
  paths : PathTable := {}
  /-- The shapes from the current one up, without the root. -/
  trail : List String := []
  /-- The open scopes, the last opened first. -/
  opened : List Opened := []
  /-- How many narrowings lie between the root and here. -/
  narrowings : Nat := 0
  /-- Whether an open scope has been met again in a deeper place. -/
  recursive : Bool := false
  maxDepth : Nat := 0
  failure : Option SchemeError := none

namespace State

/-- The current shape. -/
def path (st : State) : String := st.trail.headD ""

/-- The number of steps down from the root. -/
def depth (st : State) : Nat := st.trail.length

/-- Notes an error at the current shape. -/
def note (st : State) (id : ErrorId) : State := { st with errors := st.errors.record st.path id }

/-- Goes down by one segment. -/
def enter (st : State) (segment : String) : State :=
  let joined := Path.join st.path segment
  { st with
    paths := st.paths.insert st.path segment joined
    trail := joined :: st.trail
    maxDepth := max st.maxDepth (st.depth + 1) }

/-- Goes back up by one segment. -/
def leave (st : State) : State := { st with trail := st.trail.tail }

/-- Notes a failure. -/
def fail (st : State) (e : SchemeError) : State := { st with failure := some e }

/-- Looks into a scope with `look`, keeping it open meanwhile. -/
def within (st : State) (id : ScopeId) (look : State → State) : State :=
  let st := look { st with opened := ⟨id, st.depth, st.narrowings⟩ :: st.opened }
  { st with opened := st.opened.tail }

/-- Meets an open scope again. -/
def meet (st : State) (o : Opened) : State :=
  if o.depth = st.depth ∧ o.narrowings = st.narrowings then
    st.fail (.inclusionCycle o.id st.path)
  else { st with recursive := true }

end State

/-- Follows one step; `visit` visits the scope that it leads to. -/
def followStep (visit : ScopeId → State → State) (st : State) : Outline.Step → State
  | .rule error => st.note error
  | .member name target => (visit target (st.enter name)).leave
  | .collection target => (visit target (st.enter Path.anyIndex)).leave
  | .inclusion target => visit target st
  | .narrowing target =>
    let st := visit target { st with narrowings := st.narrowings + 1 }
    { st with narrowings := st.narrowings - 1 }

/-- Looks into a scope. -/
def look (visit : ScopeId → State → State) (o : Outline) (st : State) : State :=
  match o.presence with
  | some (.forbidden error) => st.note error
  | some (.required error) => o.steps.foldl (followStep visit) (st.note error)
  | _ => o.steps.foldl (followStep visit) st

/-- Visits a scope, unless something has gone wrong.  `closed` is how many scopes are not open:
with none left, a scope that is not open is not there. -/
def visit (outlines : Dict ScopeId Outline) : Nat → ScopeId → State → State
  | closed, id, st =>
    if st.failure.isSome then st
    else
      match st.opened.find? (·.id = id) with
      | some o => st.meet o
      | none =>
        match closed, outlines.find? id with
        | closed + 1, some o => st.within id (look (visit outlines closed) o)
        | _, _ => st.fail (.undefinedScope id)

/-- The state at the end of the walk from a scope. -/
def walk (outlines : Dict ScopeId Outline) (root : ScopeId) : State :=
  visit outlines outlines.size root {}

/-- What a walk has found. -/
def ofState (st : State) : Survey := ⟨st.errors, st.paths, st.recursive, st.maxDepth⟩

/-- Surveys the scopes that can be reached from a root. -/
def ofOutlines (outlines : Dict ScopeId Outline) (root : ScopeId) : Except SchemeError Survey :=
  let st := walk outlines root
  match st.failure with
  | some e => .error e
  | none => .ok (ofState st)

end Survey

end Rulebook
