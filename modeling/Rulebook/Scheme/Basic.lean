import Rulebook.Error.Catalog
import Rulebook.Event
import Rulebook.Scheme.Survey

/-!
# Schemes

A scheme is a table of scopes with a root and a catalog that has been found to fit together, and
the survey of it.  `Scheme.compile` checks, in this order, that

* there are scopes, and the root is one of them and for the right kind;
* whatever a scope of the table relies on is there, whether or not the scope can be reached: its
  errors are in the catalog, its member names can stand in paths, and its steps lead to scopes for
  the kind of value that they hand on;
* the scopes that can be reached do not include one another without end.

A `Scheme` is a model scheme (section 4.3 of the specification) and `compile` is its constructor
`new`, with `checkReferences` for `check_references`; `unreachableErrors` are those that
`warn_unreachable` tells.
-/

namespace Rulebook

/-- A table of scopes that fits together, for values of kind `k`. -/
structure Scheme (M : ModelSpace) (k : M.Kind) where
  scopes : ScopeTable M
  rootId : ScopeId
  root : Scope M k
  catalog : Catalog
  /-- What is known without a model. -/
  survey : Survey

namespace Scheme

variable {M : ModelSpace} {k : M.Kind}

/-- Checks one thing that a scope relies on. -/
def checkReference (table : ScopeTable M) (catalog : Catalog) (scope : ScopeId) :
    Reference M → Except SchemeError Unit
  | .error id => if catalog.contains id then .ok () else .error (.unknownError scope id)
  | .memberName name => if Path.isMemberName name then .ok () else .error (.memberName scope name)
  | .scope target kind =>
    match table.kind? target with
    | none => .error (.unknownTarget scope target)
    | some actual =>
      if actual = kind then .ok ()
      else .error (.targetKind scope target (M.kindName kind) (M.kindName actual))

/-- Checks all that the scopes of a table rely on, scope by scope. -/
def checkReferences (table : ScopeTable M) (catalog : Catalog) : Except SchemeError Unit :=
  table.entries.forM fun (id, s) => s.scope.references.forM (checkReference table catalog id)

/-- Builds the scheme of a table for values of kind `k`. -/
def compile (table : ScopeTable M) (k : M.Kind) (rootId : ScopeId) (catalog : Catalog) :
    Except SchemeError (Scheme M k) := do
  if table.isEmpty then throw .emptyTable
  let some actual := table.kind? rootId | throw (.missingRoot rootId)
  let rootKind := SchemeError.rootKind rootId (M.kindName k) (M.kindName actual)
  if actual ≠ k then throw rootKind
  checkReferences table catalog
  let survey ← Survey.ofOutlines table.outlines rootId
  survey.paths.check
  let some root := table.typed? rootId k | throw rootKind
  return { scopes := table, rootId, root, catalog, survey }

/-- Whether scopes that can be reached lead back to themselves. -/
def recursive (s : Scheme M k) : Bool := s.survey.recursive

/-- The scope for values of kind `l` under an identifier. -/
def scope? (s : Scheme M k) (id : ScopeId) (l : M.Kind) : Option (Scope M l) :=
  s.scopes.typed? id l

/-- The errors of the catalog that no run can record. -/
def unreachableErrors (s : Scheme M k) : List ErrorId :=
  s.catalog.keys.filter fun id => !s.survey.errors.ids.contains id

/-- What building a scheme tells. -/
def events (s : Scheme M k) : List Event :=
  s.unreachableErrors.map (fun id =>
    ⟨.warn, "registered error is unreachable from the root scope", [("error", id.label)]⟩) ++
  [⟨.debug, "compiled model scheme",
    [("model", M.kindName k),
     ("scopes", toString s.scopes.size),
     ("errors", toString s.catalog.size),
     ("error_paths", toString s.survey.errorPaths),
     ("max_depth", toString s.survey.maxDepth),
     ("reference_loop_possible", toString s.recursive)]⟩]

end Scheme

end Rulebook
