import Rulebook.Id

/-!
# What can be wrong with a scheme

A set of scopes that does not fit together is refused with one of these causes, which names the
scope, the error or the path at fault.  Finding a model invalid is not a failure and has no place
here.

These are the configuration errors of the specification (section 7).
-/

namespace Rulebook

/-- Why a scheme cannot be built. -/
inductive SchemeError where
  | emptyTable
  | missingRoot (id : ScopeId)
  /-- The root checks values of another kind. -/
  | rootKind (id : ScopeId) (expected actual : String)
  /-- A scope was declared and never defined. -/
  | undefinedScope (id : ScopeId)
  | alreadyDefined (id : ScopeId)
  /-- A step leads to a scope that does not exist. -/
  | unknownTarget (scope target : ScopeId)
  /-- A step leads to a scope for values of another kind. -/
  | targetKind (scope target : ScopeId) (expected actual : String)
  /-- A scope records an error that is not in the catalog. -/
  | unknownError (scope : ScopeId) (error : ErrorId)
  /-- Scopes include one another without end at one node. -/
  | inclusionCycle (scope : ScopeId) (path : String)
  /-- A member has a name that cannot stand in a path. -/
  | memberName (scope : ScopeId) (name : String)
  /-- There is no identifier left; the text says of which sort. -/
  | idsExhausted (sort : String)
  /-- Two parts that are not both empty were joined to the empty path. -/
  | emptyPath (base relative : String)
  deriving DecidableEq, Repr

namespace SchemeError

/-- The cause in words. -/
def message : SchemeError → String
  | emptyTable => "scope registry is empty"
  | missingRoot id => "scope registry doesn't contain root specification scope " ++ id.label
  | rootKind id expected actual =>
    "root specification scope " ++ id.label ++ " validates `" ++ actual ++ "`, expected `" ++
      expected ++ "`"
  | undefinedScope id => "specification scope " ++ id.label ++ " was declared but never defined"
  | alreadyDefined id => "specification scope " ++ id.label ++ " is already defined"
  | unknownTarget scope target =>
    "specification scope " ++ scope.label ++ " references unknown scope " ++ target.label
  | targetKind scope target expected actual =>
    "specification scope " ++ scope.label ++ " expects " ++ target.label ++ " to validate `" ++
      expected ++ "`, but it validates `" ++ actual ++ "`"
  | unknownError scope error =>
    "specification scope " ++ scope.label ++ " references unregistered error " ++ error.label
  | inclusionCycle scope path =>
    "specification scope " ++ scope.label ++ " includes itself at path `" ++ path ++
      "` without navigating"
  | memberName scope name =>
    "invalid member name `" ++ name ++ "` in specification scope " ++ scope.label
  | idsExhausted sort => "no " ++ sort ++ " ids left to allocate"
  | emptyPath base relative =>
    "path cache resolves (`" ++ base ++ "`, `" ++ relative ++ "`) to an empty path"

end SchemeError

end Rulebook
