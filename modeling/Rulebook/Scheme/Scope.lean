import Rulebook.Dict
import Rulebook.Presence
import Rulebook.Scheme.Space
import Rulebook.SchemeError

/-!
# Scopes

A scope is what is checked at one node: a list of steps for the values of one kind and, where the
node may be absent, a presence policy.  A step either tests the value, or leads to another scope:
at a member, at each element of a collection, or at the same node, with the same value or with a
narrower view of it.  Scopes name each other by identifier, so they can describe models that
contain themselves.

The `Outline` of a scope is what it says without a value: the errors it can record and where its
steps lead.

Scopes for different kinds stand in one table, each with its kind.  A typed look-up gives a scope
only to a caller who asks for its kind.

A scope is a specification scope (section 4.1 of the specification) and a step a command scope
(section 4.2), of which `inclusion` is With and `narrowing` is As.  `Step.references` is
`collect_references`.  The table is the scope registry: `add` is its `insert`, `typed?` its `get`
and `kind?` its `model_type`.
-/

namespace Rulebook

/-- One step of a scope for values of kind `k`. -/
inductive Step (M : ModelSpace) (k : M.Kind) where
  /-- Records the error where the value does not hold the test. -/
  | rule (error : ErrorId) (test : M.Value k → Bool)
  /-- Leads to a member, which may be absent. -/
  | member (name : String) (target : ScopeId) (kind : M.Kind)
    (get : M.Value k → Option (M.Value kind))
  /-- Leads to every element, of which some may be absent. -/
  | collection (target : ScopeId) (kind : M.Kind)
    (elements : M.Value k → List (Option (M.Value kind)))
  /-- Checks the same value with another scope as well. -/
  | inclusion (target : ScopeId)
  /-- Checks another view of the value, if it has that view. -/
  | narrowing (target : ScopeId) (kind : M.Kind) (view : M.Value k → Option (M.Value kind))

/-- What is checked at a node with values of kind `k`. -/
structure Scope (M : ModelSpace) (k : M.Kind) where
  steps : List (Step M k)
  /-- What absence means, if the node may be absent. -/
  presence : Option PresencePolicy

/-- What a step says without a value. -/
inductive Outline.Step where
  | rule (error : ErrorId)
  | member (name : String) (target : ScopeId)
  | collection (target : ScopeId)
  | inclusion (target : ScopeId)
  | narrowing (target : ScopeId)
  deriving DecidableEq, Repr

/-- What a scope says without a value. -/
structure Outline where
  steps : List Outline.Step
  presence : Option PresencePolicy
  deriving DecidableEq, Repr

variable {M : ModelSpace} {k : M.Kind}

/-- The outline of a step. -/
def Step.outline : Step M k → Outline.Step
  | rule error _ => .rule error
  | member name target _ _ => .member name target
  | collection target _ _ => .collection target
  | inclusion target => .inclusion target
  | narrowing target _ _ => .narrowing target

/-- The outline of a scope. -/
def Scope.outline (s : Scope M k) : Outline := ⟨s.steps.map Step.outline, s.presence⟩

/-- The error that a step can record itself. -/
def Outline.Step.error? : Outline.Step → Option ErrorId
  | rule error => some error
  | _ => none

/-- The scope that a step leads to. -/
def Outline.Step.target? : Outline.Step → Option ScopeId
  | rule _ => none
  | member _ target => some target
  | collection target => some target
  | inclusion target => some target
  | narrowing target => some target

/-- Something that a scope relies on. -/
inductive Reference (M : ModelSpace) where
  | error (id : ErrorId)
  | memberName (name : String)
  | scope (target : ScopeId) (kind : M.Kind)

/-- What a step for values of kind `k` relies on. -/
def Step.references : Step M k → List (Reference M)
  | rule error _ => [.error error]
  | member name target kind _ => [.memberName name, .scope target kind]
  | collection target kind _ => [.scope target kind]
  | inclusion target => [.scope target k]
  | narrowing target kind _ => [.scope target kind]

/-- What a scope relies on: its presence error first, then its steps in order. -/
def Scope.references (s : Scope M k) : List (Reference M) :=
  ((s.presence.bind (·.error?)).map .error).toList ++ s.steps.flatMap Step.references

/-- A scope with its kind. -/
structure AnyScope (M : ModelSpace) where
  /-- The kind of the values that the scope checks. -/
  kind : M.Kind
  scope : Scope M kind

/-- Scopes by identifier. -/
abbrev ScopeTable (M : ModelSpace) := Dict ScopeId (AnyScope M)

namespace ScopeTable

variable {M : ModelSpace}

/-- Puts a scope under an identifier that is not taken. -/
def add (t : ScopeTable M) (id : ScopeId) {k : M.Kind} (scope : Scope M k) :
    Except SchemeError (ScopeTable M) :=
  if t.contains id then .error (.alreadyDefined id) else .ok (t.insert id ⟨k, scope⟩)

/-- The scope for values of kind `k` under an identifier. -/
def typed? (t : ScopeTable M) (id : ScopeId) (k : M.Kind) : Option (Scope M k) :=
  match t.find? id with
  | some ⟨kind, scope⟩ => if h : kind = k then some (h ▸ scope) else none
  | none => none

/-- The kind of the scope under an identifier. -/
def kind? (t : ScopeTable M) (id : ScopeId) : Option M.Kind := (t.find? id).map (·.kind)

/-- The outlines of all scopes. -/
def outlines (t : ScopeTable M) : Dict ScopeId Outline := t.map fun _ s => s.scope.outline

end ScopeTable

end Rulebook
