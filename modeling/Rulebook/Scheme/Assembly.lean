import Rulebook.Scheme.Basic

/-!
# Assembling schemes

An `Assembly` is a scheme in the making.  It hands out typed handles, registers errors and turns
the draft of a scope into a scope.  A handle may be declared first and defined later, so scopes
can refer to themselves.

A scope with a presence but no error of its own for it uses a default error, one for each of the
two policies, which is registered when the first scope needs it.

An assembly is the scheme builder (section 11.1 of the specification), with its `declare`,
`error`, `define`, `add` and `build`; `policy` is its `presence_policy`.  A draft is a scope
definition.
-/

namespace Rulebook

/-- Names a scope for values of kind `k` in an assembly. -/
structure Handle (M : ModelSpace) (k : M.Kind) where
  id : ScopeId
  deriving DecidableEq

/-- The error of a rule in a draft. -/
inductive RuleError where
  /-- A definition that is yet to be registered. -/
  | defined (e : ErrorDef)
  /-- An error that is registered. -/
  | registered (id : ErrorId)

/-- A step of a draft. -/
inductive DraftStep (M : ModelSpace) (k : M.Kind) where
  | rule (error : RuleError) (test : M.Value k → Bool)
  | step (s : Step M k)

/-- The presence of a draft; without an error the default one is meant. -/
inductive DraftPresence where
  /-- Absence is fine. -/
  | optional
  /-- Absence is an error. -/
  | required (error : Option ErrorDef)
  /-- Presence is an error. -/
  | forbidden (error : Option ErrorDef)

/-- A scope before its errors are registered. -/
structure ScopeDraft (M : ModelSpace) (k : M.Kind) where
  steps : List (DraftStep M k) := []
  /-- The presence that was set last. -/
  presence : Option DraftPresence := none

namespace ScopeDraft

variable {M : ModelSpace} {k : M.Kind}

/-- Adds a rule with an error of its own. -/
def rule (d : ScopeDraft M k) (error : ErrorDef) (test : M.Value k → Bool) : ScopeDraft M k :=
  { d with steps := d.steps ++ [.rule (.defined error) test] }

/-- Adds a rule with an error that is registered. -/
def ruleId (d : ScopeDraft M k) (error : ErrorId) (test : M.Value k → Bool) : ScopeDraft M k :=
  { d with steps := d.steps ++ [.rule (.registered error) test] }

/-- Adds a member that may be absent. -/
def member (d : ScopeDraft M k) (name : String) {l : M.Kind} (target : Handle M l)
    (get : M.Value k → Option (M.Value l)) : ScopeDraft M k :=
  { d with steps := d.steps ++ [.step (.member name target.id l get)] }

/-- Adds a member that is always there. -/
def field (d : ScopeDraft M k) (name : String) {l : M.Kind} (target : Handle M l)
    (get : M.Value k → M.Value l) : ScopeDraft M k :=
  d.member name target fun v => some (get v)

/-- Adds the elements of a collection, of which some may be absent. -/
def collection (d : ScopeDraft M k) {l : M.Kind} (target : Handle M l)
    (elements : M.Value k → List (Option (M.Value l))) : ScopeDraft M k :=
  { d with steps := d.steps ++ [.step (.collection target.id l elements)] }

/-- Adds another scope for the same value. -/
def inclusion (d : ScopeDraft M k) (target : Handle M k) : ScopeDraft M k :=
  { d with steps := d.steps ++ [.step (.inclusion target.id)] }

/-- Adds a scope for a view of the value. -/
def narrowing (d : ScopeDraft M k) {l : M.Kind} (target : Handle M l)
    (view : M.Value k → Option (M.Value l)) : ScopeDraft M k :=
  { d with steps := d.steps ++ [.step (.narrowing target.id l view)] }

/-- Sets the presence. -/
def withPresence (d : ScopeDraft M k) (p : DraftPresence) : ScopeDraft M k :=
  { d with presence := some p }

end ScopeDraft

/-- The default error for a value that is absent and has to be there. -/
def requiredError : ErrorDef := { message := some "Global.Required" }

/-- The default error for a value that is there and has to be absent. -/
def forbiddenError : ErrorDef := { message := some "Global.Forbidden" }

/-- A scheme in the making. -/
structure Assembly (M : ModelSpace) where
  /-- The errors registered so far. -/
  errors : Catalog.Draft := {}
  scopes : ScopeTable M := ∅
  /-- The number of scopes declared; they have the identifiers below it. -/
  declared : Nat := 0

/-- Work on an assembly.  What was done before a failure stays done. -/
abbrev Assembling (M : ModelSpace) := ExceptT SchemeError (StateM (Assembly M))

namespace Assembly

variable {M : ModelSpace} {k : M.Kind}

/-- Makes a handle for a scope that is defined later. -/
def declare (k : M.Kind) : Assembling M (Handle M k) := do
  let id := (← get).declared
  if id + 1 < idLimit then
    modify fun a => { a with declared := id + 1 }
    return ⟨⟨id⟩⟩
  else throw (.idsExhausted "scope")

/-- Registers an error; equal definitions share an identifier. -/
def error (e : ErrorDef) : Assembling M ErrorId := do
  let (id, errors) ← (← get).errors.register e
  modify fun a => { a with errors }
  return id

/-- The policy of a draft, with its error registered. -/
def policy : DraftPresence → Assembling M PresencePolicy
  | .optional => return .optional
  | .required e => return .required (← error (e.getD requiredError))
  | .forbidden e => return .forbidden (← error (e.getD forbiddenError))

/-- The step of a draft, with its error registered. -/
def finishStep : DraftStep M k → Assembling M (Step M k)
  | .rule (.defined e) test => return .rule (← error e) test
  | .rule (.registered id) test => return .rule id test
  | .step s => return s

/-- Defines the scope of a handle: its presence error is registered first, then those of its
rules. -/
def define (handle : Handle M k) (draft : ScopeDraft M k) : Assembling M Unit := do
  if (← get).scopes.contains handle.id then throw (.alreadyDefined handle.id)
  let presence ← draft.presence.mapM policy
  let steps ← draft.steps.mapM finishStep
  let scopes ← (← get).scopes.add handle.id { steps, presence : Scope M k }
  modify fun a => { a with scopes }

/-- Declares and defines a scope. -/
def add (draft : ScopeDraft M k) : Assembling M (Handle M k) := do
  let handle ← declare k
  define handle draft
  return handle

/-- Builds the scheme with the scope of a handle at its root; every handle has to be defined. -/
def build (a : Assembly M) (root : Handle M k) : Except SchemeError (Scheme M k) :=
  match (List.range a.declared).find? fun id => !a.scopes.contains ⟨id⟩ with
  | some id => .error (.undefinedScope ⟨id⟩)
  | none => Scheme.compile a.scopes k root.id a.errors.catalog

end Assembly

end Rulebook
