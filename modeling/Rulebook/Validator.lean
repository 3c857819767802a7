import Rulebook.Messenger
import Rulebook.Outcome
import Rulebook.Scheme.Walk
import Rulebook.Settings

/-!
# Validators

A validator is a scheme with settings and a messenger.  It is built once and checks any number of
models; each check has an outcome.  Loops are guarded where the scheme is recursive, unless the
settings say otherwise.

This is the validator of section 11.5 of the specification: `build` is `new`, `isValid` is
`is_valid` and `possible` is `errors_map`.  `validate` is `validate_option`, so that a value that
is missing can be checked too; the `validate` of the specification is the case of one that is
there.
-/

namespace Rulebook

/-- Checks models of kind `k`. -/
structure Validator (M : ModelSpace) (k : M.Kind) where
  scheme : Scheme M k
  settings : Settings
  messenger : Messenger
  /-- Whether loops are guarded. -/
  guardLoops : Bool

namespace Validator

variable {M : ModelSpace} {k : M.Kind}

/-- Builds a validator, if the settings are sound. -/
def build (scheme : Scheme M k) (settings : Settings) : Except SetupError (Validator M k) := do
  settings.check
  let book ← settings.book
  let messenger ← (Messenger.build scheme.catalog book settings.language).mapError .phrases
  return { scheme, settings, messenger, guardLoops := settings.guardLoops.getD scheme.recursive }

/-- What is told when settings overrule the scheme. -/
def overruleEvents (v : Validator M k) : List Event :=
  if v.guardLoops = v.scheme.recursive then []
  else
    [⟨.warn, "settings override reference loop detection",
      [("model", M.kindName k),
       ("forced", toString v.guardLoops),
       ("detected", toString v.scheme.recursive)]⟩]

/-- What building a validator tells. -/
def events (v : Validator M k) : List Event :=
  v.messenger.events ++ v.overruleEvents ++
  [⟨.debug, "built validator",
    [("model", M.kindName k),
     ("reference_loop_protection", toString v.guardLoops),
     ("default_translation", v.settings.language)]⟩]

/-- What errors can be found at all, at their shapes, as an outcome. -/
def possible (v : Validator M k) : Outcome :=
  ⟨v.scheme.survey.errors, v.scheme.catalog, some v.messenger.source⟩

/-- How a validator checks. -/
def options (v : Validator M k) (failFast : Bool) : Options := ⟨failFast, v.guardLoops⟩

/-- The outcome of a walk; without errors it is clean. -/
def outcomeOf (v : Validator M k) (errors : ErrorsByPath) : Outcome :=
  if errors.isEmpty then .clean
  else ⟨errors, v.scheme.catalog, some v.messenger.source⟩

/-- Checks a model, which may be absent.  The answer is `none` if the walk has no end. -/
def validate (v : Validator M k) (model : Option (M.Value k)) (failFast : Bool) :
    Option Outcome :=
  (v.scheme.validate model (v.options failFast)).map v.outcomeOf

/-- Whether a model is without errors, as far as one error tells. -/
def isValid (v : Validator M k) (model : M.Value k) : Option Bool :=
  (v.validate (some model) true).map (·.isValid)

end Validator

end Rulebook
