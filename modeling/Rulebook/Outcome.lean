import Rulebook.Error.Catalog
import Rulebook.Event
import Rulebook.Phrasebook

/-!
# Outcomes

An outcome holds what a run has recorded, with the catalog that defines the errors and a source of
messages.  Everything else is a view of it that is computed when it is asked for.  Errors that the
catalog does not define count, but have neither codes nor definitions.  A source of messages is
asked only if there are errors.

An outcome is a validation result (section 4.6 of the specification): `errorsAt?` is `error_ids`,
`paths` is `paths_with_errors`, `definitions` is `raw_errors`, `codes` is `error_codes`,
`messages` is `error_messages` and `report` is `to_report`; `clean` is `no_errors`.

A `MessageSource` is what an outcome needs in order to be put into words, the message service of
section 6.  A source has messages for errors in a language, or in one of its own choice; it can be
asked for a wording and for the languages it knows.  A source also says what is told when it is
asked for messages.
-/

namespace Rulebook

/-- The messages at each path, in the order of the errors. -/
abbrev Messages := Dict String (List String)

/-- Something that puts errors into words. -/
structure MessageSource where
  /-- The messages for errors, in a language. -/
  messages : ErrorsByPath → (language : Option String) → Messages
  wording? : (language : String) → Option Wording
  /-- The languages, if they are known. -/
  names? : Option (List String)
  /-- What is told when messages in a language are asked for. -/
  events : (language : Option String) → List Event

/-- What a run has found. -/
structure Outcome where
  errors : ErrorsByPath
  catalog : Catalog
  /-- What puts the errors into words, if anything does. -/
  source : Option MessageSource

namespace Outcome

/-- The outcome of a run that has found nothing. -/
def clean : Outcome := ⟨∅, ∅, none⟩

/-- The number of recorded errors. -/
def count (o : Outcome) : Nat := o.errors.count

/-- Whether no error was recorded. -/
def isValid (o : Outcome) : Bool := o.count = 0

/-- The paths, in ascending order. -/
def paths (o : Outcome) : List String := o.errors.keys

/-- The errors recorded at a path. -/
def errorsAt? (o : Outcome) (path : String) : Option (List ErrorId) := o.errors.find? path

/-- The definitions of errors, as far as there are any. -/
def definitionsOf (o : Outcome) (ids : List ErrorId) : List ErrorDef :=
  ids.filterMap o.catalog.find?

/-- The definitions of the errors at each path. -/
def definitions (o : Outcome) : Dict String (List ErrorDef) :=
  o.errors.map fun _ ids => o.definitionsOf ids

/-- The codes of all errors, in order. -/
def codes (o : Outcome) : List String :=
  (o.definitionsOf o.errors.ids).flatMap (·.codes)

/-- The source of messages, if it is to be asked. -/
def asked (o : Outcome) : Option MessageSource := if o.isValid then none else o.source

/-- The messages of the errors, in a language. -/
def messages (o : Outcome) (language : Option String) : Messages :=
  match o.asked with
  | some source => source.messages o.errors language
  | none => ∅

/-- What asking for messages, or for a report, tells. -/
def askEvents (o : Outcome) (language : Option String) : List Event :=
  match o.asked with
  | some source => source.events language
  | none => []

/-- The wording of a language; it is empty where there is none. -/
def wording (o : Outcome) (language : String) : Wording :=
  (o.source.bind fun source => source.wording? language).getD ∅

/-- The languages that are known. -/
def names (o : Outcome) : List String := (o.source.bind (·.names?)).getD []

/-- One line of a report: the message behind its path, which is left out at the root. -/
def reportLine (path message : String) : String :=
  if path.isEmpty then message else path ++ ": " ++ message

/-- The lines of a report: the codes on one line, if there are any, and a line for each
message. -/
def reportLines (o : Outcome) (language : Option String) : List String :=
  (if o.codes.isEmpty then [] else [String.intercalate ", " o.codes]) ++
    (o.messages language).entries.flatMap fun (path, texts) => texts.map (reportLine path)

/-- The outcome in words. -/
def report (o : Outcome) (language : Option String) : String :=
  if o.isValid then "OK" else String.intercalate "\n" (o.reportLines language)

end Outcome

end Rulebook
