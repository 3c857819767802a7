/-!
# Events

Building and using a validator can be watched.  What happens is told by events, each with a level,
a message and named texts.  Events are lists beside the results and change nothing.

They are the log entries of section 10.3 of the specification.
-/

namespace Rulebook

/-- How much an event matters. -/
inductive Level where
  /-- Something that should not happen. -/
  | error
  /-- Something that is probably not meant. -/
  | warn
  /-- A step of general interest. -/
  | info
  | debug
  | trace
  deriving DecidableEq, Repr

/-- Something that happened. -/
structure Event where
  /-- How much it matters. -/
  level : Level
  /-- What happened. -/
  message : String
  /-- Named texts that say more. -/
  fields : List (String × String)
  deriving DecidableEq, Repr

/-- The name of a level. -/
def Level.name : Level → String
  | error => "ERROR"
  | warn => "WARN"
  | info => "INFO"
  | debug => "DEBUG"
  | trace => "TRACE"

end Rulebook
