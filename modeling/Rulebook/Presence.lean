import Rulebook.Id

/-!
# Presence

A node that may be absent says what absence means.  Nodes without a presence are plain values and
ask for nothing.

The policies are those of section 4.1 of the specification.
-/

namespace Rulebook

/-- What a node that may be absent asks for. -/
inductive Presence where
  /-- The node may be absent; nothing below it is checked then. -/
  | optional
  /-- The node has to be there. -/
  | required
  /-- The node has to be absent. -/
  | forbidden
  deriving DecidableEq, Repr

namespace Presence

/-- The name of a presence. -/
def name : Presence → String
  | optional => "optional"
  | required => "required"
  | forbidden => "forbidden"

/-- The presence of a name. -/
def ofName? (s : String) : Option Presence :=
  [optional, required, forbidden].find? (·.name = s)

/-- Reads a presence: its name as a text, or an object with that name as its only field, which is
`null`. -/
def read? (s : String) : Option Presence :=
  match Json.Literal.read? s with
  | some (.string (some name)) => ofName? name
  | some (.object [(some name, .null)]) => ofName? name
  | _ => none

/-- How a presence is written. -/
def text (p : Presence) : String := Json.quote p.name

end Presence

/-- The presence that a compiled scope asks for, with the error that a breach records. -/
inductive PresencePolicy where
  /-- Absence is fine. -/
  | optional
  /-- Absence records the error. -/
  | required (error : ErrorId)
  /-- Presence records the error. -/
  | forbidden (error : ErrorId)
  deriving DecidableEq, Repr

namespace PresencePolicy

/-- What the policy asks for, less the error. -/
def presence : PresencePolicy → Presence
  | optional => .optional
  | required _ => .required
  | forbidden _ => .forbidden

/-- The error that a breach records. -/
def error? : PresencePolicy → Option ErrorId
  | optional => none
  | required id => some id
  | forbidden id => some id

end PresencePolicy

end Rulebook
