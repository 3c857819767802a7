import Rulebook.Json.Printer
import Rulebook.Json.Record

/-!
# Error definitions

An error is a list of codes for machines, and for readers the name of a message with named
arguments.  `text` writes a definition as a JSON object without its empty parts, and `read?` reads
one back: a part that is left out is empty.

An `ErrorDef` is an error of the specification (section 3), and `arg?` its `arg`.
-/

namespace Rulebook

/-- A named value for the message of an error. -/
structure Argument where
  /-- The name by which a message refers to the value. -/
  name : String
  value : Json.Sorted
  deriving BEq, Repr, Inhabited

/-- What a rule records when it is broken. -/
structure ErrorDef where
  /-- The codes, in order. -/
  codes : List String := []
  /-- The name of the message, or the message itself. -/
  message : Option String := none
  /-- The arguments of the message, in order. -/
  args : List Argument := []
  deriving BEq, Repr, Inhabited

namespace ErrorDef

/-- The value of the first argument of that name. -/
def arg? (e : ErrorDef) (name : String) : Option Json :=
  (e.args.find? (·.name = name)).map (·.value.json)

/-! ## Writing -/

/-- An argument as an object. -/
def argumentJson (a : Argument) : Json :=
  .object [("name", .string a.name), ("value", a.value.json)]

/-- A definition as an object that holds only its parts that are not empty. -/
def json (e : ErrorDef) : Json :=
  let codes := if e.codes.isEmpty then [] else [("codes", Json.array (e.codes.map .string))]
  let message := e.message.toList.map fun m => ("message", Json.string m)
  let args := if e.args.isEmpty then [] else [("args", Json.array (e.args.map argumentJson))]
  .object (codes ++ message ++ args)

/-- How a definition is written. -/
def text (e : ErrorDef) : String := e.json.text

/-! ## Reading -/

open Json (Literal)

/-- The argument of a literal that may be nested `depth` deep; both parts have to be there. -/
def ofArgumentLiteral? (depth : Nat) (l : Literal) : Option Argument := do
  let [some name, some value] ← l.record? ["name", "value"] | none
  return ⟨← name.text?, ← value.value? depth⟩

/-- A list of texts. -/
def ofCodesLiteral? : Literal → Option (List String) := Literal.listOf? Literal.text?

/-- The definition of a literal that may be nested `depth + 3` deep. -/
def ofLiteral? (depth : Nat) (l : Literal) : Option ErrorDef := do
  let [codes, message, args] ← l.record? ["codes", "message", "args"] | none
  let codes ← (codes.map ofCodesLiteral?).getD (some [])
  let message ← (message.map (Literal.nullable? Literal.text?)).getD (some none)
  let args ← (args.map (Literal.listOf? (ofArgumentLiteral? depth))).getD (some [])
  return ⟨codes, message, args⟩

/-- Reads a definition.  The record, its list of arguments and each argument are nested around a
value. -/
def read? (s : String) : Option ErrorDef :=
  Literal.read? s >>= ofLiteral? (Literal.depthLimit - 3)

end ErrorDef

end Rulebook
