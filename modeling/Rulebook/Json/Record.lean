import Rulebook.Json.Literal

/-!
# Records in JSON

A record with known fields is written as an object or as the list of its fields in order.  In an
object unknown fields are passed over, whatever they hold, and a known one may stand once; in a
list the last fields may be missing, and none may follow.  `Literal.record?` answers one literal
for each field, and the reader of the record decides which of them may be absent.
-/

namespace Rulebook.Json.Literal

/-- Puts `value` at the place of `name`, unless something is there; other names change nothing. -/
def putField (name : String) (value : Literal) :
    List String → List (Option Literal) → Option (List (Option Literal))
  | known :: names, slot :: slots =>
    if known = name then
      match slot with
      | none => some (some value :: slots)
      | some _ => none
    else (putField name value names slots).map (slot :: ·)
  | _, slots => some slots

/-- Sorts the fields of an object into the places of `names`. -/
def sortFields (names : List String) :
    List (Option String × Literal) → List (Option Literal) → Option (List (Option Literal))
  | [], slots => some slots
  | (name, value) :: rest, slots => do
    let name ← name
    let slots ← putField name value names slots
    sortFields names rest slots

/-- The literals of the fields `names` of a record. -/
def record? (names : List String) : Literal → Option (List (Option Literal))
  | array items =>
    if items.length ≤ names.length then
      some (items.map some ++ List.replicate (names.length - items.length) none)
    else none
  | object fields => sortFields names fields (names.map fun _ => none)
  | _ => none

/-- The text of a literal. -/
def text? : Literal → Option String
  | string s => s
  | _ => none

/-- The elements of a list, each read with `read`. -/
def listOf? {α : Type} (read : Literal → Option α) : Literal → Option (List α)
  | array items => items.mapM read
  | _ => none

/-- The entries of an object, each value read with `read`. -/
def entriesOf? {α : Type} (read : Literal → Option α) : Literal → Option (List (String × α))
  | object fields => fields.mapM fun (name, value) => do return (← name, ← read value)
  | _ => none

/-- A value that may be `null`. -/
def nullable? {α : Type} (read : Literal → Option α) : Literal → Option (Option α)
  | null => some none
  | l => (read l).map some

end Rulebook.Json.Literal
