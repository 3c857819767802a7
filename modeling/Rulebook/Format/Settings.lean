import Rulebook.Format
import Rulebook.Settings

/-!
# Documents of settings

A document of settings has three fields, each of which may be missing; other fields are passed
over.  In JSON the fields may also stand in a list, in order.

`ofText` is `from_yaml_str` and `from_json_str` of the settings, and `ofFile` is their
`from_file`.
-/

namespace Rulebook.Settings

open Json (Literal)

/-- The fields of a document of settings, in order. -/
def fieldNames : List String :=
  ["reference_loop_protection", "default_translation", "translations"]

/-- A truth value, or null. -/
def flagOfLiteral? : Literal → Option (Option Bool)
  | .null => some none
  | .bool b => some (some b)
  | _ => none

/-- The value of a field, which is `default` where the field is missing. -/
def fieldOr {m : Type → Type} [Monad m] {α β : Type} (default : β) (read : α → m β) :
    Option α → m β
  | none => return default
  | some a => read a

/-- The settings of a JSON literal. -/
def ofLiteral? (l : Literal) : Option Settings := do
  let [guardLoops, language, wordings] ← l.record? fieldNames | none
  return {
    guardLoops := ← fieldOr none flagOfLiteral? guardLoops
    language := ← fieldOr english Literal.text? language
    wordings := ← fieldOr ∅ wordingsOfLiteral? wordings }

/-- The settings of a YAML node. -/
def ofYaml (y : Yaml) : Yaml.Reading Settings := do
  let [guardLoops, language, wordings] ← y.record fieldNames | failure
  return {
    guardLoops := ← fieldOr none Yaml.flag guardLoops
    language := ← fieldOr english Yaml.text language
    wordings := ← fieldOr ∅ wordingsOfYaml wordings }

/-- The settings of a document. -/
def ofText (format : Format) (text : String) : Except SetupError Settings :=
  let settings? :=
    match format with
    | .yaml => Yaml.read? ofYaml text
    | .json => Literal.read? text >>= ofLiteral?
  match settings? with
  | some s => .ok s
  | none => .error (.parse format.name)

/-- The settings of a file with that content, or without any if it cannot be read. -/
def ofFile (fileName : String) (content : Option ByteArray) : Except SetupError Settings :=
  match content >>= String.fromUTF8? with
  | some text => ofText (.ofFileName fileName) text
  | none => .error .load

end Rulebook.Settings
