import Rulebook.Json.Record
import Rulebook.Phrasebook
import Rulebook.Yaml.Reader

/-!
# Documents of wordings

Wordings and settings are read from documents in YAML or JSON.  A file is taken for JSON if the
extension of its name is `json`, letter for letter, and for YAML otherwise.

A document of wordings maps languages to keys to templates.  Of a repeated language or key the
last value stays.  In YAML every scalar is a template as it is written, and a wording that is left
out is empty.

For a phrasebook, `ofText` is `from_yaml_str` and `from_json_str` of a translation set, and
`ofFile` is its `from_file`.
-/

namespace Rulebook

open Json (Literal)

/-- How a document is written. -/
inductive Format where
  | yaml
  | json
  deriving DecidableEq, Repr

namespace Format

/-- The name of a format. -/
def name : Format → String
  | yaml => "YAML"
  | json => "JSON"

/-- The last component of a file name. -/
def baseName (cs : List Char) : List Char := (cs.reverse.takeWhile (· ≠ '/')).reverse

/-- The part of a file name behind its last point, which must not be its first character. -/
def extension? (fileName : String) : Option String :=
  let base := baseName fileName.toList
  let behind := base.reverse.takeWhile (· ≠ '.')
  if behind.length + 1 < base.length ∧ base ≠ ['.', '.'] then some (String.ofList behind.reverse)
  else none

/-- The format of a file. -/
def ofFileName (fileName : String) : Format :=
  if extension? fileName = some "json" then .json else .yaml

end Format

/-- The dictionary of a list of entries. -/
def wordingsOf (entries : List (String × List (String × String))) : Dict String Wording :=
  Dict.ofList (entries.map fun (language, templates) => (language, Dict.ofList templates))

/-- The wordings of a JSON literal. -/
def wordingsOfLiteral? (l : Literal) : Option (Dict String Wording) :=
  (l.entriesOf? (Literal.entriesOf? Literal.text?)).map wordingsOf

/-- The wordings of a YAML node. -/
def wordingsOfYaml (y : Yaml) : Yaml.Reading (Dict String Wording) :=
  wordingsOf <$> y.entries (Yaml.entries Yaml.text)

/-- Reads a document of wordings. -/
def readWordings? (format : Format) (text : String) : Option (Dict String Wording) :=
  match format with
  | .yaml => Yaml.read? wordingsOfYaml text
  | .json => Literal.read? text >>= wordingsOfLiteral?

namespace Phrasebook

/-- The phrasebook of a document, whose wordings are merged over the English templates. -/
def ofText (format : Format) (text : String) : Except PhraseError Phrasebook :=
  match readWordings? format text with
  | some wordings => initial.merge wordings.entries
  | none => .error (.parse format.name)

/-- The phrasebook of a file with that content, or without any if it cannot be read.  The name
decides on the format, and the content has to be UTF-8. -/
def ofFile (fileName : String) (content : Option ByteArray) : Except PhraseError Phrasebook :=
  match content >>= String.fromUTF8? with
  | some text => ofText (.ofFileName fileName) text
  | none => .error .load

end Phrasebook

end Rulebook
