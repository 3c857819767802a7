import Rulebook.Dict
import Rulebook.Text.Basic

/-!
# Phrasebooks

A wording gives the templates of messages by their keys, in one language.  A phrasebook holds
wordings by the names of their languages and remembers the order in which the languages came.
Every phrasebook starts from the English templates for the messages that schemes use by
themselves, so these are never missing.

Merging writes key by key over what is there.  It looks at all names and keys before it writes
the first, so a merge that is refused changes nothing.

A wording is a translation and a phrasebook is a translation set (section 11.3 of the
specification), with its `merge`, `insert`, `contains` and `names`; `wording?` is its `get`, and
`englishWording` is `english`.
-/

namespace Rulebook

/-- Templates by the keys of messages, in one language. -/
abbrev Wording := Dict String String

/-- The language that every phrasebook holds. -/
def english : String := "English"

/-- The key of errors without a message. -/
def defaultKey : String := "Global.Error"

/-- The English templates that every phrasebook starts from. -/
def englishWording : Wording :=
  Dict.ofList [(defaultKey, "Error"), ("Global.Required", "Required"),
    ("Global.Forbidden", "Forbidden")]

/-- Wordings by language. -/
structure Phrasebook where
  wordings : Dict String Wording
  /-- The languages, in the order in which they came. -/
  names : List String
  deriving DecidableEq

/-- Why a phrasebook or what is built on it is refused. -/
inductive PhraseError where
  | load
  /-- A document is not written in that format, or holds something else. -/
  | parse (format : String)
  | blankName
  /-- A key in the wording of that language is blank. -/
  | blankKey (language : String)
  /-- There is no wording for that language. -/
  | unknownLanguage (language : String)
  deriving DecidableEq, Repr

/-- The cause in words. -/
def PhraseError.message : PhraseError → String
  | load => "translation document cannot be loaded"
  | parse format => "invalid " ++ format ++ " translation document"
  | blankName => "translation name must not be empty"
  | blankKey language => "translation '" ++ language ++ "' contains an empty message key"
  | unknownLanguage language => "unknown translation '" ++ language ++ "'"

namespace Phrasebook

/-- The phrasebook with nothing but the English templates. -/
def initial : Phrasebook := ⟨Dict.empty.insert english englishWording, [english]⟩

instance : Inhabited Phrasebook := ⟨initial⟩

/-- The wording of a language. -/
def wording? (b : Phrasebook) (language : String) : Option Wording := b.wordings.find? language

/-- Whether there is a wording for a language. -/
def contains (b : Phrasebook) (language : String) : Bool := b.wordings.contains language

/-- Refuses a wording with a blank name or key. -/
def checkEntry (entry : String × Wording) : Except PhraseError Unit :=
  if Text.isBlank entry.1 then .error .blankName
  else if entry.2.keys.any Text.isBlank then .error (.blankKey entry.1)
  else .ok ()

/-- Writes a wording over what is there. -/
def write (b : Phrasebook) (entry : String × Wording) : Phrasebook where
  wordings := b.wordings.alter entry.1 fun old => (old.getD ∅).insertAll entry.2.entries
  names := if b.contains entry.1 then b.names else b.names ++ [entry.1]

/-- Writes wordings over what is there, unless one of them has to be refused. -/
def merge (b : Phrasebook) (entries : List (String × Wording)) : Except PhraseError Phrasebook :=
  (entries.forM checkEntry).map fun _ => entries.foldl write b

/-- Writes a single template. -/
def insert (b : Phrasebook) (language key template : String) : Except PhraseError Phrasebook :=
  b.merge [(language, Dict.empty.insert key template)]

end Phrasebook

end Rulebook
