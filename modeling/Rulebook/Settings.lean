import Rulebook.Json.Record
import Rulebook.Phrasebook
import Rulebook.SchemeError

/-!
# Settings

The settings of a validator say whether loops are guarded, which language messages are in unless
another is asked for, and which wordings there are besides the English templates.

These are the settings of section 10.4 of the specification: `book` is `translation_set`, and
`check` is `validate`.
-/

namespace Rulebook

/-- How a validator is set up. -/
structure Settings where
  /-- Whether loops are guarded; where nothing is said, they are if there can be any. -/
  guardLoops : Option Bool := none
  /-- The language where none is asked for. -/
  language : String := english
  /-- Wordings by language, to be merged over the English templates. -/
  wordings : Dict String Wording := ∅
  deriving DecidableEq

/-- Why a validator cannot be set up. -/
inductive SetupError where
  | scheme (e : SchemeError)
  | phrases (e : PhraseError)
  | load
  /-- The settings are not written in that format, or hold something else. -/
  | parse (format : String)
  deriving DecidableEq, Repr

/-- The cause in words. -/
def SetupError.message : SetupError → String
  | scheme e => "configuration error: " ++ e.message
  | phrases e => "message error: " ++ e.message
  | load => "settings document cannot be loaded"
  | parse format => "invalid " ++ format ++ " settings document"

namespace Settings

instance : Inhabited Settings := ⟨{}⟩

/-- Says whether loops are guarded. -/
def withGuard (s : Settings) (guardLoops : Bool) : Settings :=
  { s with guardLoops := some guardLoops }

/-- Sets the language where none is asked for. -/
def withLanguage (s : Settings) (language : String) : Settings := { s with language }

/-- Sets one template. -/
def withTemplate (s : Settings) (language key template : String) : Settings :=
  { s with wordings := s.wordings.alter language fun w => (w.getD ∅).insert key template }

/-- The phrasebook of the settings. -/
def book (s : Settings) : Except SetupError Phrasebook :=
  (Phrasebook.initial.merge s.wordings.entries).mapError .phrases

/-- Refuses settings with blank names or keys, or in a language without a wording. -/
def check (s : Settings) : Except SetupError Unit := do
  let book ← s.book
  if book.contains s.language then return () else throw (.phrases (.unknownLanguage s.language))

end Settings

end Rulebook
