import Rulebook.Outcome
import Rulebook.Template

/-!
# Messengers

A messenger puts the errors of a catalog into the words of a phrasebook.  The template of an error
is what its message key stands for in the wording of the language; a key that the wording does not
have is itself the template, so a message can also be written out where it is used.

A template that does not mention the path has the same message everywhere.  Such messages are
filled in once, when the messenger is built.

A messenger is the translating message service (section 11.3 of the specification): `build` is its
`new`, `templateOf` is `template_for`, `message?` is `message`, `languageFor` is
`resolve_translation` and `messages` is `error_messages`.
-/

namespace Rulebook

/-- Puts errors into words. -/
structure Messenger where
  catalog : Catalog
  book : Phrasebook
  /-- The language where none is asked for, or one that is not known. -/
  fallback : String
  /-- The messages that do not depend on the path, by language and error. -/
  ready : Dict String (Dict ErrorId String)

namespace Messenger

/-- The template of an error in a wording. -/
def templateOf (w : Wording) (e : ErrorDef) : String :=
  let key := e.message.getD defaultKey
  (w.find? key).getD key

/-- The message of an error, if it does not depend on the path. -/
def readyMessage? (w : Wording) (e : ErrorDef) : Option String :=
  let template := templateOf w e
  if Template.usesPath template then none else some (Template.render template e.args none)

/-- Builds a messenger; there has to be a wording for the fallback. -/
def build (catalog : Catalog) (book : Phrasebook) (fallback : String) :
    Except PhraseError Messenger :=
  if book.contains fallback then
    .ok { catalog, book, fallback
          ready := book.wordings.map fun _ w => catalog.filterMap fun _ e => readyMessage? w e }
  else .error (.unknownLanguage fallback)

/-- The message of an error at a path, in a language. -/
def message? (m : Messenger) (id : ErrorId) (language path : String) : Option String :=
  match m.ready.find? language >>= (·.find? id) with
  | some text => some text
  | none => do
    let e ← m.catalog.find? id
    let w ← m.book.wording? language
    return Template.render (templateOf w e) e.args (some path)

/-- Whether a language is asked for that is not known. -/
def isUnknown (m : Messenger) (language : String) : Bool := !m.book.contains language

/-- The language in which messages are given. -/
def languageFor (m : Messenger) : Option String → String
  | none => m.fallback
  | some language => if m.isUnknown language then m.fallback else language

/-- The messages for errors.  Errors without a definition have none, and a path without messages
is left out. -/
def messages (m : Messenger) (errors : ErrorsByPath) (language : Option String) : Messages :=
  let language := m.languageFor language
  errors.filterMap fun path ids =>
    match ids.filterMap fun id => m.message? id language path with
    | [] => none
    | texts => some texts

/-- What asking for messages in a language tells. -/
def askEvents (m : Messenger) : Option String → List Event
  | none => []
  | some language =>
    if m.isUnknown language then
      [⟨.warn, "unknown translation requested, using default",
        [("translation", language), ("fallback", m.fallback)]⟩]
    else []

/-- What building a messenger tells. -/
def events (m : Messenger) : List Event :=
  [⟨.debug, "built message service",
    [("translations", toString m.book.names.length),
     ("errors", toString m.catalog.size),
     ("preformatted", toString (m.ready.total Dict.size)),
     ("default_translation", m.fallback)]⟩]

/-- A messenger as a source of messages. -/
def source (m : Messenger) : MessageSource where
  messages := m.messages
  wording? := m.book.wording?
  names? := some m.book.names
  events := m.askEvents

end Messenger

end Rulebook
