import Rulebook.Messenger
import Rulebook.Proofs.Lookup
import Rulebook.Proofs.Pieces

/-!
# Messages that are ready

A messenger fills in some messages when it is built, without a path, and hands them out at every
path.  Nobody can tell: a message that is ready is the one that would be filled in at the path
(`freshMessage_of_readyMessage?`), so a messenger answers as if nothing was ready.

What it answers then is said here with no look at the messenger.  `Phrasebook.answering?` is the
wording in which a request is answered, `Wording.templateFor` looks up what that wording has for
an error, and `freshTexts` has the messages of a list of errors, each filled in where it is
needed.
-/

namespace Rulebook

/-- The wording in which a request is answered: that of the language asked for, or else that of
the fallback. -/
def Phrasebook.answering? (b : Phrasebook) (fallback : String) (language : Option String) :
    Option Wording :=
  (language.bind b.wordings.find?).or (b.wordings.find? fallback)

/-- What a wording says under a key: what it has there, or the key itself if it has nothing. -/
def Wording.textFor (w : Wording) (key : String) : String :=
  match w.find? key with
  | some template => template
  | none => key

/-- What a wording has for an error.  An error without a message of its own goes by a key that all
such errors share. -/
def Wording.templateFor (w : Wording) (e : ErrorDef) : String :=
  match e.message with
  | some key => w.textFor key
  | none => w.textFor "Global.Error"

namespace Messenger

/-- The message of an error, filled in at a path. -/
def freshMessage (w : Wording) (path : String) (e : ErrorDef) : String :=
  Template.render (w.templateFor e) e.args (some path)

/-- The messages of errors at a path, in order; errors without a definition have none. -/
def freshTexts (catalog : Catalog) (w : Wording) (path : String) (ids : List ErrorId) :
    List String :=
  ids.filterMap fun id => (catalog.find? id).map (freshMessage w path)

/-- A messenger fills in what the wording has for the error. -/
theorem templateOf_eq (w : Wording) (e : ErrorDef) : templateOf w e = w.templateFor e := by
  have htext (key : String) : (w.find? key).getD key = w.textFor key := by
    rw [Wording.textFor]
    cases w.find? key <;> rfl
  rw [templateOf, Wording.templateFor]
  cases e.message with
  | none => exact htext "Global.Error"
  | some key => exact htext key

/-- A message that is ready is the one that would be filled in, at whatever path. -/
theorem freshMessage_of_readyMessage? {w : Wording} {e : ErrorDef} {text : String}
    (h : readyMessage? w e = some text) (path : String) : freshMessage w path e = text := by
  rw [readyMessage?] at h
  cases huses : Template.usesPath (templateOf w e) with
  | true =>
    rw [huses, if_pos rfl] at h
    exact nomatch h
  | false =>
    rw [huses, if_neg Bool.false_ne_true, Option.some_inj] at h
    rw [freshMessage, ← templateOf_eq, Template.render_eq_of_usesPath huses]
    exact h

/-- What is ready for the errors of a catalog, in the wordings of a phrasebook. -/
def readied (catalog : Catalog) (book : Phrasebook) : Dict String (Dict ErrorId String) :=
  book.wordings.map fun _ w => catalog.filterMap fun _ e => readyMessage? w e

/-- A messenger can be built if there is a wording for its fallback. -/
theorem build_of_contains {catalog : Catalog} {book : Phrasebook} {fallback : String}
    (h : book.contains fallback) :
    build catalog book fallback = .ok ⟨catalog, book, fallback, readied catalog book⟩ :=
  if_pos h

/-- A message is looked up where the definition and the wording are. -/
theorem find?_readied (catalog : Catalog) (book : Phrasebook) (id : ErrorId) (language : String) :
    ((readied catalog book).find? language >>= (·.find? id)) =
      (book.wording? language).bind fun w => (catalog.find? id).bind (readyMessage? w) := by
  rw [readied, Dict.find?_map, Option.bind_eq_bind, Option.bind_map]
  refine congrArg (Option.bind _) (funext fun w => ?_)
  exact Dict.find?_filterMap _ catalog id

section Built

variable {m : Messenger} (hready : m.ready = readied m.catalog m.book)

include hready in
/-- A messenger has a message for an error of its catalog in a language that it knows, and it is
the one that would be filled in. -/
theorem message?_eq_fresh (id : ErrorId) (language path : String) :
    m.message? id language path =
      (m.book.wording? language).bind fun w =>
        (m.catalog.find? id).map (freshMessage w path) := by
  rw [message?, hready, find?_readied]
  cases hw : m.book.wording? language with
  | none =>
    cases m.catalog.find? id <;> rfl
  | some w =>
    cases he : m.catalog.find? id with
    | none => rfl
    | some e =>
      cases htext : readyMessage? w e with
      | none => simp [htext, freshMessage, templateOf_eq]
      | some text => simp [htext, freshMessage_of_readyMessage? htext path]

/-- The language that a messenger chooses has the wording in which the request is answered. -/
theorem wording?_languageFor (m : Messenger) (language : Option String) :
    m.book.wording? (m.languageFor language) = m.book.answering? m.fallback language := by
  cases language with
  | none => rfl
  | some name =>
    have hknown : m.isUnknown name = !(m.book.wordings.find? name).isSome := rfl
    rw [languageFor, hknown, Phrasebook.answering?, Option.bind_some]
    cases hw : m.book.wordings.find? name with
    | none => rfl
    | some w => exact hw

include hready in
/-- At a path stand the messages of its errors, filled in there, if there are any. -/
theorem find?_messages_eq_fresh {w : Wording} {language : Option String}
    (hw : m.book.answering? m.fallback language = some w)
    (errors : ErrorsByPath) (path : String) :
    (m.messages errors language).find? path =
      match freshTexts m.catalog w path ((errors.find? path).getD []) with
      | [] => none
      | texts => some texts := by
  have htexts (ids : List ErrorId) :
      (ids.filterMap fun id => m.message? id (m.languageFor language) path) =
        freshTexts m.catalog w path ids := by
    refine List.filterMap_congr fun id _ => ?_
    rw [message?_eq_fresh hready, wording?_languageFor, hw, Option.bind_some]
  rw [messages, Dict.find?_filterMap]
  cases errors.find? path with
  | none => rfl
  | some ids =>
    rw [Option.bind_some, htexts]
    rfl

end Built

/-- A messenger can be built for every language that its phrasebook knows, and answers as if each
message was filled in where it is needed.  The messages for errors are those of one wording: at
each path those of its errors, in order, and nothing where there are none.  What the messenger has
kept ready is what would be filled in, at every path. -/
theorem messages_as_if_fresh (catalog : Catalog) (book : Phrasebook) {fallback : String}
    (h : book.contains fallback) :
    ∃ m, build catalog book fallback = .ok m ∧
      (∀ language, ∃ w, book.answering? fallback language = some w ∧
        ∀ errors path, (m.messages errors language).find? path =
          match freshTexts catalog w path ((errors.find? path).getD []) with
          | [] => none
          | texts => some texts) ∧
      ∀ language id text, m.ready.find? language >>= (·.find? id) = some text →
        ∃ w e, book.wordings.find? language = some w ∧ catalog.find? id = some e ∧
          ∀ path, freshMessage w path e = text := by
  refine ⟨_, build_of_contains h, fun language => ?_, fun language id text hready => ?_⟩
  · obtain ⟨w, hw⟩ : ∃ w, book.answering? fallback language = some w := by
      obtain ⟨w, hw⟩ := Option.isSome_iff_exists.1 h
      rw [Phrasebook.answering?, hw]
      cases language.bind book.wordings.find? with
      | none => exact ⟨w, rfl⟩
      | some v => exact ⟨v, rfl⟩
    exact ⟨w, hw, find?_messages_eq_fresh rfl hw⟩
  · rw [find?_readied] at hready
    obtain ⟨w, hw, hready⟩ := Option.bind_eq_some_iff.1 hready
    obtain ⟨e, he, htext⟩ := Option.bind_eq_some_iff.1 hready
    exact ⟨w, e, hw, he, freshMessage_of_readyMessage? htext⟩

end Messenger

/-- The errors of an order: one without a message, one whose message is a key, and one whose
message is written out.  That names the member and its path, and ends with a brace that is never
closed. -/
def Orders.shortCatalog : Catalog := Dict.ofList
  [(⟨0⟩, {}),
    (⟨1⟩, { message := some "Global.Required" }),
    (⟨2⟩, {
      message := some "\x7b_name\x7d is short by \x7bmin\x7d: \x7b_path\x7d \x7b"
      args := [⟨"min", .string "two"⟩, ⟨"_path", .null⟩] })]

/-- English as it is built in, and a Polish wording that has one key. -/
def Orders.shortBook : Phrasebook where
  wordings := Dict.ofList
    [(english, englishWording),
      ("Polish", Dict.ofList [("Global.Required", "Wymagane: \x7b_name\x7d")])]
  names := [english, "Polish"]

/-- What an order records: errors at a line, of which one has no definition, and none that has one
at the customer. -/
def Orders.shortErrors : ErrorsByPath := Dict.ofList
  [("lines[0].count", [⟨0⟩, ⟨1⟩, ⟨9⟩, ⟨2⟩]), ("customer", [⟨9⟩]), ("note", [])]

namespace Messenger

/-- A language that is not known gives way to the fallback, where the keys of two errors have
templates that do not name the path, so that their messages are ready.  The Polish wording has a
template for one of the two, which names the path, and the key of the other stands for itself.
The error without a definition is left out, and so is a path that has no other. -/
theorem messages_as_if_fresh_short :
    Orders.shortBook.contains english ∧
    ∃ m, build Orders.shortCatalog Orders.shortBook english = .ok m ∧
      ((m.ready.find? english) >>= (·.find? ⟨0⟩)) = some "Error" ∧
      ((m.ready.find? english) >>= (·.find? ⟨1⟩)) = some "Required" ∧
      ((m.ready.find? english) >>= (·.find? ⟨2⟩)) = none ∧
      ((m.ready.find? "Polish") >>= (·.find? ⟨1⟩)) = none ∧
      (m.messages Orders.shortErrors (some "Klingon")).find? "lines[0].count" =
        some ["Error", "Required", "count is short by two: lines[0].count \x7b"] ∧
      (m.messages Orders.shortErrors (some "Polish")).find? "lines[0].count" =
        some ["Global.Error", "Wymagane: count",
          "count is short by two: lines[0].count \x7b"] ∧
      (m.messages Orders.shortErrors (some "Polish")).find? "customer" = none := by
  have h : Orders.shortBook.contains english = true := rfl
  obtain ⟨m, hm, hmessages, _⟩ := messages_as_if_fresh Orders.shortCatalog Orders.shortBook h
  obtain ⟨w, hw, hfallback⟩ := hmessages (some "Klingon")
  obtain rfl := Option.some.inj (Eq.trans rfl hw : some englishWording = some w)
  obtain ⟨w, hw, hasked⟩ := hmessages (some "Polish")
  obtain rfl := Option.some.inj (Eq.trans rfl hw)
  obtain rfl := Except.ok.inj hm
  refine ⟨h, _, hm, rfl, rfl, rfl, rfl, ?_, ?_, ?_⟩
  · rw [hfallback]
    rfl
  · rw [hasked]
    rfl
  · rw [hasked]
    rfl

end Messenger

end Rulebook
