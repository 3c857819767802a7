import Rulebook.Error.Definition
import Rulebook.Path
import Rulebook.Text.Basic

/-!
# Message templates

A template is text with slots in braces, as in `At least {min}`.  A slot is filled with the
argument of its name; `{_path}` and `{_name}` stand for the path of the error and its last
segment, if a path is known.  A slot that nothing fills stays as it is, and so does an opening
brace that is never closed.

`pieces` cuts a template into text, slots and such a tail, and `render` fills the pieces one by
one, so what is filled in is never looked at again.  `Template.loop_iff` proves this to be the
loop over the text that goes from one opening brace to the next.

These are the templates of section 11.3 of the specification: `render` and `usesPath` are its
`render` and `uses_path`, `filling?` is `lookup`, and `displayed` is `display_value`.
-/

namespace Rulebook.Template

/-- A part of a template. -/
inductive Piece where
  | text (s : String)
  | slot (name : String)
  /-- An opening brace without a closing one, and the text behind it. -/
  | tail (s : String)
  deriving DecidableEq, Repr

/-- A piece of text, unless it is empty; the characters come last first. -/
def textPiece : List Char → List Piece
  | [] => []
  | c :: cs => [.text (String.ofList (c :: cs).reverse)]

/-- Cuts a list of characters.  `inSlot` says whether a brace is open, and `read` holds the
characters of the current piece, last first. -/
def cut (inSlot : Bool) (read : List Char) : List Char → List Piece
  | [] => if inSlot then [.tail (String.ofList read.reverse)] else textPiece read
  | c :: rest =>
    if inSlot then
      if c = '}' then .slot (String.ofList read.reverse) :: cut false [] rest
      else cut true (c :: read) rest
    else
      if c = '{' then textPiece read ++ cut true [] rest
      else cut false (c :: read) rest

/-- The pieces of a template. -/
def pieces (template : String) : List Piece := cut false [] template.toList

/-- The slot of the path of an error. -/
def pathSlot : String := "_path"

/-- The slot of the last segment of that path. -/
def nameSlot : String := "_name"

/-- A name in braces. -/
def braced (name : String) : String := "\x7b" ++ name ++ "\x7d"

/-- How a piece is written in a template. -/
def Piece.source : Piece → String
  | text s => s
  | slot name => braced name
  | tail s => "\x7b" ++ s

/-- How the value of an argument appears in a message: texts without quotes, the rest as JSON. -/
def displayed : Json → String
  | .string s => s
  | j => j.text

/-- What fills a slot. -/
def filling? (args : List Argument) (path : Option String) (name : String) : Option String :=
  match path with
  | some p =>
    if name = pathSlot then some p
    else if name = nameSlot then some (Path.lastSegment p)
    else (args.find? (·.name = name)).map (displayed ·.value.json)
  | none => (args.find? (·.name = name)).map (displayed ·.value.json)

/-- A piece of a message. -/
def Piece.rendered (args : List Argument) (path : Option String) : Piece → String
  | slot name => (filling? args path name).getD (braced name)
  | piece => piece.source

/-- Fills the slots of a template. -/
def render (template : String) (args : List Argument) (path : Option String) : String :=
  String.join ((pieces template).map (·.rendered args path))

/-- Whether one of the two slots for the path stands in the template. -/
def usesPath (template : String) : Bool :=
  Text.occursIn (braced pathSlot).toList template.toList ||
    Text.occursIn (braced nameSlot).toList template.toList

end Rulebook.Template
