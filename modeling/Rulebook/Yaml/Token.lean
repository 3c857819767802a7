import Rulebook.Yaml.Basic
import Rulebook.Yaml.Property

/-!
# Tokens of YAML texts

Brackets, scalars and the signs before entries, keys and values make a text a list of tokens.
Blocks have no brackets: where the column grows a token opens a block, and where it shrinks tokens
close what was opened.  Names are resolved on the way: the tokens hold tags that are written out,
and numbers of anchors.

A key is known as such only by the colon behind it.  So wherever a token could be a key, its place
is kept until the colon comes or can come no more, and the token for the key is put in before it
afterwards.  Such a key must stand on one line, and its colon at most `keyLimit` bytes behind its
beginning.
-/

namespace Rulebook.Yaml

/-- A token. -/
inductive Token where
  | textEnd
  /-- A line for the version or a handle. -/
  | directive
  | documentStart
  | documentEnd
  /-- A block of entries opens. -/
  | blockSequence
  /-- A block of keys and values opens. -/
  | blockMapping
  /-- A block closes. -/
  | blockEnd
  | flowSequence
  | flowSequenceEnd
  | flowMapping
  | flowMappingEnd
  | blockEntry
  | flowEntry
  /-- A key follows. -/
  | key
  /-- A value follows. -/
  | value
  /-- The node that follows has this number. -/
  | anchor (number : Nat)
  | aliasOf (number : Nat)
  /-- The node that follows has this tag. -/
  | tag (name : String)
  | scalar (style : ScalarStyle) (text : String)
  deriving DecidableEq

/-- A token that could be a key. -/
structure PossibleKey where
  token : Nat
  /-- How many bytes come before it. -/
  index : Nat
  line : Nat
  column : Nat
  /-- Whether it has to be a key. -/
  required : Bool

/-- How many bytes behind the beginning of a key its colon may stand. -/
def keyLimit : Nat := 1024

/-- A text that is being cut into tokens. -/
structure Lexer where
  cursor : Cursor
  tokens : Array Token := #[]
  /-- The column of the innermost block, or `-1`. -/
  indent : Int := -1
  /-- The columns of the blocks around it, the innermost first. -/
  indents : List Int := []
  /-- What could be a key inside the innermost brackets. -/
  possible : Option PossibleKey := none
  /-- What could be a key in the brackets around, the innermost first. -/
  outer : List (Option PossibleKey) := []
  /-- Whether a key may begin here. -/
  keyAllowed : Bool := true
  /-- The names that have been introduced. -/
  vocabulary : Vocabulary := {}

namespace Lexer

/-- Whether the text is inside brackets. -/
def inFlow (l : Lexer) : Bool := !l.outer.isEmpty

/-- Adds a token. -/
def emit (l : Lexer) (t : Token) : Lexer := { l with tokens := l.tokens.push t }

/-- Adds a token that is `n` characters long. -/
def emitSkip (l : Lexer) (t : Token) (n : Nat) : Lexer :=
  { l.emit t with cursor := l.cursor.skip n }

/-- Goes on over blanks, comments and the ends of lines. -/
def skipGap : (fuel : Nat) → Lexer → Lexer
  | 0, l => l
  | fuel + 1, l =>
    let isGap (ch : Char) : Bool := ch = ' ' || (ch = '\t' && (l.inFlow || !l.keyAllowed))
    let c := (l.cursor.skipOrderMark.skipWhile isGap).skipComment
    match c.takeBreak? with
    | some (_, next) =>
      skipGap fuel { l with cursor := next, keyAllowed := l.keyAllowed || !l.inFlow }
    | none => { l with cursor := c }

/-! ## Blocks -/

/-- Opens a block if the column has grown; its token goes to the given place. -/
def openBlock (l : Lexer) (column : Nat) (place : Nat) (t : Token) : Lexer :=
  if l.inFlow || (column : Int) ≤ l.indent then l
  else
    { l with
      indents := l.indent :: l.indents
      indent := column
      tokens := l.tokens.insertIdxIfInBounds place t }

/-- Closes the blocks that lie deeper than `column`. -/
def closeBlocks (column : Int) : List Int → Lexer → Lexer
  | [], l => l
  | around :: rest, l =>
    if column < l.indent then
      closeBlocks column rest { l.emit .blockEnd with indent := around, indents := rest }
    else l

/-- Closes the blocks that lie deeper than `column`, out of brackets. -/
def unwind (l : Lexer) (column : Int) : Lexer :=
  if l.inFlow then l else closeBlocks column l.indents l

/-! ## Keys -/

/-- Gives up what could be a key, which must not be required. -/
def dropKey (l : Lexer) : Option Lexer :=
  match l.possible with
  | some k => if k.required then none else some { l with possible := none }
  | none => some l

/-- Keeps the place of the next token, if it could be a key. -/
def markKey (l : Lexer) : Option Lexer :=
  if l.keyAllowed then do
    let l ← l.dropKey
    let c := l.cursor
    return { l with possible := some {
      token := l.tokens.size, index := c.index, line := c.line, column := c.column
      required := !l.inFlow && l.indent = c.column } }
  else some l

/-- Whether a possible key is too far back. -/
def isStale (l : Lexer) (k : PossibleKey) : Bool :=
  k.line < l.cursor.line || k.index + keyLimit < l.cursor.index

/-- The key that a colon belongs to; one that is too far back must not be required. -/
def keyForValue? (l : Lexer) : Option (Option PossibleKey) :=
  match l.possible with
  | some k => if l.isStale k then if k.required then none else some none else some (some k)
  | none => some none

/-! ## Single tokens -/

/-- Ends the text. -/
def finish (l : Lexer) : Option Lexer := do
  let l ← (l.unwind (-1)).dropKey
  return l.emit .textEnd

/-- Reads three dashes or points. -/
def readMarker (l : Lexer) (t : Token) : Option Lexer := do
  let l ← (l.unwind (-1)).dropKey
  return { l.emitSkip t 3 with keyAllowed := false }

/-- Reads an opening bracket. -/
def readOpening (l : Lexer) (t : Token) : Option Lexer := do
  let l ← l.markKey
  return { l.emitSkip t 1 with
    outer := l.possible :: l.outer, possible := none, keyAllowed := true }

/-- Reads a closing bracket. -/
def readClosing (l : Lexer) (t : Token) : Option Lexer := do
  let l ← l.dropKey
  let l := { l.emitSkip t 1 with keyAllowed := false }
  match l.outer with
  | possible :: outer => return { l with possible, outer }
  | [] => return l

/-- Reads a comma. -/
def readComma (l : Lexer) : Option Lexer := do
  let l ← l.dropKey
  return { l.emitSkip .flowEntry 1 with keyAllowed := true }

/-- Reads a dash before an entry. -/
def readDash (l : Lexer) : Option Lexer := do
  if !l.inFlow && !l.keyAllowed then none
  let l ← (l.openBlock l.cursor.column l.tokens.size .blockSequence).dropKey
  return { l.emitSkip .blockEntry 1 with keyAllowed := true }

/-- Reads a question mark before a key. -/
def readQuestion (l : Lexer) : Option Lexer := do
  if !l.inFlow && !l.keyAllowed then none
  let l ← (l.openBlock l.cursor.column l.tokens.size .blockMapping).dropKey
  return { l.emitSkip .key 1 with keyAllowed := !l.inFlow }

/-- Reads a colon before a value. -/
def readColon (l : Lexer) : Option Lexer := do
  match ← l.keyForValue? with
  | some k =>
    let l := { l with tokens := l.tokens.insertIdxIfInBounds k.token .key, possible := none }
    let l := l.openBlock k.column k.token .blockMapping
    return { l.emitSkip .value 1 with keyAllowed := false }
  | none =>
    if !l.inFlow && !l.keyAllowed then none
    let l := { l with possible := none }.openBlock l.cursor.column l.tokens.size .blockMapping
    return { l.emitSkip .value 1 with keyAllowed := !l.inFlow }

/-- Reads an anchor. -/
def readAnchor (l : Lexer) : Option Lexer := do
  let l ← l.markKey
  let (name, cursor) ← readAnchorName (l.cursor.skip 1)
  return { l.emit (.anchor l.vocabulary.nextAnchor) with
    cursor, keyAllowed := false, vocabulary := l.vocabulary.addAnchor name }

/-- Reads an alias, for an anchor that has been read. -/
def readAlias (l : Lexer) : Option Lexer := do
  let l ← l.markKey
  let (name, cursor) ← readAnchorName (l.cursor.skip 1)
  return { l.emit (.aliasOf (← l.vocabulary.anchor? name)) with cursor, keyAllowed := false }

/-- Reads a tag. -/
def readTagToken (l : Lexer) : Option Lexer := do
  let l ← l.markKey
  let (tag, cursor) ← readTag l.inFlow l.cursor
  return { l.emit (.tag (← l.vocabulary.expand? tag)) with cursor, keyAllowed := false }

/-- Reads a directive. -/
def readDirectiveToken (l : Lexer) : Option Lexer := do
  let l ← (l.unwind (-1)).dropKey
  let (directive, cursor) ← readDirective l.cursor
  let vocabulary ← l.vocabulary.obey? directive
  return { l.emit .directive with cursor, keyAllowed := false, vocabulary }

/-- Adds a scalar that has been read. -/
def emitScalar (l : Lexer) (s : Scanned) (style : ScalarStyle) : Lexer :=
  { l.emit (.scalar style (String.ofList s.text)) with
    cursor := s.cursor, keyAllowed := s.brokeOff }

/-- Reads a plain scalar. -/
def readPlainScalar (l : Lexer) : Option Lexer := do
  let l ← l.markKey
  let fuel := l.cursor.rest.length + 1
  let s ← readPlain l.inFlow (l.indent + 1).toNat fuel [] {} l.cursor
  return l.emitScalar s .plain

/-- Reads a quoted scalar. -/
def readQuotedScalar (l : Lexer) (single : Bool) : Option Lexer := do
  let l ← l.markKey
  let s ← readQuoted single (l.cursor.rest.length + 1) [] (l.cursor.skip 1)
  return l.emitScalar s .quoted

/-- Reads a block. -/
def readBlockScalar (l : Lexer) (folded : Bool) : Option Lexer := do
  let l ← l.dropKey
  let s ← readBlock folded l.indent l.cursor
  return l.emitScalar s (if folded then .folded else .literal)

/-- The characters with which no plain scalar begins, unless something other than a gap follows
one of the first three. -/
def indicators : List Char :=
  ['-', '?', ':', ',', '[', ']', '{', '}', '#', '&', '*', '!', '|', '>', '\'', '"', '%', '@',
    '\x60']

/-- Whether a plain scalar begins with this character, before that rest. -/
def beginsPlain (inFlow : Bool) (c : Char) (rest : List Char) : Bool :=
  !indicators.contains c ||
    (c = '-' && !rest.head?.any isBlank) ||
    (!inFlow && (c = '?' || c = ':') && !atGap rest)

/-- Reads the next token, before which there is no gap. -/
def readToken (l : Lexer) : Option Lexer :=
  let l := l.unwind l.cursor.column
  match l.cursor.rest with
  | [] => l.finish
  | c :: rest =>
    if l.cursor.column = 0 && c = '%' then l.readDirectiveToken
    else if l.cursor.atMarker then
      l.readMarker (if c = '-' then .documentStart else .documentEnd)
    else
      match c with
      | '[' => l.readOpening .flowSequence
      | '{' => l.readOpening .flowMapping
      | ']' => l.readClosing .flowSequenceEnd
      | '}' => l.readClosing .flowMappingEnd
      | ',' => l.readComma
      | '&' => l.readAnchor
      | '*' => l.readAlias
      | '!' => l.readTagToken
      | '\'' => l.readQuotedScalar true
      | '"' => l.readQuotedScalar false
      | _ =>
        if c = '-' && atGap rest then l.readDash
        else if c = '?' && (l.inFlow || atGap rest) then l.readQuestion
        else if c = ':' && (l.inFlow || atGap rest) then l.readColon
        else if c = '|' && !l.inFlow then l.readBlockScalar false
        else if c = '>' && !l.inFlow then l.readBlockScalar true
        else if beginsPlain l.inFlow c rest && !isBlank c then l.readPlainScalar
        else none

/-- Reads tokens up to the end of the text. -/
def readTokens : (fuel : Nat) → Lexer → Option (List Token)
  | 0, _ => none
  | fuel + 1, l => do
    let l ← (l.skipGap (l.cursor.rest.length + 1)).readToken
    if l.tokens.back? = some .textEnd then return l.tokens.toList
    else readTokens fuel l

end Lexer

/-- The tokens of a text, if it can be cut into tokens. -/
def tokens? (s : String) : Option (List Token) :=
  let cs := s.toList
  if cs.all isAllowed then Lexer.readTokens (cs.length + 2) { cursor := { rest := cs } } else none

end Rulebook.Yaml
