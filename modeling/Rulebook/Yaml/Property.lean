import Rulebook.Dict
import Rulebook.Yaml.Scalar

/-!
# Anchors, tags and directives

Before a node may stand an anchor, the name by which an alias finds the node again, and a tag,
which says what sort of node it is.  A tag may begin with a handle, an abbreviation for the
beginning of longer tags.  Directives are lines before the document that state the version or
introduce a handle.

A `Vocabulary` holds the names that a text has introduced up to some place.
-/

namespace Rulebook.Yaml

/-- Whether a character may stand in the name of an anchor, a handle or a directive. -/
def isWordChar (c : Char) : Bool := c.isAlphanum || c = '_' || c = '-'

/-- The characters that may stand right behind the name of an anchor. -/
def anchorEnds : List Char := ['?', ':', ',', ']', '}', '%', '@', '\x60']

/-- Reads the name of an anchor or an alias. -/
def readAnchorName (c : Cursor) : Option (String × Cursor) :=
  let name := c.rest.takeWhile isWordChar
  let c := c.skip name.length
  if !name.isEmpty && (atGap c.rest || c.rest.head?.any anchorEnds.contains) then
    some (String.ofList name, c)
  else none

/-! ## Characters of tags -/

/-- Whether a character may stand in a tag. -/
def isTagChar (c : Char) : Bool :=
  isWordChar c ||
    [';', '/', '?', ':', '@', '&', '=', '+', '$', '.', '!', '~', '*', '\'', '(', ')'].contains c

/-- Whether a character may stand in a tag between angle brackets. -/
def isVerbatimTagChar (c : Char) : Bool := isTagChar c || [',', '[', ']'].contains c

/-- The octet that a percent sign and two digits of base sixteen write. -/
def escapedOctet? : List Char → Option Nat
  | '%' :: high :: low :: _ => do return (← hexDigit? high) * 16 + (← hexDigit? low)
  | _ => none

/-- How many octets follow this one in UTF-8. -/
def followingOctets? (octet : Nat) : Option Nat :=
  if octet < 0x80 then some 0
  else if octet < 0xc0 then none
  else if octet < 0xe0 then some 1
  else if octet < 0xf0 then some 2
  else if octet < 0xf8 then some 3
  else none

/-- Reads `n` octets that do not begin a character. -/
def readFollowing : (n : Nat) → List Char → Option (List Char)
  | 0, _ => some []
  | n + 1, cs => do
    let octet ← escapedOctet? cs
    if octet < 0x80 || 0xc0 ≤ octet then none
    return Char.ofNat octet :: (← readFollowing n (cs.drop 3))

/-- Reads the escape of one character, which is kept as its octets. -/
def readEscape (cs : List Char) : Option (List Char) := do
  let octet ← escapedOctet? cs
  return Char.ofNat octet :: (← readFollowing (← followingOctets? octet) (cs.drop 3))

/-- Reads the characters of a tag that hold a test, and escapes. -/
def readTagChars (p : Char → Bool) :
    (fuel : Nat) → (text : List Char) → Cursor → Option (List Char × Cursor)
  | 0, _, _ => none
  | fuel + 1, text, c =>
    match c.rest with
    | '%' :: _ => do
      let octets ← readEscape c.rest
      readTagChars p fuel (text ++ octets) (c.skip (3 * octets.length))
    | ch :: _ =>
      if p ch then readTagChars p fuel (text ++ [ch]) (c.skip 1) else some (text, c)
    | [] => some (text, c)

/-- Reads at least one character of a tag. -/
def readTagText (p : Char → Bool) (c : Cursor) : Option (List Char × Cursor) := do
  let (text, c) ← readTagChars p (c.rest.length + 1) [] c
  if text.isEmpty then none else some (text, c)

/-- The name that the characters of a tag write; it ends before an escaped zero. -/
def tagName (cs : List Char) : String := String.ofList (cs.takeWhile (· ≠ '\x00'))

/-- Reads a handle: an exclamation mark, and perhaps a word and a second mark. -/
def readHandle (c : Cursor) : List Char × Cursor :=
  let word := (c.rest.drop 1).takeWhile isWordChar
  let c := c.skip (1 + word.length)
  if c.rest.head? = some '!' then ('!' :: word ++ ['!'], c.skip 1) else ('!' :: word, c)

/-- Whether a handle has its second mark. -/
def isClosedHandle (handle : List Char) : Bool :=
  1 < handle.length && handle.getLast? = some '!'

/-! ## Tags -/

/-- A tag as it is written. -/
structure Tag where
  /-- The abbreviation at its beginning, or nothing. -/
  handle : String
  /-- What follows. -/
  suffix : String

/-- Reads a tag without a look at what follows it. -/
def readOpenTag (c : Cursor) : Option (Tag × Cursor) := do
  if c.rest[1]? = some '<' then
    let (text, c) ← readTagText isVerbatimTagChar (c.skip 2)
    if c.rest.head? ≠ some '>' then none
    return (⟨"", tagName text⟩, c.skip 1)
  else
    let (handle, c) := readHandle c
    if isClosedHandle handle then
      let (text, c) ← readTagText isTagChar c
      return (⟨String.ofList handle, tagName text⟩, c)
    else
      let (text, c) ← readTagChars isTagChar (c.rest.length + 1) (handle.drop 1) c
      let suffix := tagName text
      return (if suffix.isEmpty then ⟨"", "!"⟩ else ⟨"!", suffix⟩, c)

/-- Reads a tag, from its exclamation mark on. -/
def readTag (inFlow : Bool) (c : Cursor) : Option (Tag × Cursor) := do
  let (tag, c) ← readOpenTag c
  if atGap c.rest || (inFlow && c.rest.head? = some ',') then some (tag, c) else none

/-! ## Directives -/

/-- A directive. -/
inductive Directive where
  /-- The version is 1.1 or 1.2. -/
  | version
  /-- Tags that begin with `handle` begin with `expansion` when written out. -/
  | abbreviation (handle expansion : String)

/-- Reads a number of at most nine digits. -/
def readVersionNumber (c : Cursor) : Option (Nat × Cursor) :=
  let digits := c.rest.takeWhile Char.isDigit
  if digits.isEmpty || 9 < digits.length then none
  else some (digits.foldl (fun n d => n * 10 + (d.toNat - '0'.toNat)) 0, c.skip digits.length)

/-- Reads the version that a text is written in. -/
def readVersion (c : Cursor) : Option (Directive × Cursor) := do
  let (major, c) ← readVersionNumber c
  if c.rest.head? ≠ some '.' then none
  let (minor, c) ← readVersionNumber (c.skip 1)
  if major = 1 ∧ (minor = 1 ∨ minor = 2) then some (.version, c) else none

/-- Reads a handle and what it abbreviates. -/
def readAbbreviation (c : Cursor) : Option (Directive × Cursor) := do
  if c.rest.head? ≠ some '!' then none
  let (handle, c) := readHandle c
  if !(isClosedHandle handle || handle.length = 1) || !c.rest.head?.any isBlank then none
  let (text, c) ← readTagText isVerbatimTagChar (c.skipWhile isBlank)
  if atGap c.rest then some (.abbreviation (String.ofList handle) (tagName text), c) else none

/-- Reads a directive, from its percent sign on, with the rest of its line. -/
def readDirective (c : Cursor) : Option (Directive × Cursor) := do
  let name := (c.rest.drop 1).takeWhile isWordChar
  let c := c.skip (1 + name.length)
  if !atGap c.rest then none
  let (directive, c) ←
    match String.ofList name with
    | "YAML" => readVersion (c.skipWhile isBlank)
    | "TAG" => readAbbreviation (c.skipWhile isBlank)
    | _ => none
  let c := (c.skipWhile isBlank).skipComment
  if c.rest.isEmpty then return (directive, c)
  let (_, c) ← c.takeBreak?
  return (directive, c)

/-! ## Names -/

/-- The names that a text has introduced. -/
structure Vocabulary where
  /-- Whether the version has been stated. -/
  versioned : Bool := false
  handles : Dict String String := ∅
  anchors : Dict String Nat := ∅

namespace Vocabulary

/-- What the handles stand for that need no directive. -/
def knownHandles : Dict String String :=
  Dict.ofList [("!", "!"), ("!!", "tag:yaml.org,2002:")]

/-- Takes notice of a directive; neither the version nor a handle may come twice. -/
def obey? (v : Vocabulary) : Directive → Option Vocabulary
  | .version => if v.versioned then none else some { v with versioned := true }
  | .abbreviation handle expansion =>
    if v.handles.contains handle then none
    else some { v with handles := v.handles.insert handle expansion }

/-- Writes out a tag. -/
def expand? (v : Vocabulary) (t : Tag) : Option String :=
  if t.handle.isEmpty then some t.suffix
  else ((v.handles.find? t.handle).or (knownHandles.find? t.handle)).map (· ++ t.suffix)

/-- The number of the next anchor: how many names anchors have had so far. -/
def nextAnchor (v : Vocabulary) : Nat := v.anchors.size

/-- Introduces an anchor with the next number; a name that comes again changes its number. -/
def addAnchor (v : Vocabulary) (name : String) : Vocabulary :=
  { v with anchors := v.anchors.insert name v.nextAnchor }

/-- The number of the anchor with that name. -/
def anchor? (v : Vocabulary) (name : String) : Option Nat := v.anchors.find? name

end Vocabulary

end Rulebook.Yaml
