import Rulebook.Yaml.Reading
import Rulebook.Yaml.Token

/-!
# Reading YAML

The tokens of a text are put together to nodes.  Where a key, a value or an entry is announced and
not written, the node is empty.  A text holds one document; one without content is empty.
-/

namespace Rulebook.Yaml

/-- Where a node stands, which decides how it may be written. -/
inductive Position where
  | flow
  /-- In a block. -/
  | block
  /-- Behind a key in a block, where dashes need not be indented. -/
  | keyed
  deriving DecidableEq

/-- A reader of the node at the beginning of a list of tokens, which answers the rest of them. -/
abbrev NodeReader : Type := Position → List Token → Option (Yaml × List Token)

/-- The tokens that show that a key or a value is left out in front of them, in a list in
brackets. -/
def itemEnds : List Token := [.value, .flowEntry, .flowSequenceEnd]

/-- The tokens that show that a key or a value is left out in front of them, in braces. -/
def flowPairEnds : List Token := [.value, .flowEntry, .flowMappingEnd]

/-- The tokens that show that an entry of a block is left out in front of them. -/
def entryEnds : List Token := [.blockEntry, .blockEnd]

/-- The tokens that show that a key or a value in a block is left out in front of them. -/
def pairEnds : List Token := [.key, .value, .blockEnd]

/-- A node that may be left out in front of the tokens `ends`. -/
def readOptional? (node : NodeReader) (p : Position) (ends : List Token) :
    List Token → Option (Yaml × List Token)
  | t :: rest => if ends.contains t then some (empty, t :: rest) else node p (t :: rest)
  | [] => none

/-- The node behind the sign for a value, which may be missing. -/
def readValue? (node : NodeReader) (p : Position) (ends : List Token) :
    List Token → Option (Yaml × List Token)
  | .value :: rest => readOptional? node p ends rest
  | rest => some (empty, rest)

/-! ## Blocks -/

/-- The entries of a block. -/
def readEntries? (node : NodeReader) :
    (fuel : Nat) → List Token → Option (List Yaml × List Token)
  | fuel + 1, .blockEntry :: rest => do
    let (item, rest) ← readOptional? node .block entryEnds rest
    let (items, rest) ← readEntries? node fuel rest
    return (item :: items, rest)
  | _, .blockEnd :: rest => some ([], rest)
  | _, _ => none

/-- The entries behind a key that are not indented; what follows them closes nothing. -/
def readFlatEntries? (node : NodeReader) :
    (fuel : Nat) → List Token → Option (List Yaml × List Token)
  | fuel + 1, .blockEntry :: rest => do
    let (item, rest) ← readOptional? node .block (entryEnds ++ pairEnds) rest
    let (items, rest) ← readFlatEntries? node fuel rest
    return (item :: items, rest)
  | 0, .blockEntry :: _ => none
  | _, rest => some ([], rest)

/-- The keys and values of a block. -/
def readPairs? (node : NodeReader) :
    (fuel : Nat) → List Token → Option (List (Yaml × Yaml) × List Token)
  | fuel + 1, .key :: rest => do
    let (key, rest) ← readOptional? node .keyed pairEnds rest
    let (value, rest) ← readValue? node .keyed pairEnds rest
    let (pairs, rest) ← readPairs? node fuel rest
    return ((key, value) :: pairs, rest)
  | _, .blockEnd :: rest => some ([], rest)
  | _, _ => none

/-! ## Brackets -/

/-- One element of a list in brackets: a node, or a key and a value.  A key that is left out takes
with it the token that shows this. -/
def readFlowItem? (node : NodeReader) : List Token → Option (Yaml × List Token)
  | .key :: t :: rest => do
    let (key, rest) ←
      if itemEnds.contains t then some (empty, rest) else node .flow (t :: rest)
    let (value, rest) ← readValue? node .flow itemEnds rest
    return (mapping [(key, value)], rest)
  | rest => node .flow rest

/-- The elements of a list in brackets. -/
def readFlowItems? (node : NodeReader) :
    (fuel : Nat) → List Token → Option (List Yaml × List Token)
  | _, .flowSequenceEnd :: rest => some ([], rest)
  | 0, _ => none
  | fuel + 1, rest => do
    let (item, rest) ← readFlowItem? node rest
    match rest with
    | .flowEntry :: rest =>
      let (items, rest) ← readFlowItems? node fuel rest
      return (item :: items, rest)
    | .flowSequenceEnd :: rest => return ([item], rest)
    | _ => none

/-- One key and its value in braces; without a sign before it, a key has no value. -/
def readFlowPair? (node : NodeReader) : List Token → Option ((Yaml × Yaml) × List Token)
  | .key :: rest => do
    let (key, rest) ← readOptional? node .flow flowPairEnds rest
    let (value, rest) ← readValue? node .flow flowPairEnds rest
    return ((key, value), rest)
  | rest => do
    let (key, rest) ← node .flow rest
    return ((key, empty), rest)

/-- The keys and values in braces. -/
def readFlowPairs? (node : NodeReader) :
    (fuel : Nat) → List Token → Option (List (Yaml × Yaml) × List Token)
  | _, .flowMappingEnd :: rest => some ([], rest)
  | 0, _ => none
  | fuel + 1, rest => do
    let (pair, rest) ← readFlowPair? node rest
    match rest with
    | .flowEntry :: rest =>
      let (pairs, rest) ← readFlowPairs? node fuel rest
      return (pair :: pairs, rest)
    | .flowMappingEnd :: rest => return ([pair], rest)
    | _ => none

/-! ## Nodes -/

/-- What may stand before a node. -/
structure Properties where
  anchor : Option Nat := none
  /-- Its tag. -/
  tag : Option String := none

namespace Properties

/-- Splits off the anchor and the tag before a node, which come in either order. -/
def split : List Token → Properties × List Token
  | .anchor n :: .tag name :: rest => (⟨some n, some name⟩, rest)
  | .tag name :: .anchor n :: rest => (⟨some n, some name⟩, rest)
  | .anchor n :: rest => (⟨some n, none⟩, rest)
  | .tag name :: rest => (⟨none, some name⟩, rest)
  | rest => ({}, rest)

/-- The node with the anchor, if there is one. -/
def attach (p : Properties) (y : Yaml) : Yaml :=
  match p.anchor with
  | some n => anchored n y
  | none => y

end Properties

/-- The node behind an anchor and a tag; it is empty where only these are written. -/
def readContent? (node : NodeReader) (properties : Properties) (p : Position)
    (tokens : List Token) : Option (Yaml × List Token) :=
  let fuel := tokens.length
  match tokens with
  | .scalar style text :: rest => some (.scalar properties.tag style text, rest)
  | .flowSequence :: rest => (readFlowItems? node fuel rest).map fun r => (sequence r.1, r.2)
  | .flowMapping :: rest => (readFlowPairs? node fuel rest).map fun r => (mapping r.1, r.2)
  | t :: rest =>
    if t = .blockEntry && p = .keyed then
      (readFlatEntries? node fuel tokens).map fun r => (sequence r.1, r.2)
    else if t = .blockSequence && p ≠ .flow then
      (readEntries? node fuel rest).map fun r => (sequence r.1, r.2)
    else if t = .blockMapping && p ≠ .flow then
      (readPairs? node fuel rest).map fun r => (mapping r.1, r.2)
    else if properties.anchor.isSome || properties.tag.isSome then
      some (.scalar properties.tag .plain "", tokens)
    else none
  | [] => none

/-- The node at the beginning of a list of tokens; `fuel` bounds the nesting. -/
def readNode? : (fuel : Nat) → NodeReader
  | 0, _, _ => none
  | _ + 1, _, .aliasOf n :: rest => some (aliasOf n, rest)
  | fuel + 1, p, tokens => do
    let (properties, tokens) := Properties.split tokens
    let (y, rest) ← readContent? (readNode? fuel) properties p tokens
    return (properties.attach y, rest)

/-! ## Documents -/

/-- The tokens that show that a document is empty that has been announced. -/
def documentEnds : List Token := [.directive, .documentStart, .documentEnd, .textEnd]

/-- The content of a document that has been announced. -/
def readAnnounced? (tokens : List Token) : Option (Yaml × List Token) :=
  readOptional? (readNode? (tokens.length + 1)) .block documentEnds tokens

/-- The first document of a list of tokens.  Directives must be followed by its announcement. -/
def readFirst? (tokens : List Token) : Option (Yaml × List Token) :=
  match tokens with
  | [.textEnd] => some (empty, tokens)
  | .directive :: _ =>
    match tokens.dropWhile (· = .directive) with
    | .documentStart :: rest => readAnnounced? rest
    | _ => none
  | .documentStart :: rest => readAnnounced? rest
  | _ => readNode? (tokens.length + 1) .block tokens

/-- The document of a text that holds one. -/
def document? (s : String) : Option Yaml := do
  let (y, rest) ← readFirst? (← tokens? s)
  if rest.dropWhile (· = .documentEnd) = [.textEnd] then some y else none

/-- Reads a text that holds one document as a value. -/
def read? {α : Type} (read : Yaml → Reading α) (s : String) : Option α :=
  document? s >>= Reading.run? read

end Rulebook.Yaml
