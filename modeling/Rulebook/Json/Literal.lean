import Rulebook.Json.Basic

/-!
# Reading JSON

Reading has two steps.  `Literal.read?` checks the grammar and gives a `Literal`, which keeps the
fields of an object as they are written, repeated names and all.  A leaf may be well written and
still have no value: a number may be too great, and a text may hold half of a surrogate pair.
Such leaves are marked, so that a reader who has no use for a field can pass over it.

`Literal.value?` then gives the value, if every leaf has one and the nesting stays below
`depthLimit`.
-/

namespace Rulebook.Json

/-- A JSON text, as far as the grammar goes. -/
inductive Literal where
  | null
  /-- One of the words `true` and `false`. -/
  | bool (b : Bool)
  /-- A number, or a number without a value. -/
  | number (n : Option Number)
  /-- A text, or a text without a value. -/
  | string (s : Option String)
  | array (items : List Literal)
  /-- Fields in braces, in the order of writing. -/
  | object (fields : List (Option String × Literal))
  deriving Inhabited

namespace Literal

/-! ## Blanks, words and numbers -/

/-- Whether a character may stand between two tokens. -/
def isSpace (c : Char) : Bool := c = ' ' || c = '\n' || c = '\t' || c = '\r'

/-- The text behind the leading blanks. -/
def skipSpace (cs : List Char) : List Char := cs.dropWhile isSpace

/-- The text behind `word`, if it stands in front. -/
def skipWord? (word : String) (cs : List Char) : Option (List Char) :=
  if word.toList.isPrefixOf cs then some (cs.drop word.length) else none

/-- Splits off the digits in front. -/
def spanDigits (cs : List Char) : List Nat × List Char :=
  ((cs.takeWhile Char.isDigit).map fun c => c.toNat - '0'.toNat, cs.dropWhile Char.isDigit)

/-- Reads the digits before the point; a zero stands alone. -/
def readInteger? (cs : List Char) : Option (List Nat × List Char) :=
  match spanDigits cs with
  | ([], _) => none
  | ([0], rest) => some ([0], rest)
  | (0 :: _, _) => none
  | (digits, rest) => some (digits, rest)

/-- Reads a point and digits, if a point stands in front. -/
def readFraction? (cs : List Char) : Option (Option (List Nat) × List Char) :=
  match cs with
  | '.' :: rest =>
    match spanDigits rest with
    | ([], _) => none
    | (digits, rest) => some (some digits, rest)
  | _ => some (none, cs)

/-- Reads a sign, if one stands in front, and digits. -/
def readPower? (cs : List Char) : Option (Int × List Char) :=
  let (negative, cs) :=
    match cs with
    | '+' :: rest => (false, rest)
    | '-' :: rest => (true, rest)
    | _ => (false, cs)
  match spanDigits cs with
  | ([], _) => none
  | (digits, rest) =>
    let n : Int := Number.ofDigits digits
    some (if negative then -n else n, rest)

/-- Reads the letter `e` and a power of ten, if the letter stands in front. -/
def readExponent? (cs : List Char) : Option (Option Int × List Char) :=
  match cs with
  | c :: rest =>
    if c = 'e' || c = 'E' then (readPower? rest).map fun p => (some p.1, p.2)
    else some (none, cs)
  | [] => some (none, [])

/-- Reads a number. -/
def readNumber? (cs : List Char) : Option (Literal × List Char) := do
  let (negative, cs) :=
    match cs with
    | '-' :: rest => (true, rest)
    | _ => (false, cs)
  let (integer, cs) ← readInteger? cs
  let (fraction, cs) ← readFraction? cs
  let (exponent, cs) ← readExponent? cs
  let spelling : Number.Spelling := ⟨negative, integer, fraction, exponent⟩
  return (.number spelling.number?, cs)

/-! ## Texts -/

/-- The value of a digit of base sixteen. -/
def hexValue? (c : Char) : Option Nat :=
  if c.isDigit then some (c.toNat - '0'.toNat)
  else if 'a' ≤ c ∧ c ≤ 'f' then some (c.toNat - 'a'.toNat + 10)
  else if 'A' ≤ c ∧ c ≤ 'F' then some (c.toNat - 'A'.toNat + 10)
  else none

/-- Reads four digits of base sixteen. -/
def readHex? : List Char → Option (Nat × List Char)
  | a :: b :: c :: d :: rest => do
    let a ← hexValue? a
    let b ← hexValue? b
    let c ← hexValue? c
    let d ← hexValue? d
    return (((a * 16 + b) * 16 + c) * 16 + d, rest)
  | _ => none

/-- What a single letter behind a backslash stands for. -/
def escaped? : Char → Option Char
  | '"' => some '"'
  | '\\' => some '\\'
  | '/' => some '/'
  | 'b' => some '\x08'
  | 'f' => some '\x0c'
  | 'n' => some '\n'
  | 'r' => some '\r'
  | 't' => some '\t'
  | _ => none

/-- A part of a text: a character, or a unit of sixteen bits that was escaped. -/
inductive Unit16 where
  /-- A character that stands for itself or is named by a letter. -/
  | char (c : Char)
  /-- Four digits behind `\u`. -/
  | code (n : Nat)

/-- Reads up to the closing quote; `fuel` bounds the number of parts. -/
def readUnits? : Nat → List Char → Option (List Unit16 × List Char)
  | 0, _ => none
  | _ + 1, [] => none
  | _ + 1, '"' :: rest => some ([], rest)
  | fuel + 1, '\\' :: 'u' :: rest => do
    let (n, rest) ← readHex? rest
    let (units, rest) ← readUnits? fuel rest
    return (.code n :: units, rest)
  | fuel + 1, '\\' :: c :: rest => do
    let c ← escaped? c
    let (units, rest) ← readUnits? fuel rest
    return (.char c :: units, rest)
  | fuel + 1, c :: rest =>
    if c = '\\' || c.toNat < 0x20 then none
    else do
      let (units, rest) ← readUnits? fuel rest
      return (.char c :: units, rest)

/-- Whether a unit is the first half of a surrogate pair. -/
def isHighSurrogate (n : Nat) : Bool := 0xd800 ≤ n && n ≤ 0xdbff

/-- Whether a unit is the second half of a surrogate pair. -/
def isLowSurrogate (n : Nat) : Bool := 0xdc00 ≤ n && n ≤ 0xdfff

/-- Joins surrogate pairs; there is no text if one half is missing. -/
def joinUnits? : List Unit16 → Option (List Char)
  | [] => some []
  | .char c :: rest => (joinUnits? rest).map (c :: ·)
  | .code n :: .code m :: rest =>
    if isHighSurrogate n then
      if isLowSurrogate m then
        (joinUnits? rest).map (Char.ofNat (0x10000 + (n - 0xd800) * 0x400 + (m - 0xdc00)) :: ·)
      else none
    else if isLowSurrogate n then none
    else (joinUnits? (.code m :: rest)).map (Char.ofNat n :: ·)
  | .code n :: rest =>
    if isHighSurrogate n || isLowSurrogate n then none
    else (joinUnits? rest).map (Char.ofNat n :: ·)

/-- Reads a text whose opening quote has been read. -/
def readText? (cs : List Char) : Option (Option String × List Char) :=
  (readUnits? (cs.length + 1) cs).map fun p => ((joinUnits? p.1).map String.ofList, p.2)

/-! ## Values -/

/-- Reads elements up to the closing bracket, each with `element`. -/
def readItems? (element : List Char → Option (Literal × List Char)) :
    Nat → List Char → Option (List Literal × List Char)
  | 0, _ => none
  | fuel + 1, cs => do
    let (item, cs) ← element cs
    match skipSpace cs with
    | ',' :: rest =>
      let (items, rest) ← readItems? element fuel rest
      return (item :: items, rest)
    | ']' :: rest => return ([item], rest)
    | _ => none

/-- Reads fields up to the closing brace, each value with `element`. -/
def readFields? (element : List Char → Option (Literal × List Char)) :
    Nat → List Char → Option (List (Option String × Literal) × List Char)
  | 0, _ => none
  | fuel + 1, cs =>
    match skipSpace cs with
    | '"' :: cs => do
      let (name, cs) ← readText? cs
      match skipSpace cs with
      | ':' :: cs =>
        let (item, cs) ← element cs
        match skipSpace cs with
        | ',' :: rest =>
          let (fields, rest) ← readFields? element fuel rest
          return ((name, item) :: fields, rest)
        | '}' :: rest => return ([(name, item)], rest)
        | _ => none
      | _ => none
    | _ => none

/-- Reads one value and answers the text behind it; `fuel` bounds the nesting. -/
def readValue? : Nat → List Char → Option (Literal × List Char)
  | 0, _ => none
  | fuel + 1, cs =>
    match skipSpace cs with
    | '"' :: rest => (readText? rest).map fun p => (.string p.1, p.2)
    | '[' :: rest =>
      match skipSpace rest with
      | ']' :: rest => some (.array [], rest)
      | _ => (readItems? (readValue? fuel) (rest.length + 1) rest).map fun p => (.array p.1, p.2)
    | '{' :: rest =>
      match skipSpace rest with
      | '}' :: rest => some (.object [], rest)
      | _ =>
         (readFields? (readValue? fuel) (rest.length + 1) rest).map fun p => (.object p.1, p.2)
    | 'n' :: rest => (skipWord? "ull" rest).map fun rest => (.null, rest)
    | 't' :: rest => (skipWord? "rue" rest).map fun rest => (.bool true, rest)
    | 'f' :: rest => (skipWord? "alse" rest).map fun rest => (.bool false, rest)
    | cs => readNumber? cs

/-- Reads a whole text: one value with blanks around it. -/
def read? (s : String) : Option Literal := do
  let cs := s.toList
  let (literal, rest) ← readValue? (cs.length + 1) cs
  if (skipSpace rest).isEmpty then some literal else none

/-! ## What a literal stands for -/

mutual

/-- The value of a literal that is nested at most `depth` deep. -/
def value? (depth : Nat) : Literal → Option Sorted
  | null => some .null
  | bool b => some (.bool b)
  | number n => n.map .number
  | string s => s.map .string
  | array items =>
    match depth with
    | 0 => none
    | depth + 1 => (values? depth items).map .array
  | object fields =>
    match depth with
    | 0 => none
    | depth + 1 => (fieldValues? depth fields).map fun fs => .object (Dict.ofList fs)

/-- The values of a list of literals. -/
def values? (depth : Nat) : List Literal → Option (List Sorted)
  | [] => some []
  | l :: rest => do
    let j ← value? depth l
    let js ← values? depth rest
    return j :: js

/-- The names and values of a list of fields. -/
def fieldValues? (depth : Nat) : List (Option String × Literal) → Option (List (String × Sorted))
  | [] => some []
  | (name, l) :: rest => do
    let name ← name
    let j ← value? depth l
    let js ← fieldValues? depth rest
    return (name, j) :: js

end

/-- How deep a value may be nested. -/
def depthLimit : Nat := 127

end Literal

/-- Reads a text as a value. -/
def read? (s : String) : Option Json :=
  (Literal.read? s >>= Literal.value? Literal.depthLimit).map (·.json)

end Rulebook.Json
