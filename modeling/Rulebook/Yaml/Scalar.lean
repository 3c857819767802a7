import Rulebook.Yaml.Cursor

/-!
# Scalars in YAML texts

A scalar is plain, quoted, or a block below the line that announces it.  Plain and quoted scalars
may run over several lines and read as if the lines were joined; a block keeps its lines, or joins
those that begin without a blank.
-/

namespace Rulebook.Yaml

/-! ## Plain scalars -/

/-- The characters that end a plain scalar inside brackets. -/
def flowIndicators : List Char := [',', '[', ']', '{', '}']

/-- The characters that may not stand right behind a colon inside brackets. -/
def refusedBehindColon : List Char := '?' :: flowIndicators

/-- Splits off a word of a plain scalar.  It ends at a gap or before a colon with a gap behind it,
and inside brackets at an indicator; a colon right before an indicator is refused there. -/
def spanWord (inFlow : Bool) : List Char → Option (List Char)
  | [] => some []
  | c :: rest =>
    if isBlank c || isBreak c then some []
    else if inFlow && c = ':' && rest.head?.any refusedBehindColon.contains then none
    else if c = ':' && atGap rest then some []
    else if inFlow && flowIndicators.contains c then some []
    else (spanWord inFlow rest).map (c :: ·)

/-- A plain or quoted scalar that has been read. -/
structure Scanned where
  text : List Char
  /-- The text behind it. -/
  cursor : Cursor
  /-- Whether it ended at the end of a line. -/
  brokeOff : Bool := false

/-- Reads the words of a plain scalar, of which `text` has been read, with `gap` behind it.  Out
of brackets a line that begins before `column` is no longer part of it. -/
def readPlain (inFlow : Bool) (column : Nat) :
    (fuel : Nat) → (text : List Char) → (gap : Gap) → Cursor → Option Scanned
  | 0, _, _, _ => none
  | fuel + 1, text, gap, c =>
    if c.atMarker || c.rest.head? = some '#' then some ⟨text, c, gap.broken⟩
    else do
      let word ← spanWord inFlow c.rest
      let (text, gap) := if word.isEmpty then (text, gap) else (text ++ gap.text ++ word, {})
      let c := c.skip word.length
      if c.rest.isEmpty || !atGap c.rest then some ⟨text, c, gap.broken⟩
      else
        let (next, c) ← readGap (some column) (c.rest.length + 1) {} c
        if !inFlow && c.column < column then some ⟨text, c, next.broken⟩
        else readPlain inFlow column fuel text next c

/-! ## Quoted scalars -/

/-- What a letter behind a backslash stands for. -/
def escapedChar? : Char → Option Char
  | '0' => some '\x00'
  | 'a' => some '\x07'
  | 'b' => some '\x08'
  | 't' => some '\t'
  | '\t' => some '\t'
  | 'n' => some '\n'
  | 'v' => some '\x0b'
  | 'f' => some '\x0c'
  | 'r' => some '\r'
  | 'e' => some '\x1b'
  | ' ' => some ' '
  | '"' => some '"'
  | '/' => some '/'
  | '\\' => some '\\'
  | 'N' => some '\u0085'
  | '_' => some '\u00a0'
  | 'L' => some '\u2028'
  | 'P' => some '\u2029'
  | _ => none

/-- How many digits follow a letter behind a backslash. -/
def escapeLength? : Char → Option Nat
  | 'x' => some 2
  | 'u' => some 4
  | 'U' => some 8
  | _ => none

/-- The value of a digit of base sixteen. -/
def hexDigit? (c : Char) : Option Nat :=
  if c.isDigit then some (c.toNat - '0'.toNat)
  else if 'a' ≤ c ∧ c ≤ 'f' then some (c.toNat - 'a'.toNat + 10)
  else if 'A' ≤ c ∧ c ≤ 'F' then some (c.toNat - 'A'.toNat + 10)
  else none

/-- The character with the number that the digits write. -/
def charOfHex? (digits : List Char) : Option Char := do
  let n ← digits.foldlM (fun n c => (hexDigit? c).map (n * 16 + ·)) 0
  if n.isValidChar then some (Char.ofNat n) else none

/-- How a run of characters in quotes ends. -/
inductive RunEnd where
  /-- At a gap, at the quote, or at the end of the text. -/
  | plain
  /-- At the end of a line that was escaped. -/
  | escapedBreak

/-- Reads a run of characters without gaps in quotes. -/
def readRun (single : Bool) : (fuel : Nat) → Cursor → Option (List Char × RunEnd × Cursor)
  | 0, _ => none
  | fuel + 1, c =>
    let goOn (ch : Char) (c : Cursor) : Option (List Char × RunEnd × Cursor) :=
      (readRun single fuel c).map fun (text, e, c) => (ch :: text, e, c)
    match c.rest with
    | [] => some ([], .plain, c)
    | ch :: rest =>
      if isBlank ch || isBreak ch then some ([], .plain, c)
      else if single then
        match ch, rest with
        | '\'', '\'' :: _ => goOn '\'' (c.skip 2)
        | '\'', _ => some ([], .plain, c)
        | ch, _ => goOn ch (c.skip 1)
      else
        match ch, rest with
        | '"', _ => some ([], .plain, c)
        | '\\', letter :: digits =>
          match (c.skip 1).takeBreak? with
          | some (_, next) => some ([], .escapedBreak, next)
          | none =>
            match escapeLength? letter with
            | some n =>
              if digits.length < n then none
              else do
                let escaped ← charOfHex? (digits.take n)
                goOn escaped (c.skip (2 + n))
            | none => do
              let escaped ← escapedChar? letter
              goOn escaped (c.skip 2)
        | '\\', [] => none
        | ch, _ => goOn ch (c.skip 1)

/-- Reads a quoted scalar up to and with its closing quote. -/
def readQuoted (single : Bool) : (fuel : Nat) → (text : List Char) → Cursor → Option Scanned
  | 0, _, _ => none
  | fuel + 1, text, c =>
    if c.atMarker || c.rest.isEmpty then none
    else do
      let (run, runEnd, c) ← readRun single (c.rest.length + 1) c
      let text := text ++ run
      let atQuote := c.rest.head? = some (if single then '\'' else '"')
      if atQuote then some ⟨text, c.skip 1, false⟩
      else
        let start : Gap :=
          match runEnd with
          | .plain => {}
          | .escapedBreak => { broken := true }
        let (gap, c) ← readGap none (c.rest.length + 1) start c
        readQuoted single fuel (text ++ gap.text) c

/-! ## Blocks -/

/-- What is kept of the breaks at the end of a block. -/
inductive Chomping where
  | strip
  | clip
  | keep
  deriving DecidableEq

/-- Reads the marks behind the sign of a block: what is kept at its end, and by how much it is
indented. -/
def readMarks (c : Cursor) : Option (Chomping × Option Nat × Cursor) :=
  let chomping? (c : Cursor) : Option (Chomping × Cursor) :=
    match c.rest with
    | '+' :: _ => some (.keep, c.skip 1)
    | '-' :: _ => some (.strip, c.skip 1)
    | _ => none
  let digit? (c : Cursor) : Option (Nat × Cursor) :=
    match c.rest with
    | d :: _ => if d.isDigit then some (d.toNat - '0'.toNat, c.skip 1) else none
    | [] => none
  let marks : Chomping × Option Nat × Cursor :=
    match chomping? c with
    | some (chomping, c) =>
      match digit? c with
      | some (n, c) => (chomping, some n, c)
      | none => (chomping, none, c)
    | none =>
      match digit? c with
      | some (n, c) =>
        match chomping? c with
        | some (chomping, c) => (chomping, some n, c)
        | none => (.clip, some n, c)
      | none => (.clip, none, c)
  if marks.2.1 = some 0 then none else some marks

/-- Reads the breaks before a line of a block.  With `indent = 0` the indentation is not known
yet; `deepest` is the greatest column met so far. -/
def readBlockBreaks (indent : Nat) :
    (fuel : Nat) → (deepest : Nat) → (breaks : List Char) → Cursor →
      Option (Nat × List Char × Cursor)
  | 0, deepest, breaks, c => some (deepest, breaks, c)
  | fuel + 1, deepest, breaks, c =>
    let spaces := (c.rest.takeWhile (· = ' ')).length
    let c := c.skip (if indent = 0 then spaces else min spaces (indent - c.column))
    let deepest := max deepest c.column
    if (indent = 0 || c.column < indent) && c.rest.head? = some '\t' then none
    else
      match c.takeBreak? with
      | some (b, next) => readBlockBreaks indent fuel deepest (breaks ++ [b]) next
      | none => some (deepest, breaks, c)

/-- Reads the lines of a block that stand at column `indent`.  `pending` is the break at the end
of the line before, `breaks` are those of the empty lines after it, and `afterBlank` says whether
that line began with a blank. -/
def readLines (folded : Bool) (indent : Nat) :
    (fuel : Nat) → (text : List Char) → (pending : List Char) → (breaks : List Char) →
      (afterBlank : Bool) → Cursor → Option (List Char × List Char × List Char × Cursor)
  | 0, _, _, _, _, _ => none
  | fuel + 1, text, pending, breaks, afterBlank, c =>
    if c.column ≠ indent || c.rest.isEmpty then some (text, pending, breaks, c)
    else do
      let startsBlank := c.rest.head?.any isBlank
      let joint :=
        if folded && pending.head? = some '\n' && !afterBlank && !startsBlank then
          if breaks.isEmpty then [' '] else []
        else pending
      let line := c.rest.takeWhile fun ch => !isBreak ch
      let text := text ++ joint ++ breaks ++ line
      let c := c.skip line.length
      let (pending, c) :=
        match c.takeBreak? with
        | some (b, next) => ([b], next)
        | none => ([], c)
      let (_, breaks, c) ← readBlockBreaks indent (c.rest.length + 1) 0 [] c
      readLines folded indent fuel text pending breaks startsBlank c

/-- Reads a block, from its sign on.  `parent` is the column of the collection around it, or `-1`
where there is none. -/
def readBlock (folded : Bool) (parent : Int) (c : Cursor) : Option Scanned := do
  let (chomping, increment, c) ← readMarks (c.skip 1)
  let c := (c.skipWhile isBlank).skipComment
  let c ←
    match c.takeBreak? with
    | some (_, next) => some next
    | none => if c.rest.isEmpty then some c else none
  let given :=
    match increment with
    | some n => (max parent 0).toNat + n
    | none => 0
  let (deepest, breaks, c) ← readBlockBreaks given (c.rest.length + 1) 0 [] c
  let indent := if given = 0 then max deepest (max (parent + 1).toNat 1) else given
  let (text, pending, breaks, c) ←
    readLines folded indent (c.rest.length + 1) [] [] breaks false c
  let ending :=
    match chomping with
    | .strip => []
    | .clip => pending
    | .keep => pending ++ breaks
  some ⟨text ++ ending, c, true⟩

end Rulebook.Yaml
