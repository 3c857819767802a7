/-!
# Positions in a YAML text

A cursor is the rest of a text with the line and column at which it begins.  Columns decide how a
text is nested; lines and lengths decide what may be a key.  Columns count characters, and lengths
count bytes of UTF-8.
-/

namespace Rulebook.Yaml

/-- Whether a character may stand in a YAML text. -/
def isAllowed (c : Char) : Bool :=
  let n := c.toNat
  n = 0x9 || n = 0xa || n = 0xd || (0x20 ≤ n && n ≤ 0x7e) || n = 0x85 ||
    (0xa0 ≤ n && n ≤ 0xfffd) || 0x10000 ≤ n

/-- Whether a character is a space or a tab. -/
def isBlank (c : Char) : Bool := c = ' ' || c = '\t'

/-- Whether a character ends a line. -/
def isBreak (c : Char) : Bool :=
  c = '\n' || c = '\r' || c = '\u0085' || c = '\u2028' || c = '\u2029'

/-- Whether a text is at its end or begins with a blank or the end of a line. -/
def atGap : List Char → Bool
  | [] => true
  | c :: _ => isBlank c || isBreak c

/-- How many bytes a text takes in UTF-8. -/
def byteCount (cs : List Char) : Nat := cs.foldl (fun n c => n + c.utf8Size) 0

/-- The rest of a text, and where it begins. -/
structure Cursor where
  /-- The characters that are left. -/
  rest : List Char
  /-- How many bytes came before. -/
  index : Nat := 0
  /-- How many lines came before. -/
  line : Nat := 0
  /-- How many characters came before on this line. -/
  column : Nat := 0
  deriving Inhabited

namespace Cursor

/-- Goes on by a number of characters of one line. -/
def skip (c : Cursor) (n : Nat) : Cursor :=
  { c with
    rest := c.rest.drop n
    index := c.index + byteCount (c.rest.take n)
    column := c.column + n }

/-- Goes on while the characters hold a test; none of them ends a line. -/
def skipWhile (p : Char → Bool) (c : Cursor) : Cursor := c.skip (c.rest.takeWhile p).length

/-- Goes on to the end of the line. -/
def skipLine (c : Cursor) : Cursor := c.skipWhile fun ch => !isBreak ch

/-- Goes on behind a comment, if one begins here. -/
def skipComment (c : Cursor) : Cursor := if c.rest.head? = some '#' then c.skipLine else c

/-- Goes on over a mark of the byte order, which may begin a line. -/
def skipOrderMark (c : Cursor) : Cursor :=
  if c.column = 0 && c.rest.head? = some '\ufeff' then c.skip 1 else c

/-- Goes on behind the end of a line, and answers the break that it stands for: the two old
separators stand for themselves, all others for a line feed. -/
def takeBreak? (c : Cursor) : Option (Char × Cursor) :=
  let next (n : Nat) : Cursor := { c.skip n with line := c.line + 1, column := 0 }
  match c.rest with
  | '\r' :: '\n' :: _ => some ('\n', next 2)
  | ch :: _ =>
    if ch = '\u2028' || ch = '\u2029' then some (ch, next 1)
    else if isBreak ch then some ('\n', next 1)
    else none
  | [] => none

/-- Whether a document begins or ends here: three dashes or points at the start of a line. -/
def atMarker (c : Cursor) : Bool :=
  c.column = 0 &&
    match c.rest with
    | '-' :: '-' :: '-' :: rest => atGap rest
    | '.' :: '.' :: '.' :: rest => atGap rest
    | _ => false

end Cursor

/-! ## Gaps -/

/-- What lies between two words of a scalar: blanks, or breaks with the blanks around them. -/
structure Gap where
  /-- The blanks, as long as there is no break. -/
  blanks : List Char := []
  first : Option Char := none
  /-- The breaks after it. -/
  later : List Char := []
  /-- Whether there is a break, be it one that was escaped. -/
  broken : Bool := false

/-- What a gap reads as: one break is a space, and of several the first is dropped, unless it is
one of the old separators. -/
def Gap.text (g : Gap) : List Char :=
  if g.broken then
    match g.first with
    | some '\n' => if g.later.isEmpty then [' '] else g.later
    | some b => b :: g.later
    | none => g.later
  else g.blanks

/-- Reads on to the end of a gap.  Where the column of the text is given, a tab before it on a new
line is refused. -/
def readGap (textColumn : Option Nat) : (fuel : Nat) → Gap → Cursor → Option (Gap × Cursor)
  | 0, g, c => some (g, c)
  | fuel + 1, g, c =>
    match c.takeBreak? with
    | some (b, next) =>
      if g.broken then readGap textColumn fuel { g with later := g.later ++ [b] } next
      else readGap textColumn fuel { blanks := [], first := some b, broken := true } next
    | none =>
      match c.rest with
      | ch :: _ =>
        if isBlank ch then
          if g.broken then
            if ch = '\t' && textColumn.any (c.column < ·) then none
            else readGap textColumn fuel g (c.skip 1)
          else readGap textColumn fuel { g with blanks := g.blanks ++ [ch] } (c.skip 1)
        else some (g, c)
      | [] => some (g, c)

end Rulebook.Yaml
