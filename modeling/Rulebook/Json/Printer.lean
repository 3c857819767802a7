import Rulebook.Json.Basic

/-!
# Writing JSON

Values are written without spaces.  A text is escaped only where it must be: quotes, backslashes
and control characters; the rest stands for itself.
-/

namespace Rulebook.Json

/-- A digit of base sixteen, in lower case. -/
def hexDigit (n : Nat) : Char := Nat.digitChar n

/-- How one character of a text is written. -/
def escapeChar (c : Char) : List Char :=
  match c with
  | '"' => ['\\', '"']
  | '\\' => ['\\', '\\']
  | '\x08' => ['\\', 'b']
  | '\x0c' => ['\\', 'f']
  | '\n' => ['\\', 'n']
  | '\r' => ['\\', 'r']
  | '\t' => ['\\', 't']
  | c =>
    if c.toNat < 0x20 then
      ['\\', 'u', '0', '0', hexDigit (c.toNat / 16), hexDigit (c.toNat % 16)]
    else [c]

/-- A text in quotes. -/
def quoteChars (s : String) : List Char := '"' :: (s.toList.flatMap escapeChar ++ ['"'])

mutual

/-- The characters that write a value. -/
def chars : Json → List Char
  | null => "null".toList
  | bool b => (if b then "true" else "false").toList
  | number n => n.text.toList
  | string s => quoteChars s
  | array items => '[' :: (itemChars items ++ [']'])
  | object fields => '{' :: (fieldChars fields ++ ['}'])

/-- The characters that write the elements of a list, separated by commas. -/
def itemChars : List Json → List Char
  | [] => []
  | [j] => chars j
  | j :: rest => chars j ++ ',' :: itemChars rest

/-- The characters that write the fields of an object, separated by commas. -/
def fieldChars : List (String × Json) → List Char
  | [] => []
  | [(k, j)] => quoteChars k ++ ':' :: chars j
  | (k, j) :: rest => quoteChars k ++ ':' :: (chars j ++ ',' :: fieldChars rest)

end

/-- The text of a value. -/
def text (j : Json) : String := String.ofList (chars j)

/-- A text in quotes. -/
def quote (s : String) : String := String.ofList (quoteChars s)

end Rulebook.Json
