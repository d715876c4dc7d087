import NnetText.Number.Shortest

/-!
# JSON documents

The converted components and structured log lines are written as JSON. A document is a value of
`Json`, whose objects list their members in the order in which they are written; `Json.compact`
writes it on one line and `Json.pretty` with one member or element to a line.
-/

namespace NnetText

/-- A JSON document. A number that is no integer carries its numeral. -/
inductive Json where
  | null
  | bool (b : Bool)
  | int (n : Int)
  | numeral (text : String)
  | string (s : String)
  | array (elements : List Json)
  | object (members : List (String × Json))

namespace Json

/-! ### Strings and numbers -/

/-- A hexadecimal digit. -/
def hexDigit (n : Nat) : Char :=
  if n < 10 then Char.ofNat (n + '0'.toNat) else Char.ofNat (n - 10 + 'a'.toNat)

/-- A character inside a string. Quotes, backslashes and controls are escaped, the latter by a
letter if they have one. -/
def escapeChar (c : Char) : List Char :=
  if c = '"' then ['\\', '"']
  else if c = '\\' then ['\\', '\\']
  else if c = '\n' then ['\\', 'n']
  else if c = '\t' then ['\\', 't']
  else if c = '\r' then ['\\', 'r']
  else if c.toNat = 0x08 then ['\\', 'b']
  else if c.toNat = 0x0C then ['\\', 'f']
  else if c.toNat < 0x20 then
    ['\\', 'u', '0', '0', hexDigit (c.toNat / 16), hexDigit (c.toNat % 16)]
  else [c]

/-- A string in quotes. -/
def quote (s : String) : String :=
  String.ofList ('"' :: (s.toList.flatMap escapeChar ++ ['"']))

/-- Single-precision numbers are written in place from a millionth up to 10 ^ 13. -/
def singleLayout : Layout := ⟨-6, 12, true, .even⟩

/-- Double-precision numbers are written in place from 10 ^ -5 up to 10 ^ 16. -/
def doubleLayout : Layout := ⟨-5, 15, true, .even⟩

/-- A floating-point number; what is not finite has no numeral. -/
def ofBinary {f : Format} (layout : Layout) (x : Binary f) : Json :=
  match x.meaning with
  | .finite negative m e => .numeral (layout.finite f negative m e)
  | _ => .null

/-- A single-precision number. -/
def ofSingle (x : Single) : Json := ofBinary singleLayout x

/-- A double-precision number. -/
def ofDouble (x : Double) : Json := ofBinary doubleLayout x

/-- A natural number. -/
def ofNat (n : Nat) : Json := .int n

/-! ### One line -/

mutual

/-- The document on one line. -/
def compact : Json → String
  | null => "null"
  | bool true => "true"
  | bool false => "false"
  | int n => toString n
  | numeral text => text
  | string s => quote s
  | array elements => "[" ++ compactElements elements ++ "]"
  | object members => "\x7b" ++ compactMembers members ++ "\x7d"

/-- Elements with commas between them. -/
def compactElements : List Json → String
  | [] => ""
  | [j] => compact j
  | j :: js => compact j ++ "," ++ compactElements js

/-- Members with commas between them. -/
def compactMembers : List (String × Json) → String
  | [] => ""
  | [(k, j)] => quote k ++ ":" ++ compact j
  | (k, j) :: ms => quote k ++ ":" ++ compact j ++ "," ++ compactMembers ms

end

/-! ### One line for each part -/

/-- The beginning of a line at a depth. -/
def indent (depth : Nat) : String :=
  String.ofList ('\n' :: List.replicate (2 * depth) ' ')

mutual

/-- The document with each member and element on a line of its own, at a depth. -/
def prettyAt (depth : Nat) : Json → String
  | array [] => "[]"
  | array elements => "[" ++ prettyElements (depth + 1) elements ++ indent depth ++ "]"
  | object [] => "\x7b\x7d"
  | object members => "\x7b" ++ prettyMembers (depth + 1) members ++ indent depth ++ "\x7d"
  | null => "null"
  | bool true => "true"
  | bool false => "false"
  | int n => toString n
  | numeral text => text
  | string s => quote s

/-- Elements on lines of their own. -/
def prettyElements (depth : Nat) : List Json → String
  | [] => ""
  | [j] => indent depth ++ prettyAt depth j
  | j :: js => indent depth ++ prettyAt depth j ++ "," ++ prettyElements depth js

/-- Members on lines of their own. -/
def prettyMembers (depth : Nat) : List (String × Json) → String
  | [] => ""
  | [(k, j)] => indent depth ++ quote k ++ ": " ++ prettyAt depth j
  | (k, j) :: ms =>
    indent depth ++ quote k ++ ": " ++ prettyAt depth j ++ "," ++ prettyMembers depth ms

end

/-- The document with each member and element on a line of its own. -/
def pretty (j : Json) : String := prettyAt 0 j

end Json

end NnetText
