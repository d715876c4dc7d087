import NnetText.Toml.Layout

/-!
# Strings of a document

A string is written in one of four ways: in double quotes with escapes or in single quotes
without, on one line or, with the quotes tripled, on several. The tripled forms drop a line end
right behind the opening quotes and may have up to two quotes in front of the closing ones.
-/

namespace NnetText.Toml

/-- The value of a hexadecimal digit. -/
def hexValue? (c : Char) : Option Nat :=
  if '0' ≤ c && c ≤ '9' then some (c.toNat - '0'.toNat)
  else if 'a' ≤ c && c ≤ 'f' then some (c.toNat - 'a'.toNat + 10)
  else if 'A' ≤ c && c ≤ 'F' then some (c.toNat - 'A'.toNat + 10)
  else none

/-- The character with the code point written by hexadecimal digits, if there is one. -/
def codePoint? (digits : List Char) : Option Char := do
  let n ← digits.foldlM (fun n c => (hexValue? c).map (16 * n + ·)) 0
  if n.isValidChar then some (Char.ofNat n) else none

/-- The character that a letter behind a backslash stands for. -/
def escape? : Char → Option Char
  | 'b' => some '\x08'
  | 't' => some '\t'
  | 'n' => some '\n'
  | 'f' => some '\x0c'
  | 'r' => some '\r'
  | '"' => some '"'
  | '\\' => some '\\'
  | _ => none

/-- The rest of a string in double quotes, behind the characters found already, the last one
first. -/
def basic? (found : List Char) : List Char → Option (List Char × List Char)
  | [] => none
  | '"' :: rest => some (found.reverse, rest)
  | '\\' :: 'u' :: a :: b :: c :: d :: rest =>
    match codePoint? [a, b, c, d] with
    | some x => basic? (x :: found) rest
    | none => none
  | '\\' :: 'U' :: a :: b :: c :: d :: e :: f :: g :: h :: rest =>
    match codePoint? [a, b, c, d, e, f, g, h] with
    | some x => basic? (x :: found) rest
    | none => none
  | '\\' :: c :: rest =>
    match escape? c with
    | some x => basic? (x :: found) rest
    | none => none
  | c :: rest => if isTextChar c && c != '\\' then basic? (c :: found) rest else none

/-- The rest of a string in single quotes, behind the opening one. -/
def literal? (cs : List Char) : Option (List Char × List Char) :=
  match cs.dropWhile (fun c => isTextChar c && c != '\'') with
  | '\'' :: rest => some (cs.takeWhile (fun c => isTextChar c && c != '\''), rest)
  | _ => none

/-- How a text on several lines goes on: as it stands, behind a backslash that has to meet the end
of its line, or dropping white space behind such a line end. -/
inductive Joining where
  | none
  | lineEnd
  | trim
deriving DecidableEq

/-- The rest of a string in tripled double quotes, behind the characters found already, the last
one first. -/
def basicLines? (found : List Char) : Joining → List Char → Option (List Char × List Char)
  | _, [] => .none
  | .lineEnd, '\n' :: rest => basicLines? found .trim rest
  | .lineEnd, '\r' :: '\n' :: rest => basicLines? found .trim rest
  | .lineEnd, c :: rest => if isSpace c then basicLines? found .lineEnd rest else .none
  | .trim, '\n' :: rest => basicLines? found .trim rest
  | .trim, '\r' :: '\n' :: rest => basicLines? found .trim rest
  | .trim, ' ' :: rest => basicLines? found .trim rest
  | .trim, '\t' :: rest => basicLines? found .trim rest
  | _, '"' :: '"' :: '"' :: '"' :: '"' :: rest => some (('"' :: '"' :: found).reverse, rest)
  | _, '"' :: '"' :: '"' :: '"' :: rest => some (('"' :: found).reverse, rest)
  | _, '"' :: '"' :: '"' :: rest => some (found.reverse, rest)
  | _, '\n' :: rest => basicLines? ('\n' :: found) .none rest
  | _, '\r' :: '\n' :: rest => basicLines? ('\n' :: found) .none rest
  | _, '\\' :: 'u' :: a :: b :: c :: d :: rest =>
    match codePoint? [a, b, c, d] with
    | some x => basicLines? (x :: found) .none rest
    | none => none
  | _, '\\' :: 'U' :: a :: b :: c :: d :: e :: f :: g :: h :: rest =>
    match codePoint? [a, b, c, d, e, f, g, h] with
    | some x => basicLines? (x :: found) .none rest
    | none => none
  | _, '\\' :: '\n' :: rest => basicLines? found .trim rest
  | _, '\\' :: '\r' :: '\n' :: rest => basicLines? found .trim rest
  | _, '\\' :: c :: rest =>
    if isSpace c then basicLines? found .lineEnd rest
    else
      match escape? c with
      | some x => basicLines? (x :: found) .none rest
      | none => none
  | _, c :: rest =>
    if isTextChar c && c != '\\' then basicLines? (c :: found) .none rest else .none

/-- The rest of a string in tripled single quotes, behind the characters found already, the last
one first. -/
def literalLines? (found : List Char) : List Char → Option (List Char × List Char)
  | [] => none
  | '\'' :: '\'' :: '\'' :: '\'' :: '\'' :: rest => some (('\'' :: '\'' :: found).reverse, rest)
  | '\'' :: '\'' :: '\'' :: '\'' :: rest => some (('\'' :: found).reverse, rest)
  | '\'' :: '\'' :: '\'' :: rest => some (found.reverse, rest)
  | '\n' :: rest => literalLines? ('\n' :: found) rest
  | '\r' :: '\n' :: rest => literalLines? ('\n' :: found) rest
  | c :: rest => if isTextChar c then literalLines? (c :: found) rest else none

/-- What is left behind a line end, if there is one. -/
def skipNewline (cs : List Char) : List Char := (newline? cs).getD cs

/-- **A string**, in any of its four forms. -/
def string? : List Char → Option (String × List Char)
  | '"' :: '"' :: '"' :: rest =>
    (basicLines? [] .none (skipNewline rest)).map (fun p => (String.ofList p.1, p.2))
  | '"' :: rest => (basic? [] rest).map (fun p => (String.ofList p.1, p.2))
  | '\'' :: '\'' :: '\'' :: rest =>
    (literalLines? [] (skipNewline rest)).map (fun p => (String.ofList p.1, p.2))
  | '\'' :: rest => (literal? rest).map (fun p => (String.ofList p.1, p.2))
  | _ => none

/-! ### Keys -/

/-- A character of a key that is written without quotes. -/
def isBareChar (c : Char) : Bool := c.isAlphanum || c == '_' || c == '-'

/-- One segment of a key. -/
def segment? : List Char → Option (String × List Char)
  | '"' :: rest => (basic? [] rest).map (fun p => (String.ofList p.1, p.2))
  | '\'' :: rest => (literal? rest).map (fun p => (String.ofList p.1, p.2))
  | cs =>
    if (cs.takeWhile isBareChar).isEmpty then none
    else some (String.ofList (cs.takeWhile isBareChar), cs.dropWhile isBareChar)

/-- The greatest depth of nested values and the greatest number of segments of a key are below
this bound. -/
def depthLimit : Nat := 80

/-- The segments of a key, with points between them and blanks around them; `fuel` bounds their
number. -/
def segments? : Nat → List Char → Option (List String × List Char)
  | 0, _ => none
  | fuel + 1, cs => do
    let (name, rest) ← segment? (skipSpaces cs)
    match skipSpaces rest with
    | '.' :: rest =>
      let (names, rest) ← segments? fuel rest
      some (name :: names, rest)
    | rest => some ([name], rest)

/-- **A key.** -/
def key? (cs : List Char) : Option (List String × List Char) :=
  segments? (depthLimit - 1) cs

end NnetText.Toml
