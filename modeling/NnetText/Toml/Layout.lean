/-!
# White space and comments of a document

In a TOML document a line ends with a line feed, which a carriage return may precede. Blanks are
spaces and tabs; a comment runs to the end of its line and holds no control characters but tabs.
Every function of the reader takes the rest of the text and gives back what is left of it, or
`none` where the text is not well-formed.
-/

namespace NnetText.Toml

/-- A blank inside a line. -/
def isSpace (c : Char) : Bool := c == ' ' || c == '\t'

/-- A character that may stand in any text of a document: a tab, or no control character. -/
def isTextChar (c : Char) : Bool :=
  c == '\t' || (0x20 ≤ c.toNat && c.toNat != 0x7F)

/-- What is left behind blanks. -/
def skipSpaces (cs : List Char) : List Char := cs.dropWhile isSpace

/-- What is left behind the end of a line. -/
def newline? : List Char → Option (List Char)
  | '\n' :: rest => some rest
  | '\r' :: '\n' :: rest => some rest
  | _ => none

/-- What is left behind the end of a line or of the document. -/
def lineEnd? : List Char → Option (List Char)
  | [] => some []
  | cs => newline? cs

/-- What is left behind a comment, if there is one. -/
def skipComment : List Char → List Char
  | '#' :: rest => rest.dropWhile isTextChar
  | cs => cs

/-- What is left behind a line on which nothing more may stand but blanks and a comment. -/
def restOfLine? (cs : List Char) : Option (List Char) :=
  lineEnd? (skipComment (skipSpaces cs))

/-- What is left behind blanks, ends of lines and comments that end with their line; the flag says
whether a comment is being passed. -/
def skipLayout : Bool → List Char → List Char
  | false, c :: rest =>
    if isSpace c || c == '\n' then skipLayout false rest
    else if c == '#' then skipLayout true rest
    else
      match c, rest with
      | '\r', '\n' :: rest => skipLayout false rest
      | _, _ => c :: rest
  | true, c :: rest =>
    if c == '\n' then skipLayout false rest
    else if isTextChar c then skipLayout true rest
    else
      match c, rest with
      | '\r', '\n' :: rest => skipLayout false rest
      | _, _ => c :: rest
  | _, [] => []

end NnetText.Toml
