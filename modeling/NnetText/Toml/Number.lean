import NnetText.Number.Decimal
import NnetText.Number.Integer
import NnetText.Toml.Layout

/-!
# Numbers and dates of a document

Digits may be grouped by single underscores that have digits on both sides. A decimal number has
no superfluous zero in front. Dates and times follow the usual form, and a day has to exist in its
month.
-/

namespace NnetText.Toml

/-- Digits of a class, grouped by underscores, behind those found already, the last one first: the
digits, and what is left behind them. The flag says whether a digit has to follow. -/
def groupedFrom? (isDigit : Char → Bool) (found : List Char) :
    Bool → List Char → Option (List Char × List Char)
  | true, c :: rest => if isDigit c then groupedFrom? isDigit (c :: found) false rest else none
  | true, [] => none
  | false, c :: rest =>
    if isDigit c then groupedFrom? isDigit (c :: found) false rest
    else if c = '_' then groupedFrom? isDigit found true rest
    else some (found.reverse, c :: rest)
  | false, [] => some (found.reverse, [])

/-- Digits of a class, one at least, and what is left behind them. -/
def grouped? (isDigit : Char → Bool) (cs : List Char) : Option (List Char × List Char) :=
  groupedFrom? isDigit [] true cs

/-- An optional sign, and what is left behind it. -/
def sign : List Char → List Char × List Char
  | '+' :: rest => (['+'], rest)
  | '-' :: rest => (['-'], rest)
  | rest => ([], rest)

/-- A decimal integer as written, without its underscores. -/
def decimal? (cs : List Char) : Option (List Char × List Char) :=
  let (signs, rest) := sign cs
  match rest with
  | '0' :: rest => some (signs ++ ['0'], rest)
  | rest => (grouped? Char.isDigit rest).map (fun p => (signs ++ p.1, p.2))

/-- The power of ten of a number. -/
def power? : List Char → Option (List Char × List Char)
  | e :: rest =>
    if e = 'e' || e = 'E' then
      let (signs, rest) := sign rest
      (grouped? Char.isDigit rest).map (fun p => ('e' :: signs ++ p.1, p.2))
    else none
  | [] => none

/-- The digits behind the point of a number. -/
def fraction? : List Char → Option (List Char × List Char)
  | '.' :: rest => (grouped? Char.isDigit rest).map (fun p => ('.' :: p.1, p.2))
  | _ => none

/-- A number with a point or a power of ten, as written. -/
def scientific? (cs : List Char) : Option (List Char × List Char) := do
  let (whole, rest) ← decimal? cs
  match power? rest with
  | some (power, rest) => some (whole ++ power, rest)
  | none =>
    let (fraction, rest) ← fraction? rest
    match rest with
    | c :: _ =>
      if c = 'e' || c = 'E' then
        let (power, rest) ← power? rest
        some (whole ++ fraction ++ power, rest)
      else some (whole ++ fraction, rest)
    | [] => some (whole ++ fraction, rest)

/-- The words for what is not finite or no number. -/
def special? (cs : List Char) : Option (List Char × List Char) :=
  let (signs, rest) := sign cs
  match rest with
  | 'i' :: 'n' :: 'f' :: rest => some (signs ++ ['i', 'n', 'f'], rest)
  | 'n' :: 'a' :: 'n' :: rest => some (signs ++ ['n', 'a', 'n'], rest)
  | _ => none

/-- A floating-point number. One that is written in digits must not exceed all numbers. -/
def float? (cs : List Char) : Option (Double × List Char) :=
  match scientific? cs with
  | some (digits, rest) =>
    match Format.double.parse (String.ofList digits) with
    | .ok x => if x = Format.double.infinity false then none else some (x, rest)
    | .error _ => none
  | none => do
    let (word, rest) ← special? cs
    match Format.double.parse (String.ofList word) with
    | .ok x => some (x, rest)
    | .error _ => none

/-- A hexadecimal digit. -/
def isHexDigit (c : Char) : Bool :=
  c.isDigit || ('a' ≤ c && c ≤ 'f') || ('A' ≤ c && c ≤ 'F')

/-- An integer in another base than ten, which has to fit a signed word of 64 bits. -/
def based? (base : Nat) (isDigit : Char → Bool) (cs : List Char) :
    Option (Int × List Char) := do
  let (digits, rest) ← grouped? isDigit cs
  let n : Int := Numeral.ofChars base digits
  if n ≤ Integer.maxValue then some (n, rest) else none

/-- An integer. -/
def integer? : List Char → Option (Int × List Char)
  | '0' :: 'x' :: rest => based? 16 isHexDigit rest
  | '0' :: 'o' :: rest => based? 8 (fun c => '0' ≤ c && c ≤ '7') rest
  | '0' :: 'b' :: rest => based? 2 (fun c => c == '0' || c == '1') rest
  | cs => do
    let (digits, rest) ← decimal? cs
    match Integer.parse (String.ofList digits) with
    | .ok n => some (n, rest)
    | .error _ => none

/-! ### Dates and times -/

/-- A number of exactly `count` digits between two bounds. -/
def field? (count low high : Nat) (cs : List Char) : Option (Nat × List Char) :=
  let digits := cs.take count
  let n := Numeral.ofChars 10 digits
  if digits.length = count && digits.all Char.isDigit && low ≤ n && n ≤ high then
    some (n, cs.drop count)
  else none

/-- What is left behind a given character. -/
def char? (c : Char) : List Char → Option (List Char)
  | d :: rest => if c = d then some rest else none
  | [] => none

/-- The number of days of a month. -/
def daysInMonth (year month : Nat) : Nat :=
  if month = 2 then
    if year % 4 = 0 && (year % 100 != 0 || year % 400 = 0) then 29 else 28
  else if month = 4 || month = 6 || month = 9 || month = 11 then 30
  else 31

/-- A date. -/
def date? (cs : List Char) : Option (List Char) := do
  let (year, cs) ← field? 4 0 9999 cs
  let cs ← char? '-' cs
  let (month, cs) ← field? 2 1 12 cs
  let cs ← char? '-' cs
  let (_, cs) ← field? 2 1 (daysInMonth year month) cs
  some cs

/-- The part of a second behind a point, if there is one. -/
def secondFraction? : List Char → Option (List Char)
  | '.' :: rest =>
    if (rest.takeWhile Char.isDigit).isEmpty then some ('.' :: rest)
    else some (rest.dropWhile Char.isDigit)
  | cs => some cs

/-- A time of day. -/
def time? (cs : List Char) : Option (List Char) := do
  let (_, cs) ← field? 2 0 23 cs
  let cs ← char? ':' cs
  let (_, cs) ← field? 2 0 59 cs
  let cs ← char? ':' cs
  let (_, cs) ← field? 2 0 60 cs
  secondFraction? cs

/-- The distance of a time from the standard one, if it is given. -/
def zone? : List Char → Option (List Char)
  | c :: rest =>
    if c = 'Z' || c = 'z' then some rest
    else if c = '+' || c = '-' then do
      let (_, cs) ← field? 2 0 23 rest
      let cs ← char? ':' cs
      let (_, cs) ← field? 2 0 59 cs
      some cs
    else some (c :: rest)
  | [] => some []

/-- What is left behind a date, a time, or both: a letter or a blank stands between them, and only
together they may have a distance from the standard time. -/
def dateTime? (cs : List Char) : Option (List Char) :=
  match date? cs with
  | none => time? cs
  | some rest =>
    match rest with
    | c :: behind =>
      if c = 'T' || c = 't' || c = ' ' then
        match time? behind with
        | some rest => zone? rest
        | none => some (c :: behind)
      else some (c :: behind)
    | [] => some []

end NnetText.Toml
