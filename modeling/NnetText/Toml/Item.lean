import NnetText.Toml.Number
import NnetText.Toml.Text

/-!
# Values of a document

A value is a string, a number, a truth value, a date, an array or a table. Of a date it matters
only that it is one. A table remembers how it came about, because that decides whether it may be
added to: a table written in braces is closed, one that a header names may not be named again, and
one that only a longer header or a longer key implies is still open.
-/

namespace NnetText.Toml

/-- How a table came about. -/
inductive Origin where
  /-- As the way to a table that a header names. -/
  | implied
  /-- As the way to a value that a key of several segments names. -/
  | dotted
  /-- By a header. -/
  | header
  /-- In braces. -/
  | inline
deriving DecidableEq, Repr

/-- A value, or a list of tables that headers add to, with the latest one apart from those before
it, which go back to the first. -/
inductive Item where
  | string (s : String)
  | integer (n : Int)
  | float (x : Double)
  | boolean (b : Bool)
  | dateTime
  | array (elements : List Item)
  | table (origin : Origin) (entries : List (String × Item))
  | tables (latest : List (String × Item)) (earlier : List (List (String × Item)))

/-- The entries of a table. -/
abbrev Entries := List (String × Item)

namespace Entries

/-- The entries with the value of a key replaced. -/
def replace (entries : Entries) (key : String) (item : Item) : Entries :=
  entries.map (fun e => if e.1 = key then (key, item) else e)

/-- A new entry. A key may not be given twice. -/
def add? (entries : Entries) (key : String) (item : Item) : Option Entries :=
  if (entries.lookup key).isSome then none else some (entries ++ [(key, item)])

/-- Writes a value under a key of several segments: `path` is the way to the table and `key` the
last segment. The way may lead through tables that are still open, but the table it ends in has
to have come about in the same manner. -/
def addDotted? (key : String) (item : Item) : List String → Entries → Option Entries
  | [], entries => entries.add? key item
  | name :: path, entries =>
    match entries.lookup name with
    | none => do
      let inner ← addDotted? key item path []
      some (entries ++ [(name, .table .dotted inner)])
    | some (.table origin inner) =>
      if origin = .dotted || (origin = .implied && !path.isEmpty) then do
        let inner ← addDotted? key item path inner
        some (entries.replace name (.table origin inner))
      else none
    | some (.tables latest earlier) =>
      if path.isEmpty then none
      else do
        let latest ← addDotted? key item path latest
        some (entries.replace name (.tables latest earlier))
    | some _ => none

/-- Changes the table that a header leads to, making the tables on the way. -/
def updateAt? (change : Entries → Option Entries) : List String → Entries → Option Entries
  | [], entries => change entries
  | name :: path, entries =>
    match entries.lookup name with
    | none => do
      let inner ← updateAt? change path []
      some (entries ++ [(name, .table .implied inner)])
    | some (.table origin inner) =>
      if origin = .inline then none
      else do
        let inner ← updateAt? change path inner
        some (entries.replace name (.table origin inner))
    | some (.tables latest earlier) => do
      let latest ← updateAt? change path latest
      some (entries.replace name (.tables latest earlier))
    | some _ => none

/-- Opens the table that a header names; it may exist only as the way to another one. -/
def openTable? (name : String) (entries : Entries) : Option Entries :=
  match entries.lookup name with
  | none => some (entries ++ [(name, .table .header [])])
  | some (.table .implied inner) => some (entries.replace name (.table .header inner))
  | some _ => none

/-- Opens another table of the list that a header names. -/
def openListed? (name : String) (entries : Entries) : Option Entries :=
  match entries.lookup name with
  | none => some (entries ++ [(name, .tables [] [])])
  | some (.tables latest earlier) => some (entries.replace name (.tables [] (latest :: earlier)))
  | some _ => none

end Entries

/-! ### Reading values -/

/-- What is left behind a given word. -/
def word? (word : List Char) (cs : List Char) : Option (List Char) :=
  if word.isPrefixOf cs then some (cs.drop word.length) else none

/-- A value that holds no others. -/
def scalar? (cs : List Char) : Option (Item × List Char) :=
  match cs with
  | [] => none
  | c :: _ =>
    if c = '"' || c = '\'' then (string? cs).map (fun p => (.string p.1, p.2))
    else if c = 't' then (word? ['t', 'r', 'u', 'e'] cs).map (fun r => (.boolean true, r))
    else if c = 'f' then (word? ['f', 'a', 'l', 's', 'e'] cs).map (fun r => (.boolean false, r))
    else
      match dateTime? cs with
      | some rest => some (.dateTime, rest)
      | none =>
        match float? cs with
        | some (x, rest) => some (.float x, rest)
        | none => (integer? cs).map (fun p => (.integer p.1, p.2))

mutual

/-- A value at a depth; `fuel` bounds the number of steps. -/
def value? (depth : Nat) : Nat → List Char → Option (Item × List Char)
  | 0, _ => none
  | fuel + 1, cs =>
    match cs with
    | '[' :: rest =>
      if depthLimit ≤ depth + 1 then none
      else (elements? (depth + 1) fuel [] rest).map (fun p => (.array p.1, p.2))
    | '\x7b' :: rest =>
      if depthLimit ≤ depth + 1 then none
      else
        match skipSpaces rest with
        | '\x7d' :: rest => some (.table .inline [], rest)
        | rest => (members? (depth + 1) fuel [] rest).map (fun p => (.table .inline p.1, p.2))
    | cs => scalar? cs

/-- The elements of an array up to its closing bracket, behind those found already, the last one
first; a comma may follow the last element. -/
def elements? (depth : Nat) : Nat → List Item → List Char → Option (List Item × List Char)
  | 0, _, _ => none
  | fuel + 1, found, cs =>
    match skipLayout false cs with
    | ']' :: rest => some (found.reverse, rest)
    | cs => do
      let (item, rest) ← value? depth fuel cs
      match skipLayout false rest with
      | ']' :: rest => some ((item :: found).reverse, rest)
      | ',' :: rest => elements? depth fuel (item :: found) rest
      | _ => none

/-- The members of a table in braces up to the closing one, behind those found already. -/
def members? (depth : Nat) : Nat → Entries → List Char → Option (Entries × List Char)
  | 0, _, _ => none
  | fuel + 1, entries, cs => do
    let (names, rest) ← key? cs
    let rest ← char? '=' rest
    let (item, rest) ← value? depth fuel (skipSpaces rest)
    let key ← names.getLast?
    let entries ← entries.addDotted? key item names.dropLast
    match skipSpaces rest with
    | '\x7d' :: rest => some (entries, rest)
    | ',' :: rest => members? depth fuel entries rest
    | _ => none

end

end NnetText.Toml
