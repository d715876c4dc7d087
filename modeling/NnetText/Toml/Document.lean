import NnetText.Toml.Item

/-!
# Documents

A document is a list of lines: a key with its value, a header that names the table to which the
keys below it belong, or nothing but layout. Reading it gives the entries of the outermost table.

What is read from documents goes through a `Decoder`, which is given as a value, since nothing but
its words for what is wrong depends on how it works. `Toml.decoder` is one.
-/

namespace NnetText.Toml

/-- A line that says something. -/
inductive Statement where
  | assign (path : List String) (key : String) (item : Item)
  | openTable (path : List String) (name : String)
  | openListed (path : List String) (name : String)

/-- The last segment of a key and the way to it. -/
def splitKey? (names : List String) : Option (List String × String) :=
  names.getLast?.map (fun last => (names.dropLast, last))

/-- A key and its value, up to the end of the line; `fuel` bounds the number of steps in the
value. -/
def assignment? (fuel : Nat) (cs : List Char) : Option (Statement × List Char) := do
  let (names, rest) ← key? cs
  let rest ← char? '=' rest
  let (item, rest) ← value? 0 fuel (skipSpaces rest)
  let rest ← restOfLine? rest
  let (path, key) ← splitKey? names
  some (.assign path key item, rest)

/-- A header, up to the end of the line. -/
def heading? : List Char → Option (Statement × List Char)
  | '[' :: '[' :: cs => do
    let (names, rest) ← key? cs
    let rest ← (word? [']', ']'] rest).bind restOfLine?
    let (path, name) ← splitKey? names
    some (.openListed path name, rest)
  | '[' :: cs => do
    let (names, rest) ← key? cs
    let rest ← (char? ']' rest).bind restOfLine?
    let (path, name) ← splitKey? names
    some (.openTable path name, rest)
  | _ => none

/-- The statements of a text, behind those found already, the last one first; `fuel` bounds the
number of lines and of the steps in a value. -/
def statements? : Nat → List Statement → List Char → Option (List Statement)
  | 0, _, _ => none
  | fuel + 1, found, cs =>
    match skipSpaces cs with
    | [] => some found.reverse
    | '#' :: rest => do
      let rest ← lineEnd? (skipComment ('#' :: rest))
      statements? fuel found rest
    | '[' :: rest => do
      let (statement, rest) ← heading? ('[' :: rest)
      statements? fuel (statement :: found) rest
    | cs =>
      match newline? cs with
      | some rest => statements? fuel found rest
      | none => do
        let (statement, rest) ← assignment? fuel cs
        statements? fuel (statement :: found) rest

/-- The entries found so far and the way to the table that keys are added to. -/
structure Building where
  entries : Entries
  current : List String

/-- The effect of a statement. -/
def Building.step? (b : Building) : Statement → Option Building
  | .assign path key item => do
    let entries ← b.entries.updateAt? (fun e => e.addDotted? key item path) b.current
    some { b with entries }
  | .openTable path name => do
    let entries ← b.entries.updateAt? (fun e => e.openTable? name) path
    some ⟨entries, path ++ [name]⟩
  | .openListed path name => do
    let entries ← b.entries.updateAt? (fun e => e.openListed? name) path
    some ⟨entries, path ++ [name]⟩

/-- What is left behind a byte-order mark, if there is one. -/
def skipMark : List Char → List Char
  | '﻿' :: rest => rest
  | cs => cs

/-- **The outermost table of a document**, if the text is well-formed. -/
def parse? (text : List Char) : Option Entries := do
  let cs := skipMark text
  let statements ← statements? (3 * cs.length + 8) [] cs
  let building ← statements.foldlM Building.step? ⟨[], []⟩
  some building.entries

/-- A way to decode documents, with the words for what is wrong with them. -/
structure Decoder where
  /-- The outermost table of a text, or why there is none. -/
  decode : List Char → Except String Entries
  /-- Why a text that can be decoded does not fit what is asked of it. -/
  misfit : List Char → String

/-- The decoder of this library, which does not say much about what is wrong. -/
def decoder : Decoder where
  decode text := (parse? text).elim (.error "not a document") .ok
  misfit _ := "not a document of preferences"

end NnetText.Toml
