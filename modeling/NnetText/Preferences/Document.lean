import NnetText.Directory
import NnetText.Log.Code
import NnetText.Preferences.Basic
import NnetText.Toml.Document

/-!
# Preferences from a document

A TOML document chooses preferences in three sections, one for each group. A section is a table of
named choices or an array that lists them in order; either may leave some open, and these are taken
from the defaults of the group. A date stands for a section that leaves everything open. A section
that is left out is the defaults of its group. Keys that mean nothing are passed over.

The document is decoded first, by a decoder that is given (`Toml.Decoder`), with words of its own
for a document that it cannot make anything of.
-/

namespace NnetText

open Toml (Item Entries)

/-- A section of a document, as a way to find a choice by its place and its name. -/
inductive PreferenceSection where
  | named (entries : Entries)
  | listed (elements : List Item)

namespace PreferenceSection

/-- A section that leaves everything open. -/
def blank : PreferenceSection := .named []

/-- The section that an item is, if it is one. -/
def ofItem? : Item → Option PreferenceSection
  | .table _ entries => some (.named entries)
  | .array elements => some (.listed elements)
  | .tables latest earlier =>
    some (.listed ((latest :: earlier).reverse.map (.table .header)))
  | .dateTime => some blank
  | _ => none

/-- The item at a place or under a name. -/
def item? (s : PreferenceSection) (place : Nat) (name : String) : Option Item :=
  match s with
  | .named entries => entries.lookup name
  | .listed elements => elements[place]?

/-- A choice that is taken from the defaults if it is left open, and must not be anything else. -/
def choice? {α : Type} (s : PreferenceSection) (read : Item → Option α) (place : Nat)
    (name : String) (default : α) : Option α :=
  match s.item? place name with
  | none => some default
  | some item => read item

end PreferenceSection

namespace Toml

/-- A truth value. -/
def Item.truth? : Item → Option Bool
  | .boolean b => some b
  | _ => none

/-- Whether an item holds nothing. -/
def Item.isHollow : Item → Bool
  | .table _ entries => entries.isEmpty
  | .array elements => elements.isEmpty
  | _ => false

/-- A level: its name, or a table with the name as its only key and nothing under it. -/
def Item.level? : Item → Option Level
  | .string s => Level.ofName? s
  | .table _ [(name, item)] => if item.isHollow then Level.ofName? name else none
  | _ => none

end Toml

/-! ### Groups of preferences -/

/-- The group in a section of a document: the defaults if the section is left out, and what `read`
makes of it otherwise. -/
def Toml.Entries.group? {α : Type} (entries : Entries) (name : String)
    (read : PreferenceSection → Option α) (default : α) : Option α :=
  match entries.lookup name with
  | none => some default
  | some item => (PreferenceSection.ofItem? item).bind read

/-- The preferences about model files in a section. -/
def FilePreferences.ofSection? (env : Environment) (s : PreferenceSection) :
    Option FilePreferences := do
  let default := FilePreferences.default env
  let performance ← s.choice? Item.truth? 0 "enable_performance_logging" default.performance
  some { performance }

/-- The preferences about reading in a section. -/
def ReadingPreferences.ofSection? (env : Environment) (s : PreferenceSection) :
    Option ReadingPreferences := do
  let default := ReadingPreferences.default env
  let skippedTags ← s.choice? Item.truth? 0 "log_skipped_tags" default.skippedTags
  let componentSummaries ←
    s.choice? Item.truth? 1 "log_component_summaries" default.componentSummaries
  some { skippedTags, componentSummaries }

/-- The preferences about the log in a section. -/
def LogPreferences.ofSection? (env : Environment) (s : PreferenceSection) :
    Option LogPreferences := do
  let default := LogPreferences.default env
  let structured ← s.choice? Item.truth? 0 "use_structured_logging" default.structured
  let least ← s.choice? Item.level? 1 "min_log_level" default.least
  some { structured, least }

/-- **The preferences in the outermost table of a document**, if every choice in it is one. -/
def Preferences.ofEntries? (env : Environment) (entries : Entries) : Option Preferences := do
  let default := Preferences.default env
  let file ← entries.group? "file_processor" (FilePreferences.ofSection? env) default.file
  let reading ← entries.group? "parser" (ReadingPreferences.ofSection? env) default.reading
  let log ← entries.group? "logging" (LogPreferences.ofSection? env) default.log
  some { file, reading, log }

/-! ### Loading -/

/-- Why preferences could not be loaded. -/
inductive PreferencesError where
  | unreadable (path reason : String)
  | invalidDocument (reason : String)
deriving DecidableEq, Repr

namespace PreferencesError

/-- The words of an error. -/
def message : PreferencesError → String
  | unreadable path reason =>
    "Failed to read configuration file '" ++ path ++ "': " ++ reason
  | invalidDocument reason => "Invalid TOML in configuration file: " ++ reason

/-- The code of all these errors. -/
def code (_ : PreferencesError) : Code := .configurationError

end PreferencesError

namespace Preferences

/-- **The preferences of a document** in an environment. -/
def ofDocument (decoder : Toml.Decoder) (env : Environment) (text : List Char) :
    Except PreferencesError Preferences :=
  match decoder.decode text with
  | .error reason => .error (.invalidDocument reason)
  | .ok entries =>
    match ofEntries? env entries with
    | some p => .ok p
    | none => .error (.invalidDocument (decoder.misfit text))

/-- The preferences of the document that a path leads to. -/
def ofFile (decoder : Toml.Decoder) (env : Environment) (path : String) (lookup : Lookup) :
    Except PreferencesError Preferences :=
  match lookup.text with
  | .ok text => ofDocument decoder env text
  | .error reason => .error (.unreadable path reason)

end Preferences

end NnetText
