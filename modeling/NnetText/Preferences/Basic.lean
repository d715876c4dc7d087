import NnetText.Log.Level

/-!
# Preferences

Five things can be chosen when the program runs, and none of them changes what is read or what
comes out of it: they only decide what is told on the way. They come in three groups. Each group
has its defaults, which are taken from variables of the environment, and from a built-in choice
where a variable is not set or means nothing.
-/

namespace NnetText

/-- What is reported about model files. -/
structure FilePreferences where
  /-- Whether sizes and speeds are reported. -/
  performance : Bool
deriving DecidableEq, Repr

/-- What is reported about reading a section. -/
structure ReadingPreferences where
  /-- Whether tags that were passed over are reported. -/
  skippedTags : Bool
  /-- Whether each complete component is reported. -/
  componentSummaries : Bool
deriving DecidableEq, Repr

/-- What the log looks like. -/
structure LogPreferences where
  /-- Whether events are written as documents instead of lines. -/
  structured : Bool
  /-- The least serious level that is kept. -/
  least : Level
deriving DecidableEq, Repr

/-- All preferences. -/
structure Preferences where
  file : FilePreferences
  reading : ReadingPreferences
  log : LogPreferences
deriving DecidableEq, Repr

/-! ### The environment -/

/-- The values of named variables, where they are set. -/
abbrev Environment := String → Option String

namespace Environment

/-- The variable that chooses whether sizes and speeds are reported. -/
def performanceName : String := "NNET3_ENABLE_PERFORMANCE_LOGGING"

/-- The variable that chooses whether skipped tags are reported. -/
def skippedTagsName : String := "NNET3_PARSER_LOG_SKIPPED_TAGS"

/-- The variable that chooses whether components are reported. -/
def componentSummariesName : String := "NNET3_PARSER_LOG_COMPONENT_SUMMARIES"

/-- The variable that chooses the form of the log. -/
def structuredName : String := "NNET3_LOGGING_USE_STRUCTURED"

/-- The variable that chooses the level of the log. -/
def leastName : String := "NNET3_LOGGING_MIN_LEVEL"

/-- All variables that are looked at. -/
def names : List String :=
  [performanceName, skippedTagsName, componentSummariesName, structuredName, leastName]

/-- A truth value is written out exactly; any other text is none. -/
def truth? (s : String) : Option Bool :=
  if s = "true" then some true else if s = "false" then some false else none

/-- The truth value of a variable. One that is not set or means nothing leaves the built-in
choice. -/
def flag (env : Environment) (name : String) (builtIn : Bool) : Bool :=
  ((env name).bind truth?).getD builtIn

/-- The level of a variable. One that is not set or means nothing leaves the built-in choice. -/
def level (env : Environment) (name : String) (builtIn : Level) : Level :=
  ((env name).bind (fun s => (Level.parse s).toOption)).getD builtIn

end Environment

/-! ### Defaults -/

/-- The defaults for model files. -/
def FilePreferences.default (env : Environment) : FilePreferences where
  performance := env.flag Environment.performanceName true

/-- The defaults for reading. -/
def ReadingPreferences.default (env : Environment) : ReadingPreferences where
  skippedTags := env.flag Environment.skippedTagsName false
  componentSummaries := env.flag Environment.componentSummariesName true

/-- The defaults for the log. -/
def LogPreferences.default (env : Environment) : LogPreferences where
  structured := env.flag Environment.structuredName false
  least := env.level Environment.leastName .info

namespace Preferences

/-- **The defaults of all groups.** -/
def default (env : Environment) : Preferences where
  file := .default env
  reading := .default env
  log := .default env

/-- The preferences with only errors kept in the log. -/
def quieted (p : Preferences) : Preferences := { p with log := { p.log with least := .error } }

end Preferences

end NnetText
