import NnetText.Text.Lowercase

/-!
# Levels of the log

Events have one of four levels, from errors down to details for debugging. A log that keeps a
level keeps all more serious ones.
-/

namespace NnetText

/-- How serious an event is. -/
inductive Level where
  | error
  | warning
  | info
  | debug
deriving DecidableEq, Repr

namespace Level

/-- All levels, most serious first. -/
def all : List Level := [error, warning, info, debug]

/-- The place of a level in the order, from the most serious on. -/
def rank : Level → Nat
  | error => 0
  | warning => 1
  | info => 2
  | debug => 3

/-- The label of a level in a log line. -/
def label : Level → String
  | error => "ERROR"
  | warning => "WARN"
  | info => "INFO"
  | debug => "DEBUG"

/-- The name of a level in documents. -/
def name : Level → String
  | error => "error"
  | warning => "warning"
  | info => "info"
  | debug => "debug"

/-- Whether a log that keeps events down to `least` keeps events of this level. -/
def keptAt (level least : Level) : Bool := level.rank ≤ least.rank

/-- The level with exactly the given name. -/
def ofName? (s : String) : Option Level :=
  all.find? (fun l => l.name = s)

/-- The level that a text means, in any case: a name, a short form or a rank. The text of the
failure is the lower-case form that meant nothing. -/
def parse (s : String) : Except String Level :=
  let lower := Text.lowercase s
  if lower = "error" || lower = "0" then .ok error
  else if lower = "warning" || lower = "warn" || lower = "1" then .ok warning
  else if lower = "info" || lower = "2" then .ok info
  else if lower = "debug" || lower = "3" then .ok debug
  else .error ("unknown log level '" ++ lower ++ "'")

end Level

end NnetText
