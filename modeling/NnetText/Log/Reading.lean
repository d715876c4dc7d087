import NnetText.Log.Event
import NnetText.Notice
import NnetText.ParseError
import NnetText.Preferences.Basic

/-!
# What reading a text reports

Errors and notices know nothing of the log. Here each gets the event that reports it; the
preferences decide which notices are reported at all.
-/

namespace NnetText

namespace ParseError

/-- The code of an error. Both kinds of numbers share one. -/
def code : ParseError → Code
  | invalidComponentType _ _ => .invalidComponentType
  | invalidBoolean _ _ => .invalidBoolean
  | invalidInteger _ _ _ | invalidFloat _ _ _ => .invalidNumber
  | missingValue _ _ => .missingValue
  | expectedOpenBracket _ _ => .expectedOpenBracket
  | unterminatedVector _ => .unterminatedVector
  | unterminatedMatrix _ => .unterminatedMatrix
  | raggedMatrix _ _ _ _ => .raggedMatrix
  | tooManyElements _ _ _ => .tooManyElements
  | unexpectedEndOfInput _ => .unexpectedEndOfInput
  | unsupportedComponentType _ _ => .unsupportedComponentType
  | tooManyComponents _ => .tooManyComponents
  | inconsistentAttributes _ _ => .inconsistentAttributes

/-- The event that reports an error, at its place if it has one. -/
def event (e : ParseError) : Event :=
  { Event.error e.code e.message with position := e.position? }

end ParseError

namespace Notice

/-- The event that reports a notice, if it is to be reported. -/
def event? (p : ReadingPreferences) : Notice → Option Event
  | unreadableLine reason =>
    some ((Event.error .ioError "Failed to read line from input").withContext
      [("error", reason)])
  | skippedTag component tag place =>
    if p.skippedTags then
      some ((Event.debug "Skipping unrecognized tag").withContext
        [("component", component), ("tag", tag), ("position", place.text)])
    else none
  | componentRead id name typeTag attributes constants =>
    if p.componentSummaries then
      some ((Event.success .componentRead "Component parsed").withContext
        [("id", toString id), ("name", name), ("type", typeTag),
          ("attributes", toString attributes), ("constants", toString constants)])
    else none
  | sectionRead components lines =>
    some ((Event.success .sectionRead "Component section read").withContext
      [("components", toString components), ("lines", toString lines)])

/-- The events that report notices. -/
def events (p : ReadingPreferences) (notices : List Notice) : List Event :=
  notices.filterMap (event? p)

end Notice

end NnetText
