import NnetText.Text.CaseTable
import NnetText.Text.LowercaseTable

/-!
# Lower case

Texts are compared without regard to case by bringing them into lower case first. Each letter is
replaced on its own, with two exceptions: the capital I with a dot becomes two characters, and a
capital sigma at the end of a word has a form of its own.
-/

namespace NnetText.Text

/-- Whether a character lies in one of the ranges. -/
def inRanges (ranges : List (Nat × Nat)) (c : Char) : Bool :=
  ranges.any (fun r => r.1 ≤ c.toNat && c.toNat ≤ r.2)

/-- Capital, small and title-case letters. -/
def isCased (c : Char) : Bool := inRanges casedRanges c

/-- Characters that do not part a letter from its neighbours. -/
def isCaseIgnorable (c : Char) : Bool := inRanges caseIgnorableRanges c

namespace CaseStretch

/-- Whether a stretch lists a character as a capital. -/
def contains (s : CaseStretch) (c : Char) : Bool :=
  s.first ≤ c.toNat && c.toNat ≤ s.last && (c.toNat - s.first) % s.step == 0

end CaseStretch

/-- The lower-case form of a character that stands alone. -/
def lowerChar (c : Char) : List Char :=
  if c = '\u0130' then ['i', '\u0307']
  else
    match lowercaseStretches.find? (fun s => s.contains c) with
    | some s => [Char.ofNat (c.toNat + s.distance).toNat]
    | none => [c]

/-- Whether the first character that is not ignored is cased. -/
def meetsCased (cs : List Char) : Bool :=
  match cs.dropWhile isCaseIgnorable with
  | [] => false
  | c :: _ => isCased c

/-- The lower-case form of a text, of which `before` has been passed, nearest character first. A
sigma ends a word when a cased letter stands before it and none behind it. -/
def lowerFrom (before : List Char) : List Char → List Char
  | [] => []
  | c :: rest =>
    let lowered :=
      if c = 'Σ' then [if meetsCased before && !meetsCased rest then 'ς' else 'σ']
      else lowerChar c
    lowered ++ lowerFrom (c :: before) rest

/-- **The lower-case form of a text.** -/
def lowercase (s : String) : String :=
  String.ofList (lowerFrom [] s.toList)

end NnetText.Text
