/-!
# Places in the input

A place is a line, counted from one, and a byte offset in it. Line zero stands for the place
before the first line.
-/

namespace NnetText

/-- A place in the input. -/
structure Position where
  line : Nat
  offset : Nat
deriving DecidableEq, Repr, Inhabited

namespace Position

/-- The words a place is reported in. -/
def text (p : Position) : String :=
  "line " ++ toString p.line ++ ", offset " ++ toString p.offset

/-- Reading order: lines first, then offsets. -/
def compare (p q : Position) : Ordering :=
  (Ord.compare p.line q.line).then (Ord.compare p.offset q.offset)

end Position

end NnetText
