/-!
# The blanks between tokens

Everything in a model text is told apart by white space, and white space is the property of
that name in the character database: the five controls from the tab to the carriage return,
the space, the next-line control and the space-like characters of the other blocks.
-/

namespace NnetText

/-- White space. It is what ends a token, and a line feed is one of its members. -/
def isBlank (c : Char) : Bool :=
  let n := c.toNat
  (0x09 ≤ n && n ≤ 0x0D) || n == 0x20 || n == 0x85 || n == 0xA0 || n == 0x1680 ||
    (0x2000 ≤ n && n ≤ 0x200A) || n == 0x2028 || n == 0x2029 || n == 0x202F || n == 0x205F ||
    n == 0x3000

theorem isBlank_lineFeed : isBlank '\n' = true := by decide

end NnetText
