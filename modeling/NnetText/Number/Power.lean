/-!
# Powers of the two bases

Numbers are held in base two and written in base ten, so that the powers of these two bases are
all that is needed.
-/

namespace NnetText

/-- A power of two. -/
def twoPow (k : Nat) : Nat := Nat.pow 2 k

/-- A power of ten. -/
def tenPow (k : Nat) : Nat := Nat.pow 10 k

theorem twoPow_succ (k : Nat) : twoPow (k + 1) = twoPow k * 2 := rfl

theorem twoPow_pos (k : Nat) : 0 < twoPow k := Nat.pow_pos (by decide)

theorem tenPow_pos (k : Nat) : 0 < tenPow k := Nat.pow_pos (by decide)

end NnetText
