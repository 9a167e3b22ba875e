/-!
# Powers

Binary numbers are scaled by powers of two and decimal ones by powers of ten. They are given names, so that they are the
same terms wherever they are used.
-/

namespace SentenceQuery

/-- `2^n`. -/
def twoPow (n : Nat) : Nat := Nat.pow 2 n

/-- `10^n`. -/
def tenPow (n : Nat) : Nat := Nat.pow 10 n

theorem twoPow_pos (n : Nat) : 0 < twoPow n := Nat.pow_pos (by decide)

theorem tenPow_pos (n : Nat) : 0 < tenPow n := Nat.pow_pos (by decide)

end SentenceQuery
