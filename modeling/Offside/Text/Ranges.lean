/-!
# Tables of code points

A Unicode property is a set of code points. It is kept as a list of ranges, each with a step, and
looked up from the front; the tables are sorted, so the search ends at the first range that starts
above the code point.
-/

set_option autoImplicit false

namespace Offside.Text

/-- The code points `first`, `first + step`, … up to `last`. -/
structure CodeRange where
  first : Nat
  last : Nat
  step : Nat
deriving DecidableEq, Repr

/-- The code point lies in the range. -/
def CodeRange.holds (r : CodeRange) (n : Nat) : Bool :=
  r.first ≤ n && n ≤ r.last && (n - r.first) % r.step == 0

/-- Membership in a table whose ranges are sorted by their first code point. -/
def inTable : List CodeRange → Nat → Bool
  | [], _ => false
  | r :: rest, n => if n < r.first then false else r.holds n || inTable rest n

end Offside.Text
