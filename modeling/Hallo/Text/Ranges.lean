/-!
Character classes of a standard are kept as tables: sorted lists of disjoint closed ranges of
code points, searched from the front.
-/
namespace Hallo.Text

/-- Whether a code point lies in one of the ranges. The ranges stand in increasing order, so
    the search ends at the first range that begins beyond the code point. -/
def covers : List (Nat × Nat) → Nat → Bool
  | [], _ => false
  | (lo, hi) :: ranges, n => if n < lo then false else n ≤ hi || covers ranges n

end Hallo.Text
