/-!
Decimal numerals. Numbers themselves have no bound, but a numeral has: neither reading nor
writing goes beyond 4300 digits.
-/
namespace Hallo.Decimal

/-- The most digits a numeral may have. -/
def digitLimit : Nat := 4300

/-- The least number whose numeral would be too long. -/
def bound : Nat := Nat.pow 10 digitLimit

/-- A number whose numeral has at most `digitLimit` digits, the sign not counted. -/
def Writable (n : Int) : Prop := n.natAbs < bound

instance (n : Int) : Decidable (Writable n) :=
  inferInstanceAs (Decidable (n.natAbs < bound))

/-- The value of a run of ASCII digits, read from the left. Leading zeros add nothing. -/
def value (digits : List Char) : Nat :=
  digits.foldl (fun n digit => 10 * n + (digit.toNat - '0'.toNat)) 0

/-- The numeral of a number of any size: its digits without leading zeros, behind a minus
    sign where it is negative. -/
def text : Int → String
  | .ofNat n => Nat.repr n
  | .negSucc n => "-" ++ Nat.repr (n + 1)

/-- The numeral of a number, if it is short enough to be written. -/
def text? (n : Int) : Option String :=
  if Writable n then some (text n) else none

end Hallo.Decimal
