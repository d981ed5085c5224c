/-!
Chance and time. Dice and clock are sequences of numbers fixed in advance, together with how
many of them are used up; so a run is a function of its dice and its clock.
-/
namespace Hallo

/-- A sequence of random numbers and how many of them are used up. -/
structure Dice where
  faces : Nat → Nat
  drawn : Nat := 0

namespace Dice

/-- Draw the next number. -/
def draw (dice : Dice) : Nat × Dice :=
  (dice.faces dice.drawn, { dice with drawn := dice.drawn + 1 })

/-- Draw a number from `0` to `count - 1`. -/
def below (dice : Dice) (count : Nat) : Nat × Dice :=
  (dice.draw.1 % count, dice.draw.2)

/-- Draw an integer from a range, both ends included. -/
def within (dice : Dice) (range : Int × Int) : Int × Dice :=
  (range.1 + Int.fmod dice.draw.1 (range.2 - range.1 + 1), dice.draw.2)

/-- Dice that repeat a list of numbers for ever. -/
def cycling (numbers : List Nat) : Dice :=
  { faces := fun n => numbers.getD (n % numbers.length) 0 }

end Dice

/-- A sequence of times and how often the clock was read. -/
structure Clock where
  times : Nat → Int
  taken : Nat := 0

namespace Clock

/-- Read the clock. -/
def read (clock : Clock) : Int × Clock :=
  (clock.times clock.taken, { clock with taken := clock.taken + 1 })

/-- The time that the next reading will give. -/
def now (clock : Clock) : Int :=
  clock.times clock.taken

/-- The time that the latest reading gave. -/
def last (clock : Clock) : Int :=
  clock.times (clock.taken - 1)

/-- A clock that moves on by the same amount with every reading. -/
def ticking (start tick : Int) : Clock :=
  { times := fun n => start + n * tick }

end Clock

end Hallo
