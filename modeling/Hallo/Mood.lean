/-!
Moods, from the best to the worst. A level has the first mood whose bound lies above it.
-/
namespace Hallo

/-- How the worker or the shouter feels. -/
inductive Mood where
  | happy
  | glad
  | okay
  | sad
  | aggressive
  | depressive
  | deactivated
  deriving DecidableEq, Repr

namespace Mood

/-- The face shown for a mood. -/
def glyph : Mood → String
  | .happy => "=D"
  | .glad => "=)"
  | .okay => "=I"
  | .sad => "=("
  | .aggressive => "=X"
  | .depressive => "X/"
  | .deactivated => "Xc"

/-- The name of a mood. -/
def name : Mood → String
  | .happy => "HAPPY"
  | .glad => "GLAD"
  | .okay => "OKAY"
  | .sad => "SAD"
  | .aggressive => "AGGRESSIVE"
  | .depressive => "DEPRESSIVE"
  | .deactivated => "DEACTIVATED"

/-- The moods from the best to the worst. -/
def order : List Mood :=
  [.happy, .glad, .okay, .sad, .aggressive, .depressive, .deactivated]

/-- The usual bounds: at or above the last one nothing works any more. -/
def usualBounds : List Int := [20, 30, 40, 100, 1000, 10000]

/-- The mood at a level: the first whose bound lies above it. Without such a bound, or beyond
    the moods that have one, it is the worst. -/
def ofLevel (bounds : List Int) (level : Int) : Mood :=
  match (order.zip bounds).find? (fun (_, bound) => level < bound) with
  | some (mood, _) => mood
  | none => .deactivated

end Mood

end Hallo
