import Hallo.Chance
import Hallo.Mood
import Hallo.Text.Uppercase

/-!
The shouter, through which programs print. The louder it shouts, the more letters come out as
capitals and the more its voice suffers, until it can only cough. A robot says what it is told.
-/
namespace Hallo

/-- A shouter: its manner, the pause before each shout in milliseconds and per unit of
    intensity, and the damage its voice has taken. -/
structure Shouter where
  robot : Bool := false
  delay : Int := 50
  voiceDamage : Int := 0

/-- What came of an attempt to shout: the line that was written, and the nap before it. -/
structure Shout where
  line : String
  nap : Option Int := none

namespace Shouter

/-- Voice damage above this leaves only coughs. -/
def voiceLimit : Int := 1000

/-- The sounds of a lost voice. -/
def coughs : List String := ["*hust*", "*keuch*", "*arr*"]

/-- How the shouter feels. -/
def mood (shouter : Shouter) : Mood :=
  .ofLevel Mood.usualBounds shouter.voiceDamage

/-- Shout characters one by one: each comes out as a capital with the given chance in
    percent, and each takes one draw. -/
def shoutAll (chance : Int) : List Char → Dice → List Char × Dice
  | [], dice => ([], dice)
  | c :: text, dice =>
    let (roll, dice) := dice.below 100
    let (shouted, dice) := shoutAll chance text dice
    ((if (roll : Int) < chance then Text.uppercase c else [c]) ++ shouted, dice)

/-- Print a text with the given intensity. -/
def emit (shouter : Shouter) (intensity : Int) (text : String) (dice : Dice) :
    Shout × Shouter × Dice :=
  if shouter.robot then
    ({ line := text }, shouter, dice)
  else if voiceLimit < shouter.voiceDamage then
    let (choice, dice) := dice.below coughs.length
    ({ line := shouter.mood.glyph ++ " " ++ coughs.getD choice "" }, shouter, dice)
  else
    let (shouted, dice) := shoutAll ((intensity - 1) * 10) text.toList dice
    ({ line := String.ofList shouted, nap := some (shouter.delay * intensity) },
      { shouter with voiceDamage := shouter.voiceDamage + intensity }, dice)

end Shouter

end Hallo
