import Hallo.Chance
import Hallo.Mood
import Hallo.Node

/-!
The worker. Every node that is visited tires it; an exhausted worker that was left alone for
long enough wants to be asked after. A strict worker does not tire and wants nothing.
-/
namespace Hallo

/-- What a worker is hired for. -/
structure Contract where
  strict : Bool := false
  bounds : List Int := Mood.usualBounds
  maxGrowth : Int := 5
  cooldownRange : Int × Int := (30, 120)
  deriving DecidableEq, Repr

/-- A worker: its contract, how tired it is, the mood it announced last, when it last rested and
    for how long it is content after that. -/
structure Worker where
  contract : Contract
  fatigue : Int := 0
  announced : Mood := .happy
  lastReset : Int
  cooldown : Int
  deriving DecidableEq, Repr

namespace Worker

/-- A fresh worker. The clock is read, then the first cooldown is drawn. -/
def hire (contract : Contract) (dice : Dice) (clock : Clock) : Worker × Dice × Clock :=
  let (time, clock) := clock.read
  let (cooldown, dice) := dice.within contract.cooldownRange
  ({ contract := contract, lastReset := time, cooldown := cooldown }, dice, clock)

/-- How the worker feels. -/
def mood (worker : Worker) : Mood :=
  .ofLevel worker.contract.bounds worker.fatigue

/-- Whether the worker is at its end. -/
def exhausted (worker : Worker) : Bool :=
  worker.mood = .deactivated

/-- Announce the mood. Tells whether it differs from the one announced before. -/
def announce (worker : Worker) : Bool × Worker :=
  (worker.mood ≠ worker.announced, { worker with announced := worker.mood })

/-- One node was visited. Tells whether this changed the mood. -/
def call (worker : Worker) (dice : Dice) : Bool × Worker × Dice :=
  if worker.contract.strict then
    (false, worker, dice)
  else
    let (growth, dice) := dice.within (1, worker.contract.maxGrowth)
    let tired := { worker with fatigue := worker.fatigue + growth }
    let (changed, worker) := tired.announce
    (changed, worker, dice)

/-- Whether the cooldown since the last rest is over. -/
def cooledDown (worker : Worker) (clock : Clock) : Bool × Clock :=
  let (time, clock) := clock.read
  (worker.cooldown ≤ time - worker.lastReset, clock)

/-- Whether the worker stops to ask about a node. Literals are never asked about, and the
    clock is read only by an exhausted worker. -/
def wantsCheck (worker : Worker) (node : Node) (clock : Clock) : Bool × Clock :=
  if worker.contract.strict || node.isLiteral || !worker.exhausted then (false, clock)
  else worker.cooledDown clock

/-- Rested again, with a new cooldown. -/
def reset (worker : Worker) (dice : Dice) (clock : Clock) : Worker × Dice × Clock :=
  let (time, clock) := clock.read
  let (cooldown, dice) := dice.within worker.contract.cooldownRange
  ({ worker with fatigue := 0, lastReset := time, cooldown := cooldown }, dice, clock)

end Worker

end Hallo
