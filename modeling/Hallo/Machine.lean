import Hallo.CallStack
import Hallo.Event
import Hallo.Fault
import Hallo.Shouter
import Hallo.Value.Answer
import Hallo.Worker

/-!
The state of a running program and the actions on it: writing, shouting, asking, and what the
worker does after each node.
-/
namespace Hallo

/-- Everything a run depends on and changes. The log has the latest event first. -/
structure Machine where
  stack : CallStack := {}
  worker : Worker
  shouter : Shouter
  dice : Dice
  clock : Clock
  answers : List (Option String) := []
  log : List Event := []

/-- A fresh machine. Its worker is hired at once, also where it is strict. -/
def Machine.start (strict : Bool) (dice : Dice) (clock : Clock)
    (answers : List (Option String)) : Machine :=
  let (worker, dice, clock) := Worker.hire { strict := strict } dice clock
  { worker := worker
    shouter := { robot := strict }
    dice := dice
    clock := clock
    answers := answers }

/-- What happened so far, in order. -/
def Machine.events (machine : Machine) : List Event :=
  machine.log.reverse

/-- An action on the machine. What it has changed stays changed when it fails. -/
abbrev Run := EStateM Halt Machine

namespace Run

/-- Fail. -/
def fail {α : Type} (fault : Fault) : Run α :=
  throw (.fault fault)

/-- Break a rule of the language. -/
def violate {α : Type} (violation : Violation) : Run α :=
  fail (.violation violation)

/-- A text that must be writable. -/
def writable {α : Type} : Except Unwritable α → Run α
  | .ok text => pure text
  | .error reason => fail (.unwritable reason)

/-- A value's display, which must be writable. -/
def display (value : Value) : Run String :=
  writable (Unwritable.unlessLong value.display)

/-- The frame of the innermost call. -/
def top : Run Frame := do
  return (← get).stack.top

/-- Change the frame of the innermost call. -/
def setTop (frame : Frame) : Run Unit :=
  modify fun machine => { machine with stack := machine.stack.setTop frame }

/-- Note an event. -/
def note (event : Event) : Run Unit :=
  modify fun machine => { machine with log := event :: machine.log }

/-- Write a line. -/
def write (text : String) : Run Unit :=
  note (.line text)

/-- Ask a question. At the end of the input the answer is empty. -/
def ask (asker : Asker) (prompt : String) : Run String := do
  let machine ← get
  let answer := machine.answers.head?.join
  set { machine with answers := machine.answers.tail }
  note (.question asker prompt answer)
  return answer.getD ""

/-- Let the shouter print a text. -/
def shout (intensity : Int) (text : String) : Run Unit := do
  let machine ← get
  let (shout, shouter, dice) := machine.shouter.emit intensity text machine.dice
  set { machine with shouter := shouter, dice := dice }
  match shout.nap with
  | some nap => note (.nap nap)
  | none => pure ()
  note (.shout intensity text shout.line)

/-- End the run because the worker was given a wrong answer. -/
def abort {α : Type} (expected : Value) (answer : String) : Run α := do
  let _ ← writable (Unwritable.unlessLong expected.source)
  fail (.wrongAnswer expected answer)

/-- Rest the worker. -/
def rest : Run Unit := do
  let machine ← get
  let (worker, dice, clock) := machine.worker.reset machine.dice machine.clock
  set { machine with worker := worker, dice := dice, clock := clock }

/-- Ask what a node evaluates to. The right answer rests the worker; any other text ends the
    run. Only a numeral that is too long fails in its own way. -/
def checkIn (node : Node) (value : Value) : Run Unit := do
  let machine ← get
  write ("[dmm] " ++ machine.worker.mood.glyph ++ " I need a break. Quick, help me out.")
  let scope ← writable machine.stack.top.describe
  write ("  scope: " ++ scope)
  let source ← writable node.source
  write ("  node:  " ++ source)
  let inquiry := ⟨node, value, machine.worker, machine.clock.last⟩
  let answer ← ask (.worker inquiry) "[dmm] what is it? "
  match Value.ofAnswer answer with
  | .ok guess => if guess = value then rest else abort value answer
  | .error error => if error.aboutNumeral then fail (.parse error) else abort value answer

/-- Tire the worker by one node. A change of its mood is announced. -/
def tire : Run Unit := do
  let machine ← get
  let (changed, worker, dice) := machine.worker.call machine.dice
  set { machine with worker := worker, dice := dice }
  if changed then
    write ("[dmm] " ++ worker.mood.glyph)

/-- Whether the worker wants to be asked after at a node. -/
def wantsCheck (node : Node) : Run Bool := do
  let machine ← get
  let (wants, clock) := machine.worker.wantsCheck node machine.clock
  set { machine with clock := clock }
  return wants

/-- Run an action in a frame of its own, which is left again however the action ends. -/
def inCall {α : Type} (frame : Frame) (action : Run α) : Run α := fun machine =>
  let leave (machine : Machine) (result : Machine → EStateM.Result Halt Machine α) :=
    match machine.stack.pop? with
    | some (_, stack) => result { machine with stack := stack }
    | none => .error (.fault .emptyCallStack) machine
  match action { machine with stack := machine.stack.push frame } with
  | .ok value machine => leave machine (.ok value)
  | .error halt machine => leave machine (.error halt)

/-- Run an action from outside of all calls. Where it stops because calls went too deep, all of
    them are left at once. -/
def unwinding {α : Type} (action : Run α) : Run α := fun machine =>
  match action machine with
  | .error (.fault (.violation .stackOverflow)) machine =>
    .error (.fault (.violation .stackOverflow)) { machine with stack := machine.stack.unwind }
  | result => result

end Run

end Hallo
