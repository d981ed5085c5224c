import Hallo.Worker

/-!
What can be noticed of a run from outside: lines, shouts, naps and questions, in order.
-/
namespace Hallo

/-- What the worker wants to know: what a node evaluates to. The value it has in mind, its own
    state and the time are those at the moment of asking. -/
structure Inquiry where
  node : Node
  value : Value
  worker : Worker
  time : Int
  deriving DecidableEq, Repr

/-- Who asks a question. -/
inductive Asker where
  | program
  | worker (inquiry : Inquiry)
  | shell
  deriving DecidableEq, Repr

/-- One thing that happened. A shout records what the program wanted to say and how loud,
    beside the line that came out; a question records its answer, which is missing at the end
    of the input. -/
inductive Event where
  | line (text : String)
  | shout (intensity : Int) (text : String) (heard : String)
  | nap (milliseconds : Int)
  | question (asker : Asker) (prompt : String) (answer : Option String)
  deriving DecidableEq, Repr

namespace Event

/-- The line that was written, if one was. -/
def line? : Event → Option String
  | .line text => some text
  | .shout _ _ heard => some heard
  | _ => none

/-- The prompt that was shown, if there was a question. -/
def prompt? : Event → Option String
  | .question _ prompt _ => some prompt
  | _ => none

/-- The length of the nap, if it was one. -/
def nap? : Event → Option Int
  | .nap milliseconds => some milliseconds
  | _ => none

/-- What appears on standard output. A prompt is not followed by a line break. -/
def printed : Event → String
  | .line text => text ++ "\n"
  | .shout _ _ heard => heard ++ "\n"
  | .question _ prompt _ => prompt
  | .nap _ => ""

end Event

end Hallo
