import Hallo.Evaluator
import Hallo.Node.Outline
import Hallo.Shell.Arguments
import Hallo.Shell.Folder
import Hallo.Text.Blank

/-!
The command line program: what it does with a file, and the session in which every line typed
is a program of its own. Standard input is shared by the session and the programs it runs.
-/
namespace Hallo.Shell

/-- What the program finds in its surroundings. -/
structure World where
  humanoids : Bool := false
  files : String → Except FileProblem ByteArray := fun _ => .error .missing
  input : List String := []
  dice : Dice
  clock : Clock

/-- What is handed on from one program to the next. The log has the latest event first. -/
structure Desk where
  dice : Dice
  clock : Clock
  input : List (Option String)
  log : List Event := []

namespace Desk

/-- Print a line. -/
def print (desk : Desk) (text : String) : Desk :=
  { desk with log := .line text :: desk.log }

/-- Take over what a machine has left. -/
def after (desk : Desk) (machine : Machine) : Desk :=
  { dice := machine.dice
    clock := machine.clock
    input := machine.answers
    log := machine.log ++ desk.log }

end Desk

/-- How the program ends: with an exit code, at a file that it cannot read, by a defect, or not
    at all within the rounds granted to loops. -/
inductive Ending where
  | exit (code : Nat)
  | unreadable (path : String) (problem : FileProblem)
  | broken (fault : Fault)
  | unfinished
  deriving DecidableEq, Repr

/-- The report on a failed run, and the exit code that goes with it. Only an abort shows the
    worker's mood. -/
def report (mood : Mood) (fault : Fault) : String × Nat :=
  let internal := ("\n[dmm] Internal Error: " ++ fault.message, 2)
  match fault with
  | .parse error => if error.aboutNumeral then internal else ("\n" ++ fault.message, 1)
  | .violation _ => ("\n[dmm] Runtime Error: " ++ fault.message, 1)
  | .wrongAnswer _ _ => ("\n[dmm] " ++ mood.glyph ++ " " ++ fault.message, 3)
  | .unwritable _ | .zeroDivisor | .emptyCallStack => internal

/-- Run one program on a fresh machine and report its failure. The exit code is `none` if the
    program did not finish. -/
def interpret (limit rounds : Nat) (strict : Bool) (source : String) (desk : Desk) :
    Option Nat × Desk :=
  let machine := Machine.start strict desk.dice desk.clock desk.input
  match Run.sourceWithin limit rounds source machine with
  | .ok _ machine => (some 0, desk.after machine)
  | .error .unfinished machine => (none, desk.after machine)
  | .error (.fault fault) machine =>
    let (text, code) := report machine.worker.mood fault
    (some code, (desk.after machine).print text)

/-- The source in a file: its line ends made one, and those at its end dropped. -/
def sourceOf (bytes : ByteArray) : Except FileProblem String :=
  match String.fromUTF8? bytes with
  | some text => .ok (String.ofList (Text.dropFinalBreaks (Text.unifyBreaks text.toList)))
  | none => .error .notText

/-- List the tokens of a source. -/
def listTokens (source : String) (desk : Desk) : Ending × Desk :=
  let scan := Scan.ofSource source
  let desk := scan.listed.foldl (fun desk token => desk.print token.inspect) desk
  match scan.ending with
  | .ok _ => (.exit 0, desk)
  | .error error =>
    if error.complaint.aboutNumeral then (.broken (.parse (.scan error)), desk)
    else (.exit 1, desk.print error.message)

/-- Show the outline of a source. -/
def showOutline (source : String) (desk : Desk) : Ending × Desk :=
  match Node.parse source with
  | .error error =>
    if error.aboutNumeral then (.broken (.parse error), desk)
    else (.exit 1, desk.print error.message)
  | .ok statements =>
    match (Node.block statements).outline 0 with
    | .ok text => (.exit 0, desk.print text)
    | .error reason => (.broken (.unwritable reason), desk)

/-- Do with a source what was asked for. -/
def onSource (limit rounds : Nat) (mode : Mode) (strict : Bool) (source : String) (desk : Desk) :
    Ending × Desk :=
  match mode with
  | .tokens => listTokens source desk
  | .outline => showOutline source desk
  | .run =>
    match interpret limit rounds strict source desk with
    | (some code, desk) => (.exit code, desk)
    | (none, desk) => (.unfinished, desk)

/-- The prompt of a session. -/
def prompt : String := "dmm> "

/-- The end of a session: its last question stays without an answer. -/
def farewell (desk : Desk) : Desk :=
  { desk with log := .question .shell prompt none :: desk.log }.print "\n[dmm] Tschüss."

/-- A session from here on. Each round takes a line, so there are no more rounds than lines. -/
def converse (limit rounds : Nat) (strict : Bool) : (lines : Nat) → Desk → Ending × Desk
  | 0, desk => (.exit 0, farewell desk)
  | lines + 1, desk =>
    match desk.input with
    | some line :: input =>
      let desk := { desk with
        input := input, log := .question .shell prompt (some line) :: desk.log }
      if Text.isBlankLine line then
        converse limit rounds strict lines desk
      else
        let source := String.ofList (Text.unescapeBreaks line.toList)
        match interpret limit rounds strict source desk with
        | (some _, desk) => converse limit rounds strict lines desk
        | (none, desk) => (.unfinished, desk)
    | _ => (.exit 0, farewell desk)

/-- A session: every line is a program of its own, and no failure ends it. -/
def session (limit rounds : Nat) (strict : Bool) (desk : Desk) : Ending × Desk :=
  converse limit rounds strict desk.input.length (desk.print "dmm REPL. Ctrl-D to leave.\n")

/-- What came of a call of the program: its ending, what happened, and the draws it took. -/
structure Performance where
  ending : Ending
  events : List Event
  dice : Dice
  clock : Clock

/-- What a request comes to. -/
def fulfil (limit rounds : Nat) (world : World) (request : Request) (desk : Desk) :
    Ending × Desk :=
  match request with
  | .help => (.exit 0, desk.print helpText)
  | .refused => (.exit 2, desk)
  | .session strict => session limit rounds (strict || !world.humanoids) desk
  | .file path mode strict =>
    match world.files path >>= sourceOf with
    | .ok source => onSource limit rounds mode (strict || !world.humanoids) source desk
    | .error .missing => (.exit 1, desk.print ("[dmm] File not found: " ++ path))
    | .error problem => (.unreadable path problem, desk)

/-- Call the program, with at most `limit` calls inside each other in each program it runs. -/
def performWithin (limit rounds : Nat) (arguments : List String) (world : World) : Performance :=
  let desk := { dice := world.dice, clock := world.clock, input := world.input.map some }
  let (ending, desk) := fulfil limit rounds world (.ofArguments arguments) desk
  { ending := ending, events := desk.log.reverse, dice := desk.dice, clock := desk.clock }

/-- Call the program, with the usual limit on calls. -/
def perform (rounds : Nat) (arguments : List String) (world : World) : Performance :=
  performWithin Node.callLimit rounds arguments world

/-- Everything that a performance prints. -/
def Performance.printed (performance : Performance) : String :=
  String.join (performance.events.map Event.printed)

end Hallo.Shell
