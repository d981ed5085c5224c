import Hallo.Shell

/-!
The program on a real machine. What it does is a function of its surroundings, so at a
terminal it is performed anew for each line that is typed, and only what was not shown before
is shown.
-/
namespace Hallo.Shell

/-- A number that looks random, made of a seed and a count. -/
def scrambled (seed count : Nat) : Nat :=
  let a := UInt64.ofNat seed + UInt64.ofNat (count + 1) * 0x9e3779b97f4a7c15
  let b := (a ^^^ (a >>> 30)) * 0xbf58476d1ce4e5b9
  let c := (b ^^^ (b >>> 27)) * 0x94d049bb133111eb
  (c ^^^ (c >>> 31)).toNat

/-- Events up to the first question that found no answer, and whether there is one. -/
def untilUnanswered : List Event → List Event × Bool
  | [] => ([], false)
  | .question asker prompt none :: _ => ([.question asker prompt none], true)
  | event :: events =>
    let (before, found) := untilUnanswered events
    (event :: before, found)

/-- The rounds granted to each loop: more than anyone will wait for. -/
def patience : Nat := 1000000000000000000

/-- Show an event. Naps are slept through. -/
def present (event : Event) : IO Unit := do
  match event with
  | .nap milliseconds => IO.sleep milliseconds.toNat.toUInt32
  | _ =>
    let output ← IO.getStdout
    output.putStr event.printed
    output.flush

/-- The exit code of an ending. Defects are reported on standard error. -/
def conclude (ending : Ending) : IO UInt32 := do
  match ending with
  | .exit code => return UInt32.ofNat code
  | .unreadable path problem =>
    IO.eprintln (problem.message path)
    return 1
  | .broken fault =>
    IO.eprintln fault.message
    return 1
  | .unfinished =>
    IO.eprintln "the program did not end"
    return 1

/-- A line of standard input without its line break, or `none` at its end. -/
def nextLine : IO (Option String) := do
  let line ← (← IO.getStdin).getLine
  if line.isEmpty then return none
  return some (String.ofList (Text.dropFinalBreaks line.toList))

/-- The lines of standard input up to its end. -/
partial def allLines (lines : Array String) : IO (Array String) := do
  match ← nextLine with
  | some line => allLines (lines.push line)
  | none => return lines

/-- More lines of standard input, and whether it has ended. From a terminal one line is taken
    at a time, from anywhere else all that there are. -/
def moreLines : IO (Array String × Bool) := do
  if ← (← IO.getStdin).isTty then
    match ← nextLine with
    | some line => return (#[line], false)
    | none => return (#[], true)
  else
    return (← allLines #[], true)

/-- Perform with the lines read so far and show what is new. Where an answer is missing and
    more input may come, wait for it and start over. A reading of the clock keeps the time at
    which it was first taken. -/
partial def attend (arguments : List String) (world : World) (lines : Array String)
    (ended : Bool) (times : Array Int) (shown : Nat) : IO UInt32 := do
  let now : Int := (← IO.monoMsNow) / 1000
  let clock : Clock := { times := fun n => times.getD n now }
  let performance := perform patience arguments { world with input := lines.toList, clock }
  let (before, waiting) := untilUnanswered performance.events
  let interrupted := waiting && !ended
  let events := if interrupted then before else performance.events
  for event in events.drop shown do
    present event
  if interrupted then
    let times := times ++ Array.replicate (performance.clock.taken - times.size) now
    let (more, ended) ← moreLines
    attend arguments world (lines ++ more) ended times events.length
  else
    conclude performance.ending

/-- Read the file of a path. -/
def readFile (path : String) : IO (Except FileProblem ByteArray) := do
  try
    return .ok (← IO.FS.readBinFile path)
  catch
    | .noFileOrDirectory .. => return .error .missing
    | error => return .error (.other (toString error))

/-- The surroundings as far as they can be known beforehand. -/
def surroundings (request : Request) : IO World := do
  let seed ← IO.rand 0 2147483647
  let humanoids := (← IO.getEnv "USE_HUMANOIDS").isSome
  let dice : Dice := { faces := scrambled seed }
  match request with
  | .file path _ _ =>
    let content ← readFile path
    return { humanoids, files := fun _ => content, dice, clock := .ticking 0 0 }
  | _ => return { humanoids, dice, clock := .ticking 0 0 }

end Hallo.Shell

open Hallo.Shell in
/-- The command line program. -/
def main (arguments : List String) : IO UInt32 := do
  let request := Request.ofArguments arguments
  if request = .refused then
    IO.eprintln usage
  let world ← surroundings request
  attend arguments world #[] false #[] 0
