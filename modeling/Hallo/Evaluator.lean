import Hallo.Machine
import Hallo.Node.Parser

/-!
The meaning of program trees. A node is evaluated in the frame on top of the call stack, and
the worker is consulted after each node. Recursion is on the tree; a function body is entered
through a parameter that stands for the evaluator one call deeper, and a loop goes on for a
bounded number of rounds.
-/
namespace Hallo

/-- What a node comes to: a value, or a value on its way up to the nearest call. -/
inductive Outcome where
  | value (value : Value)
  | returning (value : Value)
  deriving DecidableEq, Repr

/-- The value of an outcome, on its way or not. -/
def Outcome.get : Outcome → Value
  | .value v => v
  | .returning v => v

namespace Run

/-- Evaluate a node, then let the worker have its say. -/
def watched (node : Node) (action : Run Outcome) : Run Outcome := do
  let outcome ← action
  tire
  if ← wantsCheck node then
    checkIn node outcome.get
  return outcome

/-- The outcome of a statement that has no value. -/
def done : Run Outcome :=
  return .value .nothing

/-- A value that must be a number. -/
def number : Value → Run Int
  | .integer n => pure n
  | value => violate (.notANumber value)

/-- A value that must be a boolean, as the condition of a statement. -/
def condition (keyword : Keyword) : Value → Run Bool
  | .boolean b => pure b
  | value => violate (.notACondition keyword value.kind)

/-- The value of a unary operation. -/
def applyUnary (operator : String) (operand : Int) : Run Value :=
  if operator = "-" then pure (.integer (-operand))
  else if operator = "+" then pure (.integer operand)
  else violate (.invalidUnary operator)

/-- The value of a binary operation. -/
def applyBinary (operator : String) (left right : Int) : Run Value :=
  if operator = "+" then pure (.integer (left + right))
  else if operator = "-" then pure (.integer (left - right))
  else if operator = "*" then pure (.integer (left * right))
  else if operator = "/" then
    if right = 0 then violate .divisionByZero
    else
      match truncatingDivide left right with
      | some quotient => pure (.integer quotient)
      | none => fail .zeroDivisor
  else violate (.invalidBinary operator)

/-- The value of a comparison. Any two values can be told equal or not; only values of one
    kind have an order. -/
def applyComparison (comparison : Comparison) (left right : Value) : Run Value :=
  match comparison with
  | .equals => pure (.boolean (left = right))
  | .less =>
    if left.Orderable right then pure (.boolean (left.less right))
    else violate (.cannotOrder left.kind right.kind)
  | .greater =>
    if left.Orderable right then pure (.boolean (left.greater right))
    else violate (.cannotOrder left.kind right.kind)

/-- Repeat a body as long as a test holds. A return in the body leaves the loop. -/
def repeatWhile (test : Run Bool) (body : Run Outcome) : (rounds : Nat) → Run Outcome
  | 0 => throw .unfinished
  | rounds + 1 => do
    if ← test then
      match ← body with
      | .returning value => return .returning value
      | .value _ => repeatWhile test body rounds
    else
      done

/-- Names of output forms begin like this; each further character makes them louder. -/
def outputStem : List Char := ":O__".toList

/-- How loud an output form is, if the name is one. -/
def intensity? (name : String) : Option Int :=
  if outputStem.isPrefixOf name.toList then some (name.length - outputStem.length + 1) else none

/-- The name of the input form. -/
def inputName : String := "frag"

/-- Ask the user for a value. -/
def askValue (prompt : String) : Run Value := do
  let answer ← ask .program prompt
  match Value.ofAnswer answer with
  | .ok value => return value
  | .error error => fail (.parse error)

/-- The function that a call with so many arguments goes to. -/
def routineFor (name : String) (count : Nat) : Run Routine := do
  match (← top).function? name with
  | none => violate (.unknownFunction name)
  | some routine =>
    if routine.params.length = count then return routine
    else violate (.argumentCount name routine.params.length count)

/-- Call a function with values for its parameters. -/
def enterRoutine (body : Node → Run Outcome) (routine : Routine) (arguments : List Value) :
    Run Value := do
  let caller ← top
  let outcome ← inCall (caller.entering routine.params arguments) (body routine.body)
  return outcome.get

/-- Declare a function in the current frame. -/
def declareRoutine (routine : Routine) : Run Unit := do
  match (← top).declare? routine with
  | some frame => setTop frame
  | none => violate (.alreadyDeclared routine.name)

end Run

namespace Node

open Run

mutual

/-- Evaluate a node. Loops go on for at most `rounds` rounds each; `body` evaluates the body
    of a called function. -/
def visit (rounds : Nat) (body : Node → Run Outcome) (node : Node) : Run Outcome :=
  watched node <|
    match node with
    | .bare => violate (.cannotEvaluate .bare)
    | .empty => done
    | .block statements => visitBlock rounds body statements
    | .literal value => return .value value
    | .var name => do
      match (← top).get? name with
      | some value => return .value value
      | none => violate (.unknownVariable name)
    | .unary operator operand => do
      let n ← number (← visit rounds body operand).get
      return .value (← applyUnary operator n)
    | .binary left operator right => do
      let m ← number (← visit rounds body left).get
      let n ← number (← visit rounds body right).get
      return .value (← applyBinary operator m n)
    | .compare left right comparison => do
      let a := (← visit rounds body left).get
      let b := (← visit rounds body right).get
      return .value (← applyComparison comparison a b)
    | .call callee arguments =>
      match intensity? callee with
      | some intensity => do
        let text ← render rounds body arguments
        shout intensity text
        done
      | none =>
        if callee = inputName then do
          let prompt ← render rounds body arguments
          return .value (← askValue prompt)
        else do
          let routine ← routineFor callee arguments.length
          let values ← valuesOf rounds body arguments
          return .value (← enterRoutine body routine values)
    | .assign target value => do
      let v := (← visit rounds body value).get
      setTop ((← top).set target v)
      done
    | .declare name params inner => do
      declareRoutine ⟨name, params, inner⟩
      done
    | .branch test inner => do
      if ← condition .branch (← visit rounds body test).get then
        match ← visit rounds body inner with
        | .returning value => return .returning value
        | .value _ => done
      else
        done
    | .loop test inner =>
      repeatWhile (do condition .loop (← visit rounds body test).get) (visit rounds body inner)
        rounds
    | .giveBack expression => do
      return .returning (← visit rounds body expression).get

/-- Run statements in order, up to the first return. -/
def visitBlock (rounds : Nat) (body : Node → Run Outcome) : List Node → Run Outcome
  | [] => done
  | statement :: statements => do
    match ← visit rounds body statement with
    | .returning value => return .returning value
    | .value _ => visitBlock rounds body statements

/-- The values of arguments, from left to right. -/
def valuesOf (rounds : Nat) (body : Node → Run Outcome) : List Node → Run (List Value)
  | [] => return []
  | argument :: arguments => do
    let value := (← visit rounds body argument).get
    let values ← valuesOf rounds body arguments
    return value :: values

/-- The displays of arguments in one text. Each argument is displayed before the next is
    evaluated. -/
def render (rounds : Nat) (body : Node → Run Outcome) : List Node → Run String
  | [] => return ""
  | argument :: arguments => do
    let text ← display (← visit rounds body argument).get
    let others ← render rounds body arguments
    return text ++ others

end

/-- Evaluate a node with at most `depth` calls inside each other. -/
def visitWithin (rounds : Nat) : (depth : Nat) → Node → Run Outcome
  | 0, node => visit rounds (fun _ => violate .stackOverflow) node
  | depth + 1, node => visit rounds (visitWithin rounds depth) node

/-- Evaluate a node as a whole program, with at most `limit` calls inside each other. A return
    that no call has caught is reported. -/
def evaluateWithin (limit rounds : Nat) (node : Node) : Run Value := do
  match ← visitWithin rounds limit node with
  | .value value => return value
  | .returning value => do
    let text ← display value
    write ("[dmm] This program threw at us a: " ++ text)
    return value

/-- How many frames of the host an evaluation may take where nothing else is asked for. -/
def recursionLimit : Nat := 10000

/-- How many frames of the host one call takes, about: a dozen. -/
def framesPerCall : Nat := 12

/-- How many calls can be inside each other where nothing else is asked for, about: the host
    counts its own frames, of which a call takes more or fewer as its body is nested. This number
    is a default of the executable program only; what is proved holds for every limit. -/
def callLimit : Nat := recursionLimit / framesPerCall

/-- Evaluate a node as a whole program, with the usual limit on calls. -/
def evaluate (rounds : Nat) (node : Node) : Run Value :=
  evaluateWithin callLimit rounds node

end Node

namespace Run

/-- Run a program from its source, with at most `limit` calls inside each other. A source that is
    no program changes nothing. -/
def sourceWithin (limit rounds : Nat) (source : String) : Run Value :=
  match Node.parse source with
  | .ok statements => unwinding (Node.evaluateWithin limit rounds (.block statements))
  | .error error => fail (.parse error)

/-- Run a program from its source, with the usual limit on calls. -/
def source (rounds : Nat) (source : String) : Run Value :=
  sourceWithin Node.callLimit rounds source

end Run

end Hallo
