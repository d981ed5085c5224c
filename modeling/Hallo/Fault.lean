import Hallo.Node.Source
import Hallo.Parser

/-!
Everything that can end a run before its value.
-/
namespace Hallo

/-- A rule of the language that a program broke. -/
inductive Violation where
  | unknownVariable (name : String)
  | notANumber (value : Value)
  | notACondition (keyword : Keyword) (kind : Kind)
  | invalidUnary (operator : String)
  | invalidBinary (operator : String)
  | divisionByZero
  | cannotOrder (left right : Kind)
  | unknownFunction (name : String)
  | argumentCount (name : String) (takes got : Nat)
  | alreadyDeclared (name : String)
  | cannotEvaluate (node : Node)
  | stackOverflow
  deriving DecidableEq, Repr

/-- The wording of a violation. -/
def Violation.message : Violation → String
  | .unknownVariable name => "Unknown variable name: " ++ name
  | .notANumber value =>
    "Not a number! Got " ++ value.kind.name ++ " " ++ value.source.getD ""
  | .notACondition keyword kind =>
    "Condition of '" ++ keyword.text ++ "' must be :) or :(, got " ++ kind.name
  | .invalidUnary operator => "Invalid unary operator: " ++ operator
  | .invalidBinary operator => "Invalid binary operator: " ++ operator
  | .divisionByZero => "Division by zero"
  | .cannotOrder left right => "Cannot order " ++ left.name ++ " against " ++ right.name
  | .unknownFunction name => "Unknown function name: " ++ name
  | .argumentCount name takes got =>
    "Invalid argument count! '" ++ name ++ "' takes " ++ Nat.repr takes ++ ", got " ++
      Nat.repr got
  | .alreadyDeclared name => "Function '" ++ name ++ "' already declared!"
  | .cannotEvaluate node => "Cannot evaluate " ++ node.kindName
  | .stackOverflow => "Stack overflow: too many nested calls"

/-- Why a run failed. The last two are defects of the interpreter itself, not of a program. -/
inductive Fault where
  | parse (error : ParseError)
  | violation (broken : Violation)
  | wrongAnswer (expected : Value) (answer : String)
  | unwritable (reason : Unwritable)
  | zeroDivisor
  | emptyCallStack
  deriving DecidableEq, Repr

/-- The wording of a fault. -/
def Fault.message : Fault → String
  | .parse error => error.message
  | .violation broken => broken.message
  | .wrongAnswer expected answer =>
    "Wrong answer " ++ Text.quoted answer ++ ". It was " ++ expected.source.getD "" ++
      ". I'm out."
  | .unwritable reason => reason.message
  | .zeroDivisor => "integer division or modulo by zero"
  | .emptyCallStack => "Empty callstack! :s"

/-- How a run can stop without a value. A run is unfinished when a loop used up the rounds
    that were granted to it. -/
inductive Halt where
  | fault (fault : Fault)
  | unfinished
  deriving DecidableEq, Repr

end Hallo
