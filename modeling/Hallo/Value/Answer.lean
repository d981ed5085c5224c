import Hallo.Parser

/-!
Typed answers: a single literal and nothing else. A lone minus sign stands for nothing, which
is how that value is displayed.
-/
namespace Hallo

namespace Parser

/-- An integer that must be there. -/
def unsigned : Parser Nat := do
  let token ← current
  match token.lexeme with
  | .integer n => do
    advance
    return n
  | _ => refuse .integer

/-- The value an answer begins with. -/
def answerValue : Parser Value := do
  let token ← current
  match token.lexeme with
  | .mark .plus => do
    advance
    let n ← unsigned
    return .integer n
  | .mark .minus => do
    advance
    if ← sees .endOfInput then
      return .nothing
    let n ← unsigned
    return .integer (-n)
  | .integer n => do
    advance
    return .integer n
  | .text s => do
    advance
    return .text s
  | .boolean b => do
    advance
    return .boolean b
  | _ => refuse .literal

/-- An answer: one value and then the end. -/
def answer : Parser Value := do
  let value ← answerValue
  expect .endOfInput .endOfInput
  return value

end Parser

/-- The value that an answer spells. -/
def Value.ofAnswer (answer : String) : Except ParseError Value :=
  Parser.answer.onSource answer

end Hallo
