import Hallo.Node
import Hallo.Parser

/-!
From tokens to program trees. An expression is a sum of terms, a term a product or a comparison
of two products, a product a chain of factors. Recursion is bounded by the number of tokens:
every level of nesting takes at least one.
-/
namespace Hallo.Parser

/-- The sign of a sum. -/
def additive? : Lexeme → Option String
  | .mark .plus => some Mark.plus.text
  | .mark .minus => some Mark.minus.text
  | _ => none

/-- The operator of a product. -/
def multiplicative? : Lexeme → Option String
  | .mark .star => some Mark.star.text
  | .mark .slash => some Mark.slash.text
  | _ => none

/-- The comparison that a keyword stands for. -/
def comparison? : Lexeme → Option Comparison
  | .keyword .equals => some .equals
  | .keyword .less => some .less
  | .keyword .greater => some .greater
  | _ => none

/-- Operands joined to the left of what was read, as long as operators follow. -/
def chainFrom (operator? : Lexeme → Option String) (operand : Parser Node) :
    (rounds : Nat) → (left : Node) → Parser Node
  | 0, left => pure left
  | rounds + 1, left => do
    let token ← current
    match operator? token.lexeme with
    | none => return left
    | some operator => do
      advance
      let right ← operand
      chainFrom operator? operand rounds (.binary left operator right)

/-- Operands joined from left to right by operators of one precedence. -/
def chain (operator? : Lexeme → Option String) (operand : Parser Node) : Parser Node := do
  let left ← operand
  bounded fun rounds => chainFrom operator? operand rounds left

/-- A product, or two products compared. Comparisons do not chain. -/
def term (factor : Parser Node) : Parser Node := do
  let left ← chain multiplicative? factor
  let token ← current
  match comparison? token.lexeme with
  | none => return left
  | some comparison => do
    advance
    let right ← chain multiplicative? factor
    return .compare left right comparison

/-- A sum of terms. -/
def sum (factor : Parser Node) : Parser Node :=
  chain additive? (term factor)

/-- Further arguments, each behind a comma. -/
def moreArguments (expression : Parser Node) : (rounds : Nat) → Parser (List Node)
  | 0 => pure []
  | rounds + 1 => do
    if ← sees (.mark .comma) then
      advance
      let argument ← expression
      let arguments ← moreArguments expression rounds
      return argument :: arguments
    else
      return []

/-- Arguments in parentheses. -/
def arguments (expression : Parser Node) : Parser (List Node) := do
  expect (.mark .parenOpen) .parenOpen
  if ← sees (.mark .parenClose) then
    advance
    return []
  else
    let first ← expression
    let others ← bounded (moreArguments expression)
    expect (.mark .parenClose) .parenClose
    return first :: others

/-- A factor: signs and parentheses nest up to the given depth. -/
def factor : (depth : Nat) → Parser Node
  | 0 => refuse .operand
  | depth + 1 => do
    let token ← current
    match token.lexeme with
    | .mark .plus => do
      advance
      let operand ← factor depth
      return .unary Mark.plus.text operand
    | .mark .minus => do
      advance
      let operand ← factor depth
      return .unary Mark.minus.text operand
    | .integer n => do
      advance
      return .literal (.integer n)
    | .text s => do
      advance
      return .literal (.text s)
    | .boolean b => do
      advance
      return .literal (.boolean b)
    | .mark .parenOpen => do
      advance
      let inner ← sum (factor depth)
      expect (.mark .parenClose) .parenClose
      return inner
    | .name name => do
      advance
      if ← sees (.mark .parenOpen) then
        let arguments ← arguments (sum (factor depth))
        return .call name arguments
      else
        return .var name
    | _ => refuse .operand

/-- An expression. -/
def expression : Parser Node :=
  bounded fun depth => sum (factor depth)

/-- Parameter names separated by commas, none of them twice. -/
def parameterNames : (rounds : Nat) → (seen : List String) → Parser (List String)
  | 0, _ => refuse .parameterName
  | rounds + 1, seen => do
    let token ← current
    let name ← expectName .parameterName
    if name ∈ seen then
      throw (.unexpected token .uniqueParameter)
    if ← sees (.mark .comma) then
      advance
      let names ← parameterNames rounds (name :: seen)
      return name :: names
    else
      return [name]

/-- Parameters in parentheses. -/
def parameters : Parser (List String) := do
  expect (.mark .parenOpen) .parenOpen
  if ← sees (.mark .parenClose) then
    advance
    return []
  else
    let names ← bounded fun rounds => parameterNames rounds []
    expect (.mark .parenClose) .parenClose
    return names

/-- Further statements, each behind a line break. The first empty one ends the list. -/
def moreStatements (statement : Parser (Option Node)) : (rounds : Nat) → Parser (List Node)
  | 0 => pure []
  | rounds + 1 => do
    if ← sees (.mark .lineBreak) then
      advance
      match ← statement with
      | none => return []
      | some node => do
        let nodes ← moreStatements statement rounds
        return node :: nodes
    else
      return []

/-- Statements separated by single line breaks. The first one may be empty. -/
def statements (statement : Parser (Option Node)) : Parser (List Node) := do
  let first ← statement
  let others ← bounded (moreStatements statement)
  return first.toList ++ others

/-- A block of statements. -/
def block (statement : Parser (Option Node)) : Parser Node := do
  expect (.keyword .blockOpen) .blockOpen
  let nodes ← statements statement
  expect (.keyword .blockClose) .blockClose
  return .block nodes

/-- A statement, or `none` where none begins. Blocks nest up to the given depth. -/
def statement : (depth : Nat) → Parser (Option Node)
  | 0 => return none
  | depth + 1 => do
    let token ← current
    match token.lexeme with
    | .name name => do
      advance
      if ← sees (.mark .assign) then
        advance
        let value ← expression
        return some (.assign name value)
      else if ← sees (.mark .parenOpen) then
        let arguments ← arguments expression
        return some (.call name arguments)
      else
        refuse .assignOrCall
    | .keyword .assignTarget => do
      advance
      let name ← expectName .target
      expect (.keyword .assignValue) .assignValue
      let value ← expression
      return some (.assign name value)
    | .keyword .branch => do
      advance
      let condition ← expression
      let body ← block (statement depth)
      return some (.branch condition body)
    | .keyword .loop => do
      advance
      let condition ← expression
      let body ← block (statement depth)
      return some (.loop condition body)
    | .keyword .function => do
      advance
      let name ← expectName .functionName
      let params ← parameters
      let body ← block (statement depth)
      return some (.declare name params body)
    | .keyword .giveBack => do
      advance
      let value ← expression
      return some (.giveBack value)
    | _ => return none

/-- A whole program: its statements between greeting and farewell. -/
def program : Parser (List Node) := do
  expect (.keyword .greeting) .greeting
  expect (.mark .lineBreak) .breakAfterGreeting
  let nodes ← bounded fun depth => statements (statement depth)
  expect (.keyword .farewell) .farewell
  expect .endOfInput .endOfInput
  return nodes

end Hallo.Parser

namespace Hallo.Node

/-- The statements of the program that a source spells. -/
def parse (source : String) : Except ParseError (List Node) :=
  Parser.program.onSource source

end Hallo.Node
