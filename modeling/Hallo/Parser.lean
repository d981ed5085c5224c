import Hallo.Token.Lexer

/-!
Reading tokens one by one, with a look at the next. A token counts as read only once the token
behind it is known, so an unreadable text is reported as soon as the token before it is taken.
-/
namespace Hallo

/-- What a reader of tokens was looking for when it met another token. -/
inductive Expectation where
  | greeting
  | breakAfterGreeting
  | farewell
  | endOfInput
  | assignOrCall
  | operand
  | target
  | assignValue
  | functionName
  | parameterName
  | uniqueParameter
  | parenOpen
  | parenClose
  | blockOpen
  | blockClose
  | integer
  | literal
  deriving DecidableEq, Repr

/-- The wording of an expectation. -/
def Expectation.text : Expectation → String
  | .greeting => "hallo"
  | .breakAfterGreeting => "line break after hallo"
  | .farewell => "reicht dann auch mal"
  | .endOfInput => "EOF"
  | .assignOrCall => "= or ("
  | .operand => "Variable"
  | .target => "Variable"
  | .assignValue => "auf"
  | .functionName => "function name"
  | .parameterName => "parameter name"
  | .uniqueParameter => "unique parameter name"
  | .parenOpen => "("
  | .parenClose => ")"
  | .blockOpen => "avo"
  | .blockClose => "cado"
  | .integer => "Integer"
  | .literal => "Literal"

/-- Why a text was not understood: it has a part that is no token, or a token where another
    was expected. -/
inductive ParseError where
  | scan (error : ScanError)
  | unexpected (found : Token) (expected : Expectation)
  deriving DecidableEq, Repr

/-- The wording of a parse error. -/
def ParseError.message : ParseError → String
  | .scan error => error.message
  | .unexpected found expected =>
    "[dmm " ++ found.place.label ++ "] Parse error: Unexpected token " ++
      found.lexeme.kindName ++ " (" ++ found.lexeme.shown ++ "), expected " ++ expected.text

/-- Whether the error is about a numeral that is too long, or about one without digits. -/
def ParseError.aboutNumeral : ParseError → Bool
  | .scan error => error.complaint.aboutNumeral
  | .unexpected _ _ => false

/-- Tokens still to be read, and how they end. -/
structure Feed where
  queue : List Token
  ending : Except ScanError Token

namespace Feed

/-- The tokens of a source. -/
def ofSource (source : String) : Feed :=
  let scan := Scan.ofSource source
  ⟨scan.tokens, scan.ending⟩

/-- The token to be read next. Behind the last one this is the end of input, for ever. -/
def current (feed : Feed) : Except ScanError Token :=
  match feed.queue with
  | token :: _ => .ok token
  | [] => feed.ending

/-- The feed without its first token. -/
def rest (feed : Feed) : Feed :=
  ⟨feed.queue.tail, feed.ending⟩

end Feed

/-- A reader of tokens. -/
abbrev Parser := StateT Feed (Except ParseError)

namespace Parser

/-- The token to be read next. -/
def current : Parser Token := fun feed =>
  match feed.current with
  | .ok token => .ok (token, feed)
  | .error error => .error (.scan error)

/-- Take a token. This already looks at the one behind it. -/
def advance : Parser Unit := do
  let _ ← current
  modify Feed.rest
  let _ ← current

/-- Refuse the token to be read next. -/
def refuse {α : Type} (expected : Expectation) : Parser α := do
  let token ← current
  throw (.unexpected token expected)

/-- Whether a certain lexeme comes next. -/
def sees (lexeme : Lexeme) : Parser Bool := do
  let token ← current
  return token.lexeme == lexeme

/-- Take a token that must be there. -/
def expect (lexeme : Lexeme) (expected : Expectation) : Parser Unit := do
  if ← sees lexeme then advance else refuse expected

/-- Take a name that must be there. -/
def expectName (expected : Expectation) : Parser String := do
  let token ← current
  match token.lexeme with
  | .name name => do
    advance
    return name
  | _ => refuse expected

/-- Run a reader that goes on for at most as many rounds as there are tokens. Each round takes
    a token, so no round is ever missing. -/
def bounded {α : Type} (rounds : Nat → Parser α) : Parser α := fun feed =>
  rounds feed.queue.length feed

/-- Read a whole text. -/
def onSource {α : Type} (reader : Parser α) (source : String) : Except ParseError α :=
  (reader.run (Feed.ofSource source)).map Prod.fst

end Parser

end Hallo
