import Hallo.Value

/-!
Tokens: the words and marks a program is made of, each with the place where it begins.
-/
namespace Hallo

/-- The words of the language that cannot be names. The farewell is a word of four. -/
inductive Keyword where
  | greeting
  | farewell
  | blockOpen
  | blockClose
  | function
  | branch
  | loop
  | giveBack
  | assignTarget
  | assignValue
  | equals
  | less
  | greater
  deriving DecidableEq, Repr

namespace Keyword

/-- How a keyword is written. -/
def text : Keyword → String
  | .greeting => "hallo"
  | .farewell => "reicht dann auch mal"
  | .blockOpen => "avo"
  | .blockClose => "cado"
  | .function => "funny"
  | .branch => "falls"
  | .loop => "schleif"
  | .giveBack => "zurück"
  | .assignTarget => "setze"
  | .assignValue => "auf"
  | .equals => "gleich"
  | .less => "kleiner"
  | .greater => "größer"

/-- The name of the keyword's token kind. -/
def kindName : Keyword → String
  | .greeting => "GREETING"
  | .farewell => "FAREWELL"
  | .blockOpen => "BLOCK_OPEN"
  | .blockClose => "BLOCK_CLOSE"
  | .function => "FUNCTION"
  | .branch => "IF"
  | .loop => "LOOP"
  | .giveBack => "RETURN"
  | .assignTarget => "ASSIGN_PREFIX"
  | .assignValue => "ASSIGN_INFIX"
  | .equals => "EQUALS"
  | .less => "LESS"
  | .greater => "GREATER"

/-- Every keyword once. -/
def all : List Keyword :=
  [.greeting, .farewell, .blockOpen, .blockClose, .function, .branch, .loop, .giveBack,
    .assignTarget, .assignValue, .equals, .less, .greater]

theorem mem_all (k : Keyword) : k ∈ all := by
  cases k <;> decide

/-- The keyword that a text spells exactly. -/
def ofText? (text : String) : Option Keyword :=
  all.find? (·.text == text)

end Keyword

/-- Marks of a single character. A line break is one of them: it separates statements. -/
inductive Mark where
  | plus
  | minus
  | star
  | slash
  | parenOpen
  | parenClose
  | comma
  | assign
  | lineBreak
  deriving DecidableEq, Repr

namespace Mark

/-- The character of a mark. -/
def char : Mark → Char
  | .plus => '+'
  | .minus => '-'
  | .star => '*'
  | .slash => '/'
  | .parenOpen => '('
  | .parenClose => ')'
  | .comma => ','
  | .assign => '='
  | .lineBreak => '\n'

/-- The text of a mark. -/
def text (m : Mark) : String :=
  String.singleton m.char

/-- The name of the mark's token kind. -/
def kindName : Mark → String
  | .plus => "PLUS"
  | .minus => "MINUS"
  | .star => "STAR"
  | .slash => "SLASH"
  | .parenOpen => "LPAREN"
  | .parenClose => "RPAREN"
  | .comma => "COMMA"
  | .assign => "ASSIGN"
  | .lineBreak => "NEWLINE"

/-- Every mark once. -/
def all : List Mark :=
  [.plus, .minus, .star, .slash, .parenOpen, .parenClose, .comma, .assign, .lineBreak]

theorem mem_all (m : Mark) : m ∈ all := by
  cases m <;> decide

/-- The mark that a character is. -/
def ofChar? (c : Char) : Option Mark :=
  all.find? (·.char == c)

end Mark

/-- What a token says, apart from where it stands. -/
inductive Lexeme where
  | integer (n : Nat)
  | text (s : String)
  | boolean (b : Bool)
  | name (s : String)
  | keyword (k : Keyword)
  | mark (m : Mark)
  | endOfInput
  deriving DecidableEq, Repr

namespace Lexeme

/-- The name of the token kind, for listings and messages. -/
def kindName : Lexeme → String
  | .integer _ => "INTEGER"
  | .text _ => "STRING"
  | .boolean _ => "BOOLEAN"
  | .name _ => "IDENTIFIER"
  | .keyword k => k.kindName
  | .mark m => m.kindName
  | .endOfInput => "EOF"

/-- What the token carries, for listings and messages. -/
def shown : Lexeme → String
  | .integer n => Decimal.text n
  | .text s => Text.quoted s
  | .boolean b => if b then "True" else "False"
  | .name s => Text.quoted s
  | .keyword k => Text.quoted k.text
  | .mark m => Text.quoted m.text
  | .endOfInput => "None"

end Lexeme

/-- A place in a text: lines and columns count from one, columns in characters. -/
structure Place where
  line : Nat
  column : Nat
  deriving DecidableEq, Repr

namespace Place

/-- Where every text begins. -/
def start : Place := ⟨1, 1⟩

/-- The place behind a character that stands here. -/
def after (place : Place) (c : Char) : Place :=
  if c = '\n' then ⟨place.line + 1, 1⟩ else ⟨place.line, place.column + 1⟩

/-- The place in short form. -/
def label (place : Place) : String :=
  "L" ++ Nat.repr place.line ++ ":C" ++ Nat.repr place.column

end Place

/-- A token: what it says and where it begins. -/
structure Token where
  lexeme : Lexeme
  place : Place
  deriving DecidableEq, Repr

/-- A token as a listing shows it. -/
def Token.inspect (token : Token) : String :=
  "Token(" ++ token.lexeme.kindName ++ ", " ++ token.lexeme.shown ++ ", " ++
    token.place.label ++ ")"

end Hallo
