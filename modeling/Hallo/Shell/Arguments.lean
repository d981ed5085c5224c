import Hallo.Text.DecimalDigit

/-!
The words of a command line. Long switches may be shortened as long as they stay unique, a
divider `--` makes file names of all words behind it, and only one file can be named.
-/
namespace Hallo.Shell

/-- The switches of the command line. -/
inductive Switch where
  | help
  | lexer
  | ast
  | strict
  deriving DecidableEq, Repr

/-- Every spelling of a switch. -/
def Switch.spellings : List (String × Switch) :=
  [("-h", .help), ("--help", .help), ("--lexer", .lexer), ("--ast", .ast), ("--strict", .strict)]

/-- What a word of the command line is. A misused switch has a value attached to it, which no
    switch takes. -/
inductive Word where
  | name (text : String)
  | divider
  | switch (switch : Switch)
  | misused
  | unknown
  deriving DecidableEq, Repr

namespace Word

/-- A word cut at its first equals sign: its stem, and the value attached to it if any. -/
def cut (word : List Char) : List Char × Option (List Char) :=
  (word.takeWhile (· ≠ '='), (word.dropWhile (· ≠ '=')).tail?)

/-- A minus sign and a decimal number, with or without a fraction. A line break may follow. -/
def isNegativeNumber : List Char → Bool
  | '-' :: digits =>
    let number := if digits.getLast? = some '\n' then digits.dropLast else digits
    let whole := number.takeWhile Text.isDecimalDigit
    match number.dropWhile Text.isDecimalDigit with
    | [] => !whole.isEmpty
    | '.' :: fraction => !fraction.isEmpty && fraction.all Text.isDecimalDigit
    | _ => false
  | _ => false

/-- A word that begins like a switch and is none: a name after all if it is a number or holds
    a space. -/
def stray (word : String) : Word :=
  if isNegativeNumber word.toList || word.toList.contains ' ' then .name word else .unknown

/-- Letters attached to the short switch, with or without an equals sign. They are taken for
    short switches in a row, and there is only the one. -/
def cluster (letters : List Char) : Word :=
  if !letters.isEmpty && letters.all (· = 'h') then .switch .help else .misused

/-- What a word is that begins with two dashes. It may be the beginning of a switch, which
    must then be the only one that begins so. -/
def classifyLong (word : String) : Option Word :=
  let (stem, value) := cut word.toList
  match Switch.spellings.lookup (String.ofList stem),
      Switch.spellings.filter (fun (spelling, _) => stem.isPrefixOf spelling.toList) with
  | some found, _ => some (if value.isSome then .misused else .switch found)
  | none, [] => some (stray word)
  | none, [(_, found)] => some (if value.isSome then .misused else .switch found)
  | none, _ => none

/-- What a word is, or `none` if it could be several switches. -/
def classify (word : String) : Option Word :=
  match word.toList with
  | '-' :: '-' :: _ => classifyLong word
  | '-' :: 'h' :: [] => some (.switch .help)
  | '-' :: 'h' :: '=' :: letters => some (cluster letters)
  | '-' :: 'h' :: letters => some (cluster letters)
  | '-' :: _ :: _ => some (stray word)
  | _ => some (.name word)

/-- What the words of a command line are. Behind the divider all words are names. -/
def classifyAll : List String → Option (List Word)
  | [] => some []
  | word :: words =>
    if word = "--" then some (.divider :: words.map .name)
    else do
      let first ← classify word
      let others ← classifyAll words
      return first :: others

end Word

/-- What a file is wanted for. -/
inductive Mode where
  | tokens
  | outline
  | run
  deriving DecidableEq, Repr

/-- What the words of a command line ask for, as far as they were read. -/
structure Wishes where
  lexer : Bool := false
  ast : Bool := false
  strict : Bool := false
  file : Option String := none
  settled : Bool := false
  surplus : Bool := false

/-- The meaning of a command line. -/
inductive Request where
  | help
  | refused
  | file (path : String) (mode : Mode) (strict : Bool)
  | session (strict : Bool)
  deriving DecidableEq, Repr

/-- The request of wishes that were read to the end. An empty file name counts as none. -/
def Wishes.request (wishes : Wishes) : Request :=
  if wishes.surplus then .refused
  else
    match wishes.file.getD "" with
    | "" => .session wishes.strict
    | path =>
      .file path (if wishes.lexer then .tokens else if wishes.ast then .outline else .run)
        wishes.strict

/-- Read words one after the other. The file is settled by the first name, or by the divider
    that stands before or directly behind it; names beyond that are too many. -/
def Wishes.read : Wishes → List Word → Request
  | wishes, [] => wishes.request
  | _, .switch .help :: _ => .help
  | wishes, .switch .lexer :: words =>
    if wishes.ast then .refused else { wishes with lexer := true }.read words
  | wishes, .switch .ast :: words =>
    if wishes.lexer then .refused else { wishes with ast := true }.read words
  | wishes, .switch .strict :: words => { wishes with strict := true }.read words
  | _, .misused :: _ => .refused
  | wishes, .unknown :: words => { wishes with surplus := true }.read words
  | wishes, .name text :: .divider :: words =>
    if wishes.settled then { wishes with surplus := true }.read words
    else { wishes with file := some text, settled := true }.read words
  | wishes, .name text :: words =>
    if wishes.settled then { wishes with surplus := true }.read words
    else { wishes with file := some text, settled := true }.read words
  | wishes, .divider :: .name text :: words =>
    if wishes.settled then { wishes with surplus := true }.read words
    else { wishes with file := some text, settled := true }.read words
  | wishes, .divider :: words =>
    if wishes.settled then { wishes with surplus := true }.read words
    else { wishes with settled := true }.read words

/-- What a command line asks for. -/
def Request.ofArguments (arguments : List String) : Request :=
  match Word.classifyAll arguments with
  | none => .refused
  | some words => Wishes.read {} words

/-- How the program is called. -/
def usage : String := "usage: dmm [-h] [--lexer | --ast] [--strict] [file]"

/-- What the program says when it is asked for help. -/
def helpText : String :=
  usage ++ "

dmm interpreter. Set USE_HUMANOIDS to meet the Worker and the Shouter.

positional arguments:
  file        Source file to execute

options:
  -h, --help  show this help message and exit
  --lexer     Print the token stream and stop
  --ast       Print the syntax tree and stop
  --strict    No Worker checks, plain output (the default unless USE_HUMANOIDS
              is set)"

end Hallo.Shell
