/-!
Line breaks. Files may end their lines in three ways, which are made one; standard input is a
list of lines; and a program typed on one line writes its line breaks with a backslash.
-/
namespace Hallo.Text

/-- Every line ending, be it a carriage return, a line feed or both in this order, becomes
    one line feed. -/
def unifyBreaks : List Char → List Char
  | [] => []
  | '\r' :: '\n' :: rest => '\n' :: unifyBreaks rest
  | '\r' :: rest => '\n' :: unifyBreaks rest
  | c :: rest => c :: unifyBreaks rest

/-- The text without the line breaks at its end. -/
def dropFinalBreaks (text : List Char) : List Char :=
  (text.reverse.dropWhile (· = '\n')).reverse

/-- A backslash followed by an `n` stands for a line break. -/
def unescapeBreaks : List Char → List Char
  | [] => []
  | '\\' :: 'n' :: rest => '\n' :: unescapeBreaks rest
  | c :: rest => c :: unescapeBreaks rest

/-- The lines of a text, without their line feeds. A last line need not be ended by one. -/
def linesOf : List Char → List (List Char)
  | [] => []
  | '\n' :: rest => [] :: linesOf rest
  | c :: rest =>
    match linesOf rest with
    | [] => [[c]]
    | line :: others => (c :: line) :: others

/-- The lines of a text. -/
def lines (text : String) : List String :=
  (linesOf text.toList).map String.ofList

/-- Texts in a row, with a separator between neighbours. -/
def joined (separator : String) : List String → String
  | [] => ""
  | [text] => text
  | text :: texts => text ++ separator ++ joined separator texts

end Hallo.Text
