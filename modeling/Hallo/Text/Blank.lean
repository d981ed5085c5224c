import Hallo.Text.Ranges

/-!
Blank lines: a line is blank when it holds nothing but white space, which is more than the
space character alone (Unicode 14, with the ASCII separators 28 to 31).
-/
namespace Hallo.Text

/-- White space of every kind. -/
def blankRanges : List (Nat × Nat) := [
  (9, 13), (28, 32), (133, 133), (160, 160), (5760, 5760), (8192, 8202), (8232, 8233),
  (8239, 8239), (8287, 8287), (12288, 12288)]

/-- A white space character. -/
def isBlank (c : Char) : Bool :=
  covers blankRanges c.toNat

/-- A line without any visible character, the empty line included. -/
def isBlankLine (line : String) : Bool :=
  line.toList.all isBlank

end Hallo.Text
