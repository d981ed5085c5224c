import Hallo.Decimal
import Hallo.Text.Quoted

/-!
The values a program computes with: integers of any size, texts, the two booleans, and nothing.
Values of different kinds are never equal and have no order between them.
-/
namespace Hallo

/-- The kinds of values. -/
inductive Kind where
  | integer
  | text
  | boolean
  | nothing
  deriving DecidableEq, Repr

/-- The name of a kind in messages. -/
def Kind.name : Kind → String
  | .integer => "Integer"
  | .text => "Text"
  | .boolean => "Boolean"
  | .nothing => "None"

/-- A value of the language. -/
inductive Value where
  | integer (n : Int)
  | text (s : String)
  | boolean (b : Bool)
  | nothing
  deriving DecidableEq, Repr

namespace Value

instance : Inhabited Value := ⟨.nothing⟩

/-- The kind of a value. -/
def kind : Value → Kind
  | .integer _ => .integer
  | .text _ => .text
  | .boolean _ => .boolean
  | .nothing => .nothing

/-- How a boolean is written. -/
def glyph (b : Bool) : String :=
  if b then ":)" else ":("

/-- The value as the program prints it, or `none` for an integer too long to be written. -/
def display : Value → Option String
  | .integer n => Decimal.text? n
  | .text s => some s
  | .boolean b => some (glyph b)
  | .nothing => some "-"

/-- The value as it is written in a program or typed as an answer. Only texts differ from
    their display: they stand between angle brackets. -/
def source : Value → Option String
  | .text s => some ("<" ++ s ++ ">")
  | v => v.display

/-- The payload as an inspection shows it. -/
def payload : Value → Option String
  | .integer n => Decimal.text? n
  | .text s => some (Text.quoted s)
  | .boolean b => some (if b then "True" else "False")
  | .nothing => some "None"

/-- The value with its kind, for tree outlines. -/
def inspect (v : Value) : Option String :=
  v.payload.map fun shown => "DmmValue(" ++ v.kind.name ++ ": " ++ shown ++ ")"

/-- Two values can be ordered when they are of the same kind. -/
def Orderable (a b : Value) : Prop := a.kind = b.kind

instance (a b : Value) : Decidable (Orderable a b) :=
  inferInstanceAs (Decidable (a.kind = b.kind))

/-- The order within a kind: integers by size, texts code point by code point, false below
    true. Nothing is not below itself, and values of different kinds are not below each other. -/
def less : Value → Value → Bool
  | .integer a, .integer b => a < b
  | .text a, .text b => a < b
  | .boolean a, .boolean b => !a && b
  | _, _ => false

/-- The converse of `less`, read off the payloads in its own right. -/
def greater : Value → Value → Bool
  | .integer a, .integer b => b < a
  | .text a, .text b => b < a
  | .boolean a, .boolean b => a && !b
  | _, _ => false

end Value

/-- Division rounding toward zero, or `none` for a zero divisor. -/
def truncatingDivide (dividend divisor : Int) : Option Int :=
  if divisor = 0 then none else some (dividend.tdiv divisor)

end Hallo
