import Hallo.Node
import Hallo.Text.Lines
import Hallo.Token

/-!
The canonical source of a tree. Binary operations and comparisons always stand in parentheses,
so the text needs no rules of precedence to be read back.
-/
namespace Hallo

/-- Why a tree cannot be written. -/
inductive Unwritable where
  | longInteger
  | bareNode
  deriving DecidableEq, Repr

/-- The wording of a refusal to write. -/
def Unwritable.message : Unwritable → String
  | .longInteger =>
    "Exceeds the limit (" ++ Nat.repr Decimal.digitLimit ++
      " digits) for integer string conversion; " ++
      "use sys.set_int_max_str_digits() to increase the limit"
  | .bareNode => "Cannot unparse " ++ Node.bare.kindName

/-- A text that may be missing because an integer in it was too long. -/
def Unwritable.unlessLong : Option String → Except Unwritable String
  | some text => .ok text
  | none => .error .longInteger

/-- The keyword of a comparison. -/
def Comparison.keyword : Comparison → Keyword
  | .equals => .equals
  | .less => .less
  | .greater => .greater

namespace Node

mutual

/-- The canonical source of a node. The first obstacle from the left is reported. -/
def source : Node → Except Unwritable String
  | .bare => .error .bareNode
  | .empty => .ok ""
  | .block statements => do
    let lines ← sources statements
    return Text.joined "\n" (Keyword.blockOpen.text :: lines ++ [Keyword.blockClose.text])
  | .literal value => Unwritable.unlessLong value.source
  | .var name => .ok name
  | .unary operator operand => do
    let text ← operand.source
    return operator ++ text
  | .binary left operator right => do
    let first ← left.source
    let second ← right.source
    return "(" ++ first ++ " " ++ operator ++ " " ++ second ++ ")"
  | .compare left right comparison => do
    let first ← left.source
    let second ← right.source
    return "(" ++ first ++ " " ++ comparison.keyword.text ++ " " ++ second ++ ")"
  | .call callee arguments => do
    let texts ← sources arguments
    return callee ++ "(" ++ Text.joined ", " texts ++ ")"
  | .assign target value => do
    let text ← value.source
    return target ++ " = " ++ text
  | .declare name params body => do
    let text ← body.source
    return Keyword.function.text ++ " " ++ name ++ "(" ++ Text.joined ", " params ++ ") " ++ text
  | .branch condition body => do
    let first ← condition.source
    let second ← body.source
    return Keyword.branch.text ++ " " ++ first ++ " " ++ second
  | .loop condition body => do
    let first ← condition.source
    let second ← body.source
    return Keyword.loop.text ++ " " ++ first ++ " " ++ second
  | .giveBack expression => do
    let text ← expression.source
    return Keyword.giveBack.text ++ " " ++ text

/-- The canonical sources of several nodes in order. -/
def sources : List Node → Except Unwritable (List String)
  | [] => .ok []
  | node :: nodes => do
    let text ← node.source
    let texts ← sources nodes
    return text :: texts

end

/-- The source of a whole program with the given statements. -/
def programSource (statements : List Node) : Except Unwritable String := do
  let lines ← sources statements
  return Text.joined "\n" (Keyword.greeting.text :: lines ++ [Keyword.farewell.text])

end Node

end Hallo
