import Hallo.Value

/-!
Program trees. One type holds expressions, statements and blocks, so a tree can be built that
no program has: a tree of the parser keeps each kind in its position, a tree built by hand may
put any node anywhere.
-/
namespace Hallo

/-- The three comparisons. -/
inductive Comparison where
  | equals
  | less
  | greater
  deriving DecidableEq, Repr

/-- The name of a comparison in tree outlines. -/
def Comparison.name : Comparison → String
  | .equals => "Equals"
  | .less => "Less"
  | .greater => "Greater"

/-- A node of a program tree. A `bare` node is of no kind and means nothing; an `empty` node
    is a statement that does nothing. -/
inductive Node where
  | bare
  | empty
  | block (statements : List Node)
  | literal (value : Value)
  | var (name : String)
  | unary (operator : String) (operand : Node)
  | binary (left : Node) (operator : String) (right : Node)
  | compare (left right : Node) (comparison : Comparison)
  | call (callee : String) (arguments : List Node)
  | assign (target : String) (value : Node)
  | declare (name : String) (params : List String) (body : Node)
  | branch (condition body : Node)
  | loop (condition body : Node)
  | giveBack (expression : Node)
  deriving Inhabited, Repr

namespace Node

/-- The name of a node's kind in tree outlines and messages. -/
def kindName : Node → String
  | .bare => "ASTNode"
  | .empty => "NoOp"
  | .block _ => "Block"
  | .literal _ => "Literal"
  | .var _ => "Variable"
  | .unary _ _ => "UnaryOp"
  | .binary _ _ _ => "BinOp"
  | .compare _ _ _ => "Compare"
  | .call _ _ => "FunctionCall"
  | .assign _ _ => "Assign"
  | .declare _ _ _ => "FunctionDeclaration"
  | .branch _ _ => "If"
  | .loop _ _ => "Loop"
  | .giveBack _ => "Return"

/-- Whether a node is a literal: the only kind the worker never asks about. -/
def isLiteral : Node → Bool
  | .literal _ => true
  | _ => false

mutual

/-- Whether two trees are the same, node by node. -/
def same : Node → Node → Bool
  | .bare, .bare => true
  | .empty, .empty => true
  | .block as, .block bs => sameAll as bs
  | .literal v, .literal w => v == w
  | .var a, .var b => a == b
  | .unary o a, .unary p b => o == p && same a b
  | .binary a o c, .binary b p d => o == p && same a b && same c d
  | .compare a c k, .compare b d l => k == l && same a b && same c d
  | .call f as, .call g bs => f == g && sameAll as bs
  | .assign x a, .assign y b => x == y && same a b
  | .declare f ps a, .declare g qs b => f == g && ps == qs && same a b
  | .branch a c, .branch b d => same a b && same c d
  | .loop a c, .loop b d => same a b && same c d
  | .giveBack a, .giveBack b => same a b
  | _, _ => false

/-- Whether two lists of trees are the same. -/
def sameAll : List Node → List Node → Bool
  | [], [] => true
  | a :: as, b :: bs => same a b && sameAll as bs
  | _, _ => false

end

mutual

theorem same_iff (a b : Node) : same a b = true ↔ a = b := by
  cases a <;> cases b <;>
    simp [same, same_iff, sameAll_iff, and_assoc, and_comm, and_left_comm]

theorem sameAll_iff (as bs : List Node) : sameAll as bs = true ↔ as = bs := by
  cases as <;> cases bs <;> simp [sameAll, same_iff, sameAll_iff]

end

instance : DecidableEq Node := fun a b => decidable_of_iff _ (same_iff a b)

end Node

end Hallo
