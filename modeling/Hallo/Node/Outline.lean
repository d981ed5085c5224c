import Hallo.Node.Source

/-!
The outline of a tree: one line for each node, indented by two spaces for each level.
-/
namespace Hallo.Node

/-- What the line of a node says behind its indentation. -/
def headline (node : Node) : Except Unwritable String :=
  match node with
  | .literal value => (Unwritable.unlessLong value.inspect).map (node.kindName ++ " " ++ ·)
  | .var name => .ok (node.kindName ++ " " ++ name)
  | .unary operator _ => .ok (node.kindName ++ " " ++ operator)
  | .binary _ operator _ => .ok (node.kindName ++ " " ++ operator)
  | .compare _ _ comparison => .ok (node.kindName ++ " " ++ comparison.name)
  | .call callee _ => .ok (node.kindName ++ " " ++ callee)
  | .assign target _ => .ok (node.kindName ++ " " ++ target)
  | .declare name params _ =>
    .ok (node.kindName ++ " " ++ name ++ "(" ++ Text.joined ", " params ++ ")")
  | .bare | .empty | .block _ | .branch _ _ | .loop _ _ | .giveBack _ => .ok node.kindName

/-- The indentation of a level: two spaces for each, and none below the first. -/
def indentation (level : Int) : String :=
  String.ofList (List.replicate (2 * level).toNat ' ')

/-- The line of a node at the given level. -/
def outlineLine (level : Int) (node : Node) : Except Unwritable String :=
  node.headline.map (indentation level ++ ·)

mutual

/-- The outline of a node, line by line: its own line first, then its parts one level deeper. -/
def outlineLines (level : Int) (node : Node) : Except Unwritable (List String) := do
  let line ← node.outlineLine level
  let lines ← match node with
    | .bare | .empty | .literal _ | .var _ => pure []
    | .block statements => outlineAll (level + 1) statements
    | .unary _ operand => outlineLines (level + 1) operand
    | .binary left _ right => do
      let first ← outlineLines (level + 1) left
      let second ← outlineLines (level + 1) right
      pure (first ++ second)
    | .compare left right _ => do
      let first ← outlineLines (level + 1) left
      let second ← outlineLines (level + 1) right
      pure (first ++ second)
    | .call _ arguments => outlineAll (level + 1) arguments
    | .assign _ value => outlineLines (level + 1) value
    | .declare _ _ body => outlineLines (level + 1) body
    | .branch condition body => do
      let first ← outlineLines (level + 1) condition
      let second ← outlineLines (level + 1) body
      pure (first ++ second)
    | .loop condition body => do
      let first ← outlineLines (level + 1) condition
      let second ← outlineLines (level + 1) body
      pure (first ++ second)
    | .giveBack expression => outlineLines (level + 1) expression
  return line :: lines

/-- The outlines of several nodes, one after the other. -/
def outlineAll (level : Int) : List Node → Except Unwritable (List String)
  | [] => .ok []
  | node :: nodes => do
    let first ← outlineLines level node
    let others ← outlineAll level nodes
    return first ++ others

end

/-- The outline of a tree as one text. -/
def outline (level : Int) (node : Node) : Except Unwritable String :=
  (node.outlineLines level).map (Text.joined "\n")

end Hallo.Node
