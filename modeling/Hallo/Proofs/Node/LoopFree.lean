import Hallo.Proofs.Node.RoundTrip

/-!
Programs without loops. A tree has a loop only if the keyword for loops is among the lexemes that
it was read from.
-/
namespace Hallo

namespace Node

mutual

/-- Whether there is no loop in a tree, nor in the functions that it declares. -/
def loopFree : Node → Bool
  | .bare => true
  | .empty => true
  | .block statements => loopFreeAll statements
  | .literal _ => true
  | .var _ => true
  | .unary _ operand => loopFree operand
  | .binary left _ right => loopFree left && loopFree right
  | .compare left right _ => loopFree left && loopFree right
  | .call _ arguments => loopFreeAll arguments
  | .assign _ value => loopFree value
  | .declare _ _ body => loopFree body
  | .branch test body => loopFree test && loopFree body
  | .loop _ _ => false
  | .giveBack expression => loopFree expression

/-- Whether there is no loop in any of the trees. -/
def loopFreeAll : List Node → Bool
  | [] => true
  | node :: nodes => loopFree node && loopFreeAll nodes

end

theorem loopFreeAll_iff {nodes : List Node} :
    loopFreeAll nodes = true ↔ ∀ t ∈ nodes, t.loopFree = true := by
  induction nodes with
  | nil => simp [loopFreeAll]
  | cons node nodes ih => simp [loopFreeAll, ih]

/-- Expressions have no loops. -/
theorem IsExpression.loopFree {t : Node} (hexpression : IsExpression t) : t.loopFree = true := by
  induction hexpression with
  | literal _ => rfl
  | var _ => rfl
  | unary _ _ ih => exact ih
  | binary _ _ _ ihleft ihright => simp [Node.loopFree, ihleft, ihright]
  | compare _ _ ihleft ihright => simp [Node.loopFree, ihleft, ihright]
  | call _ _ ih => exact loopFreeAll_iff.2 ih

end Node

/-- A lexeme of a program without loops. -/
def Lexeme.Straight (l : Lexeme) : Prop :=
  l.Plausible ∧ l ≠ .keyword .loop

namespace Grammar

theorem Expression.loopFree {ts : List Lexeme} {t : Node} (hexpression : Expression ts t)
    (hall : ∀ l ∈ ts, l.Straight) : t.loopFree = true :=
  (hexpression.isExpression fun l hl => (hall l hl).1).loopFree

theorem Arguments.loopFree {ts : List Lexeme} {args : List Node} (hargs : Arguments ts args)
    (hall : ∀ l ∈ ts, l.Straight) (name : String) : (Node.call name args).loopFree = true :=
  Node.loopFreeAll_iff.2 fun t hmem =>
    (hargs.isExpression (fun l hl => (hall l hl).1) t hmem).loopFree

mutual

/-- Only from the keyword for loops does the grammar derive a loop. -/
theorem Statement.loopFree : ∀ {ts : List Lexeme} {t : Node}, Statement ts t →
    (∀ l ∈ ts, l.Straight) → t.loopFree = true
  | _, _, .assign _ hvalue, hall => hvalue.loopFree fun l hl => hall l (.tail _ (.tail _ hl))
  | _, _, .call name hargs, hall => hargs.loopFree (fun l hl => hall l (.tail _ hl)) name
  | _, _, .branch htest hblock, hall => by
    have hleft := htest.loopFree fun l hl => hall l (.tail _ (List.mem_append_left _ hl))
    have hright := hblock.loopFree fun l hl => hall l (.tail _ (List.mem_append_right _ hl))
    rw [Node.loopFree, hleft, hright]
    rfl
  | _, _, .loop _ _, hall => absurd rfl (hall (.keyword .loop) (.head _)).2
  | _, _, .declare _ _ _ hblock, hall =>
    hblock.loopFree fun l hl => hall l (.tail _ (.tail _ (List.mem_append_right _ hl)))
  | _, _, .assignTo _ hvalue, hall =>
    hvalue.loopFree fun l hl => hall l (.tail _ (.tail _ (.tail _ hl)))
  | _, _, .giveBack hvalue, hall => hvalue.loopFree fun l hl => hall l (.tail _ hl)

theorem Block.loopFree : ∀ {ts : List Lexeme} {t : Node}, Block ts t →
    (∀ l ∈ ts, l.Straight) → t.loopFree = true
  | _, _, .block hbody, hall =>
    Node.loopFreeAll_iff.2 (hbody.loopFree fun l hl => hall l (.tail _ (List.mem_append_left _ hl)))

theorem Statements.loopFree : ∀ {ts : List Lexeme} {nodes : List Node}, Statements ts nodes →
    (∀ l ∈ ts, l.Straight) → ∀ t ∈ nodes, t.loopFree = true
  | _, _, .empty hfollowing, hall => hfollowing.loopFree hall
  | _, _, .first hstatement hfollowing, hall => by
    have hhead := hstatement.loopFree fun l hl => hall l (List.mem_append_left _ hl)
    have htail := hfollowing.loopFree fun l hl => hall l (List.mem_append_right _ hl)
    exact List.forall_mem_cons.2 ⟨hhead, htail⟩

theorem Following.loopFree : ∀ {ts : List Lexeme} {nodes : List Node}, Following ts nodes →
    (∀ l ∈ ts, l.Straight) → ∀ t ∈ nodes, t.loopFree = true
  | _, _, .done, _ => by simp
  | _, _, .lineBreak, _ => by simp
  | _, _, .more hstatement hothers, hall => by
    have hhead := hstatement.loopFree fun l hl => hall l (.tail _ (List.mem_append_left _ hl))
    have htail := hothers.loopFree fun l hl => hall l (.tail _ (List.mem_append_right _ hl))
    exact List.forall_mem_cons.2 ⟨hhead, htail⟩

end

theorem Program.loopFree {ls : List Lexeme} {nodes : List Node} (hprogram : Program ls nodes)
    (hall : ∀ l ∈ ls, l.Straight) : (Node.block nodes).loopFree = true := by
  obtain ⟨hnodes⟩ := hprogram
  exact Node.loopFreeAll_iff.2
    (hnodes.loopFree fun l hl => hall l (.tail _ (.tail _ (List.mem_append_left _ hl))))

end Grammar

/-- What is parsed from a source without the keyword for loops has no loop. -/
theorem Node.loopFree_of_parse {source : String} {nodes : List Node}
    (hparse : parse source = .ok nodes)
    (hloop : ∀ token ∈ (Scan.ofSource source).tokens, token.lexeme ≠ .keyword .loop) :
    (Node.block nodes).loopFree = true := by
  obtain ⟨⟨finish, hending⟩, hprogram⟩ := parse_eq_ok_iff_program.1 hparse
  refine hprogram.loopFree fun l hmem => ⟨plausible_listed hending l hmem, ?_⟩
  rw [Scan.lexemes_listed hending, List.mem_append, List.mem_singleton] at hmem
  rcases hmem with hmem | rfl
  · obtain ⟨token, htoken, rfl⟩ := List.mem_map.1 hmem
    exact hloop token htoken
  · rw [(Feed.proper_ofSource source).lexeme_ending finish hending]
    exact nofun

end Hallo
