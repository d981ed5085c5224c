import Hallo.Proofs.Grammar
import Hallo.Proofs.Token.Spelling

/-!
The trees of programs. Of all trees that can be built, the grammar derives only those that keep
expressions and statements in their positions and whose names and literals can be written.
-/
namespace Hallo

/-- A value that a literal can have. -/
def Value.IsLiteral : Value → Prop
  | .integer n => 0 ≤ n ∧ Decimal.Writable n
  | .text s => '>' ∉ s.toList
  | .boolean _ => True
  | .nothing => False

namespace Node

/-- The expressions of programs. -/
inductive IsExpression : Node → Prop where
  | literal {v : Value} (hvalue : v.IsLiteral) : IsExpression (.literal v)
  | var {name : String} (hname : IsName name) : IsExpression (.var name)
  | unary {operator : String} {operand : Node} (hoperator : operator ∈ ["+", "-"])
      (hoperand : IsExpression operand) : IsExpression (.unary operator operand)
  | binary {left right : Node} {operator : String} (hoperator : operator ∈ ["+", "-", "*", "/"])
      (hleft : IsExpression left) (hright : IsExpression right) :
      IsExpression (.binary left operator right)
  | compare {left right : Node} {comparison : Comparison} (hleft : IsExpression left)
      (hright : IsExpression right) : IsExpression (.compare left right comparison)
  | call {callee : String} {arguments : List Node} (hcallee : IsName callee)
      (harguments : ∀ argument ∈ arguments, IsExpression argument) :
      IsExpression (.call callee arguments)

/-- The statements of programs. Bodies are blocks, and blocks are bodies only. -/
inductive IsStatement : Node → Prop where
  | call {callee : String} {arguments : List Node} (hcallee : IsName callee)
      (harguments : ∀ argument ∈ arguments, IsExpression argument) :
      IsStatement (.call callee arguments)
  | assign {target : String} {value : Node} (htarget : IsName target)
      (hvalue : IsExpression value) : IsStatement (.assign target value)
  | declare {name : String} {params : List String} {body : List Node} (hname : IsName name)
      (hparams : ∀ param ∈ params, IsName param) (hnodup : params.Nodup)
      (hbody : ∀ statement ∈ body, IsStatement statement) :
      IsStatement (.declare name params (.block body))
  | branch {test : Node} {body : List Node} (htest : IsExpression test)
      (hbody : ∀ statement ∈ body, IsStatement statement) : IsStatement (.branch test (.block body))
  | loop {test : Node} {body : List Node} (htest : IsExpression test)
      (hbody : ∀ statement ∈ body, IsStatement statement) : IsStatement (.loop test (.block body))
  | giveBack {value : Node} (hvalue : IsExpression value) : IsStatement (.giveBack value)

end Node

namespace Grammar

open Node

theorem Additive.mem {l : Lexeme} {operator : String} (hsign : Additive l operator) :
    operator ∈ ["+", "-"] := by
  cases hsign <;> decide

theorem Multiplicative.mem {l : Lexeme} {operator : String} (hsign : Multiplicative l operator) :
    operator ∈ ["*", "/"] := by
  cases hsign <;> decide

theorem Denotes.isLiteral {l : Lexeme} {v : Value} (hdenotes : Denotes l v)
    (hlexeme : l.Plausible) : v.IsLiteral := by
  cases hdenotes with
  | integer n => exact ⟨Int.natCast_nonneg n, hlexeme⟩
  | text s => exact hlexeme
  | boolean b => trivial

mutual

theorem Factor.isExpression : ∀ {ts : List Lexeme} {t : Node}, Factor ts t →
    (∀ l ∈ ts, l.Plausible) → IsExpression t
  | _, _, .signed hsign hoperand, hall =>
    .unary hsign.mem (hoperand.isExpression fun l hl => hall l (.tail _ hl))
  | _, _, .literal hdenotes, hall => .literal (hdenotes.isLiteral (hall _ (.head _)))
  | _, _, .group hinner, hall =>
    hinner.isExpression fun l hl => hall l (.tail _ (List.mem_append_left _ hl))
  | _, _, .var name, hall => .var (hall (.name name) (.head _))
  | _, _, .call name hargs, hall =>
    .call (hall (.name name) (.head _)) (hargs.isExpression fun l hl => hall l (.tail _ hl))

theorem Product.isExpression : ∀ {ts : List Lexeme} {t : Node}, Product ts t →
    (∀ l ∈ ts, l.Plausible) → IsExpression t
  | _, _, .factor hfactor, hall => hfactor.isExpression hall
  | _, _, .join hleft hsign hright, hall =>
    .binary (List.mem_append_right ["+", "-"] hsign.mem)
      (hleft.isExpression fun l hl => hall l (List.mem_append_left _ hl))
      (hright.isExpression fun l hl => hall l (List.mem_append_right _ (.tail _ hl)))

theorem Term.isExpression : ∀ {ts : List Lexeme} {t : Node}, Term ts t →
    (∀ l ∈ ts, l.Plausible) → IsExpression t
  | _, _, .product hproduct, hall => hproduct.isExpression hall
  | _, _, .compare hleft _ hright, hall =>
    .compare (hleft.isExpression fun l hl => hall l (List.mem_append_left _ hl))
      (hright.isExpression fun l hl => hall l (List.mem_append_right _ (.tail _ hl)))

theorem Expression.isExpression : ∀ {ts : List Lexeme} {t : Node}, Expression ts t →
    (∀ l ∈ ts, l.Plausible) → IsExpression t
  | _, _, .term hterm, hall => hterm.isExpression hall
  | _, _, .join hleft hsign hright, hall =>
    .binary (List.mem_append_left ["*", "/"] hsign.mem)
      (hleft.isExpression fun l hl => hall l (List.mem_append_left _ hl))
      (hright.isExpression fun l hl => hall l (List.mem_append_right _ (.tail _ hl)))

theorem Arguments.isExpression : ∀ {ts : List Lexeme} {args : List Node}, Arguments ts args →
    (∀ l ∈ ts, l.Plausible) → ∀ t ∈ args, IsExpression t
  | _, _, .none, _ => by simp
  | _, _, .some hargs, hall =>
    hargs.isExpression fun l hl => hall l (.tail _ (List.mem_append_left _ hl))

theorem Expressions.isExpression : ∀ {ts : List Lexeme} {args : List Node}, Expressions ts args →
    (∀ l ∈ ts, l.Plausible) → ∀ t ∈ args, IsExpression t
  | _, _, .last hlast, hall => by
    simpa using hlast.isExpression hall
  | _, _, .more hfirst hothers, hall => by
    have hhead := hfirst.isExpression fun l hl => hall l (List.mem_append_left _ hl)
    have htail := hothers.isExpression fun l hl => hall l (List.mem_append_right _ (.tail _ hl))
    simpa using ⟨hhead, htail⟩

end

theorem Names.isName {ts : List Lexeme} {names : List String} (hnames : Names ts names)
    (hall : ∀ l ∈ ts, l.Plausible) : ∀ name ∈ names, IsName name := by
  induction hnames with
  | last name =>
    have hname : IsName name := hall (.name name) (.head _)
    simpa using hname
  | more name hothers ih =>
    have hhead : IsName name := hall (.name name) (.head _)
    have htail := ih fun l hl => hall l (.tail _ (.tail _ hl))
    simpa using ⟨hhead, htail⟩

theorem Parameters.isName {ts : List Lexeme} {params : List String} (hparams : Parameters ts params)
    (hall : ∀ l ∈ ts, l.Plausible) : ∀ param ∈ params, IsName param := by
  cases hparams with
  | none => simp
  | some hnames => exact hnames.isName fun l hl => hall l (.tail _ (List.mem_append_left _ hl))

mutual

theorem Statement.isStatement : ∀ {ts : List Lexeme} {t : Node}, Statement ts t →
    (∀ l ∈ ts, l.Plausible) → IsStatement t
  | _, _, .assign target hvalue, hall =>
    .assign (hall (.name target) (.head _))
      (hvalue.isExpression fun l hl => hall l (.tail _ (.tail _ hl)))
  | _, _, .call name hargs, hall =>
    .call (hall (.name name) (.head _)) (hargs.isExpression fun l hl => hall l (.tail _ hl))
  | _, _, .branch htest hblock, hall => by
    have hleft := htest.isExpression fun l hl => hall l (.tail _ (List.mem_append_left _ hl))
    obtain ⟨body, rfl, hbody⟩ :=
      hblock.isStatement fun l hl => hall l (.tail _ (List.mem_append_right _ hl))
    exact .branch hleft hbody
  | _, _, .loop htest hblock, hall => by
    have hleft := htest.isExpression fun l hl => hall l (.tail _ (List.mem_append_left _ hl))
    obtain ⟨body, rfl, hbody⟩ :=
      hblock.isStatement fun l hl => hall l (.tail _ (List.mem_append_right _ hl))
    exact .loop hleft hbody
  | _, _, .declare name hparams hnodup hblock, hall => by
    have hnames := hparams.isName fun l hl => hall l (.tail _ (.tail _ (List.mem_append_left _ hl)))
    obtain ⟨body, rfl, hbody⟩ :=
      hblock.isStatement fun l hl => hall l (.tail _ (.tail _ (List.mem_append_right _ hl)))
    exact .declare (hall (.name name) (.tail _ (.head _))) hnames hnodup hbody
  | _, _, .assignTo target hvalue, hall =>
    .assign (hall (.name target) (.tail _ (.head _)))
      (hvalue.isExpression fun l hl => hall l (.tail _ (.tail _ (.tail _ hl))))
  | _, _, .giveBack hvalue, hall =>
    .giveBack (hvalue.isExpression fun l hl => hall l (.tail _ hl))

theorem Block.isStatement : ∀ {ts : List Lexeme} {t : Node}, Block ts t →
    (∀ l ∈ ts, l.Plausible) → ∃ body, t = .block body ∧ ∀ statement ∈ body, IsStatement statement
  | _, _, .block hbody, hall =>
    ⟨_, rfl, hbody.isStatement fun l hl => hall l (.tail _ (List.mem_append_left _ hl))⟩

theorem Statements.isStatement : ∀ {ts : List Lexeme} {nodes : List Node}, Statements ts nodes →
    (∀ l ∈ ts, l.Plausible) → ∀ t ∈ nodes, IsStatement t
  | _, _, .empty hfollowing, hall => hfollowing.isStatement hall
  | _, _, .first hstatement hfollowing, hall => by
    have hhead := hstatement.isStatement fun l hl => hall l (List.mem_append_left _ hl)
    have htail := hfollowing.isStatement fun l hl => hall l (List.mem_append_right _ hl)
    simpa using ⟨hhead, htail⟩

theorem Following.isStatement : ∀ {ts : List Lexeme} {nodes : List Node}, Following ts nodes →
    (∀ l ∈ ts, l.Plausible) → ∀ t ∈ nodes, IsStatement t
  | _, _, .done, _ => by simp
  | _, _, .lineBreak, _ => by simp
  | _, _, .more hstatement hothers, hall => by
    have hhead := hstatement.isStatement fun l hl => hall l (.tail _ (List.mem_append_left _ hl))
    have htail := hothers.isStatement fun l hl => hall l (.tail _ (List.mem_append_right _ hl))
    simpa using ⟨hhead, htail⟩

end

theorem Program.isStatement {ls : List Lexeme} {nodes : List Node} (hprogram : Program ls nodes)
    (hall : ∀ l ∈ ls, l.Plausible) : ∀ t ∈ nodes, IsStatement t := by
  obtain ⟨hnodes⟩ := hprogram
  exact hnodes.isStatement fun l hl => hall l (.tail _ (.tail _ (List.mem_append_left _ hl)))

end Grammar

end Hallo
