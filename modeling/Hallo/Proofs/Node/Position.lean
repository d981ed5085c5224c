import Hallo.Proofs.Node.RoundTrip

/-!
Positions in trees. A tree can be built with any node anywhere; in the tree of a program each
position holds only nodes that belong there, and what a node carries can be found in a text.
-/
namespace Hallo

/-- The positions that a node can have in a tree. The whole program is a body, like that of a
    function. -/
inductive Position where
  | expression
  | statement
  | body
  deriving DecidableEq, Repr

/-- A text that is a name and nothing else: a scan of it finds the name, and then the end of
    input. -/
structure IsIdentifier (text : String) : Prop where
  nonempty : text ≠ ""
  ends : ∃ finish, (Scan.ofSource text).ending = .ok finish
  lexemes : (Scan.ofSource text).listed.map Token.lexeme = [.name text, .endOfInput]

/-- No boolean begins in a name that stands alone, not even in the lone colon. -/
theorem IsName.boolean?_eq_none {name : String} (hname : IsName name) :
    Bite.boolean? name.toList = none := by
  obtain ⟨c, tail, hchars, _, _, htail, _⟩ := hname
  by_cases hcolon : c :: tail = [':']
  · rw [hchars, hcolon]
    rfl
  · rw [hchars, ← List.append_nil tail]
    exact Bite.boolean?_eq_none hcolon htail

theorem IsName.isIdentifier {name : String} (hname : IsName name) : IsIdentifier name := by
  have hboolean : Bite.boolean? (name.toList ++ []) = none := by
    rw [List.append_nil]
    exact hname.boolean?_eq_none
  have hspells : Spells (name.toList ++ []) [.name name] [] :=
    .of_first (Bite.first_of_isName hname hboolean trivial) (by simp)
  rw [List.append_nil] at hspells
  obtain ⟨hending, hlexemes⟩ := Scan.lexemes_of_spells hspells
  refine ⟨?_, hending, hlexemes⟩
  rintro rfl
  obtain ⟨c, tail, hchars, _⟩ := hname
  cases hchars

namespace Node

/-- The parts of a node in order, each with its position. -/
def parts : Node → List (Position × Node)
  | .bare | .empty | .literal _ | .var _ => []
  | .block statements => statements.map fun statement => (.statement, statement)
  | .unary _ operand => [(.expression, operand)]
  | .binary left _ right => [(.expression, left), (.expression, right)]
  | .compare left right _ => [(.expression, left), (.expression, right)]
  | .call _ arguments => arguments.map fun argument => (.expression, argument)
  | .assign _ value => [(.expression, value)]
  | .declare _ _ body => [(.body, body)]
  | .branch test body => [(.expression, test), (.body, body)]
  | .loop test body => [(.expression, test), (.body, body)]
  | .giveBack value => [(.expression, value)]

/-- Somewhere in a tree, a node stands at a position. -/
inductive Occurs (root : Node) : Position → Node → Prop where
  | root : Occurs root .body root
  | part {position place : Position} {whole t : Node} (hwhole : Occurs root position whole)
      (hpart : (place, t) ∈ whole.parts) : Occurs root place t

/-- A node that belongs at a position, by its kind and by what it carries. Its parts are not looked
    at. -/
def Fits : Position → Node → Prop
  | .expression, .literal (.integer n) => 0 ≤ n ∧ (Decimal.text n).length ≤ 4300
  | .expression, .literal (.text s) => '>' ∉ s.toList
  | .expression, .literal (.boolean _) => True
  | .expression, .var name => IsIdentifier name
  | .expression, .unary operator _ => operator = "+" ∨ operator = "-"
  | .expression, .binary _ operator _ =>
    operator = "+" ∨ operator = "-" ∨ operator = "*" ∨ operator = "/"
  | .expression, .compare _ _ _ => True
  | .expression, .call callee _ => IsIdentifier callee
  | .statement, .call callee _ => IsIdentifier callee
  | .statement, .assign target _ => IsIdentifier target
  | .statement, .declare name params _ =>
    IsIdentifier name ∧ (∀ param ∈ params, IsIdentifier param) ∧ params.Nodup
  | .statement, .branch _ _ => True
  | .statement, .loop _ _ => True
  | .statement, .giveBack _ => True
  | .body, .block _ => True
  | _, _ => False

/-- What the grammar derives at a position. -/
def DerivedAt : Position → Node → Prop
  | .expression, t => IsExpression t
  | .statement, t => IsStatement t
  | .body, t =>
    ∃ statements, t = .block statements ∧ ∀ statement ∈ statements, IsStatement statement

theorem IsExpression.parts_derivedAt {t : Node} (ht : IsExpression t) :
    ∀ part ∈ t.parts, DerivedAt part.1 part.2 := by
  cases ht with
  | literal _ => simp [parts]
  | var _ => simp [parts]
  | unary _ hoperand => simpa [parts, DerivedAt] using hoperand
  | binary _ hleft hright => simpa [parts, DerivedAt] using ⟨hleft, hright⟩
  | compare hleft hright => simpa [parts, DerivedAt] using ⟨hleft, hright⟩
  | call _ harguments => simpa [parts, DerivedAt] using harguments

theorem IsStatement.parts_derivedAt {t : Node} (ht : IsStatement t) :
    ∀ part ∈ t.parts, DerivedAt part.1 part.2 := by
  cases ht with
  | call _ harguments => simpa [parts, DerivedAt] using harguments
  | assign _ hvalue => simpa [parts, DerivedAt] using hvalue
  | declare _ _ _ hbody => simpa [parts, DerivedAt] using hbody
  | branch htest hbody => simpa [parts, DerivedAt] using ⟨htest, hbody⟩
  | loop htest hbody => simpa [parts, DerivedAt] using ⟨htest, hbody⟩
  | giveBack hvalue => simpa [parts, DerivedAt] using hvalue

/-- What is derived at a position has only parts that are derived at theirs. -/
theorem DerivedAt.parts_derivedAt {t : Node} {position : Position} (ht : DerivedAt position t) :
    ∀ part ∈ t.parts, DerivedAt part.1 part.2 := by
  cases position with
  | expression => exact IsExpression.parts_derivedAt ht
  | statement => exact IsStatement.parts_derivedAt ht
  | body =>
    obtain ⟨statements, rfl, hstatements⟩ := ht
    simpa [parts, DerivedAt] using hstatements

/-- Every node of a parsed program was derived at its position. -/
theorem derivedAt_of_parse {source : String} {nodes : List Node} (hparse : parse source = .ok nodes)
    {position : Position} {t : Node} (hoccurs : (Node.block nodes).Occurs position t) :
    DerivedAt position t := by
  induction hoccurs with
  | root => exact ⟨nodes, rfl, isStatement_of_parse hparse⟩
  | part _ hpart ih => exact ih.parts_derivedAt _ hpart

theorem fits_literal {v : Value} (hv : v.IsLiteral) : Fits .expression (.literal v) := by
  cases v with
  | integer n =>
    obtain ⟨hnonneg, hwritable⟩ := hv
    obtain ⟨k, rfl⟩ := Int.eq_ofNat_of_zero_le hnonneg
    refine ⟨hnonneg, ?_⟩
    have hlength : (Nat.toDigits 10 k).length ≤ Decimal.digitLimit :=
      Decimal.length_toDigits_le_iff.2 hwritable
    change (Nat.repr k).length ≤ 4300
    rwa [← String.length_toList, Nat.toList_repr]
  | text s => exact hv
  | boolean b => trivial
  | nothing => exact hv

theorem IsExpression.fits {t : Node} (ht : IsExpression t) : t.Fits .expression := by
  cases ht with
  | literal hvalue => exact fits_literal hvalue
  | var hname => exact hname.isIdentifier
  | unary hoperator _ => simpa [Fits] using hoperator
  | binary hoperator _ _ => simpa [Fits] using hoperator
  | compare _ _ => trivial
  | call hcallee _ => exact hcallee.isIdentifier

theorem IsStatement.fits {t : Node} (ht : IsStatement t) : t.Fits .statement := by
  cases ht with
  | call hcallee _ => exact hcallee.isIdentifier
  | assign htarget _ => exact htarget.isIdentifier
  | declare hname hparams hnodup _ =>
    exact ⟨hname.isIdentifier, fun param hmem => (hparams param hmem).isIdentifier, hnodup⟩
  | branch _ _ => trivial
  | loop _ _ => trivial
  | giveBack _ => trivial

theorem DerivedAt.fits {t : Node} {position : Position} (ht : DerivedAt position t) :
    t.Fits position := by
  cases position with
  | expression => exact IsExpression.fits ht
  | statement => exact IsStatement.fits ht
  | body =>
    obtain ⟨statements, rfl, _⟩ := ht
    trivial

/-- A node that belongs anywhere is of a kind that means something, and a block belongs nowhere but
    as a body. -/
theorem Fits.kind {t : Node} {position : Position} (hfits : t.Fits position) :
    t ≠ .bare ∧ t ≠ .empty ∧ ∀ statements, t = .block statements → position = .body := by
  refine ⟨?_, ?_, ?_⟩
  · rintro rfl
    cases position <;> exact hfits
  · rintro rfl
    cases position <;> exact hfits
  · rintro statements rfl
    cases position with
    | body => rfl
    | expression => exact hfits.elim
    | statement => exact hfits.elim

/-- Every parsed tree is canonical. Whatever source it was parsed from, each of its nodes belongs
    where it stands: no node is bare or empty, a block is a body, expressions and statements keep to
    their positions, operators are those of the language, literals are short numerals without a
    sign, texts that can stand in brackets, or booleans, names are names also when they stand alone,
    and no function has two parameters of one name. -/
theorem parsed_nodes_fit {source : String} {nodes : List Node} (hparse : parse source = .ok nodes)
    {position : Position} {t : Node} (hoccurs : (Node.block nodes).Occurs position t) :
    t.Fits position ∧ t ≠ .bare ∧ t ≠ .empty ∧ ∀ statements, t = .block statements →
      position = .body := by
  have hfits := (derivedAt_of_parse hparse hoccurs).fits
  exact ⟨hfits, hfits.kind⟩

/-- The colon that is a name by itself, as an argument of a call in the body of a function. -/
theorem parsed_nodes_fit_colon :
    let program : List Node := [.declare "f" ["x", ":"] (.block [.giveBack (.call "g" [.var ":"])])]
    parse "hallo\nfunny f(x,: ) avo\nzurück g(: )\ncado\nreicht dann auch mal" = .ok program ∧
      (Node.block program).Occurs .expression (.var ":") ∧ IsIdentifier ":" := by
  intro program
  have hparse : parse "hallo\nfunny f(x,: ) avo\nzurück g(: )\ncado\nreicht dann auch mal" =
      .ok program := by
    cbv
  have hroot : (Node.block program).Occurs .body (.block program) := .root
  have hfunction := hroot.part List.mem_cons_self
  have hbody := hfunction.part List.mem_cons_self
  have hreturn := hbody.part List.mem_cons_self
  have hcall := hreturn.part List.mem_cons_self
  have hcolon := hcall.part List.mem_cons_self
  exact ⟨hparse, hcolon, (parsed_nodes_fit hparse hcolon).1⟩

end Node

end Hallo
