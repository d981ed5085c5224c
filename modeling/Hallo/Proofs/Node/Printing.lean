import Hallo.Node.Source
import Hallo.Proofs.Node.Canonical
import Hallo.Proofs.Token.Scan

/-!
The canonical source of a program tree. It can always be written, its characters spell the
lexemes that were meant, and these are derived by the grammar, with the tree.
-/
namespace Hallo

namespace Node

mutual

/-- The names of variables, functions and parameters in a tree. -/
def names : Node → List String
  | .bare => []
  | .empty => []
  | .block statements => namesAll statements
  | .literal _ => []
  | .var name => [name]
  | .unary _ operand => operand.names
  | .binary left _ right => left.names ++ right.names
  | .compare left right _ => left.names ++ right.names
  | .call callee arguments => callee :: namesAll arguments
  | .assign target value => target :: value.names
  | .declare name params body => name :: (params ++ body.names)
  | .branch test body => test.names ++ body.names
  | .loop test body => test.names ++ body.names
  | .giveBack expression => expression.names

/-- The names in several trees. -/
def namesAll : List Node → List String
  | [] => []
  | node :: nodes => node.names ++ namesAll nodes

end

end Node

open Bite

/-- Characters that spell certain lexemes, at least one, whatever comes behind that does not run
    on into the last of them. -/
structure Prints (text : List Char) (ls : List Lexeme) : Prop where
  ne_nil : ls ≠ []
  spells : ∀ {more : List Char}, Breaks more → Spells (text ++ more) ls more

namespace Prints

variable {first second : List Char} {ls us : List Lexeme}

/-- A space before printed lexemes makes no difference. -/
theorem space (hprints : Prints first ls) {more : List Char} (hmore : Breaks more) :
    Spells (' ' :: (first ++ more)) ls more := by
  have hspells := hprints.spells hmore
  cases ls with
  | nil => exact absurd rfl hprints.ne_nil
  | cons l ls => exact hspells.space

theorem name {s : String} (hname : IsName s) (hcolon : s ≠ ":") : Prints s.toList [.name s] :=
  ⟨by simp, fun hmore => .name hname hcolon hmore⟩

theorem signed (m : Mark) (hprints : Prints first ls) : Prints (m.char :: first) (.mark m :: ls) :=
  ⟨by simp, fun hmore => (Spells.mark m).append (hprints.spells hmore)⟩

/-- Two printed parts in parentheses, with an operator between them. -/
theorem operation {operator : List Char} {l : Lexeme} (hfirst : Prints first ls)
    (hsecond : Prints second us) (hhead : operator.head? ≠ some 'd')
    (hoperator : ∀ more, Spells (operator ++ more) [l] more) :
    Prints ('(' :: (first ++ ' ' :: (operator ++ ' ' :: (second ++ [')']))))
      (.mark .parenOpen :: (ls ++ l :: us ++ [.mark .parenClose])) := by
  refine ⟨by simp, fun {more} hmore => ?_⟩
  have hbehind : Breaks (' ' :: (operator ++ ' ' :: (second ++ ')' :: more))) := by
    refine .inr (.inr (.inr (.inr ⟨rfl, ?_⟩)))
    cases operator with
    | nil => simp
    | cons c operator => simpa using hhead
  have hclose : Breaks (')' :: more) := .inr (.inr (.inl rfl))
  have hspells := (Spells.mark .parenOpen).append ((hfirst.spells hbehind).append
    ((hoperator _).space.append ((hsecond.space hclose).append (Spells.mark .parenClose))))
  simpa [Mark.char] using hspells

/-- Parentheses around printed parts, or around nothing. -/
theorem parentheses
    (hinner : ∀ {more : List Char}, Spells (first ++ ')' :: more) ls (')' :: more)) :
    Prints ('(' :: (first ++ [')'])) (.mark .parenOpen :: (ls ++ [.mark .parenClose])) := by
  refine ⟨by simp, fun {more} _ => ?_⟩
  have hclose : Spells (')' :: more) [.mark .parenClose] more := Spells.mark .parenClose
  have hspells := (Spells.mark .parenOpen).append (hinner.append hclose)
  simpa [Mark.char] using hspells

/-- Two printed parts with a comma between them. -/
theorem comma (hfirst : Prints first ls) (hsecond : Prints second us) :
    Prints (first ++ ',' :: ' ' :: second) (ls ++ .mark .comma :: us) := by
  refine ⟨by simp, fun {more} hmore => ?_⟩
  have hbehind : Breaks (',' :: ' ' :: (second ++ more)) := .inr (.inr (.inr (.inl rfl)))
  have hspells := (hfirst.spells hbehind).append ((Spells.mark .comma).append (hsecond.space hmore))
  simpa using hspells

/-- A name before an opening parenthesis. -/
theorem call {s : String} (hname : IsName s) (hcolon : s ≠ ":")
    (hprints : Prints ('(' :: first) ls) :
    Prints (s.toList ++ '(' :: first) (.name s :: ls) := by
  refine ⟨by simp, fun {more} hmore => ?_⟩
  have hopen : Breaks ('(' :: (first ++ more)) := .inr (.inl rfl)
  have hspells := (Spells.name hname hcolon hopen).append (hprints.spells hmore)
  simpa using hspells

end Prints

namespace Text

theorem toList_joined_cons (text next : String) (texts : List String) :
    (joined ", " (text :: next :: texts)).toList =
      text.toList ++ ',' :: ' ' :: (joined ", " (next :: texts)).toList := by
  simp [joined]

/-- Lines behind a first one, each with its line break. -/
def brokenLines (lines : List String) : List Char :=
  lines.flatMap fun line => '\n' :: line.toList

theorem toList_joined_lines (line : String) (lines : List String) :
    (joined "\n" (line :: lines)).toList = line.toList ++ brokenLines lines := by
  induction lines generalizing line with
  | nil => simp [joined, brokenLines]
  | cons next lines ih =>
    rw [joined, String.toList_append, String.toList_append, ih next]
    · simp [brokenLines]
    · simp

end Text

namespace Node

open Grammar

/-- A tree whose canonical source is printed, with the lexemes from which it is derived. -/
def Printed (spells : List Lexeme → Node → Prop) (t : Node) : Prop :=
  ∃ text ls, t.source = .ok text ∧ Prints text.toList ls ∧ spells ls t

-- Every proof below rewrites with these equations: here they are generated once, ahead of all.
attribute [local simp] source sources names namesAll

theorem printed_literal {v : Value} (hvalue : v.IsLiteral) : Printed Factor (.literal v) := by
  cases v with
  | integer n =>
    obtain ⟨hpos, hwritable⟩ := hvalue
    obtain ⟨m, rfl⟩ := Int.eq_ofNat_of_zero_le hpos
    have htext : Value.source (.integer m) = some (Nat.repr m) := by
      change Decimal.text? m = some (Nat.repr m)
      rw [Decimal.text?, if_pos hwritable]
      rfl
    refine ⟨Nat.repr m, [.integer m], ?_, ⟨by simp, fun hmore => ?_⟩, .literal (.integer m)⟩
    · rw [source, htext]
      rfl
    · rw [Nat.toList_repr]
      exact .integer hwritable hmore
  | text s =>
    refine ⟨"<" ++ s ++ ">", [.text s], rfl, ⟨by simp, fun _ => ?_⟩, .literal (.text s)⟩
    simpa using Spells.text_literal hvalue
  | boolean b =>
    exact ⟨Value.glyph b, [.boolean b], rfl, ⟨by simp, fun _ => .boolean b⟩, .literal (.boolean b)⟩
  | nothing => cases hvalue

theorem printed_var {name : String} (hname : IsName name) (hcolon : name ≠ ":") :
    Printed Factor (.var name) :=
  ⟨name, [.name name], rfl, .name hname hcolon, .var name⟩

theorem printed_unary {operator : String} {t : Node} (hoperator : operator ∈ ["+", "-"])
    (hprinted : Printed Factor t) : Printed Factor (.unary operator t) := by
  obtain ⟨text, ls, htext, hprints, hspells⟩ := hprinted
  have hsource : (Node.unary operator t).source = .ok (operator ++ text) := by
    rw [source, htext]
    rfl
  simp only [List.mem_cons, List.not_mem_nil, or_false] at hoperator
  rcases hoperator with rfl | rfl
  · refine ⟨_, _, hsource, ?_, .signed .plus hspells⟩
    simpa [Mark.char] using hprints.signed .plus
  · refine ⟨_, _, hsource, ?_, .signed .minus hspells⟩
    simpa [Mark.char] using hprints.signed .minus

/-- Two printed operands with a keyword or mark between them, in parentheses. -/
theorem printed_operation {t a b : Node} {operator : String} {l : Lexeme}
    (hsource : ∀ {first second : String}, a.source = .ok first → b.source = .ok second →
      t.source = .ok ("(" ++ first ++ " " ++ operator ++ " " ++ second ++ ")"))
    (hspells : ∀ {ts us : List Lexeme}, Factor ts a → Factor us b → Expression (ts ++ l :: us) t)
    (hhead : operator.toList.head? ≠ some 'd')
    (hoperator : ∀ more, Spells (operator.toList ++ more) [l] more)
    (ha : Printed Factor a) (hb : Printed Factor b) : Printed Factor t := by
  obtain ⟨first, ts, hfirst, hts, hleft⟩ := ha
  obtain ⟨second, us, hsecond, hus, hright⟩ := hb
  refine ⟨_, _, hsource hfirst hsecond, ?_, .group (hspells hleft hright)⟩
  simpa using hts.operation hus hhead hoperator

theorem printed_binary {a b : Node} {operator : String}
    (hoperator : operator ∈ ["+", "-", "*", "/"]) (ha : Printed Factor a) (hb : Printed Factor b) :
    Printed Factor (.binary a operator b) := by
  have hsource : ∀ {first second : String}, a.source = .ok first → b.source = .ok second →
      (Node.binary a operator b).source =
        .ok ("(" ++ first ++ " " ++ operator ++ " " ++ second ++ ")") := by
    intro first second hfirst hsecond
    rw [source, hfirst, hsecond]
    rfl
  simp only [List.mem_cons, List.not_mem_nil, or_false] at hoperator
  rcases hoperator with rfl | rfl | rfl | rfl
  · exact printed_operation hsource
      (fun hleft hright => .join (.term (.product (.factor hleft))) .plus
        (.product (.factor hright)))
      (by decide) (fun _ => .mark .plus) ha hb
  · exact printed_operation hsource
      (fun hleft hright => .join (.term (.product (.factor hleft))) .minus
        (.product (.factor hright)))
      (by decide) (fun _ => .mark .minus) ha hb
  · exact printed_operation hsource
      (fun hleft hright => .term (.product (.join (.factor hleft) .times hright)))
      (by decide) (fun _ => .mark .star) ha hb
  · exact printed_operation hsource
      (fun hleft hright => .term (.product (.join (.factor hleft) .over hright)))
      (by decide) (fun _ => .mark .slash) ha hb

theorem printed_compare {a b : Node} (comparison : Comparison) (ha : Printed Factor a)
    (hb : Printed Factor b) : Printed Factor (.compare a b comparison) := by
  have hsource : ∀ {first second : String}, a.source = .ok first → b.source = .ok second →
      (Node.compare a b comparison).source =
        .ok ("(" ++ first ++ " " ++ comparison.keyword.text ++ " " ++ second ++ ")") := by
    intro first second hfirst hsecond
    rw [source, hfirst, hsecond]
    rfl
  have hkeyword : Comparative (.keyword comparison.keyword) comparison := by
    cases comparison
    · exact .equals
    · exact .less
    · exact .greater
  have hhead : comparison.keyword.text.toList.head? ≠ some 'd' := by
    cases comparison <;> decide
  exact printed_operation hsource
    (fun hleft hright => .term (.compare (.factor hleft) hkeyword (.factor hright)))
    hhead (fun _ => .keyword comparison.keyword) ha hb

/-- Expressions in a row are printed with commas between them. -/
theorem printed_expressions {t : Node} {args : List Node}
    (hargs : ∀ arg ∈ t :: args, Printed Factor arg) :
    ∃ text texts ls, sources (t :: args) = .ok (text :: texts) ∧
      Prints (Text.joined ", " (text :: texts)).toList ls ∧ Expressions ls (t :: args) := by
  induction args generalizing t with
  | nil =>
    obtain ⟨text, ls, htext, hprints, hspells⟩ := hargs t List.mem_cons_self
    refine ⟨text, [], ls, ?_, hprints, .last (.term (.product (.factor hspells)))⟩
    rw [sources, htext]
    rfl
  | cons next args ih =>
    obtain ⟨text, ls, htext, hprints, hspells⟩ := hargs t List.mem_cons_self
    obtain ⟨second, texts, us, htexts, hothers, hexpressions⟩ :=
      ih fun arg hmem => hargs arg (List.mem_cons_of_mem t hmem)
    refine ⟨text, second :: texts, ls ++ .mark .comma :: us, ?_, ?_,
      .more (.term (.product (.factor hspells))) hexpressions⟩
    · rw [sources, htext, htexts]
      rfl
    · rw [Text.toList_joined_cons]
      exact hprints.comma hothers

theorem printed_arguments {args : List Node} (hargs : ∀ arg ∈ args, Printed Factor arg) :
    ∃ texts ls, sources args = .ok texts ∧
      Prints ('(' :: ((Text.joined ", " texts).toList ++ [')'])) ls ∧ Arguments ls args := by
  cases args with
  | nil => exact ⟨[], _, rfl, .parentheses (.nil _), .none⟩
  | cons t args =>
    obtain ⟨text, texts, ls, htexts, hprints, hspells⟩ := printed_expressions hargs
    exact ⟨text :: texts, _, htexts, .parentheses (hprints.spells (.inr (.inr (.inl rfl)))),
      .some hspells⟩

/-- A call is printed alike as an expression and as a statement. -/
theorem printed_call {callee : String} {args : List Node} (hname : IsName callee)
    (hcolon : callee ≠ ":") (hargs : ∀ arg ∈ args, Printed Factor arg) :
    Printed Factor (.call callee args) ∧ Printed Statement (.call callee args) := by
  obtain ⟨texts, ls, htexts, hprints, hspells⟩ := printed_arguments hargs
  have hsource : (Node.call callee args).source =
      .ok (callee ++ "(" ++ Text.joined ", " texts ++ ")") := by
    rw [source, htexts]
    rfl
  have hcall : Prints (callee ++ "(" ++ Text.joined ", " texts ++ ")").toList
      (.name callee :: ls) := by
    simpa using hprints.call hname hcolon
  exact ⟨⟨_, _, hsource, hcall, .call callee hspells⟩, ⟨_, _, hsource, hcall, .call callee hspells⟩⟩

theorem names_subset_namesAll {t : Node} {nodes : List Node} (hmem : t ∈ nodes) :
    t.names ⊆ namesAll nodes := by
  induction nodes with
  | nil => cases hmem
  | cons node nodes ih =>
    intro name hname
    rw [namesAll, List.mem_append]
    rcases List.mem_cons.1 hmem with rfl | hmem
    · exact .inl hname
    · exact .inr (ih hmem hname)

/-- Every expression is printed as a factor. -/
theorem IsExpression.printed {t : Node} (hexpression : IsExpression t) (hcolon : ":" ∉ t.names) :
    Printed Factor t := by
  induction hexpression with
  | literal hvalue => exact printed_literal hvalue
  | var hname =>
    rw [names, List.mem_singleton] at hcolon
    exact printed_var hname (Ne.symm hcolon)
  | unary hoperator _ ih =>
    rw [names] at hcolon
    exact printed_unary hoperator (ih hcolon)
  | binary hoperator _ _ ihleft ihright =>
    rw [names, List.mem_append, not_or] at hcolon
    exact printed_binary hoperator (ihleft hcolon.1) (ihright hcolon.2)
  | compare _ _ ihleft ihright =>
    rw [names, List.mem_append, not_or] at hcolon
    exact printed_compare _ (ihleft hcolon.1) (ihright hcolon.2)
  | call hcallee _ ih =>
    rw [names, List.mem_cons, not_or] at hcolon
    refine (printed_call hcallee (Ne.symm hcolon.1) fun arg hmem => ?_).1
    exact ih arg hmem fun hname => hcolon.2 (names_subset_namesAll hmem hname)

end Node

end Hallo
