import Hallo.Proofs.Grammar.Soundness.Expression

/-!
Whatever expression the grammar derives, the reader accepts and reads as the derived tree,
provided that what comes next cannot belong to it. One lexeme of lookahead decides that.
-/
namespace Hallo

namespace Parser

open Grammar

/-- The reader takes exactly these lexemes and returns this, whatever else follows that begins
    with a lexeme of a certain kind. -/
def Accepts {α : Type} (reader : Parser α) (ts : List Lexeme) (a : α) (before : Lexeme → Prop) :
    Prop :=
  ∀ ⦃tokens rest : List Token⦄ ⦃finish : Token⦄, tokens.map Token.lexeme = ts →
    finish.lexeme = .endOfInput → before (nextLexeme rest) →
      reader ⟨tokens ++ rest, .ok finish⟩ = .ok (a, ⟨rest, .ok finish⟩)

/-- A lexeme that does not make a call of the name before it. -/
def EndsFactor (l : Lexeme) : Prop :=
  l ≠ .mark .parenOpen

/-- A lexeme that does not go on with a product. -/
def EndsProduct (l : Lexeme) : Prop :=
  EndsFactor l ∧ multiplicative? l = none

/-- A lexeme that does not go on with a term. -/
def EndsTerm (l : Lexeme) : Prop :=
  EndsProduct l ∧ comparison? l = none

/-- A lexeme that does not go on with an expression. -/
def EndsExpression (l : Lexeme) : Prop :=
  EndsTerm l ∧ additive? l = none

instance (l : Lexeme) : Decidable (EndsExpression l) :=
  inferInstanceAs (Decidable
    (((l ≠ .mark .parenOpen ∧ multiplicative? l = none) ∧ comparison? l = none) ∧
      additive? l = none))

/-- A chain has come as far as this node: the rest is left to `chainFrom`, with rounds enough. -/
def Chains (operator? : Lexeme → Option String) (operand : Parser Node) (ts : List Lexeme)
    (a : Node) (before : Lexeme → Prop) : Prop :=
  ∀ ⦃tokens rest : List Token⦄ ⦃finish : Token⦄, tokens.map Token.lexeme = ts →
    finish.lexeme = .endOfInput → before (nextLexeme rest) →
      ∃ rounds, rest.length ≤ rounds ∧
        chain operator? operand ⟨tokens ++ rest, .ok finish⟩ =
          chainFrom operator? operand rounds a ⟨rest, .ok finish⟩

section Chain

variable {operator? : Lexeme → Option String} {operand : Parser Node} {before : Lexeme → Prop}
  {ts us : List Lexeme} {a b : Node} {l : Lexeme} {operator : String}

theorem Accepts.chains (hoperand : Accepts operand ts a before) :
    Chains operator? operand ts a before := by
  intro tokens rest finish htokens hfinish hbefore
  refine ⟨rest.length, Nat.le_refl _, ?_⟩
  rw [chain, bind_of_ok (hoperand htokens hfinish hbefore)]
  rfl

theorem Chains.join (hchain : Chains operator? operand ts a before)
    (hoperator : operator? l = some operator) (hl : before l)
    (hoperand : Accepts operand us b before) :
    Chains operator? operand (ts ++ l :: us) (.binary a operator b) before := by
  intro tokens rest finish htokens hfinish hbefore
  obtain ⟨first, others, rfl, hfirst, hothers⟩ := List.map_eq_append_iff.1 htokens
  obtain ⟨token, second, rfl, rfl, hsecond⟩ := List.map_eq_cons_iff.1 hothers
  have hnext : before (nextLexeme (token :: second ++ rest)) := hl
  obtain ⟨rounds, henough, heq⟩ := hchain hfirst hfinish hnext
  cases rounds with
  | zero => simp at henough
  | succ rounds =>
    refine ⟨rounds, ?_, ?_⟩
    · simp only [List.cons_append, List.length_cons, List.length_append] at henough
      omega
    · rw [List.append_assoc, heq, List.cons_append, chainFrom,
        bind_of_ok (current_cons token (second ++ rest) finish)]
      simp only [hoperator]
      rw [bind_of_ok (advance_cons token (second ++ rest) finish),
        bind_of_ok (hoperand hsecond hfinish hbefore)]

theorem Chains.accepts (hchain : Chains operator? operand ts a before) :
    Accepts (chain operator? operand) ts a fun l => before l ∧ operator? l = none := by
  intro tokens rest finish htokens hfinish hbefore
  obtain ⟨rounds, _, heq⟩ := hchain htokens hfinish hbefore.1
  rw [heq]
  cases rounds with
  | zero => rfl
  | succ rounds =>
    obtain ⟨token, hcurrent, hlexeme⟩ := current_of_nextLexeme rest hfinish
    rw [chainFrom, bind_of_ok hcurrent]
    simp only [hlexeme, hbefore.2]
    rfl

end Chain

/-- A list of arguments splits into its first expression and what `moreArguments` reads behind
    it. -/
def ReadsArguments (expression : Parser Node) (ts : List Lexeme) (args : List Node) : Prop :=
  ∀ ⦃tokens rest : List Token⦄ ⦃finish : Token⦄, tokens.map Token.lexeme = ts →
    finish.lexeme = .endOfInput → nextLexeme rest = .mark .parenClose →
      ∃ first others middle, args = first :: others ∧ middle.length ≤ tokens.length ∧
        expression ⟨tokens ++ rest, .ok finish⟩ = .ok (first, ⟨middle ++ rest, .ok finish⟩) ∧
        ∀ rounds, middle.length ≤ rounds →
          moreArguments expression rounds ⟨middle ++ rest, .ok finish⟩ =
            .ok (others, ⟨rest, .ok finish⟩)

section Arguments

variable {expression : Parser Node} {ts us : List Lexeme} {t : Node} {args : List Node}

theorem moreArguments_of_parenClose {rest : List Token} {finish : Token}
    (hfinish : finish.lexeme = .endOfInput) (hclose : nextLexeme rest = .mark .parenClose)
    (rounds : Nat) :
    moreArguments expression rounds ⟨rest, .ok finish⟩ = .ok ([], ⟨rest, .ok finish⟩) := by
  cases rounds with
  | zero => rfl
  | succ rounds =>
    rw [moreArguments, bind_of_ok (sees_eq (.mark .comma) rest hfinish), hclose]
    rfl

theorem readsArguments_last (hexpression : Accepts expression ts t EndsExpression) :
    ReadsArguments expression ts [t] := by
  intro tokens rest finish htokens hfinish hclose
  refine ⟨t, [], [], rfl, Nat.zero_le _, ?_, ?_⟩
  · apply hexpression htokens hfinish
    rw [hclose]
    decide
  · intro rounds _
    exact moreArguments_of_parenClose hfinish hclose rounds

theorem readsArguments_more (hexpression : Accepts expression ts t EndsExpression)
    (hothers : ReadsArguments expression us args) :
    ReadsArguments expression (ts ++ .mark .comma :: us) (t :: args) := by
  intro tokens rest finish htokens hfinish hclose
  obtain ⟨front, back, rfl, hfront, hback⟩ := List.map_eq_append_iff.1 htokens
  obtain ⟨comma, tokens, rfl, hcomma, hus⟩ := List.map_eq_cons_iff.1 hback
  obtain ⟨first, others, middle, rfl, hmiddle, hfirst, hmore⟩ := hothers hus hfinish hclose
  refine ⟨t, first :: others, comma :: tokens, rfl, by simp, ?_, ?_⟩
  · rw [List.append_assoc]
    apply hexpression hfront hfinish
    simp only [List.cons_append, nextLexeme, hcomma]
    decide
  · intro rounds hrounds
    cases rounds with
    | zero => simp at hrounds
    | succ rounds =>
      have hseen : (nextLexeme (comma :: tokens ++ rest) == .mark .comma) = true := by
        simpa [nextLexeme] using hcomma
      rw [moreArguments,
        bind_of_ok (sees_eq (.mark .comma) (comma :: tokens ++ rest) hfinish), hseen]
      simp only [if_true, List.cons_append]
      rw [bind_of_ok (advance_cons comma (tokens ++ rest) finish), bind_of_ok hfirst,
        bind_of_ok (hmore rounds (by simp only [List.length_cons] at hrounds; omega))]
      rfl

theorem accepts_noArguments :
    Accepts (arguments expression) [.mark .parenOpen, .mark .parenClose] [] fun _ => True := by
  intro tokens rest finish htokens hfinish _
  obtain ⟨opening, others, rfl, hopening, hothers⟩ := List.map_eq_cons_iff.1 htokens
  obtain ⟨closing, none, rfl, hclosing, hnone⟩ := List.map_eq_cons_iff.1 hothers
  obtain rfl := List.map_eq_nil_iff.1 hnone
  have hseen : (nextLexeme (closing :: rest) == .mark .parenClose) = true := by
    simpa [nextLexeme] using hclosing
  rw [arguments]
  simp only [List.cons_append, List.nil_append]
  rw [bind_of_ok (expect_cons hopening (closing :: rest) finish),
    bind_of_ok (sees_eq (.mark .parenClose) (closing :: rest) hfinish), hseen]
  simp only [if_true]
  rw [bind_of_ok (advance_cons closing rest finish)]
  rfl

/-- No expression begins with a closing parenthesis. -/
theorem sum_ne_ok_of_parenClose {depth : Nat} {tokens : List Token} {finish : Token}
    {result : Node × Feed} (hclose : nextLexeme tokens = .mark .parenClose) :
    sum (factor depth) ⟨tokens, .ok finish⟩ ≠ .ok result := by
  intro hread
  rw [sum, chain, bind_eq_ok_iff] at hread
  obtain ⟨_, _, hterm, _⟩ := hread
  rw [term, bind_eq_ok_iff] at hterm
  obtain ⟨_, _, hproduct, _⟩ := hterm
  rw [chain, bind_eq_ok_iff] at hproduct
  obtain ⟨_, _, hfactor, _⟩ := hproduct
  cases tokens with
  | nil => cases hclose
  | cons token tokens =>
    simp only [nextLexeme] at hclose
    cases depth with
    | zero => exact refuse_ne_ok hfactor
    | succ depth =>
      rw [factor, bind_of_ok (current_cons token tokens finish)] at hfactor
      simp only [hclose] at hfactor
      exact refuse_ne_ok hfactor

theorem accepts_arguments
    (hnone : ∀ {tokens : List Token} {finish : Token} {result : Node × Feed},
      nextLexeme tokens = .mark .parenClose → expression ⟨tokens, .ok finish⟩ ≠ .ok result)
    (hargs : ReadsArguments expression ts args) :
    Accepts (arguments expression) (.mark .parenOpen :: (ts ++ [.mark .parenClose])) args
      fun _ => True := by
  intro tokens rest finish htokens hfinish _
  obtain ⟨opening, inner, closing, rfl, hopening, hinner, hclosing⟩ := exists_enclosed htokens
  have hclose : nextLexeme (closing :: rest) = .mark .parenClose := hclosing
  obtain ⟨first, others, middle, rfl, _, hfirst, hmore⟩ := hargs hinner hfinish hclose
  have hseen : (nextLexeme (inner ++ closing :: rest) == .mark .parenClose) = false :=
    beq_eq_false_iff_ne.2 fun hparen => hnone hparen hfirst
  rw [arguments]
  simp only [List.cons_append, List.append_assoc, List.nil_append]
  rw [bind_of_ok (expect_cons hopening (inner ++ closing :: rest) finish),
    bind_of_ok (sees_eq (.mark .parenClose) (inner ++ closing :: rest) hfinish), hseen]
  simp only [Bool.false_eq_true, if_false]
  have hbounded : bounded (moreArguments expression)
      ⟨middle ++ closing :: rest, .ok finish⟩ = .ok (others, ⟨closing :: rest, .ok finish⟩) :=
    hmore _ (by simp)
  rw [bind_of_ok hfirst, bind_of_ok hbounded, bind_of_ok (expect_cons hclosing rest finish)]
  rfl

end Arguments

section Factors

variable {depth : Nat} {ts us : List Lexeme} {t a b : Node} {l : Lexeme}

theorem accepts_literal {v : Value} (hdenotes : Denotes l v) :
    Accepts (factor (depth + 1)) [l] (.literal v) EndsFactor := by
  intro tokens rest finish htokens hfinish _
  obtain ⟨token, none, rfl, htoken, hnone⟩ := List.map_eq_cons_iff.1 htokens
  obtain rfl := List.map_eq_nil_iff.1 hnone
  rw [List.cons_append, factor, bind_of_ok (current_cons token ([] ++ rest) finish)]
  cases hdenotes <;> simp only [htoken] <;>
    rw [bind_of_ok (advance_cons token ([] ++ rest) finish)] <;> rfl

theorem accepts_signed {operator : String} (hsign : Additive l operator)
    (hoperand : Accepts (factor depth) ts t EndsFactor) :
    Accepts (factor (depth + 1)) (l :: ts) (.unary operator t) EndsFactor := by
  intro tokens rest finish htokens hfinish hbefore
  obtain ⟨token, others, rfl, htoken, hothers⟩ := List.map_eq_cons_iff.1 htokens
  have hread := hoperand hothers hfinish hbefore
  rw [List.cons_append, factor, bind_of_ok (current_cons token (others ++ rest) finish)]
  cases hsign <;> simp only [htoken] <;>
    rw [bind_of_ok (advance_cons token (others ++ rest) finish), bind_of_ok hread] <;> rfl

theorem accepts_group (hinner : Accepts (sum (factor depth)) ts t EndsExpression) :
    Accepts (factor (depth + 1)) (.mark .parenOpen :: (ts ++ [.mark .parenClose])) t
      EndsFactor := by
  intro tokens rest finish htokens hfinish _
  obtain ⟨opening, inner, closing, rfl, hopening, hts, hclosing⟩ := exists_enclosed htokens
  have hends : EndsExpression (nextLexeme (closing :: rest)) := by
    rw [nextLexeme, hclosing]
    decide
  simp only [List.cons_append, List.append_assoc, List.nil_append]
  rw [factor, bind_of_ok (current_cons opening (inner ++ closing :: rest) finish)]
  simp only [hopening]
  rw [bind_of_ok (advance_cons opening (inner ++ closing :: rest) finish),
    bind_of_ok (hinner hts hfinish hends), bind_of_ok (expect_cons hclosing rest finish)]
  rfl

theorem accepts_var (name : String) :
    Accepts (factor (depth + 1)) [.name name] (.var name) EndsFactor := by
  intro tokens rest finish htokens hfinish hbefore
  obtain ⟨token, none, rfl, htoken, hnone⟩ := List.map_eq_cons_iff.1 htokens
  obtain rfl := List.map_eq_nil_iff.1 hnone
  have hseen : (nextLexeme rest == .mark .parenOpen) = false := beq_eq_false_iff_ne.2 hbefore
  rw [List.cons_append, factor, bind_of_ok (current_cons token ([] ++ rest) finish)]
  simp only [htoken, List.nil_append]
  rw [bind_of_ok (advance_cons token rest finish),
    bind_of_ok (sees_eq (.mark .parenOpen) rest hfinish), hseen]
  rfl

/-- Arguments begin with the parenthesis that makes the name before them a call. -/
theorem accepts_call {args : List Node} (name : String) (hts : ts.head? = some (.mark .parenOpen))
    (hargs : Accepts (arguments (sum (factor depth))) ts args fun _ => True) :
    Accepts (factor (depth + 1)) (.name name :: ts) (.call name args) EndsFactor := by
  intro tokens rest finish htokens hfinish _
  obtain ⟨token, others, rfl, htoken, rfl⟩ := List.map_eq_cons_iff.1 htokens
  have hseen : (nextLexeme (others ++ rest) == .mark .parenOpen) = true := by
    cases others with
    | nil => cases hts
    | cons opening others => simpa [nextLexeme] using hts
  rw [List.cons_append, factor, bind_of_ok (current_cons token (others ++ rest) finish)]
  simp only [htoken]
  rw [bind_of_ok (advance_cons token (others ++ rest) finish),
    bind_of_ok (sees_eq (.mark .parenOpen) (others ++ rest) hfinish), hseen]
  simp only [if_true]
  rw [bind_of_ok (hargs rfl hfinish trivial)]
  rfl

theorem accepts_product_term
    (hproduct : Accepts (chain multiplicative? (factor depth)) ts t EndsProduct) :
    Accepts (term (factor depth)) ts t EndsTerm := by
  intro tokens rest finish htokens hfinish hbefore
  obtain ⟨token, hcurrent, hlexeme⟩ := current_of_nextLexeme rest hfinish
  rw [term, bind_of_ok (hproduct htokens hfinish hbefore.1), bind_of_ok hcurrent]
  simp only [hlexeme, hbefore.2]
  rfl

theorem accepts_compare {comparison : Comparison} (hkeyword : Comparative l comparison)
    (hleft : Accepts (chain multiplicative? (factor depth)) ts a EndsProduct)
    (hright : Accepts (chain multiplicative? (factor depth)) us b EndsProduct) :
    Accepts (term (factor depth)) (ts ++ l :: us) (.compare a b comparison) EndsTerm := by
  intro tokens rest finish htokens hfinish hbefore
  obtain ⟨front, back, rfl, hfront, hback⟩ := List.map_eq_append_iff.1 htokens
  obtain ⟨token, others, rfl, rfl, hothers⟩ := List.map_eq_cons_iff.1 hback
  have hends : EndsProduct (nextLexeme (token :: (others ++ rest))) := by
    rw [nextLexeme]
    generalize token.lexeme = l at hkeyword
    cases hkeyword <;> exact ⟨by simp [EndsFactor], rfl⟩
  simp only [List.append_assoc, List.cons_append]
  rw [term, bind_of_ok (hleft hfront hfinish hends),
    bind_of_ok (current_cons token (others ++ rest) finish)]
  simp only [comparison?_eq_some_iff.2 hkeyword]
  rw [bind_of_ok (advance_cons token (others ++ rest) finish),
    bind_of_ok (hright hothers hfinish hbefore.1)]
  rfl

end Factors

end Parser

namespace Grammar

open Hallo.Parser

theorem Arguments.head_eq {ts : List Lexeme} {args : List Node} (hargs : Arguments ts args) :
    ts.head? = Option.some (.mark .parenOpen) := by
  cases hargs <;> rfl

mutual

theorem Factor.accepts : ∀ {ts : List Lexeme} {t : Node}, Factor ts t → ∀ {depth : Nat},
    ts.length ≤ depth → Accepts (factor depth) ts t EndsFactor
  | _, _, .signed hsign hoperand, depth + 1, hdepth =>
    accepts_signed hsign (hoperand.accepts (Nat.le_of_succ_le_succ hdepth))
  | _, _, .literal hdenotes, depth + 1, _ => accepts_literal hdenotes
  | _, _, .group hinner, depth + 1, hdepth =>
    accepts_group (hinner.chains (by simp at hdepth; omega)).accepts
  | _, _, .var name, depth + 1, _ => accepts_var name
  | _, _, .call name hargs, depth + 1, hdepth =>
    accepts_call name hargs.head_eq (hargs.accepts (Nat.le_of_succ_le_succ hdepth))

theorem Product.chains : ∀ {ts : List Lexeme} {t : Node}, Product ts t → ∀ {depth : Nat},
    ts.length ≤ depth → Chains multiplicative? (factor depth) ts t EndsFactor
  | _, _, .factor hfactor, _, hdepth => (hfactor.accepts hdepth).chains
  | _, _, .join hleft hsign hright, _, hdepth =>
    (hleft.chains (by simp at hdepth; omega)).join (multiplicative?_eq_some_iff.2 hsign)
      (by cases hsign <;> simp [EndsFactor]) (hright.accepts (by simp at hdepth; omega))

theorem Term.accepts : ∀ {ts : List Lexeme} {t : Node}, Term ts t → ∀ {depth : Nat},
    ts.length ≤ depth → Accepts (term (factor depth)) ts t EndsTerm
  | _, _, .product hproduct, _, hdepth => accepts_product_term (hproduct.chains hdepth).accepts
  | _, _, .compare hleft hkeyword hright, _, hdepth =>
    accepts_compare hkeyword (hleft.chains (by simp at hdepth; omega)).accepts
      (hright.chains (by simp at hdepth; omega)).accepts

theorem Expression.chains : ∀ {ts : List Lexeme} {t : Node}, Expression ts t → ∀ {depth : Nat},
    ts.length ≤ depth → Chains additive? (term (factor depth)) ts t EndsTerm
  | _, _, .term hterm, _, hdepth => (hterm.accepts hdepth).chains
  | _, _, .join hleft hsign hright, _, hdepth =>
    (hleft.chains (by simp at hdepth; omega)).join (additive?_eq_some_iff.2 hsign)
      (by cases hsign <;> exact ⟨⟨by simp [EndsFactor], rfl⟩, rfl⟩)
      (hright.accepts (by simp at hdepth; omega))

theorem Arguments.accepts : ∀ {ts : List Lexeme} {args : List Node}, Arguments ts args →
    ∀ {depth : Nat}, ts.length ≤ depth →
      Accepts (arguments (sum (factor depth))) ts args fun _ => True
  | _, _, .none, _, _ => accepts_noArguments
  | _, _, .some hargs, _, hdepth =>
    accepts_arguments sum_ne_ok_of_parenClose (hargs.reads (by simp at hdepth; omega))

theorem Expressions.reads : ∀ {ts : List Lexeme} {args : List Node}, Expressions ts args →
    ∀ {depth : Nat}, ts.length ≤ depth → ReadsArguments (sum (factor depth)) ts args
  | _, _, .last hlast, _, hdepth => readsArguments_last (hlast.chains hdepth).accepts
  | _, _, .more hfirst hothers, _, hdepth =>
    readsArguments_more (hfirst.chains (by simp at hdepth; omega)).accepts
      (hothers.reads (by simp at hdepth; omega))

end

/-- An expression is read whole, however deep it nests. -/
theorem Expression.accepts {ts : List Lexeme} {t : Node} (hexpression : Expression ts t) :
    Accepts expression ts t EndsExpression := by
  intro tokens rest finish htokens hfinish hbefore
  have hdepth : ts.length ≤ (tokens ++ rest).length := by
    rw [← htokens, List.length_map, List.length_append]
    omega
  exact (hexpression.chains hdepth).accepts htokens hfinish hbefore

theorem Expressions.reads_expression : ∀ {ts : List Lexeme} {args : List Node},
    Expressions ts args → ReadsArguments expression ts args
  | _, _, .last hlast => readsArguments_last hlast.accepts
  | _, _, .more hfirst hothers => readsArguments_more hfirst.accepts hothers.reads_expression

theorem Arguments.accepts_expression {ts : List Lexeme} {args : List Node}
    (hargs : Arguments ts args) : Accepts (Parser.arguments expression) ts args fun _ => True := by
  cases hargs with
  | none => exact accepts_noArguments
  | some hargs => exact accepts_arguments sum_ne_ok_of_parenClose hargs.reads_expression

end Grammar

end Hallo
