import Hallo.Proofs.Grammar.Completeness.Expression
import Hallo.Proofs.Grammar.Soundness.Statement

/-!
Whatever statements the grammar derives, the reader accepts and reads as the derived trees. The
lexeme behind a statement tells whether the list of statements goes on.
-/
namespace Hallo

namespace Parser

open Grammar

/-- A lexeme that may stand behind a list of statements. -/
def EndsStatements (l : Lexeme) : Prop :=
  l = .keyword .blockClose ∨ l = .keyword .farewell

/-- A lexeme that may stand behind a statement. -/
def EndsStatement (l : Lexeme) : Prop :=
  l = .mark .lineBreak ∨ EndsStatements l

theorem EndsStatement.endsExpression {l : Lexeme} (hends : EndsStatement l) : EndsExpression l := by
  rcases hends with rfl | rfl | rfl <;> decide

/-- Behind a statement no other begins at once. -/
theorem statement_of_endsStatement {depth : Nat} {rest : List Token} {finish : Token}
    (hfinish : finish.lexeme = .endOfInput) (hends : EndsStatement (nextLexeme rest)) :
    statement depth ⟨rest, .ok finish⟩ = .ok (none, ⟨rest, .ok finish⟩) := by
  cases depth with
  | zero => rfl
  | succ depth =>
    obtain ⟨token, hcurrent, hlexeme⟩ := current_of_nextLexeme rest hfinish
    rw [statement, bind_of_ok hcurrent]
    rcases hends with hnext | hnext | hnext <;> simp only [hlexeme, hnext] <;> rfl

section Parameters

variable {ts : List Lexeme} {names : List String}

theorem accepts_parameterNames (hnames : Names ts names) {rounds : Nat} {seen : List String}
    (hrounds : ts.length ≤ rounds) (hnodup : names.Nodup) (hfresh : ∀ name ∈ names, name ∉ seen) :
    Accepts (parameterNames rounds seen) ts names fun l => l = .mark .parenClose := by
  induction hnames generalizing rounds seen with
  | last name =>
    intro tokens rest finish htokens hfinish hclose
    obtain ⟨token, none, rfl, htoken, hnone⟩ := List.map_eq_cons_iff.1 htokens
    obtain rfl := List.map_eq_nil_iff.1 hnone
    cases rounds with
    | zero => simp at hrounds
    | succ rounds =>
      have hseen : name ∉ seen := hfresh name List.mem_cons_self
      rw [List.cons_append, parameterNames, bind_of_ok (current_cons token ([] ++ rest) finish),
        bind_of_ok (expectName_cons htoken ([] ++ rest) finish)]
      simp only [hseen, if_false, List.nil_append]
      rw [bind_of_ok (sees_eq (.mark .comma) rest hfinish), hclose]
      rfl
  | @more ts names name hothers ih =>
    intro tokens rest finish htokens hfinish hclose
    obtain ⟨token, back, rfl, htoken, hback⟩ := List.map_eq_cons_iff.1 htokens
    obtain ⟨comma, others, rfl, hcomma, hts⟩ := List.map_eq_cons_iff.1 hback
    cases rounds with
    | zero => simp at hrounds
    | succ rounds =>
      have hseen : name ∉ seen := hfresh name List.mem_cons_self
      obtain ⟨hname, hnodup⟩ := List.nodup_cons.1 hnodup
      have hlength : ts.length ≤ rounds := by
        simp only [List.length_cons] at hrounds
        omega
      have hothers : ∀ other ∈ names, other ∉ name :: seen := by
        intro other hmem
        rw [List.mem_cons, not_or]
        exact ⟨fun heq => hname (heq ▸ hmem), hfresh other (List.mem_cons_of_mem name hmem)⟩
      have hread := ih hlength hnodup hothers hts hfinish hclose
      have hnext : (nextLexeme (comma :: (others ++ rest)) == .mark .comma) = true := by
        simpa [nextLexeme] using hcomma
      simp only [List.cons_append]
      rw [parameterNames, bind_of_ok (current_cons token (comma :: (others ++ rest)) finish),
        bind_of_ok (expectName_cons htoken (comma :: (others ++ rest)) finish)]
      simp only [hseen, if_false]
      rw [bind_of_ok (sees_eq (.mark .comma) (comma :: (others ++ rest)) hfinish), hnext]
      simp only [if_true]
      rw [bind_of_ok (advance_cons comma (others ++ rest) finish), bind_of_ok hread]
      rfl

theorem accepts_noParameters :
    Accepts parameters [.mark .parenOpen, .mark .parenClose] [] fun _ => True := by
  intro tokens rest finish htokens hfinish _
  obtain ⟨opening, others, rfl, hopening, hothers⟩ := List.map_eq_cons_iff.1 htokens
  obtain ⟨closing, none, rfl, hclosing, hnone⟩ := List.map_eq_cons_iff.1 hothers
  obtain rfl := List.map_eq_nil_iff.1 hnone
  have hseen : (nextLexeme (closing :: rest) == .mark .parenClose) = true := by
    simpa [nextLexeme] using hclosing
  rw [parameters]
  simp only [List.cons_append, List.nil_append]
  rw [bind_of_ok (expect_cons hopening (closing :: rest) finish),
    bind_of_ok (sees_eq (.mark .parenClose) (closing :: rest) hfinish), hseen]
  simp only [if_true]
  rw [bind_of_ok (advance_cons closing rest finish)]
  rfl

theorem nextLexeme_ne_parenClose (hnames : Names ts names) {tokens rest : List Token}
    (htokens : tokens.map Token.lexeme = ts) : nextLexeme (tokens ++ rest) ≠ .mark .parenClose := by
  cases hnames with
  | last name =>
    obtain ⟨token, others, rfl, htoken, _⟩ := List.map_eq_cons_iff.1 htokens
    simp [nextLexeme, htoken]
  | more name hothers =>
    obtain ⟨token, others, rfl, htoken, _⟩ := List.map_eq_cons_iff.1 htokens
    simp [nextLexeme, htoken]

theorem accepts_parameters (hnames : Names ts names) (hnodup : names.Nodup) :
    Accepts parameters (.mark .parenOpen :: (ts ++ [.mark .parenClose])) names fun _ => True := by
  intro tokens rest finish htokens hfinish _
  obtain ⟨opening, inner, closing, rfl, hopening, hinner, hclosing⟩ := exists_enclosed htokens
  have hseen : (nextLexeme (inner ++ closing :: rest) == .mark .parenClose) = false :=
    beq_eq_false_iff_ne.2 (nextLexeme_ne_parenClose hnames hinner)
  have hlength : ts.length ≤ (inner ++ closing :: rest).length := by
    rw [← hinner, List.length_map, List.length_append]
    omega
  have hclose : nextLexeme (closing :: rest) = .mark .parenClose := hclosing
  have hread : bounded (fun rounds => parameterNames rounds [])
    ⟨inner ++ closing :: rest, .ok finish⟩ =
      .ok (names, ⟨closing :: rest, .ok finish⟩) :=
    accepts_parameterNames hnames hlength hnodup (by simp) hinner hfinish hclose
  rw [parameters]
  simp only [List.cons_append, List.append_assoc, List.nil_append]
  rw [bind_of_ok (expect_cons hopening (inner ++ closing :: rest) finish),
    bind_of_ok (sees_eq (.mark .parenClose) (inner ++ closing :: rest) hfinish), hseen]
  simp only [Bool.false_eq_true, if_false]
  rw [bind_of_ok hread, bind_of_ok (expect_cons hclosing rest finish)]
  rfl

end Parameters

section Statements

variable {depth : Nat} {ts us : List Lexeme} {t v test body : Node} {nodes : List Node}

theorem accepts_assign (target : String) (hvalue : Accepts expression ts v EndsExpression) :
    Accepts (statement (depth + 1)) (.name target :: .mark .assign :: ts)
      (some (.assign target v)) EndsExpression := by
  intro tokens rest finish htokens hfinish hbefore
  obtain ⟨token, back, rfl, htoken, hback⟩ := List.map_eq_cons_iff.1 htokens
  obtain ⟨sign, others, rfl, hsign, hothers⟩ := List.map_eq_cons_iff.1 hback
  have hseen : (nextLexeme (sign :: (others ++ rest)) == .mark .assign) = true := by
    simpa [nextLexeme] using hsign
  simp only [List.cons_append]
  rw [statement, bind_of_ok (current_cons token (sign :: (others ++ rest)) finish)]
  simp only [htoken]
  rw [bind_of_ok (advance_cons token (sign :: (others ++ rest)) finish),
    bind_of_ok (sees_eq (.mark .assign) (sign :: (others ++ rest)) hfinish), hseen]
  simp only [if_true]
  rw [bind_of_ok (advance_cons sign (others ++ rest) finish),
    bind_of_ok (hvalue hothers hfinish hbefore)]
  rfl

theorem accepts_callStatement {args : List Node} (name : String)
    (hts : ts.head? = some (.mark .parenOpen))
    (hargs : Accepts (arguments expression) ts args fun _ => True) :
    Accepts (statement (depth + 1)) (.name name :: ts) (some (.call name args)) EndsExpression := by
  intro tokens rest finish htokens hfinish _
  obtain ⟨token, others, rfl, htoken, rfl⟩ := List.map_eq_cons_iff.1 htokens
  have hnext : nextLexeme (others ++ rest) = .mark .parenOpen := by
    cases others with
    | nil => cases hts
    | cons opening others => simpa [nextLexeme] using hts
  rw [List.cons_append, statement, bind_of_ok (current_cons token (others ++ rest) finish)]
  simp only [htoken]
  rw [bind_of_ok (advance_cons token (others ++ rest) finish),
    bind_of_ok (sees_eq (.mark .assign) (others ++ rest) hfinish), hnext]
  simp only [show (Lexeme.mark .parenOpen == .mark .assign) = false from rfl, Bool.false_eq_true,
    if_false]
  rw [bind_of_ok (sees_eq (.mark .parenOpen) (others ++ rest) hfinish), hnext]
  simp only [BEq.rfl, if_true]
  rw [bind_of_ok (hargs rfl hfinish trivial)]
  rfl

/-- A condition and a block, as branches and loops have them. -/
theorem guarded_eq {build : Node → Node → Node} {tokens others rest : List Token} {finish : Token}
    {statement : Parser (Option Node)} (hfinish : finish.lexeme = .endOfInput)
    (htest : Accepts expression ts test EndsExpression)
    (hbody : Accepts (block statement) us body fun _ => True)
    (hus : us.head? = some (.keyword .blockOpen)) (htokens : tokens.map Token.lexeme = ts)
    (hothers : others.map Token.lexeme = us) :
    (do
      let condition ← expression
      let body ← block statement
      return some (build condition body) : Parser (Option Node))
        ⟨tokens ++ others ++ rest, .ok finish⟩ =
      .ok (some (build test body), ⟨rest, .ok finish⟩) := by
  have hends : EndsExpression (nextLexeme (others ++ rest)) := by
    cases others with
    | nil =>
      cases hothers
      cases hus
    | cons opening others =>
      cases hothers
      have hopening : opening.lexeme = .keyword .blockOpen := by simpa using hus
      rw [List.cons_append, nextLexeme, hopening]
      decide
  rw [List.append_assoc, bind_of_ok (htest htokens hfinish hends),
    bind_of_ok (hbody hothers hfinish trivial)]
  rfl

theorem accepts_branch (htest : Accepts expression ts test EndsExpression)
    (hbody : Accepts (block (statement depth)) us body fun _ => True)
    (hus : us.head? = some (.keyword .blockOpen)) :
    Accepts (statement (depth + 1)) (.keyword .branch :: (ts ++ us)) (some (.branch test body))
      EndsExpression := by
  intro tokens rest finish htokens hfinish _
  obtain ⟨token, back, rfl, htoken, hback⟩ := List.map_eq_cons_iff.1 htokens
  obtain ⟨front, others, rfl, hfront, hothers⟩ := List.map_eq_append_iff.1 hback
  rw [List.cons_append, statement, bind_of_ok (current_cons token (front ++ others ++ rest) finish)]
  simp only [htoken]
  rw [bind_of_ok (advance_cons token (front ++ others ++ rest) finish)]
  exact guarded_eq hfinish htest hbody hus hfront hothers

theorem accepts_loop (htest : Accepts expression ts test EndsExpression)
    (hbody : Accepts (block (statement depth)) us body fun _ => True)
    (hus : us.head? = some (.keyword .blockOpen)) :
    Accepts (statement (depth + 1)) (.keyword .loop :: (ts ++ us)) (some (.loop test body))
      EndsExpression := by
  intro tokens rest finish htokens hfinish _
  obtain ⟨token, back, rfl, htoken, hback⟩ := List.map_eq_cons_iff.1 htokens
  obtain ⟨front, others, rfl, hfront, hothers⟩ := List.map_eq_append_iff.1 hback
  rw [List.cons_append, statement, bind_of_ok (current_cons token (front ++ others ++ rest) finish)]
  simp only [htoken]
  rw [bind_of_ok (advance_cons token (front ++ others ++ rest) finish)]
  exact guarded_eq hfinish htest hbody hus hfront hothers

theorem accepts_declare {params : List String} (name : String)
    (hparams : Accepts parameters ts params fun _ => True)
    (hbody : Accepts (block (statement depth)) us body fun _ => True) :
    Accepts (statement (depth + 1)) (.keyword .function :: .name name :: (ts ++ us))
      (some (.declare name params body)) EndsExpression := by
  intro tokens rest finish htokens hfinish _
  obtain ⟨token, back, rfl, htoken, hback⟩ := List.map_eq_cons_iff.1 htokens
  obtain ⟨named, back, rfl, hnamed, hback⟩ := List.map_eq_cons_iff.1 hback
  obtain ⟨front, others, rfl, hfront, hothers⟩ := List.map_eq_append_iff.1 hback
  simp only [List.cons_append, List.append_assoc]
  rw [statement, bind_of_ok (current_cons token (named :: (front ++ (others ++ rest))) finish)]
  simp only [htoken]
  rw [bind_of_ok (advance_cons token (named :: (front ++ (others ++ rest))) finish),
    bind_of_ok (expectName_cons hnamed (front ++ (others ++ rest)) finish),
    bind_of_ok (hparams hfront hfinish trivial), bind_of_ok (hbody hothers hfinish trivial)]
  rfl

theorem accepts_assignTo (target : String) (hvalue : Accepts expression ts v EndsExpression) :
    Accepts (statement (depth + 1))
      (.keyword .assignTarget :: .name target :: .keyword .assignValue :: ts)
      (some (.assign target v)) EndsExpression := by
  intro tokens rest finish htokens hfinish hbefore
  obtain ⟨token, back, rfl, htoken, hback⟩ := List.map_eq_cons_iff.1 htokens
  obtain ⟨named, back, rfl, hnamed, hback⟩ := List.map_eq_cons_iff.1 hback
  obtain ⟨upon, others, rfl, hupon, hothers⟩ := List.map_eq_cons_iff.1 hback
  simp only [List.cons_append]
  rw [statement, bind_of_ok (current_cons token (named :: upon :: (others ++ rest)) finish)]
  simp only [htoken]
  rw [bind_of_ok (advance_cons token (named :: upon :: (others ++ rest)) finish),
    bind_of_ok (expectName_cons hnamed (upon :: (others ++ rest)) finish),
    bind_of_ok (expect_cons hupon (others ++ rest) finish),
    bind_of_ok (hvalue hothers hfinish hbefore)]
  rfl

theorem accepts_giveBack (hvalue : Accepts expression ts v EndsExpression) :
    Accepts (statement (depth + 1)) (.keyword .giveBack :: ts) (some (.giveBack v))
      EndsExpression := by
  intro tokens rest finish htokens hfinish hbefore
  obtain ⟨token, others, rfl, htoken, hothers⟩ := List.map_eq_cons_iff.1 htokens
  rw [List.cons_append, statement, bind_of_ok (current_cons token (others ++ rest) finish)]
  simp only [htoken]
  rw [bind_of_ok (advance_cons token (others ++ rest) finish),
    bind_of_ok (hvalue hothers hfinish hbefore)]
  rfl

theorem accepts_block {statement : Parser (Option Node)}
    (hnodes : Accepts (statements statement) ts nodes EndsStatements) :
    Accepts (block statement) (.keyword .blockOpen :: (ts ++ [.keyword .blockClose])) (.block nodes)
      fun _ => True := by
  intro tokens rest finish htokens hfinish _
  obtain ⟨opening, inner, closing, rfl, hopening, hinner, hclosing⟩ := exists_enclosed htokens
  have hends : EndsStatements (nextLexeme (closing :: rest)) := .inl hclosing
  rw [block]
  simp only [List.cons_append, List.append_assoc, List.nil_append]
  rw [bind_of_ok (expect_cons hopening (inner ++ closing :: rest) finish),
    bind_of_ok (hnodes hinner hfinish hends), bind_of_ok (expect_cons hclosing rest finish)]
  rfl

/-- Behind a statement comes a line break, or the end of the list. -/
theorem endsStatement_of_following (hfollowing : Following ts nodes) {tokens rest : List Token}
    (htokens : tokens.map Token.lexeme = ts) (hends : EndsStatements (nextLexeme rest)) :
    EndsStatement (nextLexeme (tokens ++ rest)) := by
  cases hfollowing with
  | done =>
    obtain rfl := List.map_eq_nil_iff.1 htokens
    exact .inr hends
  | lineBreak =>
    obtain ⟨token, _, rfl, htoken, _⟩ := List.map_eq_cons_iff.1 htokens
    exact .inl htoken
  | more hstatement hothers =>
    obtain ⟨token, _, rfl, htoken, _⟩ := List.map_eq_cons_iff.1 htokens
    exact .inl htoken

theorem accepts_noMoreStatements {statement : Parser (Option Node)} (rounds : Nat) :
    Accepts (moreStatements statement rounds) [] [] EndsStatements := by
  intro tokens rest finish htokens hfinish hends
  obtain rfl := List.map_eq_nil_iff.1 htokens
  cases rounds with
  | zero => rfl
  | succ rounds =>
    rw [List.nil_append, moreStatements, bind_of_ok (sees_eq (.mark .lineBreak) rest hfinish)]
    rcases hends with hnext | hnext <;> rw [hnext] <;> rfl

theorem accepts_lastBreak (rounds : Nat) :
    Accepts (moreStatements (statement depth) (rounds + 1)) [.mark .lineBreak]
      [] EndsStatements := by
  intro tokens rest finish htokens hfinish hends
  obtain ⟨token, none, rfl, htoken, hnone⟩ := List.map_eq_cons_iff.1 htokens
  obtain rfl := List.map_eq_nil_iff.1 hnone
  have hseen : (nextLexeme (token :: rest) == .mark .lineBreak) = true := by
    simpa [nextLexeme] using htoken
  simp only [List.cons_append, List.nil_append]
  rw [moreStatements, bind_of_ok (sees_eq (.mark .lineBreak) (token :: rest) hfinish), hseen]
  simp only [if_true]
  rw [bind_of_ok (advance_cons token rest finish),
    bind_of_ok (statement_of_endsStatement hfinish (.inr hends))]
  rfl

theorem accepts_moreStatements {rounds : Nat}
    (hstatement : Accepts (statement depth) ts (some t) EndsExpression)
    (hfollowing : Following us nodes)
    (hothers : Accepts (moreStatements (statement depth) rounds) us nodes EndsStatements) :
    Accepts (moreStatements (statement depth) (rounds + 1)) (.mark .lineBreak :: (ts ++ us))
      (t :: nodes) EndsStatements := by
  intro tokens rest finish htokens hfinish hends
  obtain ⟨token, back, rfl, htoken, hback⟩ := List.map_eq_cons_iff.1 htokens
  obtain ⟨front, others, rfl, hfront, hus⟩ := List.map_eq_append_iff.1 hback
  have hseen : (nextLexeme (token :: (front ++ (others ++ rest))) == .mark .lineBreak) = true := by
    simpa [nextLexeme] using htoken
  have hbehind := (endsStatement_of_following hfollowing hus hends).endsExpression
  simp only [List.cons_append, List.append_assoc]
  rw [moreStatements,
    bind_of_ok (sees_eq (.mark .lineBreak) (token :: (front ++ (others ++ rest))) hfinish), hseen]
  simp only [if_true]
  rw [bind_of_ok (advance_cons token (front ++ (others ++ rest)) finish),
    bind_of_ok (hstatement hfront hfinish hbehind)]
  simp only
  rw [bind_of_ok (hothers hus hfinish hends)]
  rfl

/-- The statements behind the first one, in as many rounds as there are lexemes. -/
def AcceptsFollowing (depth : Nat) (ts : List Lexeme) (nodes : List Node) : Prop :=
  ∀ rounds, ts.length ≤ rounds →
    Accepts (moreStatements (statement depth) rounds) ts nodes EndsStatements

theorem AcceptsFollowing.bounded (hothers : AcceptsFollowing depth ts nodes) :
    Accepts (bounded (moreStatements (statement depth))) ts nodes EndsStatements := by
  intro tokens rest finish htokens hfinish hends
  have hlength : ts.length ≤ (tokens ++ rest).length := by
    rw [← htokens, List.length_map, List.length_append]
    omega
  exact hothers _ hlength htokens hfinish hends

theorem accepts_statements_empty (hfollowing : Following ts nodes)
    (hothers : AcceptsFollowing depth ts nodes) :
    Accepts (statements (statement depth)) ts nodes EndsStatements := by
  intro tokens rest finish htokens hfinish hends
  have hnone := endsStatement_of_following hfollowing htokens hends
  rw [statements, bind_of_ok (statement_of_endsStatement hfinish hnone),
    bind_of_ok (hothers.bounded htokens hfinish hends)]
  rfl

theorem accepts_statements_first (hstatement : Accepts (statement depth) ts (some t) EndsExpression)
    (hfollowing : Following us nodes) (hothers : AcceptsFollowing depth us nodes) :
    Accepts (statements (statement depth)) (ts ++ us) (t :: nodes) EndsStatements := by
  intro tokens rest finish htokens hfinish hends
  obtain ⟨front, others, rfl, hfront, hus⟩ := List.map_eq_append_iff.1 htokens
  have hbehind := (endsStatement_of_following hfollowing hus hends).endsExpression
  rw [List.append_assoc, statements, bind_of_ok (hstatement hfront hfinish hbehind),
    bind_of_ok (hothers.bounded hus hfinish hends)]
  rfl

end Statements

end Parser

namespace Grammar

open Hallo.Parser

theorem Parameters.accepts {ts : List Lexeme} {params : List String}
    (hparams : Parameters ts params) (hnodup : params.Nodup) :
    Accepts parameters ts params fun _ => True := by
  cases hparams with
  | none => exact accepts_noParameters
  | some hnames => exact accepts_parameters hnames hnodup

theorem Block.head_eq {ts : List Lexeme} {body : Node} (hblock : Block ts body) :
    ts.head? = some (.keyword .blockOpen) := by
  cases hblock
  rfl

mutual

theorem Statement.accepts : ∀ {ts : List Lexeme} {t : Node}, Statement ts t → ∀ {depth : Nat},
    ts.length ≤ depth → Accepts (statement depth) ts (some t) EndsExpression
  | _, _, .assign target hvalue, _ + 1, _ => accepts_assign target hvalue.accepts
  | _, _, .call name hargs, _ + 1, _ =>
    accepts_callStatement name hargs.head_eq hargs.accepts_expression
  | _, _, .branch htest hbody, _ + 1, hdepth =>
    accepts_branch htest.accepts (hbody.accepts (by simp at hdepth; omega)) hbody.head_eq
  | _, _, .loop htest hbody, _ + 1, hdepth =>
    accepts_loop htest.accepts (hbody.accepts (by simp at hdepth; omega)) hbody.head_eq
  | _, _, .declare name hparams hnodup hbody, _ + 1, hdepth =>
    accepts_declare name (hparams.accepts hnodup) (hbody.accepts (by simp at hdepth; omega))
  | _, _, .assignTo target hvalue, _ + 1, _ => accepts_assignTo target hvalue.accepts
  | _, _, .giveBack hvalue, _ + 1, _ => accepts_giveBack hvalue.accepts

theorem Block.accepts : ∀ {ts : List Lexeme} {t : Node}, Block ts t → ∀ {depth : Nat},
    ts.length ≤ depth → Accepts (block (statement depth)) ts t fun _ => True
  | _, _, .block hnodes, _, hdepth => accepts_block (hnodes.accepts (by simp at hdepth; omega))

theorem Statements.accepts : ∀ {ts : List Lexeme} {nodes : List Node}, Statements ts nodes →
    ∀ {depth : Nat}, ts.length ≤ depth →
      Accepts (statements (statement depth)) ts nodes EndsStatements
  | _, _, .empty hfollowing, _, hdepth =>
    accepts_statements_empty hfollowing (hfollowing.accepts hdepth)
  | _, _, .first hstatement hfollowing, _, hdepth =>
    accepts_statements_first (hstatement.accepts (by simp at hdepth; omega)) hfollowing
      (hfollowing.accepts (by simp at hdepth; omega))

theorem Following.accepts : ∀ {ts : List Lexeme} {nodes : List Node}, Following ts nodes →
    ∀ {depth : Nat}, ts.length ≤ depth → AcceptsFollowing depth ts nodes
  | _, _, .done, _, _, rounds, _ => accepts_noMoreStatements rounds
  | _, _, .lineBreak, _, _, rounds + 1, _ => accepts_lastBreak rounds
  | _, _, .more hstatement hothers, _, hdepth, rounds + 1, hrounds =>
    accepts_moreStatements (hstatement.accepts (by simp at hdepth; omega)) hothers
      (hothers.accepts (by simp at hdepth; omega) rounds (by simp at hrounds; omega))

end

end Grammar

end Hallo
