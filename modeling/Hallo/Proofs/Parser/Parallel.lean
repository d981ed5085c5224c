import Hallo.Proofs.Parser.Complaints
import Mathlib.Data.List.Forall2

/-!
Readers and the places of tokens. A reader goes by what tokens say, never by where they stand. On
two feeds whose tokens say the same one by one it reads the same, or it refuses in both the same
token for the same reason.
-/
namespace Hallo

/-- A way in which tokens correspond to each other: only tokens that say the same do. -/
structure Matching where
  Pairs : Token → Token → Prop
  lexeme_eq {token token' : Token} : Pairs token token' → token.lexeme = token'.lexeme

namespace Feed

variable {M : Matching} {feed feed' : Feed}

/-- Feeds without an unreadable part whose tokens correspond to each other one by one. -/
structure Parallel (M : Matching) (feed feed' : Feed) : Prop where
  queue : List.Forall₂ M.Pairs feed.queue feed'.queue
  ending : ∃ finish finish', feed.ending = .ok finish ∧ feed'.ending = .ok finish' ∧
    M.Pairs finish finish'

theorem Parallel.exists_current (hfeeds : feed.Parallel M feed') :
    ∃ token token', feed.current = .ok token ∧ feed'.current = .ok token' ∧
      M.Pairs token token' := by
  rcases feed with ⟨queue, ending⟩
  rcases feed' with ⟨queue', ending'⟩
  obtain ⟨hqueue, hending⟩ := hfeeds
  cases hqueue with
  | nil => exact hending
  | cons htoken _ => exact ⟨_, _, rfl, rfl, htoken⟩

theorem Parallel.rest (hfeeds : feed.Parallel M feed') : feed.rest.Parallel M feed'.rest := by
  rcases feed with ⟨queue, ending⟩
  rcases feed' with ⟨queue', ending'⟩
  obtain ⟨hqueue, hending⟩ := hfeeds
  refine ⟨?_, hending⟩
  cases hqueue with
  | nil => exact .nil
  | cons _ hothers => exact hothers

end Feed

namespace Parser

variable {M : Matching} {α β : Type} {feed feed' : Feed}

/-- Outcomes in which the same was read and what is left corresponds, or in which tokens that
    correspond were refused for the same reason. -/
inductive Agree (M : Matching) :
    Except ParseError (α × Feed) → Except ParseError (α × Feed) → Prop where
  | read {rest rest' : Feed} (a : α) : rest.Parallel M rest' → Agree M (.ok (a, rest))
      (.ok (a, rest'))
  | refused {found found' : Token} (expected : Expectation) : M.Pairs found found' →
    Agree M (.error (.unexpected found expected)) (.error (.unexpected found' expected))

/-- Two readers that agree wherever the tokens correspond. -/
def Parallel (M : Matching) (reader reader' : Parser α) : Prop :=
  ∀ ⦃feed feed' : Feed⦄, feed.Parallel M feed' → Agree M (reader feed) (reader' feed')

namespace Parallel

theorem pure (a : α) : Parallel M (Pure.pure a : Parser α) (Pure.pure a) :=
  fun _ _ hfeeds => .read a hfeeds

theorem bind {reader reader' : Parser α} {next next' : α → Parser β}
    (hreader : Parallel M reader reader') (hnext : ∀ a, Parallel M (next a) (next' a)) :
    Parallel M (reader >>= next) (reader' >>= next') := by
  intro feed feed' hfeeds
  have hagree := hreader hfeeds
  generalize hread : reader feed = outcome at hagree
  generalize hread' : reader' feed' = outcome' at hagree
  cases hagree with
  | read a hrest =>
    rw [bind_of_ok hread, bind_of_ok hread']
    exact hnext a hrest
  | refused expected hfound =>
    rw [bind_eq_error_iff.2 (.inl hread), bind_eq_error_iff.2 (.inl hread')]
    exact .refused expected hfound

/-- What comes behind a look at the next token is given tokens that correspond. -/
theorem current_bind {next next' : Token → Parser α}
    (hnext : ∀ token token', M.Pairs token token' → Parallel M (next token) (next' token')) :
    Parallel M (Parser.current >>= next) (Parser.current >>= next') := by
  intro feed feed' hfeeds
  obtain ⟨token, token', hcurrent, hcurrent', htoken⟩ := hfeeds.exists_current
  rw [bind_of_ok (current_eq_ok_iff.2 ⟨hcurrent, rfl⟩),
    bind_of_ok (current_eq_ok_iff.2 ⟨hcurrent', rfl⟩)]
  exact hnext token token' htoken hfeeds

theorem unexpected {found found' : Token} (hfound : M.Pairs found found') (expected : Expectation) :
    Parallel M (throw (.unexpected found expected) : Parser α)
      (throw (.unexpected found' expected)) :=
  fun _ _ _ => .refused expected hfound

theorem advance : Parallel M Parser.advance Parser.advance := by
  refine current_bind fun _ _ _ feed feed' hfeeds => ?_
  exact current_bind (fun _ _ _ => pure ()) hfeeds.rest

theorem refuse (expected : Expectation) :
    Parallel M (Parser.refuse expected : Parser α) (Parser.refuse expected) :=
  current_bind fun _ _ htoken => unexpected htoken expected

theorem sees (lexeme : Lexeme) : Parallel M (Parser.sees lexeme) (Parser.sees lexeme) := by
  refine current_bind fun token token' htoken => ?_
  rw [M.lexeme_eq htoken]
  exact pure _

theorem bounded {rounds : Nat → Parser α} (hrounds : ∀ n, Parallel M (rounds n) (rounds n)) :
    Parallel M (Parser.bounded rounds) (Parser.bounded rounds) := by
  intro feed feed' hfeeds
  rw [Parser.bounded, Parser.bounded, hfeeds.queue.length_eq]
  exact hrounds _ hfeeds

/-- Readers that look at the next token first and go on according to whether it is a certain one. -/
theorem ifSees {yes no : Parser α} (lexeme : Lexeme) (hyes : Parallel M yes yes)
    (hno : Parallel M no no) :
    Parallel M (do if ← Parser.sees lexeme then yes else no)
      (do if ← Parser.sees lexeme then yes else no) := by
  refine (sees lexeme).bind fun seen => ?_
  cases seen with
  | false => exact hno
  | true => exact hyes

theorem expect (lexeme : Lexeme) (expected : Expectation) :
    Parallel M (Parser.expect lexeme expected) (Parser.expect lexeme expected) :=
  ifSees lexeme advance (refuse expected)

theorem expectName (expected : Expectation) :
    Parallel M (Parser.expectName expected) (Parser.expectName expected) := by
  refine current_bind fun token token' htoken => ?_
  rw [M.lexeme_eq htoken]
  split
  · exact .bind advance fun _ => pure _
  · exact refuse expected

variable {operand : Parser Node}

theorem chainFrom (operator? : Lexeme → Option String) (hoperand : Parallel M operand operand)
    (rounds : Nat) (left : Node) :
    Parallel M (Parser.chainFrom operator? operand rounds left)
      (Parser.chainFrom operator? operand rounds left) := by
  induction rounds generalizing left with
  | zero => exact pure left
  | succ rounds ih =>
    refine current_bind fun token token' htoken => ?_
    rw [M.lexeme_eq htoken]
    split
    · exact pure left
    · exact .bind advance fun _ => hoperand.bind fun right => ih _

theorem chain (operator? : Lexeme → Option String) (hoperand : Parallel M operand operand) :
    Parallel M (Parser.chain operator? operand) (Parser.chain operator? operand) :=
  hoperand.bind fun left => bounded fun rounds => hoperand.chainFrom operator? rounds left

theorem term (hoperand : Parallel M operand operand) :
    Parallel M (Parser.term operand) (Parser.term operand) := by
  refine (hoperand.chain multiplicative?).bind fun left =>
    current_bind fun token token' htoken => ?_
  rw [M.lexeme_eq htoken]
  split
  · exact pure left
  · exact .bind advance fun _ => (hoperand.chain multiplicative?).bind fun _ => pure _

theorem sum (hoperand : Parallel M operand operand) :
    Parallel M (Parser.sum operand) (Parser.sum operand) :=
  hoperand.term.chain additive?

theorem moreArguments (hoperand : Parallel M operand operand) (rounds : Nat) :
    Parallel M (Parser.moreArguments operand rounds) (Parser.moreArguments operand rounds) := by
  induction rounds with
  | zero => exact pure []
  | succ rounds ih =>
    refine ifSees _ (.bind advance fun _ => ?_) (pure [])
    exact hoperand.bind fun _ => ih.bind fun _ => pure _

theorem arguments (hoperand : Parallel M operand operand) :
    Parallel M (Parser.arguments operand) (Parser.arguments operand) := by
  refine (expect _ _).bind fun _ => ifSees _ (.bind advance fun _ => pure []) ?_
  exact hoperand.bind fun _ => (bounded hoperand.moreArguments).bind fun _ =>
    (expect _ _).bind fun _ => pure _

theorem factor (depth : Nat) : Parallel M (Parser.factor depth) (Parser.factor depth) := by
  induction depth with
  | zero => exact refuse .operand
  | succ depth ih =>
    refine current_bind fun token token' htoken => ?_
    rw [M.lexeme_eq htoken]
    split
    · exact .bind advance fun _ => ih.bind fun _ => pure _
    · exact .bind advance fun _ => ih.bind fun _ => pure _
    · exact .bind advance fun _ => pure _
    · exact .bind advance fun _ => pure _
    · exact .bind advance fun _ => pure _
    · exact .bind advance fun _ => ih.sum.bind fun _ => (expect _ _).bind fun _ => pure _
    · exact .bind advance fun _ => ifSees _ (ih.sum.arguments.bind fun _ => pure _) (pure _)
    · exact refuse .operand

theorem expression : Parallel M Parser.expression Parser.expression :=
  bounded fun depth => (factor depth).sum

/-- A repeated parameter is refused with its own token, so here the tokens matter beyond what they
    say. -/
theorem parameterNames (rounds : Nat) (seen : List String) :
    Parallel M (Parser.parameterNames rounds seen) (Parser.parameterNames rounds seen) := by
  induction rounds generalizing seen with
  | zero => exact refuse .parameterName
  | succ rounds ih =>
    refine current_bind fun token token' htoken => (expectName _).bind fun name => ?_
    have hmore : Parallel M (do
        if ← Parser.sees (.mark .comma) then
          Parser.advance
          let names ← Parser.parameterNames rounds (name :: seen)
          return name :: names
        else
          return [name]) _ :=
      ifSees _ (.bind advance fun _ => (ih _).bind fun _ => pure _) (pure _)
    split
    · exact (unexpected htoken _).bind fun _ => hmore
    · exact hmore

theorem parameters : Parallel M Parser.parameters Parser.parameters := by
  refine (expect _ _).bind fun _ => ifSees _ (.bind advance fun _ => pure []) ?_
  exact (bounded fun rounds => parameterNames rounds []).bind fun _ =>
    (expect _ _).bind fun _ => pure _

variable {reader : Parser (Option Node)}

theorem moreStatements (hstatement : Parallel M reader reader) (rounds : Nat) :
    Parallel M (Parser.moreStatements reader rounds) (Parser.moreStatements reader rounds) := by
  induction rounds with
  | zero => exact pure []
  | succ rounds ih =>
    refine ifSees _ (.bind advance fun _ => hstatement.bind fun found => ?_) (pure [])
    cases found with
    | none => exact pure []
    | some node => exact ih.bind fun _ => pure _

theorem statements (hstatement : Parallel M reader reader) :
    Parallel M (Parser.statements reader) (Parser.statements reader) :=
  hstatement.bind fun _ => (bounded hstatement.moreStatements).bind fun _ => pure _

theorem block (hstatement : Parallel M reader reader) :
    Parallel M (Parser.block reader) (Parser.block reader) :=
  (expect _ _).bind fun _ => hstatement.statements.bind fun _ => (expect _ _).bind fun _ => pure _

theorem statement (depth : Nat) : Parallel M (Parser.statement depth) (Parser.statement depth) := by
  induction depth with
  | zero => exact pure none
  | succ depth ih =>
    refine current_bind fun token token' htoken => ?_
    rw [M.lexeme_eq htoken]
    split
    · refine .bind advance fun _ => ifSees _ ?_ (ifSees _ ?_ (refuse _))
      · exact .bind advance fun _ => expression.bind fun _ => pure _
      · exact expression.arguments.bind fun _ => pure _
    · exact .bind advance fun _ => (expectName _).bind fun _ => (expect _ _).bind fun _ =>
        expression.bind fun _ => pure _
    · exact .bind advance fun _ => expression.bind fun _ => ih.block.bind fun _ => pure _
    · exact .bind advance fun _ => expression.bind fun _ => ih.block.bind fun _ => pure _
    · exact .bind advance fun _ => (expectName _).bind fun _ => parameters.bind fun _ =>
        ih.block.bind fun _ => pure _
    · exact .bind advance fun _ => expression.bind fun _ => pure _
    · exact pure none

theorem program : Parallel M Parser.program Parser.program :=
  (expect _ _).bind fun _ => (expect _ _).bind fun _ =>
    (bounded fun depth => (statement depth).statements).bind fun _ =>
      (expect _ _).bind fun _ => (expect _ _).bind fun _ => pure _

end Parallel

end Parser

end Hallo
