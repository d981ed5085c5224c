import Hallo.Node.Parser
import Hallo.Proofs.Parser
import Hallo.Value.Answer

/-!
What readers complain about. A scan complains about a numeral only if it has too many digits, and
a reader of tokens passes on what the scan complained about: it has no complaints about characters
of its own.
-/
namespace Hallo

/-- Complaints that a text can give rise to. A numeral is begun only at a digit, so it has one. -/
def Complaint.Founded : Complaint → Prop
  | .unknownCharacter _ => True
  | .unclosedText => True
  | .tooManyDigits count => Decimal.digitLimit < count
  | .noDigits => False

/-- Errors that a text can give rise to. -/
def ParseError.Founded : ParseError → Prop
  | .scan error => error.complaint.Founded
  | .unexpected _ _ => True

namespace Bite

theorem founded_digits {c : Char} {rest : List Char} {complaint : Complaint}
    (hdigit : c.isDigit = true) (herror : (digits (c :: rest)).lexeme = .error complaint) :
    complaint.Founded := by
  have hrun : ((c :: rest).takeWhile Char.isDigit).isEmpty = false := by
    rw [List.takeWhile_cons_of_pos hdigit]
    rfl
  simp only [digits, hrun, Bool.false_eq_true, if_false] at herror
  split at herror
  · rename_i hlimit
    cases herror
    exact hlimit
  · cases herror

theorem founded_first {text : List Char} {complaint : Complaint}
    (herror : (first text).lexeme = .error complaint) : complaint.Founded := by
  cases text with
  | nil => cases herror
  | cons c rest =>
    rw [first] at herror
    split at herror
    · rename_i hdigit
      exact founded_digits hdigit herror
    · simp only [bracketed, word] at herror
      repeat' split at herror
      all_goals cases herror
      all_goals trivial

end Bite

namespace Cursor

theorem founded_next {c after : Cursor} {error : ScanError}
    (hnext : c.next = (.error error, after)) :
    error.complaint.Founded := by
  rw [next, take] at hnext
  split at hnext
  · cases hnext
  · rename_i hbite
    cases hnext
    exact Bite.founded_first hbite

theorem founded_scanWithin {rounds : Nat} {c : Cursor} {error : ScanError}
    (hending : (scanWithin rounds c).ending = .error error) : error.complaint.Founded := by
  induction rounds generalizing c with
  | zero => cases hending
  | succ rounds ih =>
    rw [scanWithin] at hending
    rcases hnext : c.next with ⟨found | token, after⟩
    · simp only [hnext] at hending
      cases hending
      exact founded_next hnext
    · simp only [hnext] at hending
      split at hending
      · cases hending
      · exact ih hending

end Cursor

namespace Parser

variable {α β : Type}

theorem bind_eq_error_iff {feed : Feed} {reader : Parser α} {next : α → Parser β}
    {error : ParseError} :
    (reader >>= next) feed = .error error ↔
      reader feed = .error error ∨
        ∃ a middle, reader feed = .ok (a, middle) ∧ next a middle = .error error := by
  change (reader feed >>= fun read => next read.1 read.2) = .error error ↔ _
  rcases hread : reader feed with found | ⟨a, middle⟩
  · simp [bind, Except.bind]
  · constructor
    · intro hnext
      exact .inr ⟨a, middle, rfl, hnext⟩
    · rintro (heq | ⟨_, _, heq, hnext⟩)
      · cases heq
      · cases heq
        exact hnext

theorem eq_error_of_onSource {reader : Parser α} {source : String} {error : ParseError}
    (herror : reader.onSource source = .error error) :
    reader (Feed.ofSource source) = .error error := by
  change (reader (Feed.ofSource source)).map Prod.fst = .error error at herror
  rcases hread : reader (Feed.ofSource source) with found | result
  · rw [hread] at herror
    cases herror
    rfl
  · rw [hread] at herror
    cases herror

/-- A reader that takes tokens from the front of its feed and keeps the end of it, that stops only
    where another token can be read, and that complains about characters only where the feed ends
    so. -/
structure Relays (reader : Parser α) : Prop where
  ending_eq {feed rest : Feed} {a : α} : reader feed = .ok (a, rest) → rest.ending = feed.ending
  suffix {feed rest : Feed} {a : α} : reader feed = .ok (a, rest) → rest.queue <:+ feed.queue
  exists_current {feed rest : Feed} {a : α} : reader feed = .ok (a, rest) →
    (∃ token, feed.current = .ok token) → ∃ token, rest.current = .ok token
  ending_of_scan {feed : Feed} {error : ScanError} :
    reader feed = .error (.scan error) → feed.ending = .error error

namespace Relays

theorem pure (a : α) : Relays (Pure.pure a : Parser α) where
  ending_eq hread := by
    obtain ⟨_, rfl⟩ := pure_eq_ok_iff.1 hread
    rfl
  suffix hread := by
    obtain ⟨_, rfl⟩ := pure_eq_ok_iff.1 hread
    exact List.suffix_rfl
  exists_current hread hcurrent := by
    obtain ⟨_, rfl⟩ := pure_eq_ok_iff.1 hread
    exact hcurrent
  ending_of_scan := nofun

theorem bind {reader : Parser α} {next : α → Parser β} (hreader : Relays reader)
    (hnext : ∀ a, Relays (next a)) : Relays (reader >>= next) where
  ending_eq hread := by
    obtain ⟨a, middle, hfirst, hsecond⟩ := bind_eq_ok_iff.1 hread
    rw [(hnext a).ending_eq hsecond, hreader.ending_eq hfirst]
  suffix hread := by
    obtain ⟨a, middle, hfirst, hsecond⟩ := bind_eq_ok_iff.1 hread
    exact ((hnext a).suffix hsecond).trans (hreader.suffix hfirst)
  exists_current hread hcurrent := by
    obtain ⟨a, middle, hfirst, hsecond⟩ := bind_eq_ok_iff.1 hread
    exact (hnext a).exists_current hsecond (hreader.exists_current hfirst hcurrent)
  ending_of_scan hread := by
    rcases bind_eq_error_iff.1 hread with hfirst | ⟨a, middle, hfirst, hsecond⟩
    · exact hreader.ending_of_scan hfirst
    · rw [← hreader.ending_eq hfirst]
      exact (hnext a).ending_of_scan hsecond

theorem unexpected (found : Token) (expected : Expectation) :
    Relays (throw (.unexpected found expected) : Parser α) where
  ending_eq := nofun
  suffix := nofun
  exists_current := nofun
  ending_of_scan := nofun

theorem current : Relays Parser.current where
  ending_eq hread := by
    obtain ⟨_, rfl⟩ := current_eq_ok_iff.1 hread
    rfl
  suffix hread := by
    obtain ⟨_, rfl⟩ := current_eq_ok_iff.1 hread
    exact List.suffix_rfl
  exists_current hread hcurrent := by
    obtain ⟨_, rfl⟩ := current_eq_ok_iff.1 hread
    exact hcurrent
  ending_of_scan {feed error} hread := by
    rcases feed with ⟨_ | ⟨token, tokens⟩, finish | found⟩ <;> cases hread
    rfl

theorem advance : Relays Parser.advance where
  ending_eq hread := by
    rw [rest_of_advance hread]
    rfl
  suffix hread := by
    rw [rest_of_advance hread]
    exact List.tail_suffix _
  exists_current {feed _ _} hread _ := by
    rcases feed with ⟨_ | ⟨token, _ | ⟨next, tokens⟩⟩, finish | found⟩ <;> cases hread <;>
      exact ⟨_, rfl⟩
  ending_of_scan {feed error} hread := by
    rcases feed with ⟨_ | ⟨token, _ | ⟨next, tokens⟩⟩, finish | found⟩ <;> cases hread <;> rfl

theorem refuse (expected : Expectation) : Relays (Parser.refuse expected : Parser α) :=
  .bind current fun token => unexpected token expected

theorem sees (lexeme : Lexeme) : Relays (Parser.sees lexeme) :=
  .bind current fun _ => pure _

theorem expect (lexeme : Lexeme) (expected : Expectation) :
    Relays (Parser.expect lexeme expected) := by
  refine (sees lexeme).bind fun seen => ?_
  split
  · exact advance
  · exact refuse expected

theorem expectName (expected : Expectation) : Relays (Parser.expectName expected) := by
  refine .bind current fun token => ?_
  split
  · exact .bind advance fun _ => pure _
  · exact refuse expected

theorem bounded {rounds : Nat → Parser α} (hrounds : ∀ n, Relays (rounds n)) :
    Relays (Parser.bounded rounds) where
  ending_eq hread := (hrounds _).ending_eq hread
  suffix hread := (hrounds _).suffix hread
  exists_current hread := (hrounds _).exists_current hread
  ending_of_scan hread := (hrounds _).ending_of_scan hread

/-- Readers that look at the next token first and go on according to whether it is a certain one. -/
theorem ifSees {yes no : Parser α} (lexeme : Lexeme) (hyes : Relays yes) (hno : Relays no) :
    Relays (do if ← Parser.sees lexeme then yes else no) := by
  refine (sees lexeme).bind fun seen => ?_
  split
  · exact hyes
  · exact hno

variable {operand : Parser Node}

theorem chainFrom (operator? : Lexeme → Option String) (hoperand : Relays operand) (rounds : Nat)
    (left : Node) : Relays (Parser.chainFrom operator? operand rounds left) := by
  induction rounds generalizing left with
  | zero => exact pure left
  | succ rounds ih =>
    refine .bind current fun token => ?_
    split
    · exact pure left
    · exact .bind advance fun _ => hoperand.bind fun right => ih _

theorem chain (operator? : Lexeme → Option String) (hoperand : Relays operand) :
    Relays (Parser.chain operator? operand) :=
  hoperand.bind fun left => bounded fun rounds => hoperand.chainFrom operator? rounds left

theorem term (hoperand : Relays operand) : Relays (Parser.term operand) := by
  refine (hoperand.chain multiplicative?).bind fun left => .bind current fun token => ?_
  split
  · exact pure left
  · exact .bind advance fun _ => (hoperand.chain multiplicative?).bind fun _ => pure _

theorem sum (hoperand : Relays operand) : Relays (Parser.sum operand) :=
  hoperand.term.chain additive?

theorem moreArguments (hoperand : Relays operand) (rounds : Nat) :
    Relays (Parser.moreArguments operand rounds) := by
  induction rounds with
  | zero => exact pure []
  | succ rounds ih =>
    refine ifSees _ (.bind advance fun _ => ?_) (pure [])
    exact hoperand.bind fun _ => ih.bind fun _ => pure _

theorem arguments (hoperand : Relays operand) : Relays (Parser.arguments operand) := by
  refine (expect _ _).bind fun _ => ifSees _ (.bind advance fun _ => pure []) ?_
  exact hoperand.bind fun _ => (bounded hoperand.moreArguments).bind fun _ =>
    (expect _ _).bind fun _ => pure _

theorem factor (depth : Nat) : Relays (Parser.factor depth) := by
  induction depth with
  | zero => exact refuse .operand
  | succ depth ih =>
    refine .bind current fun token => ?_
    split
    · exact .bind advance fun _ => ih.bind fun _ => pure _
    · exact .bind advance fun _ => ih.bind fun _ => pure _
    · exact .bind advance fun _ => pure _
    · exact .bind advance fun _ => pure _
    · exact .bind advance fun _ => pure _
    · exact .bind advance fun _ => ih.sum.bind fun _ => (expect _ _).bind fun _ => pure _
    · exact .bind advance fun _ => ifSees _ (ih.sum.arguments.bind fun _ => pure _) (pure _)
    · exact refuse .operand

theorem expression : Relays Parser.expression :=
  bounded fun depth => (factor depth).sum

theorem parameterNames (rounds : Nat) (seen : List String) :
    Relays (Parser.parameterNames rounds seen) := by
  induction rounds generalizing seen with
  | zero => exact refuse .parameterName
  | succ rounds ih =>
    refine .bind current fun token => (expectName _).bind fun name => ?_
    have hmore : Relays (do
        if ← Parser.sees (.mark .comma) then
          Parser.advance
          let names ← Parser.parameterNames rounds (name :: seen)
          return name :: names
        else
          return [name]) :=
      ifSees _ (.bind advance fun _ => (ih _).bind fun _ => pure _) (pure _)
    split
    · exact (unexpected token _).bind fun _ => hmore
    · exact hmore

theorem parameters : Relays Parser.parameters := by
  refine (expect _ _).bind fun _ => ifSees _ (.bind advance fun _ => pure []) ?_
  exact (bounded fun rounds => parameterNames rounds []).bind fun _ =>
    (expect _ _).bind fun _ => pure _

theorem moreStatements {reader : Parser (Option Node)} (hstatement : Relays reader) (rounds : Nat) :
    Relays (Parser.moreStatements reader rounds) := by
  induction rounds with
  | zero => exact pure []
  | succ rounds ih =>
    refine ifSees _ (.bind advance fun _ => hstatement.bind fun found => ?_) (pure [])
    cases found with
    | none => exact pure []
    | some node => exact ih.bind fun _ => pure _

theorem statements {reader : Parser (Option Node)} (hstatement : Relays reader) :
    Relays (Parser.statements reader) :=
  hstatement.bind fun _ => (bounded hstatement.moreStatements).bind fun _ => pure _

theorem block {reader : Parser (Option Node)} (hstatement : Relays reader) :
    Relays (Parser.block reader) :=
  (expect _ _).bind fun _ => hstatement.statements.bind fun _ => (expect _ _).bind fun _ => pure _

theorem statement (depth : Nat) : Relays (Parser.statement depth) := by
  induction depth with
  | zero => exact pure none
  | succ depth ih =>
    refine .bind current fun token => ?_
    split
    · refine .bind advance fun _ => ifSees _ ?_ (ifSees _ ?_ (refuse _))
      · exact .bind advance fun _ => expression.bind fun _ => pure _
      · exact expression.arguments.bind fun _ => pure _
    · exact .bind advance fun _ => (expectName _).bind fun _ => (expect _ _).bind fun _ =>
        expression.bind fun _ => pure _
    · exact .bind advance fun _ => expression.bind fun _ => ih.block.bind fun _ => pure _
    · exact .bind advance fun _ => expression.bind fun _ => ih.block.bind fun _ => pure _
    · exact .bind advance fun _ => (expectName _).bind fun _ => parameters.bind fun _ =>
        ih.block.bind fun _ => pure _
    · exact .bind advance fun _ => expression.bind fun _ => pure _
    · exact pure none

theorem program : Relays Parser.program :=
  (expect _ _).bind fun _ => (expect _ _).bind fun _ =>
    (bounded fun depth => (statement depth).statements).bind fun _ =>
      (expect _ _).bind fun _ => (expect _ _).bind fun _ => pure _

theorem unsigned : Relays Parser.unsigned := by
  refine .bind current fun token => ?_
  split
  · exact .bind advance fun _ => pure _
  · exact refuse .integer

theorem answerValue : Relays Parser.answerValue := by
  refine .bind current fun token => ?_
  split
  · exact .bind advance fun _ => unsigned.bind fun _ => pure _
  · exact .bind advance fun _ => ifSees _ (pure _) (unsigned.bind fun _ => pure _)
  · exact .bind advance fun _ => pure _
  · exact .bind advance fun _ => pure _
  · exact .bind advance fun _ => pure _
  · exact refuse .literal

theorem answer : Relays Parser.answer :=
  answerValue.bind fun _ => (expect _ _).bind fun _ => pure _

/-- Whatever a reader says of a text, the text has given rise to it. -/
theorem founded_onSource {reader : Parser α} (hreader : Relays reader) {source : String}
    {error : ParseError} (herror : reader.onSource source = .error error) : error.Founded := by
  cases error with
  | unexpected found expected => trivial
  | scan error =>
    exact Cursor.founded_scanWithin (hreader.ending_of_scan (eq_error_of_onSource herror))

end Relays

end Parser

theorem Node.founded_of_parse {source : String} {error : ParseError}
    (herror : Node.parse source = .error error) : error.Founded :=
  Parser.Relays.program.founded_onSource herror

theorem Value.founded_of_ofAnswer {answer : String} {error : ParseError}
    (herror : Value.ofAnswer answer = .error error) : error.Founded :=
  Parser.Relays.answer.founded_onSource herror

end Hallo
