import Hallo.Proofs.Grammar.Completeness.Statement

/-!
The reader of programs accepts exactly the grammar, and reads exactly the tree that the grammar
derives. Hence no sequence of lexemes spells two programs.
-/
namespace Hallo

namespace Cursor

/-- A scan has the end of input at its end and nowhere else. -/
theorem endOfInput_scanWithin (rounds : Nat) (c : Cursor) :
    (∀ token ∈ (scanWithin rounds c).tokens, token.lexeme ≠ .endOfInput) ∧
      ∀ token, (scanWithin rounds c).ending = .ok token → token.lexeme = .endOfInput := by
  induction rounds generalizing c with
  | zero =>
    refine ⟨by simp [scanWithin], ?_⟩
    intro token hending
    cases hending
    rfl
  | succ rounds ih =>
    rw [scanWithin]
    rcases c.next with ⟨error | token, after⟩
    · simp
    · by_cases hend : token.lexeme = .endOfInput
      · simp [hend]
      · obtain ⟨htokens, hending⟩ := ih after
        simp only [hend, if_false, List.mem_cons, forall_eq_or_imp]
        exact ⟨⟨hend, htokens⟩, hending⟩

end Cursor

theorem Feed.proper_ofSource (source : String) : (Feed.ofSource source).Proper := by
  obtain ⟨htokens, hending⟩ := Cursor.endOfInput_scanWithin _ (Cursor.ofSource source)
  refine ⟨fun hmem => ?_, hending⟩
  obtain ⟨token, htoken, hlexeme⟩ := List.mem_map.1 hmem
  exact htokens token htoken hlexeme

namespace Scan

/-- The lexemes of a scan that reached the end of input, with it. -/
theorem lexemes_listed {scan : Scan} {finish : Token} (hending : scan.ending = .ok finish) :
    scan.listed.map Token.lexeme = scan.tokens.map Token.lexeme ++ [finish.lexeme] := by
  simp [listed, hending]

end Scan

namespace Parser

open Grammar

theorem expect_endOfInput {finish : Token} {expected : Expectation}
    (hfinish : finish.lexeme = .endOfInput) :
    expect .endOfInput expected ⟨[], .ok finish⟩ = .ok ((), ⟨[], .ok finish⟩) := by
  rw [expect, bind_of_ok (sees_eq .endOfInput [] hfinish)]
  rfl

/-- A derived program is read from its tokens, wherever they stand. -/
theorem program_complete {tokens : List Token} {finish : Token} {nodes : List Node}
    (hfinish : finish.lexeme = .endOfInput)
    (hprogram : Program (tokens.map Token.lexeme ++ [.endOfInput]) nodes) :
    program ⟨tokens, .ok finish⟩ = .ok (nodes, ⟨[], .ok finish⟩) := by
  generalize hlexemes : tokens.map Token.lexeme ++ [.endOfInput] = ls at hprogram
  obtain @⟨ts, _, hnodes⟩ := hprogram
  have htokens : tokens.map Token.lexeme =
      .keyword .greeting :: .mark .lineBreak :: (ts ++ [.keyword .farewell]) := by
    have hall : tokens.map Token.lexeme ++ [.endOfInput] =
        .keyword .greeting :: .mark .lineBreak :: (ts ++ [.keyword .farewell]) ++
          [.endOfInput] := by
      simpa using hlexemes
    exact List.append_cancel_right hall
  obtain ⟨greeting, back, rfl, hgreeting, hback⟩ := List.map_eq_cons_iff.1 htokens
  obtain ⟨lineBreak, inner, farewell, rfl, hbreak, hinner, hfarewell⟩ := exists_enclosed hback
  have hends : EndsStatements (nextLexeme [farewell]) := .inr hfarewell
  have hread : bounded (fun depth => statements (statement depth))
    ⟨inner ++ [farewell], .ok finish⟩ =
      .ok (nodes, ⟨[farewell], .ok finish⟩) := by
    refine hnodes.accepts ?_ hinner hfinish hends
    rw [← hinner, List.length_map, List.length_append]
    omega
  rw [program, bind_of_ok (expect_cons hgreeting (lineBreak :: (inner ++ [farewell])) finish),
    bind_of_ok (expect_cons hbreak (inner ++ [farewell]) finish), bind_of_ok hread,
    bind_of_ok (expect_cons hfarewell [] finish), bind_of_ok (expect_endOfInput hfinish)]
  rfl

end Parser

namespace Grammar

theorem Program.exists_append {ls : List Lexeme} {nodes : List Node} (hprogram : Program ls nodes) :
    ∃ ts, ls = ts ++ [.endOfInput] := by
  obtain @⟨ts, _, _⟩ := hprogram
  exact ⟨.keyword .greeting :: .mark .lineBreak :: (ts ++ [.keyword .farewell]), by simp⟩

/-- A sequence of lexemes spells at most one program: both trees are what the reader reads. -/
theorem Program.unique {ls : List Lexeme} {nodes others : List Node} (hnodes : Program ls nodes)
    (hothers : Program ls others) : nodes = others := by
  obtain ⟨ts, rfl⟩ := hnodes.exists_append
  let tokens : List Token := ts.map fun l => ⟨l, .start⟩
  have htokens : tokens.map Token.lexeme = ts := by simp [tokens, Function.comp_def]
  have hfinish : (Token.mk .endOfInput .start).lexeme = .endOfInput := rfl
  rw [← htokens] at hnodes hothers
  have hfirst := Parser.program_complete hfinish hnodes
  have hsecond := Parser.program_complete hfinish hothers
  rw [hfirst] at hsecond
  injection hsecond with hpair
  exact congrArg Prod.fst hpair

end Grammar

namespace Node

theorem parse_eq_ok_iff {source : String} {nodes : List Node} :
    parse source = .ok nodes ↔ ∃ feed, Parser.program (Feed.ofSource source) =
      .ok (nodes, feed) := by
  change (Parser.program (Feed.ofSource source)).map Prod.fst = .ok nodes ↔ _
  rcases Parser.program (Feed.ofSource source) with error | ⟨found, rest⟩ <;> simp [Except.map]

/-- What a source parses to is what the grammar derives from its lexemes. -/
theorem parse_eq_ok_iff_program {source : String} {nodes : List Node} :
    parse source = .ok nodes ↔
      (∃ finish, (Scan.ofSource source).ending = .ok finish) ∧
        Grammar.Program ((Scan.ofSource source).listed.map Token.lexeme) nodes := by
  have hproper := Feed.proper_ofSource source
  rw [parse_eq_ok_iff]
  constructor
  · rintro ⟨rest, hread⟩
    obtain ⟨⟨finish, hending⟩, hprogram⟩ := Parser.program_sound hproper hread
    refine ⟨⟨finish, hending⟩, ?_⟩
    rw [Scan.lexemes_listed hending, hproper.lexeme_ending finish hending]
    exact hprogram
  · rintro ⟨⟨finish, hending⟩, hprogram⟩
    have hfinish := hproper.lexeme_ending finish hending
    rw [Scan.lexemes_listed hending, hfinish] at hprogram
    refine ⟨⟨[], .ok finish⟩, ?_⟩
    have hfeed : Feed.ofSource source = ⟨(Scan.ofSource source).tokens, .ok finish⟩ := by
      rw [Feed.ofSource, hending]
    rw [hfeed]
    exact Parser.program_complete hfinish hprogram

/-- A source is accepted exactly if it can be read as lexemes and the grammar derives a program
    from them, and what it parses to is that program. The grammar derives no other program from
    the same lexemes. -/
theorem parse_accepts_exactly_the_grammar :
    (∀ (source : String) (nodes : List Node),
      parse source = .ok nodes ↔
        (∃ finish, (Scan.ofSource source).ending = .ok finish) ∧
          Grammar.Program ((Scan.ofSource source).listed.map Token.lexeme) nodes) ∧
    (∀ (ls : List Lexeme) (nodes others : List Node),
      Grammar.Program ls nodes → Grammar.Program ls others → nodes = others) :=
  ⟨fun _ _ => parse_eq_ok_iff_program, fun _ _ _ => Grammar.Program.unique⟩

end Node

end Hallo
