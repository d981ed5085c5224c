import Hallo.Proofs.Grammar.Kind
import Hallo.Proofs.Grammar.ViablePrefix.Statement
import Hallo.Proofs.Token.Coverage
import Hallo.Proofs.Token.Spaced
import Mathlib

/-!
Where a source is refused. The token that an error names is the first one that no program goes on
with: what is before it begins a program, and no program begins with it as well.
-/
namespace Hallo

open Grammar

/-- A source that is accepted begins with these lexemes. -/
def StartsProgram (ts : List Lexeme) : Prop :=
  ∃ source nodes, Node.parse source = .ok nodes ∧
    ts <+: (Scan.ofSource source).listed.map Token.lexeme

/-- Lexemes that can be completed to a program can be completed to one in a source: those that are
    missing can be written. -/
theorem Grammar.Begins.startsProgram {ts : List Lexeme} (hbegins : Begins Program ts)
    (hts : ∀ l ∈ ts, l.Plausible) : StartsProgram ts := by
  obtain ⟨more, nodes, hmore, hprogram⟩ := hbegins
  obtain ⟨body, hbody, hend⟩ := hprogram.exists_body
  have hwritable : ∀ l ∈ body, l.Plausible := by
    intro l hmem
    have hall : l ∈ ts ++ more := by
      rw [hbody]
      exact List.mem_append_left _ hmem
    rcases List.mem_append.1 hall with hmem | hmem
    · exact hts l hmem
    · exact hmore l hmem
  obtain ⟨source, hending, hlexemes⟩ := Scan.exists_source hwritable hend
  refine ⟨source, nodes, Node.parse_eq_ok_iff_program.2 ⟨hending, ?_⟩, ?_⟩
  · rw [hlexemes, ← hbody]
    exact hprogram
  · rw [hlexemes, ← hbody]
    exact List.prefix_append ts more

namespace Scan

theorem plausible_of_isPrefix {source : String} {before : List Token}
    (hbefore : before <+: (ofSource source).tokens) :
    ∀ l ∈ before.map Token.lexeme, l.Plausible := by
  intro l hmem
  obtain ⟨token, htoken, rfl⟩ := List.mem_map.1 hmem
  exact Cursor.plausible_of_mem_scanWithin (hbefore.subset htoken)

/-- What is listed behind some tokens is what a feed has next when they are taken. -/
theorem listed_eq_iff {source : String} {before : List Token} {found : Token} :
    (∃ after, (ofSource source).listed = before ++ found :: after) ↔
      ∃ rest : Feed, Feed.ofSource source = rest.behind before ∧ rest.current = .ok found := by
  simp only [Feed.ofSource, listed]
  generalize ofSource source = scan
  obtain ⟨tokens, ending, _⟩ := scan
  constructor
  · rintro ⟨after, hlisted⟩
    cases ending with
    | error error =>
      simp only at hlisted
      exact ⟨⟨found :: after, .error error⟩, by simp [Feed.behind, hlisted], rfl⟩
    | ok finish =>
      simp only at hlisted
      rcases List.eq_nil_or_concat after with rfl | ⟨others, last, rfl⟩
      · obtain ⟨rfl, hfound⟩ := List.append_inj' hlisted rfl
        obtain rfl : finish = found := by simpa using hfound
        exact ⟨⟨[], .ok _⟩, by simp [Feed.behind], rfl⟩
      · rw [List.concat_eq_append, ← List.cons_append, ← List.append_assoc] at hlisted
        obtain ⟨rfl, _⟩ := List.append_inj' hlisted rfl
        exact ⟨⟨found :: others, .ok finish⟩, by simp [Feed.behind], rfl⟩
  · rintro ⟨⟨queue, ending⟩, hfeed, hfound⟩
    cases hfeed
    cases queue with
    | nil =>
      obtain rfl : ending = .ok found := hfound
      exact ⟨[], by simp⟩
    | cons first others =>
      cases hfound
      cases ending with
      | error error => exact ⟨others, rfl⟩
      | ok finish => exact ⟨others ++ [finish], by simp⟩

end Scan

theorem Feed.orderly_ofSource (source : String) : (Feed.ofSource source).Orderly :=
  ⟨proper_ofSource source, Scan.nodup_tokens source⟩

/-- The tokens of a program that has certain tokens, the last of them being the next one of a feed
    that goes on with the others. -/
theorem Grammar.Program.exists_ahead {before : List Token} {found : Token} {ls : List Lexeme}
    {nodes : List Node} (hprogram : Program (before.map Token.lexeme ++ found.lexeme :: ls) nodes) :
    ∃ ahead : Feed, ahead.Readable ∧ ahead.current = .ok found ∧
      ∃ result, Parser.program (ahead.behind before) = .ok result := by
  obtain ⟨body, hbody, hend⟩ := hprogram.exists_body
  rw [hbody] at hprogram
  rcases List.eq_nil_or_concat ls with rfl | ⟨others, last, rfl⟩
  · obtain ⟨rfl, hfound⟩ := List.append_inj' hbody rfl
    have hfinish : found.lexeme = .endOfInput := by simpa using hfound
    refine ⟨⟨[], .ok found⟩, ⟨⟨by simp [Feed.lexemes], ?_⟩, found, rfl⟩, rfl, ?_⟩
    · rintro token heq
      cases heq
      exact hfinish
    · rw [Feed.behind, List.append_nil]
      exact ⟨_, Parser.program_complete hfinish hprogram⟩
  · rw [List.concat_eq_append, ← List.cons_append, ← List.append_assoc] at hbody
    obtain ⟨rfl, _⟩ := List.append_inj' hbody rfl
    let finish : Token := ⟨.endOfInput, .start⟩
    let tokens : List Token := others.map fun l => ⟨l, .start⟩
    have htokens : tokens.map Token.lexeme = others := by simp [tokens, Function.comp_def]
    refine ⟨⟨found :: tokens, .ok finish⟩, ⟨⟨?_, ?_⟩, finish, rfl⟩, rfl, ?_⟩
    · rw [Feed.lexemes, List.map_cons, htokens]
      exact fun hmem => hend (List.mem_append_right _ hmem)
    · rintro token heq
      cases heq
      rfl
    · have hall : (before ++ found :: tokens).map Token.lexeme =
          before.map Token.lexeme ++ found.lexeme :: others := by
        rw [List.map_append, List.map_cons, htokens]
      rw [← hall] at hprogram
      have hfinish : finish.lexeme = .endOfInput := rfl
      exact ⟨_, Parser.program_complete hfinish hprogram⟩

namespace Node

/-- What stands before an error can be completed, even if nothing can be read at all. -/
theorem viable_of_parse_error {source : String} {error : ParseError}
    (herror : parse source = .error error) :
    ∃ before, (Feed.ofSource source).StopsBehind error before ∧
      Viable Program error (before.map Token.lexeme) := by
  have hread := Parser.eq_error_of_onSource herror
  cases hcurrent : (Feed.ofSource source).current with
  | ok token =>
    exact (Parser.prompt_program token).stop (Feed.proper_ofSource source) hcurrent hread
  | error scanError =>
    generalize Feed.ofSource source = feed at hread hcurrent
    obtain rfl : feed = ⟨[], .error scanError⟩ := by
      rcases feed with ⟨_ | ⟨token, tokens⟩, ending⟩
      · obtain rfl : ending = .error scanError := hcurrent
        rfl
      · cases hcurrent
    cases hread
    exact ⟨[], rfl, (Parser.prompt_program ⟨.endOfInput, .start⟩).start _⟩

/-- No program goes on with a token that was refused. -/
theorem not_isPrefix_of_unexpected {source : String} {before : List Token} {found : Token}
    {expected : Expectation} {rest : Feed}
    (herror : parse source = .error (.unexpected found expected))
    (hfeed : Feed.ofSource source = rest.behind before) (hfound : rest.current = .ok found)
    {ls : List Lexeme} {nodes : List Node} (hprogram : Program ls nodes) :
    ¬ (before ++ [found]).map (fun token => token.lexeme.kind) <+: ls.map Lexeme.kind := by
  rintro ⟨more, hmore⟩
  obtain ⟨front, back, rfl, hfront, _⟩ := List.map_eq_append_iff.1 hmore.symm
  have hsame : SameKinds (before.map Token.lexeme ++ found.lexeme :: back) (front ++ back) := by
    simp [SameKinds, hfront, Function.comp_def]
  obtain ⟨nodes, hagain⟩ := hprogram.of_sameKinds hsame
  obtain ⟨ahead, hreadable, hahead, result, hok⟩ := hagain.exists_ahead
  have horderly := Feed.orderly_ofSource source
  have hread := Parser.eq_error_of_onSource herror
  rw [hfeed] at horderly hread
  rw [Parser.program_refuses_again horderly hfound hread hreadable hahead] at hok
  cases hok

/-- A source is refused at the first token that is impossible there. If the parser expected
    something else than a token it found, this token is listed for the source, an accepted source
    begins with the tokens before it, and no program that the grammar derives begins with tokens of
    the same kinds and with the same names as those and this one. If it could not go on because of
    characters that are no token, an accepted source begins with all tokens before them, unless the
    last one is a parameter that repeats an earlier one of its declaration. -/
theorem refused_at_first_impossible_token :
    (∀ (source : String) (found : Token) (expected : Expectation),
      parse source = .error (.unexpected found expected) →
        found ∈ (Scan.ofSource source).listed ∧
        ∀ before after, (Scan.ofSource source).listed = before ++ found :: after →
          StartsProgram (before.map Token.lexeme) ∧
          ∀ ls nodes, Program ls nodes →
            ¬ (before ++ [found]).map (fun token => token.lexeme.kind) <+: ls.map Lexeme.kind) ∧
    (∀ (source : String) (error : ScanError), parse source = .error (.scan error) →
      (Scan.ofSource source).ending = .error error ∧
      (StartsProgram ((Scan.ofSource source).tokens.map Token.lexeme) ∨
        RepeatsParameter ((Scan.ofSource source).tokens.map Token.lexeme))) := by
  refine ⟨fun source found expected herror => ?_, fun source error herror => ?_⟩
  · obtain ⟨before, hstops, hviable⟩ := viable_of_parse_error herror
    obtain ⟨rest, hfeed, hfound⟩ := hstops
    obtain ⟨after, hlisted⟩ := Scan.listed_eq_iff.2 ⟨rest, hfeed, hfound⟩
    refine ⟨by simp [hlisted], fun front others hsplit => ?_⟩
    obtain ⟨other, hother, hagain⟩ := Scan.listed_eq_iff.1 ⟨others, hsplit⟩
    obtain rfl := (Feed.orderly_ofSource source).taken_unique hfeed hother hfound hagain
    refine ⟨?_, fun ls nodes hprogram => not_isPrefix_of_unexpected herror hfeed hfound hprogram⟩
    rcases hviable with hbegins | ⟨⟨scanError, hscan⟩, _⟩
    · have htokens : (Scan.ofSource source).tokens = before ++ rest.queue :=
        congrArg Feed.queue hfeed
      exact hbegins.startsProgram (Scan.plausible_of_isPrefix (htokens ▸ List.prefix_append _ _))
    · cases hscan
  · obtain ⟨before, hstops, hviable⟩ := viable_of_parse_error herror
    have hfeed : Feed.ofSource source = ⟨before, .error error⟩ := hstops
    obtain rfl : (Scan.ofSource source).tokens = before := congrArg Feed.queue hfeed
    refine ⟨congrArg Feed.ending hfeed, ?_⟩
    rcases hviable with hbegins | ⟨_, hrepeats⟩
    · exact .inl (hbegins.startsProgram (Scan.plausible_of_isPrefix List.prefix_rfl))
    · exact .inr hrepeats

/-- A parameter named twice, and characters that are no token behind a program that is not
    finished. -/
theorem refused_at_first_impossible_token_repeated :
    (parse "hallo\nfunny f(a, a) avo" =
        .error (.unexpected ⟨.name "a", ⟨2, 12⟩⟩ .uniqueParameter) ∧
      StartsProgram [.keyword .greeting, .mark .lineBreak, .keyword .function, .name "f",
        .mark .parenOpen, .name "a", .mark .comma] ∧
      ∀ ls nodes, Program ls nodes →
        ¬ [.keyword .greeting, .mark .lineBreak, .keyword .function, .name "f", .mark .parenOpen,
          .name "a", .mark .comma, .name "a"] <+: ls.map Lexeme.kind) ∧
    parse "hallo\nx = 1 + %" = .error (.scan ⟨.unknownCharacter '%', ⟨2, 9⟩⟩) ∧
      (StartsProgram [.keyword .greeting, .mark .lineBreak, .name "x", .mark .assign, .integer 1,
          .mark .plus] ∨
        RepeatsParameter [.keyword .greeting, .mark .lineBreak, .name "x",
          .mark .assign, .integer 1, .mark .plus]) := by
  have hrepeated : parse "hallo\nfunny f(a, a) avo" =
      .error (.unexpected ⟨.name "a", ⟨2, 12⟩⟩ .uniqueParameter) := by cbv
  have hlisted : (Scan.ofSource "hallo\nfunny f(a, a) avo").listed =
      [⟨.keyword .greeting, ⟨1, 1⟩⟩, ⟨.mark .lineBreak, ⟨1, 6⟩⟩, ⟨.keyword .function, ⟨2, 1⟩⟩,
        ⟨.name "f", ⟨2, 7⟩⟩, ⟨.mark .parenOpen, ⟨2, 8⟩⟩, ⟨.name "a", ⟨2, 9⟩⟩,
        ⟨.mark .comma, ⟨2, 10⟩⟩] ++ ⟨.name "a", ⟨2, 12⟩⟩ ::
        [⟨.mark .parenClose, ⟨2, 13⟩⟩, ⟨.keyword .blockOpen, ⟨2, 15⟩⟩,
          ⟨.endOfInput, ⟨2, 18⟩⟩] := by cbv
  have hunreadable : parse "hallo\nx = 1 + %" =
      .error (.scan ⟨.unknownCharacter '%', ⟨2, 9⟩⟩) := by cbv
  have htokens : (Scan.ofSource "hallo\nx = 1 + %").tokens.map Token.lexeme =
      [.keyword .greeting, .mark .lineBreak, .name "x", .mark .assign, .integer 1,
        .mark .plus] := by cbv
  refine ⟨⟨hrepeated, ?_⟩, hunreadable, ?_⟩
  · exact (refused_at_first_impossible_token.1 _ _ _ hrepeated).2 _ _ hlisted
  · exact htokens ▸ (refused_at_first_impossible_token.2 _ _ hunreadable).2

end Node

end Hallo
