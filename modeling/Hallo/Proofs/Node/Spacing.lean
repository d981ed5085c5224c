import Hallo.Proofs.Grammar.Parse
import Hallo.Proofs.Parser.Parallel
import Hallo.Proofs.Token.Loosened
import Mathlib

/-!
Spaces between tokens. Where a source can be scanned to its end, further spaces before, between and
behind its tokens change nothing but where the tokens stand. So the source is read as the same
program, or it is refused at the same token for the same reason.
-/
namespace Hallo

namespace Matching

/-- Tokens that say the same and come at the same point of two lists. -/
def zip (ts ts' : List Token) : Matching where
  Pairs token token' := (token, token') ∈ ts.zip ts' ∧ token.lexeme = token'.lexeme
  lexeme_eq := And.right

theorem forall₂_zip {ts ts' : List Token} (hlexemes : ts.map Token.lexeme = ts'.map Token.lexeme) :
    List.Forall₂ (zip ts ts').Pairs ts ts' := by
  have hlength : ts.length = ts'.length := by simpa using congrArg List.length hlexemes
  refine List.forall₂_iff_zip.2 ⟨hlength, fun {token token'} hmem => ⟨hmem, ?_⟩⟩
  obtain ⟨i, hi⟩ := List.mem_iff_getElem?.1 hmem
  obtain ⟨htoken, htoken'⟩ := List.getElem?_zip_eq_some.1 hi
  have hsame : (ts.map Token.lexeme)[i]? = (ts'.map Token.lexeme)[i]? := by rw [hlexemes]
  rw [List.getElem?_map, List.getElem?_map, htoken, htoken'] at hsame
  exact Option.some.inj hsame

end Matching

variable {source other : String} {finish finish' : Token}

/-- The feeds of sources with the same lexemes. -/
theorem Feed.parallel_of_lexemes (hending : (Scan.ofSource source).ending = .ok finish)
    (hending' : (Scan.ofSource other).ending = .ok finish')
    (hlexemes : (Scan.ofSource source).listed.map Token.lexeme =
      (Scan.ofSource other).listed.map Token.lexeme) :
    (Feed.ofSource source).Parallel
      (.zip (Scan.ofSource source).listed (Scan.ofSource other).listed)
      (Feed.ofSource other) := by
  have hall := Matching.forall₂_zip hlexemes
  generalize Matching.zip _ _ = M at hall ⊢
  have hlisted : (Scan.ofSource source).listed = (Scan.ofSource source).tokens ++ [finish] := by
    rw [Scan.listed, hending]
  have hlisted' : (Scan.ofSource other).listed = (Scan.ofSource other).tokens ++ [finish'] := by
    rw [Scan.listed, hending']
  rw [hlisted, hlisted', ← List.forall₂_reverse_iff, List.reverse_concat, List.reverse_concat,
    List.forall₂_cons, List.forall₂_reverse_iff] at hall
  exact ⟨hall.2, finish, finish', hending, hending', hall.1⟩

namespace Node

/-- Sources with the same lexemes are read as the same program, or refused at the same token. -/
theorem parse_of_lexemes (hending : (Scan.ofSource source).ending = .ok finish)
    (hending' : (Scan.ofSource other).ending = .ok finish')
    (hlexemes : (Scan.ofSource source).listed.map Token.lexeme =
      (Scan.ofSource other).listed.map Token.lexeme) :
    (∃ nodes, parse source = .ok nodes ∧ parse other = .ok nodes) ∨
      ∃ found found' expected,
        (found, found') ∈ (Scan.ofSource source).listed.zip (Scan.ofSource other).listed ∧
        found.lexeme = found'.lexeme ∧ parse source = .error (.unexpected found expected) ∧
        parse other = .error (.unexpected found' expected) := by
  have hagree := Parser.Parallel.program (Feed.parallel_of_lexemes hending hending' hlexemes)
  have hparse :
    ∀ text, parse text = (Parser.program (Feed.ofSource text)).map Prod.fst := fun _ => rfl
  rw [hparse, hparse]
  generalize Parser.program (Feed.ofSource source) = outcome at hagree ⊢
  generalize Parser.program (Feed.ofSource other) = outcome' at hagree ⊢
  cases hagree with
  | read nodes _ => exact .inl ⟨nodes, rfl, rfl⟩
  | refused expected hfound => exact .inr ⟨_, _, expected, hfound.1, hfound.2, rfl, rfl⟩

/-- Further spaces between tokens do not matter. A source that is scanned to its end is laid out in
    the tokens found in it. However many spaces are added before each token and behind the last one,
    the source that results is scanned to its end, with the same lexemes in the same order. It is
    read as the same program, or it is refused for the same reason at the token that comes at the
    same point and says the same. -/
theorem spaces_between_tokens_neutral (hending : (Scan.ofSource source).ending = .ok finish) :
    (∃ layout : Layout, layout.text = source.toList ∧
      layout.Shows [] (Scan.ofSource source).tokens) ∧
    ∀ layout : Layout, layout.text = source.toList → layout.Shows [] (Scan.ofSource source).tokens →
      ∀ (extra : Nat → Nat) (loosened : String), loosened.toList = (layout.loosen extra).text →
        (∃ finish', (Scan.ofSource loosened).ending = .ok finish') ∧
        (Scan.ofSource loosened).listed.map Token.lexeme =
          (Scan.ofSource source).listed.map Token.lexeme ∧
        ((∃ nodes, parse source = .ok nodes ∧ parse loosened = .ok nodes) ∨
          ∃ found found' expected,
            (found, found') ∈ (Scan.ofSource source).listed.zip (Scan.ofSource loosened).listed ∧
            found.lexeme = found'.lexeme ∧ parse source = .error (.unexpected found expected) ∧
            parse loosened = .error (.unexpected found' expected)) := by
  refine ⟨Scan.exists_layout hending, fun layout _ hshows extra loosened hloosened => ?_⟩
  obtain ⟨n, hspells⟩ := hshows.spells_loosen extra
  rw [← hloosened] at hspells
  obtain ⟨⟨finish', hending'⟩, hlexemes⟩ := Scan.lexemes_of_spells_spaces hspells (by simp)
  have hsame : (Scan.ofSource source).listed.map Token.lexeme =
      (Scan.ofSource loosened).listed.map Token.lexeme := by
    rw [hlexemes, Scan.lexemes_listed hending,
      (Feed.proper_ofSource source).lexeme_ending finish hending]
  exact ⟨⟨finish', hending'⟩, hsame.symm, parse_of_lexemes hending hending' hsame⟩

/-- A smiling face right before a name: with a space before each token and one at the end, the name
    is still refused where the program should end. -/
theorem spaces_between_tokens_neutral_glued :
    parse "hallo\nx=:)y" = .error (.unexpected ⟨.name "y", ⟨2, 5⟩⟩ .farewell) ∧
      ∃ found, found.lexeme = .name "y" ∧
        parse " hallo \n x = :) y " = .error (.unexpected found .farewell) := by
  have hparse : parse "hallo\nx=:)y" = .error (.unexpected ⟨.name "y", ⟨2, 5⟩⟩ .farewell) := by cbv
  have htokens : (Scan.ofSource "hallo\nx=:)y").tokens =
      [⟨.keyword .greeting, ⟨1, 1⟩⟩, ⟨.mark .lineBreak, ⟨1, 6⟩⟩, ⟨.name "x", ⟨2, 1⟩⟩,
        ⟨.mark .assign, ⟨2, 2⟩⟩, ⟨.boolean true, ⟨2, 3⟩⟩, ⟨.name "y", ⟨2, 5⟩⟩] := by cbv
  have hending : (Scan.ofSource "hallo\nx=:)y").ending = .ok ⟨.endOfInput, ⟨2, 6⟩⟩ := by cbv
  have hshows :
    Layout.Shows [] (.piece 0 "hallo".toList (.piece 0 ['\n'] (.piece 0 ['x'] (.piece 0 ['=']
      (.piece 0 [':', ')'] (.piece 0 ['y'] (.last 0)))))))
        (Scan.ofSource "hallo\nx=:)y").tokens := by
    rw [htokens]
    exact .piece (by cbv) (by simp)
      (.piece (by cbv) (by simp) (.piece (by cbv) (by simp) (.piece (by cbv)
      (by simp) (.piece (by cbv) (by simp) (.piece (by cbv) (by simp) (.last _ 0))))))
  refine ⟨hparse, ?_⟩
  obtain ⟨_, _, ⟨nodes, hread, _⟩ | ⟨found, found', expected, _, hsame, hread, hagain⟩⟩ :=
    (spaces_between_tokens_neutral hending).2 _ rfl hshows (fun _ => 1) " hallo \n x = :) y " rfl
  · rw [hparse] at hread
    cases hread
  · rw [hparse] at hread
    cases hread
    exact ⟨found', hsame.symm, hagain⟩

end Node

end Hallo
