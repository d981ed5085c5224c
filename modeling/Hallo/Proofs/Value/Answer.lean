import Hallo.Proofs.Grammar.Parse
import Hallo.Proofs.Token.Scan
import Hallo.Value.Answer

/-!
Typed answers. An answer spells exactly one value, and every value that can be written without
breaking out of its brackets is spelled by its own source.
-/
namespace Hallo

/-- The lexemes that an answer may consist of, with the value they spell. -/
inductive Grammar.Answer : List Lexeme → Value → Prop where
  | plus (n : Nat) : Answer [.mark .plus, .integer n] (.integer n)
  | minus (n : Nat) : Answer [.mark .minus, .integer n] (.integer (-n))
  | integer (n : Nat) : Answer [.integer n] (.integer n)
  | text (s : String) : Answer [.text s] (.text s)
  | boolean (b : Bool) : Answer [.boolean b] (.boolean b)
  | nothing : Answer [.mark .minus] .nothing

namespace Parser

open Grammar

variable {feed rest : Feed}

theorem unsigned_sound : Sound unsigned fun ls n => ls = [.integer n] := by
  intro feed rest n hproper hread
  rw [unsigned, bind_eq_ok_iff] at hread
  obtain ⟨token, _, hcurrent, hread⟩ := hread
  obtain ⟨htoken, rfl⟩ := current_eq_ok_iff.1 hcurrent
  cases hlexeme : token.lexeme with
  | integer m =>
    simp only [hlexeme] at hread
    obtain ⟨htakes, rfl⟩ := takes_of_advance_pure hproper htoken (by simp [hlexeme]) hread
    exact ⟨_, hlexeme ▸ htakes, rfl⟩
  | _ =>
    simp only [hlexeme] at hread
    exact absurd hread refuse_ne_ok

/-- A minus sign is taken alone only before the end of input, which an answer as a whole has to
    reach. -/
theorem answerValue_sound : Sound answerValue Answer := by
  intro feed rest v hproper hread
  rw [answerValue, bind_eq_ok_iff] at hread
  obtain ⟨token, _, hcurrent, hread⟩ := hread
  obtain ⟨htoken, rfl⟩ := current_eq_ok_iff.1 hcurrent
  cases hlexeme : token.lexeme with
  | integer n =>
    simp only [hlexeme] at hread
    obtain ⟨htakes, rfl⟩ := takes_of_advance_pure hproper htoken (by simp [hlexeme]) hread
    exact ⟨_, hlexeme ▸ htakes, .integer n⟩
  | text s =>
    simp only [hlexeme] at hread
    obtain ⟨htakes, rfl⟩ := takes_of_advance_pure hproper htoken (by simp [hlexeme]) hread
    exact ⟨_, hlexeme ▸ htakes, .text s⟩
  | boolean b =>
    simp only [hlexeme] at hread
    obtain ⟨htakes, rfl⟩ := takes_of_advance_pure hproper htoken (by simp [hlexeme]) hread
    exact ⟨_, hlexeme ▸ htakes, .boolean b⟩
  | name | keyword | endOfInput =>
    simp only [hlexeme] at hread
    exact absurd hread refuse_ne_ok
  | mark m =>
    cases m with
    | plus =>
      simp only [hlexeme, bind_eq_ok_iff] at hread
      obtain ⟨_, _, hadvance, n, _, hunsigned, hpure⟩ := hread
      obtain ⟨rfl, rfl⟩ := pure_eq_ok_iff.1 hpure
      have hsign := takes_of_advance hproper htoken (by simp [hlexeme]) hadvance
      obtain ⟨_, hdigits, rfl⟩ := unsigned_sound (hsign.proper hproper) hunsigned
      rw [hlexeme] at hsign
      exact ⟨_, hsign.trans hdigits, .plus n⟩
    | minus =>
      simp only [hlexeme, bind_eq_ok_iff] at hread
      obtain ⟨_, _, hadvance, atEnd, _, hsees, hread⟩ := hread
      obtain ⟨_, _, _, rfl⟩ := sees_eq_ok_iff.1 hsees
      have hsign := takes_of_advance hproper htoken (by simp [hlexeme]) hadvance
      rw [hlexeme] at hsign
      cases atEnd with
      | true =>
        obtain ⟨rfl, rfl⟩ := pure_eq_ok_iff.1 hread
        exact ⟨_, hsign, .nothing⟩
      | false =>
        simp only [Bool.false_eq_true, if_false, bind_eq_ok_iff] at hread
        obtain ⟨n, _, hunsigned, hpure⟩ := hread
        obtain ⟨rfl, rfl⟩ := pure_eq_ok_iff.1 hpure
        obtain ⟨_, hdigits, rfl⟩ := unsigned_sound (hsign.proper hproper) hunsigned
        exact ⟨_, hsign.trans hdigits, .minus n⟩
    | star | slash | parenOpen | parenClose | comma | assign | lineBreak =>
      simp only [hlexeme] at hread
      exact absurd hread refuse_ne_ok

/-- An answer that was read is spelled by all lexemes of the feed. -/
theorem answer_sound {v : Value} (hproper : feed.Proper) (hread : answer feed = .ok (v, rest)) :
    (∃ finish, feed.ending = .ok finish) ∧ Answer feed.lexemes v := by
  unfold answer at hread
  simp only [bind_eq_ok_iff] at hread
  obtain ⟨_, middle, hvalue, _, _, hend, hpure⟩ := hread
  obtain ⟨rfl, rfl⟩ := pure_eq_ok_iff.1 hpure
  obtain ⟨ls, htakes, hspells⟩ := answerValue_sound hproper hvalue
  obtain ⟨token, htoken, hsame, _⟩ := sees_eq_ok_iff.1 (expect_eq_ok hend).1
  obtain ⟨hnil, hending⟩ := (htakes.proper hproper).ending_of_endOfInput htoken
    (by simpa using hsame)
  refine ⟨⟨token, htakes.ending_eq ▸ hending⟩, ?_⟩
  rw [htakes.lexemes_eq, hnil, List.append_nil]
  exact hspells

theorem unsigned_complete {token finish : Token} {n : Nat} (htoken : token.lexeme = .integer n)
    (tokens : List Token) :
    unsigned ⟨token :: tokens, .ok finish⟩ = .ok (n, ⟨tokens, .ok finish⟩) := by
  rw [unsigned, bind_of_ok (current_cons token tokens finish)]
  simp only [htoken]
  rw [bind_of_ok (advance_cons token tokens finish)]
  rfl

theorem answerValue_complete {tokens : List Token} {finish : Token} {v : Value}
    (hfinish : finish.lexeme = .endOfInput) (hanswer : Answer (tokens.map Token.lexeme) v) :
    answerValue ⟨tokens, .ok finish⟩ = .ok (v, ⟨[], .ok finish⟩) := by
  generalize hls : tokens.map Token.lexeme = ls at hanswer
  have hne : ls ≠ [] := by cases hanswer <;> simp
  cases tokens with
  | nil => exact absurd hls.symm hne
  | cons token others =>
    rw [answerValue, bind_of_ok (current_cons token others finish)]
    rw [List.map_cons] at hls
    cases hanswer with
    | plus n =>
      obtain ⟨hsign, hdigits⟩ := List.cons.inj hls
      obtain ⟨digits, hdigits, hnumeral⟩ := List.map_eq_singleton_iff.1 hdigits
      subst hdigits
      simp only [hsign]
      rw [bind_of_ok (advance_cons token [digits] finish),
        bind_of_ok (unsigned_complete hnumeral [])]
      rfl
    | minus n =>
      obtain ⟨hsign, hdigits⟩ := List.cons.inj hls
      obtain ⟨digits, hdigits, hnumeral⟩ := List.map_eq_singleton_iff.1 hdigits
      subst hdigits
      have hmore : sees .endOfInput ⟨[digits], .ok finish⟩ =
          .ok (false, ⟨[digits], .ok finish⟩) := by
        rw [sees_eq .endOfInput [digits] hfinish, nextLexeme, hnumeral]
        rfl
      simp only [hsign]
      rw [bind_of_ok (advance_cons token [digits] finish), bind_of_ok hmore]
      simp only [Bool.false_eq_true, if_false]
      rw [bind_of_ok (unsigned_complete hnumeral [])]
      rfl
    | nothing =>
      obtain ⟨hsign, hdigits⟩ := List.cons.inj hls
      obtain rfl := List.map_eq_nil_iff.1 hdigits
      simp only [hsign]
      rw [bind_of_ok (advance_cons token [] finish), bind_of_ok (sees_eq .endOfInput [] hfinish)]
      rfl
    | _ =>
      obtain ⟨hliteral, hdigits⟩ := List.cons.inj hls
      obtain rfl := List.map_eq_nil_iff.1 hdigits
      simp only [hliteral]
      rw [bind_of_ok (advance_cons token [] finish)]
      rfl

theorem answer_complete {tokens : List Token} {finish : Token} {v : Value}
    (hfinish : finish.lexeme = .endOfInput) (hanswer : Answer (tokens.map Token.lexeme) v) :
    answer ⟨tokens, .ok finish⟩ = .ok (v, ⟨[], .ok finish⟩) := by
  rw [answer, bind_of_ok (answerValue_complete hfinish hanswer),
    bind_of_ok (expect_endOfInput hfinish)]
  rfl

end Parser

namespace Value

/-- A value that its brackets can hold: a text must not have the bracket in it that would close
    it. -/
def Bracketable : Value → Prop
  | .text s => '>' ∉ s.toList
  | .integer _ => True
  | .boolean _ => True
  | .nothing => True

instance : (v : Value) → Decidable v.Bracketable
  | .text s => inferInstanceAs (Decidable ('>' ∉ s.toList))
  | .integer _ => .isTrue trivial
  | .boolean _ => .isTrue trivial
  | .nothing => .isTrue trivial

/-- An answer is understood exactly if its lexemes spell a value, and it is taken for that value. -/
theorem ofAnswer_eq_ok_iff {answer : String} {v : Value} :
    ofAnswer answer = .ok v ↔
      (∃ finish, (Scan.ofSource answer).ending = .ok finish) ∧
        Grammar.Answer ((Scan.ofSource answer).tokens.map Token.lexeme) v := by
  have hproper := Feed.proper_ofSource answer
  constructor
  · intro hread
    change (Parser.answer (Feed.ofSource answer)).map Prod.fst = .ok v at hread
    rcases hfound : Parser.answer (Feed.ofSource answer) with error | ⟨found, rest⟩
    · rw [hfound] at hread
      cases hread
    · rw [hfound] at hread
      cases hread
      exact Parser.answer_sound hproper hfound
  · rintro ⟨⟨finish, hending⟩, hanswer⟩
    have hfeed : Feed.ofSource answer = ⟨(Scan.ofSource answer).tokens, .ok finish⟩ := by
      rw [Feed.ofSource, hending]
    change (Parser.answer (Feed.ofSource answer)).map Prod.fst = .ok v
    rw [hfeed, Parser.answer_complete (hproper.lexeme_ending finish hending) hanswer]
    rfl

/-- No answer spells a text with a closing bracket in it: the first one ends the text. -/
theorem bracketable_of_ofAnswer {answer : String} {v : Value} (hread : ofAnswer answer = .ok v) :
    v.Bracketable := by
  obtain ⟨_, hanswer⟩ := ofAnswer_eq_ok_iff.1 hread
  have hplausible : ∀ l ∈ (Scan.ofSource answer).tokens.map Token.lexeme, l.Plausible := by
    intro l hmem
    obtain ⟨token, htoken, rfl⟩ := List.mem_map.1 hmem
    exact Cursor.plausible_of_mem_scanWithin htoken
  generalize (Scan.ofSource answer).tokens.map Token.lexeme = ls at hanswer hplausible
  cases hanswer with
  | text s => exact hplausible (.text s) List.mem_cons_self
  | _ => trivial

/-- An answer that is spelled out to its end, up to some spaces, is taken for what it spells. -/
theorem ofAnswer_of_spells_spaces {text : String} {ls : List Lexeme} {v : Value} {rest : List Char}
    (hspells : Spells text.toList ls rest) (hspaces : rest.dropWhile (· = ' ') = [])
    (hanswer : Grammar.Answer ls v) : ofAnswer text = .ok v := by
  obtain ⟨⟨finish, hending⟩, hlisted⟩ := Scan.lexemes_of_spells_spaces hspells hspaces
  rw [Scan.lexemes_listed hending] at hlisted
  have htokens := (List.append_inj' hlisted rfl).1
  exact ofAnswer_eq_ok_iff.2 ⟨⟨finish, hending⟩, htokens ▸ hanswer⟩

theorem ofAnswer_of_spells {text : String} {ls : List Lexeme} {v : Value}
    (hspells : Spells text.toList ls []) (hanswer : Grammar.Answer ls v) : ofAnswer text = .ok v :=
  ofAnswer_of_spells_spaces hspells rfl hanswer

theorem source_integer {n : Int} (hn : Decimal.Writable n) :
    Value.source (.integer n) = some (Decimal.text n) := by
  change Decimal.text? n = some (Decimal.text n)
  rw [Decimal.text?, if_pos hn]

/-- A value that can be given as an answer: its own source is understood as that value. -/
def Answerable (v : Value) : Prop :=
  ∃ text, v.source = some text ∧ ofAnswer text = .ok v

theorem answerable_integer {n : Int} (hn : Decimal.Writable n) : Answerable (.integer n) := by
  refine ⟨Decimal.text n, source_integer hn, ?_⟩
  cases n with
  | ofNat n =>
    have hspells : Spells (Nat.toDigits 10 n ++ []) [.integer n] [] := .integer hn trivial
    refine ofAnswer_of_spells ?_ (.integer n)
    simpa [Decimal.text, Nat.toList_repr] using hspells
  | negSucc n =>
    have hdigits : Spells (Nat.toDigits 10 (n + 1) ++ []) [.integer (n + 1)] [] :=
      .integer hn trivial
    refine ofAnswer_of_spells ?_ (.minus (n + 1))
    simpa [Decimal.text, Nat.toList_repr, Mark.char] using (Spells.mark .minus).append hdigits

/-- Every value that can be written, and that its brackets can hold, can be given as an answer. -/
theorem answerable_of_bracketable {v : Value} (hv : v.Bracketable)
    (hshort : ∀ n, v = .integer n → Decimal.Writable n) : v.Answerable := by
  cases v with
  | integer n => exact answerable_integer (hshort n rfl)
  | text s =>
    have hspells : Spells ('<' :: (s.toList ++ ['>'])) [.text s] [] := .text_literal hv
    exact ⟨"<" ++ s ++ ">", rfl, ofAnswer_of_spells (by simpa using hspells) (.text s)⟩
  | boolean b =>
    have hspells : Spells ((glyph b).toList ++ []) [.boolean b] [] := .boolean b
    exact ⟨glyph b, rfl, ofAnswer_of_spells (by simpa using hspells) (.boolean b)⟩
  | nothing =>
    have hspells : Spells ['-'] [.mark .minus] [] := .mark .minus
    exact ⟨"-", rfl, ofAnswer_of_spells hspells .nothing⟩

-- As an answer, `<a>b>` would end behind its first closing bracket.
example : ¬ (Value.text "a>b").Bracketable := by decide

end Value

end Hallo
