import Hallo.Proofs.Parser.Complaints
import Hallo.Proofs.Token.Layout
import Hallo.Proofs.Value.Answer

/-!
The language of answers, character by character. An answer is a numeral with or without a sign, a
text in its brackets, a boolean or a lone minus sign, and nothing else but spaces around these;
every other text is refused, and only a run of digits that is too long is refused as a numeral.
-/
namespace Hallo

namespace Value

/-- The pieces that an answer consists of, as they are written, and the value that they stand
    for. -/
inductive SpelledBy : List (List Char) → Value → Prop where
  | unsigned (n : Numeral) : SpelledBy [n.digits] (.integer n.value)
  | plus (n : Numeral) : SpelledBy [['+'], n.digits] (.integer n.value)
  | minus (n : Numeral) : SpelledBy [['-'], n.digits] (.integer (-n.value))
  | text {s : String} (hs : '>' ∉ s.toList) : SpelledBy ['<' :: (s.toList ++ ['>'])] (.text s)
  | yes : SpelledBy [[':', ')']] (.boolean true)
  | no : SpelledBy [[':', '(']] (.boolean false)
  | nothing : SpelledBy [['-']] .nothing

end Value

namespace Layout

variable {layout : Layout}

/-- A text in one piece. -/
theorem spells_singleton {written : List Char} {l : Lexeme} (hpieces : layout.pieces = [written])
    (hbite : ∀ n, Bite.first (written ++ List.replicate n ' ') = ⟨.ok l, written.length⟩)
    (hend : l ≠ .endOfInput) : ∃ n, Spells layout.text [l] (List.replicate n ' ') := by
  obtain ⟨m, others, rfl, hothers⟩ := exists_of_pieces_eq_cons hpieces
  obtain ⟨n, rfl⟩ := exists_of_pieces_eq_nil hothers
  exact ⟨n, .piece (hbite n) hend (.nil _) m⟩

/-- A mark and one more piece. -/
theorem spells_mark_cons {m : Mark} {written : List Char} {l : Lexeme}
    (hpieces : layout.pieces = [[m.char], written])
    (hbite : ∀ n, Bite.first (written ++ List.replicate n ' ') = ⟨.ok l, written.length⟩)
    (hend : l ≠ .endOfInput) : ∃ n, Spells layout.text [.mark m, l] (List.replicate n ' ') := by
  obtain ⟨k, others, rfl, hothers⟩ := exists_of_pieces_eq_cons hpieces
  obtain ⟨n, hspells⟩ := spells_singleton hothers hbite hend
  have hmark : Bite.first ([m.char] ++ others.text) = ⟨.ok (.mark m), [m.char].length⟩ :=
    Bite.first_mark m others.text
  exact ⟨n, .piece hmark (by simp) hspells k⟩

end Layout

namespace Numeral

theorem first_spaces (numeral : Numeral) (n : Nat) :
    Bite.first (numeral.digits ++ List.replicate n ' ') =
      ⟨.ok (.integer numeral.value), numeral.digits.length⟩ := by
  refine numeral.first fun c hmem => ?_
  have hspace : c = ' ' := List.eq_of_mem_replicate (List.mem_of_mem_head? hmem)
  rw [hspace]
  rfl

end Numeral

namespace Value

/-- The lexemes of an answer's pieces, whatever spaces are between them. -/
theorem SpelledBy.exists_spells {layout : Layout} {v : Value}
    (hspelled : SpelledBy layout.pieces v) :
    ∃ ls n, Spells layout.text ls (List.replicate n ' ') ∧ Grammar.Answer ls v := by
  generalize hpieces : layout.pieces = pieces at hspelled
  cases hspelled with
  | unsigned n =>
    obtain ⟨k, hspells⟩ := Layout.spells_singleton hpieces n.first_spaces (by simp)
    exact ⟨_, k, hspells, .integer n.value⟩
  | plus n =>
    obtain ⟨k, hspells⟩ := Layout.spells_mark_cons (m := .plus) hpieces n.first_spaces (by simp)
    exact ⟨_, k, hspells, .plus n.value⟩
  | minus n =>
    obtain ⟨k, hspells⟩ := Layout.spells_mark_cons (m := .minus) hpieces n.first_spaces (by simp)
    exact ⟨_, k, hspells, .minus n.value⟩
  | @text s hs =>
    obtain ⟨k, hspells⟩ :=
      Layout.spells_singleton hpieces (fun _ => Bite.first_text_append hs _) (by simp)
    exact ⟨_, k, hspells, .text s⟩
  | yes =>
    obtain ⟨k, hspells⟩ :=
      Layout.spells_singleton hpieces (fun _ => Bite.first_boolean true _) (by simp)
    exact ⟨_, k, hspells, .boolean true⟩
  | no =>
    obtain ⟨k, hspells⟩ :=
      Layout.spells_singleton hpieces (fun _ => Bite.first_boolean false _) (by simp)
    exact ⟨_, k, hspells, .boolean false⟩
  | nothing =>
    obtain ⟨k, hspells⟩ :=
      Layout.spells_singleton hpieces (fun _ => Bite.first_mark .minus _) (by simp)
    exact ⟨_, k, hspells, .nothing⟩

/-- How the lexemes of an answer are written. -/
theorem spelledBy_of_answer {pieces : List (List Char)} {ls : List Lexeme} {v : Value}
    (hanswer : Grammar.Answer ls v)
    (htaken : List.Forall₂
      (fun written l => ∃ more, Bite.first (written ++ more) = ⟨.ok l, written.length⟩) pieces ls) :
    SpelledBy pieces v := by
  have hmark : ∀ {written : List Char} {m : Mark} {more : List Char},
      Bite.first (written ++ more) = ⟨.ok (.mark m), written.length⟩ → written = [m.char] :=
    fun hbite => Bite.writtenAs_of_first hbite (by simp)
  cases hanswer with
  | plus n =>
    obtain _ | ⟨⟨_, hsign⟩, _ | ⟨⟨_, hdigits⟩, _ | _⟩⟩ := htaken
    obtain ⟨numeral, rfl, rfl⟩ := Numeral.exists_of_first hdigits
    rw [hmark hsign]
    exact .plus numeral
  | minus n =>
    obtain _ | ⟨⟨_, hsign⟩, _ | ⟨⟨_, hdigits⟩, _ | _⟩⟩ := htaken
    obtain ⟨numeral, rfl, rfl⟩ := Numeral.exists_of_first hdigits
    rw [hmark hsign]
    exact .minus numeral
  | integer n =>
    obtain _ | ⟨⟨_, hdigits⟩, _ | _⟩ := htaken
    obtain ⟨numeral, rfl, rfl⟩ := Numeral.exists_of_first hdigits
    exact .unsigned numeral
  | text s =>
    obtain _ | ⟨⟨_, hbite⟩, _ | _⟩ := htaken
    obtain ⟨hs, rfl⟩ := Bite.writtenAs_of_first hbite (by simp)
    exact .text hs
  | boolean b =>
    obtain _ | ⟨⟨_, hbite⟩, _ | _⟩ := htaken
    obtain rfl := Bite.writtenAs_of_first hbite (by simp)
    cases b with
    | true => exact .yes
    | false => exact .no
  | nothing =>
    obtain _ | ⟨⟨_, hsign⟩, _ | _⟩ := htaken
    rw [hmark hsign]
    exact .nothing

/-- An answer is understood exactly if it is laid out in the pieces of a value. -/
theorem ofAnswer_eq_ok_iff_spelledBy {answer : String} {v : Value} :
    ofAnswer answer = .ok v ↔ ∃ layout : Layout, layout.text = answer.toList ∧
      SpelledBy layout.pieces v := by
  constructor
  · intro hread
    obtain ⟨⟨finish, hending⟩, hanswer⟩ := ofAnswer_eq_ok_iff.1 hread
    obtain ⟨layout, htext, hshows⟩ := Scan.exists_layout hending
    exact ⟨layout, htext, spelledBy_of_answer hanswer hshows.forall₂⟩
  · rintro ⟨layout, htext, hspelled⟩
    obtain ⟨ls, n, hspells, hanswer⟩ := hspelled.exists_spells
    rw [htext] at hspells
    exact ofAnswer_of_spells_spaces hspells (by simp) hanswer

/-- An answer in which a run of digits is complained about has that run in it. -/
theorem exists_digits_of_ofAnswer {answer : String} {count : Nat} {place : Place}
    (herror : ofAnswer answer = .error (.scan ⟨.tooManyDigits count, place⟩)) :
    ∃ run, run <:+: answer.toList ∧ (∀ c ∈ run, c.isDigit = true) ∧ run.length = count ∧
      Decimal.digitLimit < count := by
  have hending : (Scan.ofSource answer).ending = .error ⟨.tooManyDigits count, place⟩ :=
    Parser.Relays.answer.ending_of_scan (Parser.eq_error_of_onSource herror)
  have hstart : (Cursor.ofSource answer).Reached answer.toList [] := ⟨rfl, rfl, rfl⟩
  have haccounts : (Scan.ofSource answer).Accounts answer.toList [] := hstart.accounts_scan
  obtain ⟨covered, gap, _, _, hrest⟩ := haccounts
  rw [hending] at hrest
  obtain ⟨run, ahead, habout, hsource, _⟩ := hrest
  cases habout with
  | tooManyDigits hdigits hlimit _ =>
    exact ⟨run, ⟨covered ++ gap, ahead, hsource⟩, hdigits, rfl, hlimit⟩

/-- Answers are read exactly as their language is written. An answer is taken for a value exactly if
    it consists, up to spaces before, between and behind these pieces, of a numeral within the
    limit, of a sign and such a numeral, of a text between brackets, of the two characters of a
    boolean, or of a lone minus sign. Any other answer is refused: for characters that are no token,
    for a token that does not belong there, or for a run of digits beyond the limit, which then
    stands in the answer. -/
theorem ofAnswer_reads_exactly_the_language (answer : String) :
    (∀ v, ofAnswer answer = .ok v ↔
      ∃ layout : Layout, layout.text = answer.toList ∧ SpelledBy layout.pieces v) ∧
    ((∀ v (layout : Layout), layout.text = answer.toList → ¬ SpelledBy layout.pieces v) →
      ∃ error, ofAnswer answer = .error error ∧
        ((∃ found expected, error = .unexpected found expected) ∨
          (∃ complaint place, error = .scan ⟨complaint, place⟩ ∧ complaint.aboutNumeral = false) ∨
          ∃ run place, error = .scan ⟨.tooManyDigits run.length, place⟩ ∧ run <:+: answer.toList ∧
            (∀ c ∈ run, c.isDigit = true) ∧ Decimal.digitLimit < run.length)) := by
  refine ⟨fun v => ofAnswer_eq_ok_iff_spelledBy, fun hother => ?_⟩
  cases hread : ofAnswer answer with
  | ok v =>
    obtain ⟨layout, htext, hspelled⟩ := ofAnswer_eq_ok_iff_spelledBy.1 hread
    exact absurd hspelled (hother v layout htext)
  | error error =>
    refine ⟨error, rfl, ?_⟩
    rcases error with ⟨⟨complaint, place⟩⟩ | ⟨found, expected⟩
    · cases complaint with
      | unknownCharacter | unclosedText => exact .inr (.inl ⟨_, place, rfl, rfl⟩)
      | tooManyDigits count =>
        obtain ⟨run, hinfix, hdigits, rfl, hlimit⟩ := exists_digits_of_ofAnswer hread
        exact .inr (.inr ⟨run, place, rfl, hinfix, hdigits, hlimit⟩)
      | noDigits => exact (founded_of_ofAnswer hread).elim
    · exact .inl ⟨found, expected, rfl⟩

end Value

end Hallo
