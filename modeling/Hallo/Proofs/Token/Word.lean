import Hallo.Proofs.Token.Coverage

/-!
Words. Where a word begins, the growing run amounts to a plain rule: a keyword is taken exactly if
the text goes on with one, and otherwise a name, as long as it can be.
-/
namespace Hallo

namespace Bite

/-- Where a word begins: at a letter or another alphanumeric character that is no digit, at an
    underscore, or at a colon that is not the first half of a boolean. -/
def AtWord : List Char → Prop
  | [] => False
  | c :: rest =>
    c = '_' ∨ c = ':' ∧ rest.head? ≠ some '(' ∧ rest.head? ≠ some ')' ∨
      Text.isAlphanumeric c = true ∧ c.isDigit = false

variable {text rest : List Char} {c : Char}

theorem AtWord.startsWord (hword : AtWord (c :: rest)) : startsWord c = true := by
  rcases hword with rfl | ⟨rfl, _⟩ | ⟨halphanumeric, _⟩
  · decide
  · decide
  · simp [Bite.startsWord, halphanumeric]

theorem AtWord.not_isDigit (hword : AtWord (c :: rest)) : c.isDigit = false := by
  rcases hword with rfl | ⟨rfl, _⟩ | ⟨_, hdigit⟩
  · decide
  · decide
  · exact hdigit

theorem AtWord.boolean?_eq_none (hword : AtWord (c :: rest)) : boolean? (c :: rest) = none := by
  unfold boolean?
  split
  · rename_i heq
    cases heq
    exact absurd hword (by simp [AtWord]; decide)
  · rename_i heq
    cases heq
    exact absurd hword (by simp [AtWord]; decide)
  · rfl

/-- A growing run of at least one character spells the keyword that the text begins with. -/
theorem growKeyword_singleton_eq_some_iff {k : Keyword} :
    growKeyword (String.singleton c) rest = some k ↔ k.text.toList <+: c :: rest := by
  rw [growKeyword_eq_some_iff, String.toList_singleton]
  refine ⟨fun hgrow => hgrow.2, fun hbegins => ⟨?_, hbegins⟩⟩
  cases htext : k.text.toList with
  | nil => exact absurd htext k.toList_text_ne_nil
  | cons d others =>
    rw [htext] at hbegins
    simpa using (List.cons_prefix_cons.1 hbegins).1.symm

theorem first_of_isPrefix {k : Keyword} (hbegins : k.text.toList <+: text) :
    first text = ⟨.ok (.keyword k), k.text.toList.length⟩ := by
  obtain ⟨ahead, rfl⟩ := hbegins
  exact first_keyword k ahead

/-- Without a keyword in front, a word is its first character with all that extends it. -/
theorem first_of_atWord (hword : AtWord (c :: rest))
    (hnone : ∀ k : Keyword, ¬ k.text.toList <+: c :: rest) :
    first (c :: rest) =
      ⟨.ok (.name (String.ofList (c :: rest.takeWhile extendsName))),
        (c :: rest.takeWhile extendsName).length⟩ := by
  have hgrow : growKeyword (String.singleton c) rest = none := by
    cases hfound : growKeyword (String.singleton c) rest with
    | none => rfl
    | some k => exact absurd (growKeyword_singleton_eq_some_iff.1 hfound) (hnone k)
  rw [first_of_startsWord hword.startsWord hword.not_isDigit hword.boolean?_eq_none, word, hgrow]
  rfl

end Bite

namespace Cursor

variable {source passed : List Char} {c : Cursor}

namespace Reached

/-- A lexeme at the cursor is the next token, and exactly its characters are passed. -/
theorem next_of_first (hc : c.Reached source passed) {l : Lexeme} {written ahead : List Char}
    (hrest : c.rest = written ++ ahead) (hbite : Bite.first c.rest = ⟨.ok l, written.length⟩) :
    ∃ after, c.next = (.ok ⟨l, .behind passed⟩, after) ∧
      after.Reached source (passed ++ written) := by
  have hspace : c.rest.takeWhile (· = ' ') = [] := by
    cases htext : c.rest with
    | nil => rfl
    | cons d others =>
      have hd : d ≠ ' ' := by
        rintro rfl
        rw [htext] at hbite
        cases hbite
      simp [hd]
  have hskip : c.skipSpaces = c := by
    rw [Cursor.skipSpaces, hspace]
    rfl
  refine ⟨c.advanceBy written.length, ?_, hc.advanceBy hrest⟩
  rw [next, hskip, take, hbite, hc.place_eq]

theorem next_of_isPrefix (hc : c.Reached source passed) {k : Keyword}
    (hbegins : k.text.toList <+: c.rest) :
    ∃ after, c.next = (.ok ⟨.keyword k, .behind passed⟩, after) ∧
      after.Reached source (passed ++ k.text.toList) := by
  have hbite := Bite.first_of_isPrefix hbegins
  obtain ⟨ahead, hahead⟩ := hbegins
  exact hc.next_of_first hahead.symm hbite

theorem next_of_atWord (hc : c.Reached source passed) (hword : Bite.AtWord c.rest)
    (hnone : ∀ k : Keyword, ¬ k.text.toList <+: c.rest) :
    ∃ first run ahead, c.rest = first :: (run ++ ahead) ∧
      (∀ d ∈ run, Bite.extendsName d = true) ∧ (∀ d ∈ ahead.head?, Bite.extendsName d = false) ∧
      (∀ k : Keyword, ¬ k.text.toList <+: first :: run) ∧
      ∃ after, c.next = (.ok ⟨.name (String.ofList (first :: run)), .behind passed⟩, after) ∧
        after.Reached source (passed ++ first :: run) := by
  cases htext : c.rest with
  | nil =>
    rw [htext] at hword
    exact hword.elim
  | cons first others =>
    rw [htext] at hword hnone
    have hsplit : others.takeWhile Bite.extendsName ++ others.dropWhile Bite.extendsName = others :=
      List.takeWhile_append_dropWhile
    refine ⟨first, others.takeWhile Bite.extendsName, others.dropWhile Bite.extendsName,
      by rw [hsplit], ?_, ?_, ?_, ?_⟩
    · exact fun d hmem => List.all_eq_true.1 List.all_takeWhile d hmem
    · intro d hmem
      have hhead := List.head?_dropWhile_not Bite.extendsName others
      rw [Option.mem_def.1 hmem] at hhead
      simpa using hhead
    · intro k hbegins
      exact hnone k (hbegins.trans (List.cons_prefix_cons.2 ⟨rfl, List.takeWhile_prefix _⟩))
    · have hrest : c.rest =
          first :: others.takeWhile Bite.extendsName ++ others.dropWhile Bite.extendsName := by
        rw [htext, List.cons_append, hsplit]
      refine hc.next_of_first hrest ?_
      rw [htext]
      exact Bite.first_of_atWord hword hnone

end Reached

/-- Where a word begins in a source, the next token is a keyword exactly if the source goes on with
    one. That keyword is the only one, and its characters are passed, no more and no less.
    Otherwise the token is a name: the first character with the longest run behind it that extends
    a name. These characters are passed, and no keyword begins the name. -/
theorem next_at_word (hc : c.Reached source passed) (hword : Bite.AtWord c.rest) :
    ((∃ k place after, c.next = (.ok ⟨.keyword k, place⟩, after)) ↔
      ∃ k : Keyword, k.text.toList <+: c.rest) ∧
    (∀ k : Keyword, k.text.toList <+: c.rest →
      (∀ j : Keyword, j.text.toList <+: c.rest → j = k) ∧
      ∃ after, c.next = (.ok ⟨.keyword k, .behind passed⟩, after) ∧
        after.Reached source (passed ++ k.text.toList)) ∧
    ((∀ k : Keyword, ¬ k.text.toList <+: c.rest) →
      ∃ first run ahead, c.rest = first :: (run ++ ahead) ∧
        (∀ d ∈ run, Bite.extendsName d = true) ∧ (∀ d ∈ ahead.head?, Bite.extendsName d = false) ∧
        (∀ k : Keyword, ¬ k.text.toList <+: first :: run) ∧
        ∃ after, c.next = (.ok ⟨.name (String.ofList (first :: run)), .behind passed⟩, after) ∧
          after.Reached source (passed ++ first :: run)) := by
  refine ⟨⟨?_, ?_⟩, fun k hbegins => ⟨fun j hother => ?_, hc.next_of_isPrefix hbegins⟩,
    hc.next_of_atWord hword⟩
  · rintro ⟨k, place, after, hnext⟩
    by_cases hkeyword : ∃ k : Keyword, k.text.toList <+: c.rest
    · exact hkeyword
    · obtain ⟨_, _, _, _, _, _, _, _, hname, _⟩ :=
        hc.next_of_atWord hword fun k hbegins => hkeyword ⟨k, hbegins⟩
      rw [hnext] at hname
      cases hname
  · rintro ⟨k, hbegins⟩
    obtain ⟨after, hnext, _⟩ := hc.next_of_isPrefix hbegins
    exact ⟨k, _, after, hnext⟩
  · rcases List.prefix_or_prefix_of_prefix hother hbegins with hshort | hlong
    · exact Keyword.eq_of_isPrefix hshort
    · exact (Keyword.eq_of_isPrefix hlong).symm

/-- Behind a greeting, `reicht dann auch male` is the farewell and a letter. -/
theorem next_at_word_farewell :
    ∃ c after : Cursor, c.Reached "hallo\nreicht dann auch male".toList "hallo\n".toList ∧
      Bite.AtWord c.rest ∧
      c.next = (.ok ⟨.keyword .farewell, .behind "hallo\n".toList⟩, after) ∧
      after.rest = ['e'] := by
  have hstart : (Cursor.ofSource "hallo\nreicht dann auch male").Reached
      "hallo\nreicht dann auch male".toList [] := ⟨rfl, rfl, rfl⟩
  have hsplit : (Cursor.ofSource "hallo\nreicht dann auch male").rest =
      "hallo\n".toList ++ "reicht dann auch male".toList := rfl
  have hc := hstart.advanceBy hsplit
  have hword : Bite.AtWord "reicht dann auch male".toList := .inr (.inr (by decide))
  have hbegins : Keyword.farewell.text.toList <+: "reicht dann auch male".toList := ⟨['e'], rfl⟩
  obtain ⟨_, after, hnext, hafter⟩ := (next_at_word hc hword).2.1 .farewell hbegins
  refine ⟨_, after, hc, hword, hnext, ?_⟩
  exact List.append_cancel_left (hafter.source_eq.trans rfl)

end Cursor

end Hallo
