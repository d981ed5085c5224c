import Hallo.Proofs.Token.Spelling

/-!
What a scan finds in a text depends on its characters only, not on the place. A text is spelled
out lexeme by lexeme, and what is spelled out in front does not change what is found behind.
-/
namespace Hallo

/-- Certain lexemes are taken from the front of a text, spaces before each of them skipped, and
    leave the rest of it. -/
inductive Spells : List Char → List Lexeme → List Char → Prop where
  | nil (rest : List Char) : Spells rest [] rest
  | cons {text rest : List Char} {l : Lexeme} {ls : List Lexeme} {n : Nat}
      (hbite : Bite.first (text.dropWhile (· = ' ')) = ⟨.ok l, n⟩) (hend : l ≠ .endOfInput)
      (hothers : Spells ((text.dropWhile (· = ' ')).drop n) ls rest) : Spells text (l :: ls) rest

namespace Spells

variable {text middle rest more : List Char} {l : Lexeme} {ls us : List Lexeme}

theorem append (hfirst : Spells text ls middle) (hsecond : Spells middle us rest) :
    Spells text (ls ++ us) rest := by
  induction hfirst with
  | nil => exact hsecond
  | cons hbite hend _ ih => exact .cons hbite hend (ih hsecond)

/-- Spaces before a lexeme make no difference. -/
theorem space (hspells : Spells text (l :: ls) rest) : Spells (' ' :: text) (l :: ls) rest := by
  cases hspells with
  | cons hbite hend hothers => exact .cons (by simpa using hbite) hend (by simpa using hothers)

theorem of_first (hfirst : Bite.first (text ++ more) = ⟨.ok l, text.length⟩)
    (hend : l ≠ .endOfInput) : Spells (text ++ more) [l] more := by
  have hskip : (text ++ more).dropWhile (· = ' ') = text ++ more := by
    cases hchars : text ++ more with
    | nil => rfl
    | cons c others =>
      have hspace : c ≠ ' ' := by
        rintro rfl
        rw [hchars] at hfirst
        cases hfirst
      simp [hspace]
  refine .cons (n := text.length) (by rw [hskip, hfirst]) hend ?_
  rw [hskip, List.drop_left]
  exact .nil more

theorem keyword (k : Keyword) : Spells (k.text.toList ++ more) [.keyword k] more :=
  of_first (Bite.first_keyword k more) (by simp)

theorem mark (m : Mark) : Spells (m.char :: more) [.mark m] more := by
  have hfirst : Bite.first ([m.char] ++ more) = ⟨.ok (.mark m), [m.char].length⟩ :=
    Bite.first_mark m more
  exact of_first hfirst (by simp)

theorem boolean (b : Bool) : Spells ((Value.glyph b).toList ++ more) [.boolean b] more := by
  refine of_first ?_ (by simp)
  rw [Bite.first_boolean]
  cases b <;> rfl

theorem text_literal {s : String} (hs : '>' ∉ s.toList) :
    Spells ('<' :: (s.toList ++ '>' :: more)) [.text s] more := by
  have hspells : Spells ('<' :: (s.toList ++ ['>']) ++ more) [.text s] more := by
    refine of_first ?_ (by simp)
    simp only [List.cons_append, List.append_assoc, List.nil_append]
    rw [Bite.first_text hs]
    simp
  simpa using hspells

theorem integer {n : Nat} (hn : n < Decimal.bound) (hbreaks : Bite.Breaks more) :
    Spells (Nat.toDigits 10 n ++ more) [.integer n] more :=
  of_first (Bite.first_integer hn hbreaks) (by simp)

theorem name {s : String} (hname : IsName s) (hcolon : s ≠ ":") (hbreaks : Bite.Breaks more) :
    Spells (s.toList ++ more) [.name s] more :=
  of_first (Bite.first_name hname hcolon hbreaks) (by simp)

end Spells

namespace Cursor

theorem next_of_first {c : Cursor} {l : Lexeme} {n : Nat}
    (hbite : Bite.first (c.rest.dropWhile (· = ' ')) = ⟨.ok l, n⟩) :
    ∃ token after, c.next = (.ok token, after) ∧ token.lexeme = l ∧
      after.rest = (c.rest.dropWhile (· = ' ')).drop n := by
  rw [← rest_skipSpaces] at hbite ⊢
  refine ⟨⟨l, c.skipSpaces.place⟩, c.skipSpaces.advanceBy n, ?_, rfl, rest_advanceBy n _⟩
  rw [next, take, hbite]

/-- A scan finds the lexemes that are spelled out in front, and then what another scan finds in
    the rest. -/
theorem scan_of_spells {c : Cursor} {ls : List Lexeme} {rest : List Char}
    (hspells : Spells c.rest ls rest) :
    ∃ after : Cursor, after.rest = rest ∧
      c.scan.tokens.map Token.lexeme = ls ++ after.scan.tokens.map Token.lexeme ∧
      c.scan.ending = after.scan.ending := by
  generalize htext : c.rest = text at hspells
  induction hspells generalizing c with
  | nil => exact ⟨c, htext, rfl, rfl⟩
  | @cons text rest l ls n hbite hend hothers ih =>
    rw [← htext] at hbite
    obtain ⟨token, middle, hnext, rfl, hmiddle⟩ := next_of_first hbite
    obtain ⟨after, hafter, htokens, hending⟩ := ih (by rw [hmiddle, htext])
    refine ⟨after, hafter, ?_, ?_⟩
    · rw [scan_eq, hnext]
      simp only [if_neg hend, List.map_cons, htokens, List.cons_append]
    · rw [scan_eq, hnext]
      simp only [if_neg hend, hending]

theorem plausible_of_mem_scanWithin {rounds : Nat} {c : Cursor} {token : Token}
    (hmem : token ∈ (scanWithin rounds c).tokens) : token.lexeme.Plausible := by
  induction rounds generalizing c with
  | zero => cases hmem
  | succ rounds ih =>
    rw [scanWithin] at hmem
    rcases hnext : c.next with ⟨error | found, after⟩
    · simp [hnext] at hmem
    · simp only [hnext] at hmem
      split at hmem
      · cases hmem
      · rcases List.mem_cons.1 hmem with rfl | hmem
        · rw [next, take] at hnext
          split at hnext
          · rename_i l hok
            cases hnext
            exact Bite.plausible_first hok
          · cases hnext
        · exact ih hmem

end Cursor

/-- Where only spaces are left, the end of input is found at once. -/
theorem Cursor.scan_of_spaces {c : Cursor} (hspaces : c.rest.dropWhile (· = ' ') = []) :
    c.scan.tokens = [] ∧ ∃ finish, c.scan.ending = .ok finish ∧ finish.lexeme = .endOfInput := by
  have hbite : Bite.first (c.rest.dropWhile (· = ' ')) = ⟨.ok .endOfInput, 0⟩ := by
    rw [hspaces]
    rfl
  obtain ⟨token, after, hnext, hlexeme, _⟩ := next_of_first hbite
  rw [scan_eq, hnext]
  simp [hlexeme]

namespace Scan

/-- A source that is spelled out to its end, up to some spaces, gives exactly these lexemes. -/
theorem lexemes_of_spells_spaces {source : String} {ls : List Lexeme} {rest : List Char}
    (hspells : Spells source.toList ls rest) (hspaces : rest.dropWhile (· = ' ') = []) :
    (∃ finish, (ofSource source).ending = .ok finish) ∧
      (ofSource source).listed.map Token.lexeme = ls ++ [.endOfInput] := by
  have hrest : (Cursor.ofSource source).rest = source.toList := rfl
  rw [← hrest] at hspells
  obtain ⟨after, hafter, htokens, hending⟩ := Cursor.scan_of_spells hspells
  obtain ⟨hnone, finish, hlast, hlexeme⟩ := Cursor.scan_of_spaces (hafter ▸ hspaces)
  rw [hnone, List.map_nil, List.append_nil] at htokens
  rw [hlast] at hending
  have hfinish : (ofSource source).ending = .ok finish := hending
  have hfound : (ofSource source).tokens.map Token.lexeme = ls := htokens
  refine ⟨⟨_, hfinish⟩, ?_⟩
  simp only [listed, hfinish, List.map_append, hfound, List.map_cons, List.map_nil, hlexeme]

theorem lexemes_of_spells {source : String} {ls : List Lexeme}
    (hspells : Spells source.toList ls []) :
    (∃ finish, (ofSource source).ending = .ok finish) ∧
      (ofSource source).listed.map Token.lexeme = ls ++ [.endOfInput] :=
  lexemes_of_spells_spaces hspells rfl

end Scan

end Hallo
