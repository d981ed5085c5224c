import Hallo.Proofs.Token.Scan

/-!
Every sequence of lexemes that can be found in texts is found in some text: the lexemes written one
behind the other, with spaces before each.
-/
namespace Hallo

/-- A lexeme as it can be written. -/
def Lexeme.spelling : Lexeme → List Char
  | .integer n => Nat.toDigits 10 n
  | .text s => '<' :: (s.toList ++ ['>'])
  | .boolean b => (Value.glyph b).toList
  | .name s => s.toList
  | .keyword k => k.text.toList
  | .mark m => [m.char]
  | .endOfInput => []

/-- Lexemes with two spaces before each. One might join with the next word to a farewell. -/
def Lexeme.spaced (ls : List Lexeme) : List Char :=
  ls.flatMap fun l => ' ' :: ' ' :: l.spelling

/-- Not even a colon before a space is taken for a truth value. -/
theorem Bite.boolean?_eq_none_of_space {name : String} {more : List Char} (hname : IsName name)
    (hmore : more.head?.all (· = ' ') = true) : boolean? (name.toList ++ more) = none := by
  obtain ⟨c, tail, hchars, _, _, htail, _⟩ := hname
  rw [hchars]
  by_cases hcolon : c :: tail = [':']
  · cases hcolon
    cases more with
    | nil => rfl
    | cons d more =>
      obtain rfl : d = ' ' := by simpa using hmore
      rfl
  · exact boolean?_eq_none hcolon htail

namespace Spells

theorem spelling {l : Lexeme} {more : List Char} (hl : l.Plausible) (hend : l ≠ .endOfInput)
    (hmore : more = [] ∨ ∃ rest, more = ' ' :: ' ' :: rest) :
    Spells (l.spelling ++ more) [l] more := by
  have hbreaks : Bite.Breaks more := by
    rcases hmore with rfl | ⟨rest, rfl⟩
    · trivial
    · simp [Bite.Breaks]
  cases l with
  | integer n => exact integer hl hbreaks
  | text s => simpa [Lexeme.spelling] using text_literal hl
  | boolean b => exact boolean b
  | name s =>
    have hboolean : Bite.boolean? (s.toList ++ more) = none := by
      refine Bite.boolean?_eq_none_of_space hl ?_
      rcases hmore with rfl | ⟨rest, rfl⟩ <;> simp
    exact of_first (Bite.first_of_isName hl hboolean hbreaks) (by simp)
  | keyword k => exact keyword k
  | mark m => exact mark m
  | endOfInput => exact absurd rfl hend

theorem spaced {ls : List Lexeme} (hls : ∀ l ∈ ls, l.Plausible) (hend : .endOfInput ∉ ls) :
    Spells (Lexeme.spaced ls) ls [] := by
  induction ls with
  | nil => exact .nil []
  | cons l ls ih =>
    have hmore : Lexeme.spaced ls = [] ∨ ∃ rest, Lexeme.spaced ls = ' ' :: ' ' :: rest := by
      cases ls with
      | nil => exact .inl rfl
      | cons m ls => exact .inr ⟨_, rfl⟩
    have hfirst : Spells (l.spelling ++ Lexeme.spaced ls) [l] (Lexeme.spaced ls) :=
      spelling (hls l List.mem_cons_self) (fun heq => hend (heq ▸ List.mem_cons_self)) hmore
    have hothers := ih (fun m hmem => hls m (List.mem_cons_of_mem l hmem))
      fun hmem => hend (List.mem_cons_of_mem l hmem)
    exact (hfirst.append hothers).space.space

end Spells

/-- Lexemes that can be found in texts are the lexemes of a source. -/
theorem Scan.exists_source {ls : List Lexeme} (hls : ∀ l ∈ ls, l.Plausible)
    (hend : .endOfInput ∉ ls) :
    ∃ source, (∃ finish, (ofSource source).ending = .ok finish) ∧
      (ofSource source).listed.map Token.lexeme = ls ++ [.endOfInput] := by
  refine ⟨String.ofList (Lexeme.spaced ls), lexemes_of_spells ?_⟩
  rw [String.toList_ofList]
  exact Spells.spaced hls hend

end Hallo
