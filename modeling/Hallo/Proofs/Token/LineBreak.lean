import Hallo.Proofs.Token.Coverage
import Mathlib

/-!
Scanning line by line. No lexeme that has come to its end can be changed by what stands behind a
line break, and no lexeme depends on the place where it stands; so the tokens of two texts with a
line break between them are those of the first, the line break, and those of the second further
down.
-/
namespace Hallo

namespace Bite

variable {text more : List Char} {c : Char} {rest : List Char}

theorem takeWhile_append_of_head? {p : Char → Bool} (hmore : ∀ c ∈ more.head?, p c = false)
    (text : List Char) : (text ++ more).takeWhile p = text.takeWhile p := by
  induction text with
  | nil =>
    cases more with
    | nil => rfl
    | cons c more => simp [hmore c rfl]
  | cons d text ih => simp [List.takeWhile_cons, ih]

theorem growKeyword_append_lineBreak (run : String) (ahead more : List Char) :
    growKeyword run (ahead ++ '\n' :: more) = growKeyword run ahead := by
  have hbreak : extendsKeyword '\n' = false := by decide
  induction ahead generalizing run with
  | nil =>
    rw [List.nil_append, growKeyword, growKeyword]
    simp [hbreak]
  | cons d ahead ih =>
    rw [List.cons_append, growKeyword, growKeyword]
    simp only [ih]

theorem word_append_lineBreak (c : Char) (rest more : List Char) :
    word (c :: rest ++ '\n' :: more) = word (c :: rest) := by
  have hbreak : ∀ c ∈ ('\n' :: more).head?, extendsName c = false := by simp; decide
  rw [List.cons_append, word, word, growKeyword_append_lineBreak, takeWhile_append_of_head? hbreak]

theorem digits_append_lineBreak (text more : List Char) :
    digits (text ++ '\n' :: more) = digits text := by
  have hbreak : ∀ c ∈ ('\n' :: more).head?, c.isDigit = false := by simp
  rw [digits, digits, takeWhile_append_of_head? hbreak]

/-- A text literal that is closed is closed at the same bracket whatever follows. -/
theorem bracketed_append {l : Lexeme} (hok : (bracketed (c :: rest)).lexeme = .ok l)
    (more : List Char) :
    bracketed (c :: rest ++ more) = bracketed (c :: rest) := by
  simp only [bracketed, List.cons_append, List.tail_cons] at hok ⊢
  by_cases hclosed : (rest.takeWhile (· ≠ '>')).length < rest.length
  · have hinner : (rest ++ more).takeWhile (· ≠ '>') = rest.takeWhile (· ≠ '>') := by
      rw [List.takeWhile_append, if_neg (Nat.ne_of_lt hclosed)]
    have hclosed' : (rest.takeWhile (· ≠ '>')).length < (rest ++ more).length := by
      rw [List.length_append]
      omega
    simp only [hinner, hclosed, hclosed', if_true]
  · simp only [hclosed, if_false] at hok
    cases hok

theorem boolean?_append_lineBreak (c : Char) (rest more : List Char) :
    boolean? (c :: rest ++ '\n' :: more) = boolean? (c :: rest) := by
  cases rest with
  | nil =>
    unfold boolean?
    split <;> simp_all
  | cons d rest =>
    unfold boolean?
    split <;> simp_all

/-- A lexeme that is taken from a text is taken from it also if a line break follows. -/
theorem first_append_lineBreak {l : Lexeme} (hok : (first (c :: rest)).lexeme = .ok l)
    (more : List Char) :
    first (c :: rest ++ '\n' :: more) = first (c :: rest) := by
  have hboolean := boolean?_append_lineBreak c rest more
  have hword := word_append_lineBreak c rest more
  have hdigits := digits_append_lineBreak (c :: rest) more
  rw [List.cons_append] at hboolean hword hdigits ⊢
  rw [first, first, hdigits, hboolean, hword]
  split
  · rfl
  · rename_i hdigit
    split
    · rename_i hopen
      rw [first, if_neg hdigit, if_pos hopen] at hok
      rw [← List.cons_append, bracketed_append hok]
    · rfl

end Bite

/-- The place that lies so many lines further down, in the same column. -/
def Place.below (down : Nat) (place : Place) : Place :=
  ⟨place.line + down, place.column⟩

theorem Place.after_below (down : Nat) (place : Place) (c : Char) :
    (place.below down).after c = (place.after c).below down := by
  unfold after below
  split
  · simp [Nat.add_right_comm]
  · rfl

/-- The token, so many lines further down. -/
def Token.below (down : Nat) (token : Token) : Token :=
  ⟨token.lexeme, token.place.below down⟩

/-- The error, so many lines further down. -/
def ScanError.below (down : Nat) (error : ScanError) : ScanError :=
  ⟨error.complaint, error.place.below down⟩

/-- What a cursor has found, so many lines further down. -/
def Scan.below (down : Nat) : Except ScanError Token → Except ScanError Token
  | .ok token => .ok (token.below down)
  | .error error => .error (error.below down)

namespace Bite

/-- A bite is not longer than the text. -/
theorem length_first_le {text : List Char} (hspace : text.head? ≠ some ' ') :
    (first text).length ≤ text.length := by
  have hbite := Of.first hspace
  generalize first text = bite at hbite
  cases hbite with
  | endOfInput => exact Nat.le_refl 0
  | lexeme _ ahead => simp
  | complaint _ => simp

end Bite

namespace Cursor

/-- Two cursors side by side: the second is so many lines further down, and what it has ahead is
    what the first one has and then some more. -/
structure Beside (down : Nat) (more : List Char) (c d : Cursor) : Prop where
  rest_eq : d.rest = c.rest ++ more
  place_eq : d.place = c.place.below down

namespace Beside

variable {down : Nat} {more : List Char} {c d : Cursor}

theorem advance (hbeside : Beside down more c d) (hrest : c.rest ≠ []) :
    Beside down more c.advance d.advance := by
  obtain ⟨passed, _ | ⟨ch, rest⟩, position, place⟩ := c
  · exact absurd rfl hrest
  · obtain ⟨passed', rest', position', place'⟩ := d
    obtain ⟨hrest', hplace⟩ := hbeside
    cases hrest'
    cases hplace
    exact ⟨rfl, Place.after_below down place ch⟩

theorem advanceBy (hbeside : Beside down more c d) {n : Nat} (hn : n ≤ c.rest.length) :
    Beside down more (c.advanceBy n) (d.advanceBy n) := by
  induction n generalizing c d with
  | zero => exact hbeside
  | succ n ih =>
    have hrest : c.rest ≠ [] := List.ne_nil_of_length_pos (by omega)
    refine ih (hbeside.advance hrest) ?_
    rw [rest_advance, List.length_tail]
    omega

theorem skipSpaces (hbeside : Beside down more c d) (hmore : more.head? ≠ some ' ') :
    Beside down more c.skipSpaces d.skipSpaces := by
  have hhead : ∀ c ∈ more.head?, decide (c = ' ') = false := by
    intro c hmem
    rw [Option.mem_def.1 hmem] at hmore
    simpa using hmore
  rw [Cursor.skipSpaces, Cursor.skipSpaces, hbeside.rest_eq, Bite.takeWhile_append_of_head? hhead]
  exact hbeside.advanceBy (List.takeWhile_prefix _).length_le

/-- Where the same bite is taken, the same is found. -/
theorem next (hbeside : Beside down more c d) (hmore : more.head? ≠ some ' ')
    (hbite : Bite.first (c.skipSpaces.rest ++ more) = Bite.first c.skipSpaces.rest) :
    d.next.1 = Scan.below down c.next.1 ∧ Beside down more c.next.2 d.next.2 := by
  have hskipped := hbeside.skipSpaces hmore
  have hspace : c.skipSpaces.rest.head? ≠ some ' ' := by
    rw [rest_skipSpaces]
    intro hhead
    have hnot := List.head?_dropWhile_not (· = ' ') c.rest
    rw [hhead] at hnot
    simp at hnot
  have hafter := hskipped.advanceBy (Bite.length_first_le hspace)
  simp only [Cursor.next, take, hskipped.rest_eq, hbite]
  split
  · rw [hskipped.place_eq]
    exact ⟨rfl, hafter⟩
  · rw [hafter.place_eq]
    exact ⟨rfl, hafter⟩

end Beside

/-- What a scan finds does not depend on the line it begins in. -/
theorem Beside.scan_below {down : Nat} {c d : Cursor} (hbeside : Beside down [] c d) :
    d.scan.tokens = c.scan.tokens.map (Token.below down) ∧ d.scan.ending =
      Scan.below down c.scan.ending := by
  obtain ⟨hfound, hafter⟩ := hbeside.next nofun (by rw [List.append_nil])
  rw [scan_eq c, scan_eq d]
  rcases hc : c.next with ⟨error | token, after⟩ <;> rcases hd : d.next with ⟨found, after'⟩
  · rw [hc, hd] at hfound
    cases hfound
    exact ⟨rfl, rfl⟩
  · rw [hc, hd] at hfound hafter
    cases hfound
    by_cases hend : token.lexeme = .endOfInput
    · simp [hend, Token.below, Scan.below]
    · have hless := length_rest_next hc hend
      obtain ⟨htokens, hending⟩ := Beside.scan_below hafter
      simp only [Token.below, hend, if_false, List.map_cons]
      exact ⟨by rw [htokens], hending⟩
termination_by c.rest.length

/-- A token is a lexeme that begins behind the spaces at the cursor. -/
theorem first_of_next {c after : Cursor} {token : Token} (hnext : c.next = (.ok token, after)) :
    (Bite.first c.skipSpaces.rest).lexeme = .ok token.lexeme ∧ token.place =
      c.skipSpaces.place := by
  rw [next, take] at hnext
  split at hnext
  · rename_i l hl
    cases hnext
    exact ⟨hl, rfl⟩
  · cases hnext

/-- A scan that comes to the end of its text goes on behind a line break as if it began there. -/
theorem Beside.scan_lineBreak {down : Nat} {more : List Char} {c d : Cursor}
    (hbeside : Beside down ('\n' :: more) c d) {finish : Token}
    (hfinish : c.scan.ending = .ok finish) :
    ∃ after : Cursor, after.rest = more ∧ after.place = (finish.place.below down).after '\n' ∧
      d.scan.tokens = c.scan.tokens.map (Token.below down) ++
        ⟨.mark .lineBreak, finish.place.below down⟩ :: after.scan.tokens ∧
      d.scan.ending = after.scan.ending := by
  have hmore : ('\n' :: more).head? ≠ some ' ' := by simp
  rw [scan_eq c] at hfinish ⊢
  rcases hc : c.next with ⟨error | token, after⟩
  · rw [hc] at hfinish
    cases hfinish
  · simp only [hc] at hfinish ⊢
    obtain ⟨hlexeme, htoken⟩ := first_of_next hc
    obtain ⟨hrest, hplace⟩ := hbeside.skipSpaces hmore
    by_cases hend : token.lexeme = .endOfInput
    · simp only [hend, if_true] at hfinish ⊢
      cases hfinish
      have hnil : c.skipSpaces.rest = [] := by
        cases hchars : c.skipSpaces.rest with
        | nil => rfl
        | cons ch others =>
          rw [hchars, hend] at hlexeme
          exact absurd hlexeme Bite.first_ne_endOfInput
      rw [hnil, List.nil_append] at hrest
      have hd :
          d.next = (.ok ⟨.mark .lineBreak, finish.place.below down⟩, d.skipSpaces.advance) := by
        rw [Cursor.next, take, hrest, hplace, ← htoken]
        rfl
      refine ⟨d.skipSpaces.advance, by rw [rest_advance, hrest]; rfl, ?_, ?_⟩
      · rw [htoken, ← hplace, Cursor.advance, hrest]
      · rw [scan_eq d, hd]
        exact ⟨rfl, rfl⟩
    · have hless := length_rest_next hc hend
      simp only [hend, if_false] at hfinish ⊢
      have hbite : Bite.first (c.skipSpaces.rest ++ '\n' :: more) =
          Bite.first c.skipSpaces.rest := by
        cases hchars : c.skipSpaces.rest with
        | nil =>
          rw [hchars] at hlexeme
          injection hlexeme with hlexeme
          exact absurd hlexeme.symm hend
        | cons ch others =>
          rw [hchars] at hlexeme
          exact Bite.first_append_lineBreak hlexeme more
      obtain ⟨hfound, hafter⟩ := hbeside.next hmore hbite
      rcases hd : d.next with ⟨found, after'⟩
      rw [hc, hd] at hfound hafter
      cases hfound
      obtain ⟨last, hrest, hplace, htokens, hending⟩ := Beside.scan_lineBreak hafter hfinish
      refine ⟨last, hrest, hplace, ?_⟩
      rw [scan_eq d, hd]
      simp only [Token.below, hend, if_false, List.map_cons]
      exact ⟨by rw [htokens]; rfl, hending⟩
termination_by c.rest.length

end Cursor

namespace Scan

theorem place_of_ending {source : String} {finish : Token}
    (hending : (ofSource source).ending = .ok finish) :
    finish.place = .behind source.toList := by
  have hstart : (Cursor.ofSource source).Reached source.toList [] := ⟨rfl, rfl, rfl⟩
  have haccounts : (ofSource source).Accounts source.toList [] := hstart.accounts_scan
  obtain ⟨covered, gap, _, _, hend⟩ := haccounts
  rw [hending] at hend
  rw [hend.2.1]

theorem listed_below {scan other : Scan} {down : Nat}
    (htokens : other.tokens = scan.tokens.map (Token.below down))
    (hending : other.ending = below down scan.ending) :
    other.listed = scan.listed.map (Token.below down) := by
  rw [listed, listed, hending, htokens]
  cases scan.ending <;> simp [below]

/-- Tokenization goes on behind a line break as if it began there. If a text can be read to its end,
    then together with a line break and any other text it gives its own tokens, the line break
    where its end of input was, and the tokens of the other text, in the same columns and as many
    lines further down as there are line breaks before it. If the other text cannot be read to its
    end, the whole fails with the same error, as many lines further down. -/
theorem listed_across_lineBreak (first second : String) {finish : Token}
    (hfirst : (ofSource first).ending = .ok finish) :
    (ofSource (first ++ "\n" ++ second)).listed =
      (ofSource first).tokens ++ ⟨.mark .lineBreak, finish.place⟩ ::
        (ofSource second).listed.map (Token.below (1 + first.toList.count '\n')) ∧
    (ofSource (first ++ "\n" ++ second)).ending =
      below (1 + first.toList.count '\n') (ofSource second).ending := by
  have hbeside : Cursor.Beside 0 ('\n' :: second.toList) (.ofSource first)
      (.ofSource (first ++ "\n" ++ second)) := by
    refine ⟨?_, rfl⟩
    simp [Cursor.ofSource]
  obtain ⟨after, hrest, hplace, htokens, hending⟩ := hbeside.scan_lineBreak hfirst
  have hsame : Token.below 0 = id := rfl
  rw [hsame, List.map_id] at htokens
  have hfound : (ofSource (first ++ "\n" ++ second)).tokens =
      (ofSource first).tokens ++ ⟨.mark .lineBreak, finish.place⟩ :: after.scan.tokens := htokens
  have hlisted : (ofSource (first ++ "\n" ++ second)).listed =
      (ofSource first).tokens ++ ⟨.mark .lineBreak, finish.place⟩ :: after.scan.listed := by
    change (ofSource (first ++ "\n" ++ second)).ending = after.scan.ending at hending
    rw [listed, listed, hending, hfound]
    cases after.scan.ending <;> simp
  have hdown : Cursor.Beside (1 + first.toList.count '\n') [] (.ofSource second) after := by
    refine ⟨by rw [hrest, List.append_nil]; rfl, ?_⟩
    rw [hplace, place_of_ending hfirst]
    simp [Place.below, Place.after, Place.behind, Cursor.ofSource, Place.start]
    omega
  obtain ⟨hbelow, hlast⟩ := hdown.scan_below
  rw [hlisted, listed_below hbelow hlast]
  exact ⟨rfl, hending.trans hlast⟩

/-- A farewell that is one word short before the line break stays so: its second half does not
    complete it, and stands in the third line with the character that cannot be read. -/
theorem listed_across_lineBreak_farewell :
    (ofSource "x\nreicht dann").ending = .ok ⟨.endOfInput, ⟨2, 12⟩⟩ ∧
      (ofSource "x\nreicht dann\nauch !").listed =
        [⟨.name "x", ⟨1, 1⟩⟩, ⟨.mark .lineBreak, ⟨1, 2⟩⟩, ⟨.name "reicht", ⟨2, 1⟩⟩,
          ⟨.name "dann", ⟨2, 8⟩⟩, ⟨.mark .lineBreak, ⟨2, 12⟩⟩, ⟨.name "auch", ⟨3, 1⟩⟩] ∧
      (ofSource "x\nreicht dann\nauch !").ending = .error ⟨.unknownCharacter '!', ⟨3, 6⟩⟩ := by
  have hfirst : (ofSource "x\nreicht dann").ending = .ok ⟨.endOfInput, ⟨2, 12⟩⟩ := by cbv
  obtain ⟨hlisted, hending⟩ := listed_across_lineBreak "x\nreicht dann" "auch !" hfirst
  refine ⟨hfirst, hlisted.trans ?_, hending.trans ?_⟩
  · cbv
  · cbv

end Scan

end Hallo
