import Hallo.Text.Alphanumeric
import Hallo.Token

/-!
From text to tokens. A bite is the first lexeme of a text together with the number of
characters it takes; a cursor walks through a source bite by bite and keeps count of the place.
Main statement: every token but the last takes at least one character, so as many rounds as there
are characters see a scan to its end.
-/
namespace Hallo

/-- What can be wrong with a text as a sequence of lexemes. -/
inductive Complaint where
  | unknownCharacter (c : Char)
  | unclosedText
  | tooManyDigits (count : Nat)
  | noDigits
  deriving DecidableEq, Repr

/-- Whether a complaint is about a numeral. -/
def Complaint.aboutNumeral : Complaint → Bool
  | .unknownCharacter _ => false
  | .unclosedText => false
  | .tooManyDigits _ => true
  | .noDigits => true

/-- A complaint, with the place that the cursor had reached. -/
structure ScanError where
  complaint : Complaint
  place : Place
  deriving DecidableEq, Repr

/-- The wording of a scan error. Numerals are complained about without a place. -/
def ScanError.message (e : ScanError) : String :=
  let located (text : String) := "[dmm " ++ e.place.label ++ "] Syntax error: " ++ text
  match e.complaint with
  | .unknownCharacter c => located ("No suitable token for " ++ Text.quoted (String.singleton c))
  | .unclosedText => located "Missing string closure: >"
  | .tooManyDigits count =>
    "Exceeds the limit (" ++ Nat.repr Decimal.digitLimit ++
      " digits) for integer string conversion: value has " ++ Nat.repr count ++
      " digits; use sys.set_int_max_str_digits() to increase the limit"
  | .noDigits => "invalid literal for int() with base 10: ''"

/-- The first lexeme of a text, or what is wrong with it, and how many characters that took. -/
structure Bite where
  lexeme : Except Complaint Lexeme
  length : Nat

namespace Bite

/-- Characters that a name goes on with. -/
def extendsName (c : Char) : Bool :=
  Text.isAlphanumeric c || c = '_'

/-- Characters over which the search for a keyword goes on: the farewell holds spaces. -/
def extendsKeyword (c : Char) : Bool :=
  Text.isAlphanumeric c || c = ' ' || c = '_'

/-- Characters a name or keyword may begin with. The colon begins the names of the output
    forms. -/
def startsWord (c : Char) : Bool :=
  Text.isAlphanumeric c || c = '_' || c = ':'

/-- A run of digits. -/
def digits (text : List Char) : Bite :=
  let run := text.takeWhile Char.isDigit
  if run.isEmpty then ⟨.error .noDigits, 0⟩
  else if Decimal.digitLimit < run.length then ⟨.error (.tooManyDigits run.length), run.length⟩
  else ⟨.ok (.integer (Decimal.value run)), run.length⟩

/-- A text literal: what stands between its first character, whatever that is, and the next
    closing bracket. -/
def bracketed (text : List Char) : Bite :=
  let inner := text.tail.takeWhile (· ≠ '>')
  if inner.length < text.tail.length then ⟨.ok (.text (String.ofList inner)), inner.length + 2⟩
  else ⟨.error .unclosedText, inner.length + 1⟩

/-- The first keyword that a growing run of characters spells. -/
def growKeyword (run : String) (ahead : List Char) : Option Keyword :=
  match Keyword.ofText? run with
  | some keyword => some keyword
  | none =>
    match ahead with
    | [] => none
    | c :: ahead => if extendsKeyword c then growKeyword (run.push c) ahead else none

/-- A keyword or a name. The run grows character by character, and the first keyword it spells
    is taken; failing that, a name is the first character with all that extends it. -/
def word : List Char → Bite
  | [] => ⟨.ok (.name ""), 1⟩
  | c :: rest =>
    match growKeyword (String.singleton c) rest with
    | some keyword => ⟨.ok (.keyword keyword), keyword.text.length⟩
    | none =>
      let tail := rest.takeWhile extendsName
      ⟨.ok (.name (String.ofList (c :: tail))), tail.length + 1⟩

/-- A boolean is written as a colon and a parenthesis. -/
def boolean? : List Char → Option Bool
  | ':' :: ')' :: _ => some true
  | ':' :: '(' :: _ => some false
  | _ => none

/-- The first lexeme of a text that does not begin with a space. -/
def first : List Char → Bite
  | [] => ⟨.ok .endOfInput, 0⟩
  | c :: rest =>
    if c.isDigit then digits (c :: rest)
    else if c = '<' then bracketed (c :: rest)
    else
      match boolean? (c :: rest) with
      | some b => ⟨.ok (.boolean b), 2⟩
      | none =>
        match Mark.ofChar? c with
        | some mark => ⟨.ok (.mark mark), 1⟩
        | none =>
          if startsWord c then word (c :: rest) else ⟨.error (.unknownCharacter c), 0⟩

theorem length_digits_pos {text : List Char} {l : Lexeme} (hok : (digits text).lexeme = .ok l) :
    0 < (digits text).length := by
  simp only [digits] at hok ⊢
  split
  · rename_i hrun
    simp [hrun] at hok
  · rename_i hrun
    have hpos : 0 < (text.takeWhile Char.isDigit).length :=
      List.length_pos_iff.2 fun hnil => hrun (by simp [hnil])
    split <;> exact hpos

theorem length_bracketed_pos (text : List Char) : 0 < (bracketed text).length := by
  simp only [bracketed]
  split <;> simp

theorem length_word_pos (text : List Char) : 0 < (word text).length := by
  cases text with
  | nil => simp [word]
  | cons c rest =>
    simp only [word]
    split
    · rename_i keyword _
      cases keyword <;> decide
    · simp

/-- Every lexeme but the end of input takes at least one character. -/
theorem length_first_pos {text : List Char} {l : Lexeme} (hok : (first text).lexeme = .ok l)
    (hend : l ≠ .endOfInput) : 0 < (first text).length := by
  cases text with
  | nil => simp_all [first]
  | cons c rest =>
    simp only [first] at hok ⊢
    split
    · rename_i hdigit
      simp only [hdigit, if_true] at hok
      exact length_digits_pos hok
    · split
      · exact length_bracketed_pos _
      · rename_i hdigit hopen
        simp only [hdigit, hopen] at hok
        split
        · simp
        · split
          · simp
          · split
            · exact length_word_pos _
            · simp_all

/-- Only the empty text is at its end. -/
theorem first_ne_endOfInput {c : Char} {rest : List Char} :
    (first (c :: rest)).lexeme ≠ .ok .endOfInput := by
  simp only [first, digits, bracketed, word]
  repeat' split
  all_goals simp

end Bite

/-- A position in a source: what was passed, the latest character first, what is still to be
    read, how many steps were taken, and the place reached. Moving on at the end counts
    characters that are not there. -/
structure Cursor where
  passed : List Char
  rest : List Char
  position : Nat
  place : Place
  deriving DecidableEq, Repr

namespace Cursor

/-- The beginning of a source. -/
def ofSource (source : String) : Cursor :=
  ⟨[], source.toList, 0, .start⟩

/-- The character at the cursor. At the end this is the null character. -/
def current (c : Cursor) : Char :=
  c.rest.headD '\x00'

/-- The whole source around the cursor. -/
def source (c : Cursor) : List Char :=
  c.passed.reverse ++ c.rest

/-- The character some steps ahead, or behind where the offset is negative. Beyond the end
    there are only null characters; before the beginning the source is met again from its end,
    once. -/
def peek? (c : Cursor) (offset : Int) : Option Char :=
  let index := c.position + offset
  let length : Int := c.source.length
  if length ≤ index then some '\x00'
  else if 0 ≤ index then c.source[index.toNat]?
  else if 0 ≤ length + index then c.source[(length + index).toNat]?
  else none

/-- What is said of a look too far back. -/
def tooFarBack : String := "string index out of range"

/-- One character further. -/
def advance (c : Cursor) : Cursor :=
  match c.rest with
  | [] => { c with position := c.position + 1, place := c.place.after c.current }
  | ch :: rest => ⟨ch :: c.passed, rest, c.position + 1, c.place.after ch⟩

/-- Several characters further. -/
def advanceBy : Nat → Cursor → Cursor
  | 0, c => c
  | n + 1, c => advanceBy n c.advance

/-- Behind the spaces that stand at the cursor. Other white space is not skipped. -/
def skipSpaces (c : Cursor) : Cursor :=
  c.advanceBy (c.rest.takeWhile (· = ' ')).length

/-- Take a bite at the cursor. The cursor moves also when the bite fails, and an error is
    placed where it comes to stand; a token is placed where it began. -/
def take (bite : List Char → Bite) (c : Cursor) : Except ScanError Token × Cursor :=
  let behind := c.advanceBy (bite c.rest).length
  match (bite c.rest).lexeme with
  | .ok lexeme => (.ok ⟨lexeme, c.place⟩, behind)
  | .error complaint => (.error ⟨complaint, behind.place⟩, behind)

/-- The next token. At the end of the source this is the end of input, again and again. -/
def next (c : Cursor) : Except ScanError Token × Cursor :=
  c.skipSpaces.take Bite.first

theorem rest_advance (c : Cursor) : c.advance.rest = c.rest.tail := by
  rcases c with ⟨passed, _ | ⟨ch, rest⟩, position, place⟩ <;> rfl

theorem rest_advanceBy (n : Nat) (c : Cursor) : (c.advanceBy n).rest = c.rest.drop n := by
  induction n generalizing c with
  | zero => simp [advanceBy]
  | succ n ih => simp [advanceBy, ih, rest_advance, List.drop_tail]

theorem rest_skipSpaces (c : Cursor) : c.skipSpaces.rest = c.rest.dropWhile (· = ' ') := by
  rw [skipSpaces, rest_advanceBy]
  generalize c.rest = text
  induction text with
  | nil => simp
  | cons d rest ih =>
    by_cases hspace : d = ' ' <;> simp_all

/-- Reading a token other than the end of input leaves less to read. -/
theorem length_rest_next {c after : Cursor} {t : Token} (hnext : c.next = (.ok t, after))
    (hend : t.lexeme ≠ .endOfInput) : after.rest.length < c.rest.length := by
  have hskip : c.skipSpaces.rest.length ≤ c.rest.length := by
    rw [rest_skipSpaces]
    exact (List.dropWhile_suffix _).length_le
  simp only [next, take] at hnext
  split at hnext
  · rename_i l hl
    obtain ⟨rfl, rfl⟩ := Prod.mk.inj hnext |>.imp Except.ok.inj id
    have hpos := Bite.length_first_pos hl hend
    have hne : 0 < c.skipSpaces.rest.length := by
      cases hrest : c.skipSpaces.rest with
      | nil =>
        rw [hrest] at hl
        simp [Bite.first] at hl
        exact absurd hl.symm hend
      | cons d rest => simp
    rw [rest_advanceBy, List.length_drop]
    omega
  · simp at hnext

end Cursor

/-- The tokens of a source in order, and how they end: with the end of input, or with an
    error behind the last token that could be read. -/
structure Scan where
  tokens : List Token
  ending : Except ScanError Token
  finish : Cursor

namespace Cursor

/-- The tokens from the cursor on, at most so many before the end of input. -/
def scanWithin : (rounds : Nat) → Cursor → Scan
  | 0, c => ⟨[], .ok ⟨.endOfInput, c.place⟩, c⟩
  | rounds + 1, c =>
    match c.next with
    | (.error e, after) => ⟨[], .error e, after⟩
    | (.ok t, after) =>
      if t.lexeme = .endOfInput then
        ⟨[], .ok t, after⟩
      else
        let others := scanWithin rounds after
        ⟨t :: others.tokens, others.ending, others.finish⟩

/-- All tokens from the cursor on. There are no more of them than characters. -/
def scan (c : Cursor) : Scan :=
  scanWithin c.rest.length c

theorem next_of_rest_eq_nil {c : Cursor} (hrest : c.rest = []) :
    c.next = (.ok ⟨.endOfInput, c.place⟩, c) := by
  simp [next, take, skipSpaces, hrest, advanceBy, Bite.first]

/-- Rounds beyond the number of characters make no difference. -/
theorem scanWithin_congr {m n : Nat} {c : Cursor} (hm : c.rest.length ≤ m)
    (hn : c.rest.length ≤ n) : scanWithin m c = scanWithin n c := by
  induction m generalizing n c with
  | zero =>
    have hrest : c.rest = [] := List.length_eq_zero_iff.1 (Nat.le_zero.1 hm)
    cases n <;> simp [scanWithin, next_of_rest_eq_nil hrest]
  | succ m ih =>
    cases n with
    | zero =>
      have hrest : c.rest = [] := List.length_eq_zero_iff.1 (Nat.le_zero.1 hn)
      simp [scanWithin, next_of_rest_eq_nil hrest]
    | succ n =>
      rcases hnext : c.next with ⟨_ | t, after⟩
      · simp [scanWithin, hnext]
      · by_cases hend : t.lexeme = .endOfInput
        · simp [scanWithin, hnext, hend]
        · have hless := length_rest_next hnext hend
          simp [scanWithin, hnext, hend, ih (c := after) (n := n) (by omega) (by omega)]

/-- A scan reads the next token and goes on behind it. -/
theorem scan_eq (c : Cursor) :
    c.scan =
      match c.next with
      | (.error e, after) => ⟨[], .error e, after⟩
      | (.ok t, after) =>
        if t.lexeme = .endOfInput then ⟨[], .ok t, after⟩
        else ⟨t :: after.scan.tokens, after.scan.ending, after.scan.finish⟩ := by
  rw [scan, scanWithin_congr (Nat.le_refl _) (Nat.le_succ _), scanWithin]
  rcases hnext : c.next with ⟨_ | t, after⟩
  · rfl
  · by_cases hend : t.lexeme = .endOfInput
    · simp [hend]
    · have hless := length_rest_next hnext hend
      simp [hend, scan, scanWithin_congr (Nat.le_of_lt hless) (Nat.le_refl _)]

end Cursor

namespace Scan

/-- All tokens of a source. -/
def ofSource (source : String) : Scan :=
  (Cursor.ofSource source).scan

/-- The tokens as a listing gives them: with the end of input, if it was reached. -/
def listed (scan : Scan) : List Token :=
  match scan.ending with
  | .ok finish => scan.tokens ++ [finish]
  | .error _ => scan.tokens

end Scan

end Hallo
