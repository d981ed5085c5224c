import Hallo.Proofs.Token.Word
import Hallo.Proofs.Token.Scan
import Mathlib.Data.List.Forall2

/-!
Texts laid out. A text that a scan reads to its end is cut into pieces, one for each token, with
only spaces between them; which piece is taken at a place depends on the piece itself and on what
comes directly behind it.
-/
namespace Hallo

namespace Bite

variable {written more : List Char} {c : Char} {tail : List Char}

theorem takeWhile_append_eq_iff {p : Char → Bool} :
    (written ++ more).takeWhile p = written ↔
      (∀ c ∈ written, p c = true) ∧ ∀ c ∈ more.head?, p c = false := by
  constructor
  · intro hrun
    have hall : ∀ c ∈ written, p c = true := by
      rw [← hrun]
      exact fun c hmem => List.all_eq_true.1 List.all_takeWhile c hmem
    refine ⟨hall, fun c hmem => ?_⟩
    obtain ⟨others, rfl⟩ := List.head?_eq_some_iff.1 hmem
    rw [List.takeWhile_append_of_pos hall] at hrun
    simpa [List.takeWhile_cons] using hrun
  · rintro ⟨hall, hhead⟩
    refine takeWhile_append_of_breaks hall ?_
    rintro c others rfl
    exact hhead c rfl

/-- As long as it is, a run is known by its length. -/
theorem takeWhile_append_eq_of_length {p : Char → Bool}
    (hlength : ((written ++ more).takeWhile p).length = written.length) :
    (written ++ more).takeWhile p = written :=
  (List.prefix_of_prefix_length_le (List.takeWhile_prefix p) (List.prefix_append written more)
    (Nat.le_of_eq hlength)).eq_of_length hlength

/-- Numerals begin with a digit, and nothing else does. -/
theorem first_of_isDigit {text : List Char} (hdigit : c.isDigit = true) :
    first (c :: text) = digits (c :: text) := by
  rw [first, if_pos hdigit]

theorem isDigit_of_first {text : List Char} {n : Nat}
    (hok : (first text).lexeme = .ok (.integer n)) :
    ∃ c rest, text = c :: rest ∧ c.isDigit = true := by
  cases text with
  | nil => cases hok
  | cons c rest =>
    by_cases hdigit : c.isDigit = true
    · exact ⟨c, rest, rfl, hdigit⟩
    · rw [first, if_neg hdigit] at hok
      simp only [bracketed, word] at hok
      repeat' split at hok
      all_goals cases hok

/-- A run of digits is taken whole if no digit comes behind it and it is not too long. -/
theorem first_eq_integer_iff {n : Nat} :
    first (written ++ more) = ⟨.ok (.integer n), written.length⟩ ↔
      written ≠ [] ∧ (∀ c ∈ written, c.isDigit = true) ∧ (∀ c ∈ more.head?, c.isDigit = false) ∧
        written.length ≤ Decimal.digitLimit ∧ Decimal.value written = n := by
  constructor
  · intro hbite
    obtain ⟨c, rest, htext, hdigit⟩ := isDigit_of_first (congrArg lexeme hbite)
    have hdigits : digits (written ++ more) = ⟨.ok (.integer n), written.length⟩ := by
      rw [← hbite, htext, first_of_isDigit hdigit]
    simp only [digits] at hdigits
    split at hdigits
    · cases hdigits
    · rename_i hrun
      split at hdigits
      · cases hdigits
      · rename_i hlimit
        obtain ⟨hvalue, hlength⟩ := (Bite.mk.injEq ..).mp hdigits
        have hwhole := takeWhile_append_eq_of_length hlength
        rw [hwhole] at hvalue hlimit hrun
        obtain ⟨hall, hhead⟩ := takeWhile_append_eq_iff.1 hwhole
        refine ⟨by simpa using hrun, hall, hhead, Nat.not_lt.1 hlimit, ?_⟩
        cases hvalue
        rfl
  · rintro ⟨hne, hall, hhead, hlimit, rfl⟩
    obtain ⟨c, rest, rfl⟩ := List.exists_cons_of_ne_nil hne
    have hwhole := takeWhile_append_eq_iff.2 ⟨hall, hhead⟩
    rw [List.cons_append] at hwhole ⊢
    rw [first_of_isDigit (hall c List.mem_cons_self), digits, hwhole]
    simp only [List.isEmpty_cons, Bool.false_eq_true, if_false, if_neg (Nat.not_lt.2 hlimit)]

theorem word_of_first {text : List Char} {s : String} {n : Nat}
    (hbite : first (c :: text) = ⟨.ok (.name s), n⟩) :
    startsWord c = true ∧ c.isDigit = false ∧ boolean? (c :: text) = none ∧ word (c :: text) =
      ⟨.ok (.name s), n⟩ := by
  rw [first] at hbite
  split at hbite
  · simp only [digits] at hbite
    repeat' split at hbite
    all_goals cases hbite
  · rename_i hdigit
    split at hbite
    · simp only [bracketed] at hbite
      split at hbite <;> cases hbite
    · split at hbite
      · cases hbite
      · rename_i hboolean
        split at hbite
        · cases hbite
        · split at hbite
          · rename_i hword
            exact ⟨hword, by simpa using hdigit, hboolean, hbite⟩
          · cases hbite

/-- A name is taken that far if it begins like one and goes on like one up to there, and no keyword
    begins where it does. -/
theorem first_eq_name_iff {s : String} :
    first (c :: (tail ++ more)) = ⟨.ok (.name s), tail.length + 1⟩ ↔
      startsWord c = true ∧ c.isDigit = false ∧ boolean? (c :: (tail ++ more)) = none ∧
        (∀ d ∈ tail, extendsName d = true) ∧ (∀ d ∈ more.head?, extendsName d = false) ∧
        (∀ k : Keyword, ¬ k.text.toList <+: c :: (tail ++ more)) ∧
          s = String.ofList (c :: tail) := by
  constructor
  · intro hbite
    obtain ⟨hstarts, hdigit, hboolean, hword⟩ := word_of_first hbite
    rw [word] at hword
    split at hword
    · cases hword
    · rename_i hgrow
      obtain ⟨hname, hlength⟩ := (Bite.mk.injEq ..).mp hword
      have hwhole := takeWhile_append_eq_of_length (Nat.succ.inj hlength)
      obtain ⟨hall, hhead⟩ := takeWhile_append_eq_iff.1 hwhole
      refine ⟨hstarts, hdigit, hboolean, hall, hhead, fun k hbegins => ?_, ?_⟩
      · rw [growKeyword_singleton_eq_some_iff.2 hbegins] at hgrow
        cases hgrow
      · rw [hwhole] at hname
        cases hname
        rfl
  · rintro ⟨hstarts, hdigit, hboolean, hall, hhead, hkeyword, rfl⟩
    have hgrow : growKeyword (String.singleton c) (tail ++ more) = none := by
      cases hfound : growKeyword (String.singleton c) (tail ++ more) with
      | none => rfl
      | some k => exact absurd (growKeyword_singleton_eq_some_iff.1 hfound) (hkeyword k)
    rw [first_of_startsWord hstarts hdigit hboolean, word, hgrow]
    simp only [takeWhile_append_eq_iff.2 ⟨hall, hhead⟩]

theorem boolean?_cons_eq_none_iff {rest : List Char} :
    boolean? (c :: rest) = none ↔ (c = ':' → rest.head? ≠ some ')' ∧ rest.head? ≠ some '(') := by
  unfold boolean?
  split
  · rename_i heq
    cases heq
    simp
  · rename_i heq
    cases heq
    simp
  · rename_i hyes hno
    simp only [true_iff]
    rintro rfl
    constructor
    · intro hhead
      obtain ⟨others, rfl⟩ := List.head?_eq_some_iff.1 hhead
      exact hyes others rfl
    · intro hhead
      obtain ⟨others, rfl⟩ := List.head?_eq_some_iff.1 hhead
      exact hno others rfl

theorem head?_ne_space {text : List Char} {l : Lexeme} {n : Nat} (hbite : first text = ⟨.ok l, n⟩) :
    text.head? ≠ some ' ' := by
  rintro hspace
  obtain ⟨rest, rfl⟩ := List.head?_eq_some_iff.1 hspace
  cases hbite

/-- What is taken for a lexeme is how it is written. -/
theorem writtenAs_of_first {l : Lexeme} (hbite : first (written ++ more) = ⟨.ok l, written.length⟩)
    (hend : l ≠ .endOfInput) : l.WrittenAs written := by
  have hof := Of.first (head?_ne_space hbite)
  rw [hbite] at hof
  generalize htext : written ++ more = text at hof
  generalize hlength : written.length = n at hof
  cases hof with
  | endOfInput => exact absurd rfl hend
  | lexeme hwritten ahead => rwa [(List.append_inj htext hlength).1]

theorem first_text_append {s : String} (hs : '>' ∉ s.toList) (more : List Char) :
    first ('<' :: (s.toList ++ ['>']) ++ more) =
      ⟨.ok (.text s), ('<' :: (s.toList ++ ['>'])).length⟩ := by
  have hfirst : first ('<' :: (s.toList ++ '>' :: more)) = ⟨.ok (.text s), s.toList.length + 2⟩ :=
    first_text hs
  simpa using hfirst

end Bite

/-- A numeral: a run of digits that is neither empty nor too long. It may begin with zeros. -/
structure Numeral where
  digits : List Char
  ne_nil : digits ≠ []
  isDigit : ∀ c ∈ digits, c.isDigit = true
  length_le : digits.length ≤ Decimal.digitLimit

namespace Numeral

/-- The number that a numeral stands for. -/
def value (n : Numeral) : Nat :=
  Decimal.value n.digits

theorem first (n : Numeral) {more : List Char} (hmore : ∀ c ∈ more.head?, c.isDigit = false) :
    Bite.first (n.digits ++ more) = ⟨.ok (.integer n.value), n.digits.length⟩ :=
  Bite.first_eq_integer_iff.2 ⟨n.ne_nil, n.isDigit, hmore, n.length_le, rfl⟩

theorem exists_of_first {written more : List Char} {n : Nat}
    (hbite : Bite.first (written ++ more) = ⟨.ok (.integer n), written.length⟩) :
    ∃ numeral : Numeral, numeral.digits = written ∧ numeral.value = n := by
  obtain ⟨hne, hdigits, _, hlimit, hvalue⟩ := Bite.first_eq_integer_iff.1 hbite
  exact ⟨⟨written, hne, hdigits, hlimit⟩, rfl, hvalue⟩

end Numeral

theorem dropWhile_replicate_append (n : Nat) {text : List Char} (hspace : text.head? ≠ some ' ') :
    (List.replicate n ' ' ++ text).dropWhile (· = ' ') = text := by
  rw [List.dropWhile_append_of_pos fun c hmem => by simpa using List.eq_of_mem_replicate hmem]
  cases text with
  | nil => rfl
  | cons c rest =>
    have hc : c ≠ ' ' := by simpa using hspace
    simp [hc]

/-- A text cut into pieces, with so many spaces before each piece and behind the last. -/
inductive Layout where
  | last (spaces : Nat)
  | piece (spaces : Nat) (written : List Char) (others : Layout)
  deriving DecidableEq, Repr

namespace Layout

/-- The text as a whole. -/
def text : Layout → List Char
  | .last spaces => List.replicate spaces ' '
  | .piece spaces written others => List.replicate spaces ' ' ++ (written ++ others.text)

/-- The pieces in order. -/
def pieces : Layout → List (List Char)
  | .last _ => []
  | .piece _ written others => written :: others.pieces

theorem exists_of_pieces_eq_nil {layout : Layout} (hpieces : layout.pieces = []) :
    ∃ n, layout = .last n := by
  cases layout with
  | last n => exact ⟨n, rfl⟩
  | piece => cases hpieces

theorem exists_of_pieces_eq_cons {layout : Layout} {written : List Char} {more : List (List Char)}
    (hpieces : layout.pieces = written :: more) :
    ∃ n others, layout = .piece n written others ∧ others.pieces = more := by
  cases layout with
  | last => cases hpieces
  | piece n found others =>
    cases hpieces
    exact ⟨n, others, rfl, rfl⟩

/-- The pieces are what a scan takes for certain tokens, and each of these stands where its piece
    begins. The layout itself begins behind what was passed before it. -/
inductive Shows : (passed : List Char) → Layout → List Token → Prop where
  | last (passed : List Char) (spaces : Nat) : Shows passed (.last spaces) []
  | piece {passed written : List Char} {spaces : Nat} {others : Layout} {l : Lexeme}
      {tokens : List Token}
      (hbite : Bite.first (written ++ others.text) = ⟨.ok l, written.length⟩)
      (hend : l ≠ .endOfInput)
      (hothers : Shows (passed ++ List.replicate spaces ' ' ++ written) others tokens) :
      Shows passed (.piece spaces written others)
        (⟨l, .behind (passed ++ List.replicate spaces ' ')⟩ :: tokens)

/-- Each piece is what is taken for its lexeme before something or other. -/
theorem Shows.forall₂ {passed : List Char} {layout : Layout} {tokens : List Token}
    (hshows : layout.Shows passed tokens) :
    List.Forall₂ (fun written l => ∃ more, Bite.first (written ++ more) = ⟨.ok l, written.length⟩)
      layout.pieces (tokens.map Token.lexeme) := by
  induction hshows with
  | last => exact .nil
  | piece hbite _ _ ih => exact .cons ⟨_, hbite⟩ ih

end Layout

/-- What a scan reads to its end is laid out in the tokens that it finds. -/
theorem Cursor.Reached.exists_layout {source passed : List Char} {c : Cursor} {finish : Token}
    (hc : c.Reached source passed) (hending : c.scan.ending = .ok finish) :
    ∃ layout : Layout, layout.text = c.rest ∧ layout.Shows passed c.scan.tokens := by
  obtain ⟨gap, hgap, hspace, hskipped⟩ := hc.skipSpaces
  obtain ⟨n, rfl⟩ : ∃ n, gap = List.replicate n ' ' := ⟨_, List.eq_replicate_of_mem hgap⟩
  have hrest : c.rest = List.replicate n ' ' ++ c.skipSpaces.rest := by
    have hsame : passed ++ c.rest = passed ++ (List.replicate n ' ' ++ c.skipSpaces.rest) := by
      rw [hc.source_eq, ← List.append_assoc, hskipped.source_eq]
    exact List.append_cancel_left hsame
  have hof := Bite.Of.first hspace
  rcases hnext : c.next with ⟨result, after⟩
  have hbite := hnext
  rw [next, take] at hbite
  rw [scan_eq, hnext] at hending ⊢
  rw [hrest]
  generalize hfirst : Bite.first c.skipSpaces.rest = bite at hof hbite
  generalize htext : c.skipSpaces.rest = text at hof hfirst ⊢
  cases hof with
  | endOfInput =>
    cases hbite
    exact ⟨.last n, (List.append_nil _).symm, .last passed n⟩
  | @lexeme l written hwritten ahead =>
    cases hbite
    have hend : l ≠ .endOfInput := by
      rintro rfl
      exact hwritten
    have hless := length_rest_next hnext hend
    simp only [if_neg hend] at hending ⊢
    have hreached := hskipped.advanceBy htext
    obtain ⟨others, hothers, hshows⟩ := hreached.exists_layout hending
    have hahead : others.text = ahead := by
      rw [hothers, rest_advanceBy, htext, List.drop_left]
    refine ⟨.piece n written others, by rw [Layout.text, hahead], ?_⟩
    rw [hskipped.place_eq]
    exact .piece (by rw [hahead, hfirst]) hend hshows
  | complaint =>
    cases hbite
    cases hending
termination_by c.rest.length

theorem Scan.exists_layout {source : String} {finish : Token}
    (hending : (ofSource source).ending = .ok finish) :
    ∃ layout : Layout, layout.text = source.toList ∧ layout.Shows [] (ofSource source).tokens := by
  have hstart : (Cursor.ofSource source).Reached source.toList [] := ⟨rfl, rfl, rfl⟩
  exact hstart.exists_layout hending

namespace Spells

variable {text rest : List Char} {l : Lexeme} {ls : List Lexeme}

theorem spaces (hspells : Spells text (l :: ls) rest) (n : Nat) :
    Spells (List.replicate n ' ' ++ text) (l :: ls) rest := by
  induction n with
  | zero => exact hspells
  | succ n ih => exact ih.space

/-- A piece with the spaces before it, and what is spelled out behind it. -/
theorem piece {written more : List Char}
    (hbite : Bite.first (written ++ more) = ⟨.ok l, written.length⟩) (hend : l ≠ .endOfInput)
    (hothers : Spells more ls rest) (n : Nat) :
    Spells (List.replicate n ' ' ++ (written ++ more)) (l :: ls) rest :=
  ((of_first hbite hend).append hothers).spaces n

end Spells

end Hallo
