import Hallo.Proofs.Decimal
import Hallo.Proofs.Token.Keyword

/-!
How lexemes are spelled. A lexeme that a scan can find has a spelling from which a bite takes it
again, whatever comes behind, as long as that does not run on into the lexeme.
-/
namespace Hallo

/-- A text that a bite takes for a name: it begins like one, goes on like one, and does not begin
    with a keyword. -/
def IsName (name : String) : Prop :=
  ∃ first tail, name.toList = first :: tail ∧ Bite.startsWord first = true ∧ first.isDigit = false ∧
    (∀ c ∈ tail, Bite.extendsName c = true) ∧ ∀ k : Keyword, ¬ k.text.toList <+: name.toList

namespace Lexeme

/-- Lexemes that can be found in a text. -/
def Plausible : Lexeme → Prop
  | .integer n => n < Decimal.bound
  | .text s => '>' ∉ s.toList
  | .name s => IsName s
  | .boolean _ => True
  | .keyword _ => True
  | .mark _ => True
  | .endOfInput => True

end Lexeme

namespace Bite

theorem not_startsWord_char (m : Mark) : startsWord m.char = false := by
  cases m <;> decide

theorem ofChar?_eq_none {c : Char} (hword : startsWord c = true) : Mark.ofChar? c = none := by
  cases hmark : Mark.ofChar? c with
  | none => rfl
  | some m =>
    have hchar : m.char = c := by simpa using List.find?_some hmark
    rw [← hchar, not_startsWord_char] at hword
    cases hword

theorem ne_open_of_startsWord {c : Char} (hword : startsWord c = true) : c ≠ '<' := by
  rintro rfl
  revert hword
  decide

theorem first_of_startsWord {c : Char} {rest : List Char} (hword : startsWord c = true)
    (hdigit : c.isDigit = false) (hboolean : boolean? (c :: rest) = none) :
    first (c :: rest) = word (c :: rest) := by
  simp [first, hdigit, ne_open_of_startsWord hword, hboolean, ofChar?_eq_none hword, hword]

theorem plausible_digits {text : List Char} {l : Lexeme} (hok : (digits text).lexeme = .ok l) :
    l.Plausible := by
  simp only [digits] at hok
  split at hok
  · cases hok
  · split at hok
    · cases hok
    · rename_i hlimit
      cases hok
      refine Decimal.value_lt_bound (fun c hmem => ?_) (Nat.not_lt.1 hlimit)
      exact List.all_eq_true.1 List.all_takeWhile c hmem

theorem plausible_bracketed {text : List Char} {l : Lexeme}
    (hok : (bracketed text).lexeme = .ok l) :
    l.Plausible := by
  simp only [bracketed] at hok
  split at hok
  · cases hok
    intro hmem
    rw [String.toList_ofList] at hmem
    simpa using List.all_eq_true.1 List.all_takeWhile _ hmem
  · cases hok

theorem plausible_word {c : Char} {rest : List Char} {l : Lexeme} (hword : startsWord c = true)
    (hdigit : c.isDigit = false) (hok : (word (c :: rest)).lexeme = .ok l) : l.Plausible := by
  simp only [word] at hok
  split at hok
  · cases hok
    trivial
  · rename_i hnone
    cases hok
    refine ⟨c, rest.takeWhile extendsName, String.toList_ofList, hword, hdigit, ?_, ?_⟩
    · exact fun d hmem => List.all_eq_true.1 List.all_takeWhile d hmem
    · intro k hbegins
      rw [String.toList_ofList] at hbegins
      have hfull : k.text.toList <+: c :: rest :=
        hbegins.trans (List.cons_prefix_cons.2 ⟨rfl, List.takeWhile_prefix _⟩)
      have hfound : growKeyword (String.singleton c) rest = some k := by
        rw [growKeyword_eq_some_iff, String.toList_singleton]
        refine ⟨?_, hfull⟩
        cases htext : k.text.toList with
        | nil => exact absurd htext k.toList_text_ne_nil
        | cons d others =>
          rw [htext] at hbegins
          simpa using (List.cons_prefix_cons.1 hbegins).1.symm
      rw [hfound] at hnone
      cases hnone

/-- A bite takes nothing but plausible lexemes. -/
theorem plausible_first {text : List Char} {l : Lexeme} (hok : (first text).lexeme = .ok l) :
    l.Plausible := by
  cases text with
  | nil =>
    cases hok
    trivial
  | cons c rest =>
    simp only [first] at hok
    split at hok
    · exact plausible_digits hok
    · rename_i hdigit
      split at hok
      · exact plausible_bracketed hok
      · split at hok
        · cases hok
          trivial
        · split at hok
          · cases hok
            trivial
          · split at hok
            · rename_i hword
              exact plausible_word hword (by simpa using hdigit) hok
            · cases hok

/-- Text that no lexeme runs on into. A space does not end the first word of the farewell if the
    second one follows. -/
def Breaks : List Char → Prop
  | [] => True
  | c :: rest => c = '\n' ∨ c = '(' ∨ c = ')' ∨ c = ',' ∨ c = ' ' ∧ rest.head? ≠ some 'd'

theorem Breaks.not_extendsName {c : Char} {rest : List Char} (hbreaks : Breaks (c :: rest)) :
    extendsName c = false := by
  rcases hbreaks with rfl | rfl | rfl | rfl | ⟨rfl, _⟩ <;> decide

theorem Breaks.not_isDigit {c : Char} {rest : List Char} (hbreaks : Breaks (c :: rest)) :
    c.isDigit = false := by
  rcases hbreaks with rfl | rfl | rfl | rfl | ⟨rfl, _⟩ <;> decide

theorem takeWhile_append_of_breaks {p : Char → Bool} {run more : List Char}
    (hrun : ∀ c ∈ run, p c = true) (hmore : ∀ c rest, more = c :: rest → p c = false) :
    (run ++ more).takeWhile p = run := by
  rw [List.takeWhile_append_of_pos hrun]
  cases more with
  | nil => simp
  | cons c rest => simp [hmore c rest rfl]

theorem first_integer {n : Nat} {more : List Char} (hn : n < Decimal.bound)
    (hbreaks : Breaks more) :
    first (Nat.toDigits 10 n ++ more) = ⟨.ok (.integer n), (Nat.toDigits 10 n).length⟩ := by
  have hdigits : ∀ c ∈ Nat.toDigits 10 n, c.isDigit = true :=
    fun c hmem => Nat.isDigit_of_mem_toDigits (by decide) (by decide) hmem
  have hrun : (Nat.toDigits 10 n ++ more).takeWhile Char.isDigit = Nat.toDigits 10 n := by
    refine takeWhile_append_of_breaks hdigits ?_
    rintro c rest rfl
    exact hbreaks.not_isDigit
  have hlimit : ¬ Decimal.digitLimit < (Nat.toDigits 10 n).length :=
    Nat.not_lt.2 (Decimal.length_toDigits_le_iff.2 hn)
  have hbite : digits (Nat.toDigits 10 n ++ more) =
      ⟨.ok (.integer n), (Nat.toDigits 10 n).length⟩ := by
    simp [digits, hrun, hlimit, Decimal.value_toDigits]
  cases hchars : Nat.toDigits 10 n with
  | nil => exact absurd hchars Nat.toDigits_ne_nil
  | cons c rest =>
    rw [hchars] at hbite hdigits
    rw [List.cons_append, first, if_pos (hdigits c List.mem_cons_self)]
    exact hbite

theorem first_text {s : String} {more : List Char} (hs : '>' ∉ s.toList) :
    first ('<' :: (s.toList ++ '>' :: more)) = ⟨.ok (.text s), s.toList.length + 2⟩ := by
  have hrun : (s.toList ++ '>' :: more).takeWhile (· ≠ '>') = s.toList := by
    refine takeWhile_append_of_breaks (fun c hmem => ?_) ?_
    · have hne : c ≠ '>' := fun heq => hs (heq ▸ hmem)
      simpa using hne
    · rintro c rest heq
      cases heq
      decide
  have hshort : s.toList.length < (s.toList ++ '>' :: more).length := by
    rw [List.length_append, List.length_cons]
    omega
  have hdigit : ('<' : Char).isDigit = false := by decide
  rw [first, hdigit]
  simp only [Bool.false_eq_true, if_false, if_true, bracketed, List.tail_cons, hrun, hshort,
    String.ofList_toList]

theorem first_boolean (b : Bool) (more : List Char) :
    first ((Value.glyph b).toList ++ more) = ⟨.ok (.boolean b), 2⟩ := by
  cases b <;> rfl

theorem first_mark (m : Mark) (more : List Char) : first (m.char :: more) = ⟨.ok (.mark m), 1⟩ := by
  cases m <;> rfl

theorem first_keyword (k : Keyword) (more : List Char) :
    first (k.text.toList ++ more) = ⟨.ok (.keyword k), k.text.toList.length⟩ := by
  have hfirst : k.text.toList.head?.all (fun c => startsWord c && !c.isDigit && c != ':') =
      true := by
    cases k <;> decide
  cases htext : k.text.toList with
  | nil => exact absurd htext k.toList_text_ne_nil
  | cons c rest =>
    obtain ⟨⟨hword, hdigit⟩, hcolon⟩ : (startsWord c = true ∧ c.isDigit = false) ∧ c ≠ ':' := by
      simpa [htext] using hfirst
    have hgrow : growKeyword (String.singleton c) (rest ++ more) = some k := by
      rw [growKeyword_eq_some_iff, String.toList_singleton, htext]
      exact ⟨by simp, by simp⟩
    have hboolean : boolean? (c :: (rest ++ more)) = none := by
      unfold boolean?
      split <;> simp_all
    rw [List.cons_append, first_of_startsWord hword hdigit hboolean, word, hgrow]
    simp only [← String.length_toList, htext]

/-- No keyword begins in a name and runs on behind it: the only space in a keyword that a name
    could reach is followed by the second word of the farewell. -/
theorem not_isPrefix_append {name : List Char} {more : List Char} {k : Keyword}
    (hextends : ∀ c ∈ name, extendsKeyword c = true → extendsName c = true)
    (hkeyword : ¬ k.text.toList <+: name) (hbreaks : Breaks more) :
    ¬ k.text.toList <+: name ++ more := by
  intro hbegins
  rcases List.prefix_or_prefix_of_prefix hbegins (List.prefix_append name more) with hshort | hlong
  · exact hkeyword hshort
  · obtain ⟨extra, hextra⟩ := hlong
    rw [← hextra, List.prefix_append_right_inj] at hbegins
    have hname : ∀ c ∈ name, extendsName c = true := fun c hmem =>
      hextends c hmem (Keyword.extendsKeyword_of_mem (by rw [← hextra]; simp [hmem]))
    cases extra with
    | nil => exact hkeyword (by simp [← hextra])
    | cons d extra =>
      obtain ⟨rest, rfl⟩ := hbegins
      have hdrop : k.text.toList.dropWhile extendsName = d :: extra := by
        rw [← hextra, List.dropWhile_append_of_pos hname, List.dropWhile_cons,
          hbreaks.not_extendsName]
        rfl
      rcases k.dropWhile_text with hnil | ⟨others, hdann⟩
      · rw [hnil] at hdrop
        cases hdrop
      · rw [hdann] at hdrop
        cases hdrop
        rcases hbreaks with hbreak | hbreak | hbreak | hbreak | ⟨_, hhead⟩
        · cases hbreak
        · cases hbreak
        · cases hbreak
        · cases hbreak
        · exact hhead rfl

theorem boolean?_eq_none {c : Char} {tail more : List Char} (hcolon : c :: tail ≠ [':'])
    (htail : ∀ d ∈ tail, extendsName d = true) : boolean? (c :: (tail ++ more)) = none := by
  cases tail with
  | nil =>
    unfold boolean?
    split <;> simp_all
  | cons d tail =>
    have hd : extendsName d = true := htail d List.mem_cons_self
    have hclose : d ≠ ')' := fun heq => absurd (heq ▸ hd) (by decide)
    have hopen : d ≠ '(' := fun heq => absurd (heq ▸ hd) (by decide)
    unfold boolean?
    split <;> simp_all

/-- A name is taken whole: no keyword begins in it and none runs on behind it. -/
theorem first_of_isName {name : String} {more : List Char} (hname : IsName name)
    (hboolean : boolean? (name.toList ++ more) = none) (hbreaks : Breaks more) :
    first (name.toList ++ more) = ⟨.ok (.name name), name.toList.length⟩ := by
  obtain ⟨c, tail, hchars, hword, hdigit, htail, hkeyword⟩ := hname
  have hrun : (tail ++ more).takeWhile extendsName = tail := by
    refine takeWhile_append_of_breaks htail ?_
    rintro d rest rfl
    exact hbreaks.not_extendsName
  have hextends : ∀ d ∈ c :: tail, extendsKeyword d = true → extendsName d = true := by
    intro d hmem hextends
    rcases List.mem_cons.1 hmem with rfl | hmem
    · simp only [startsWord, extendsKeyword, extendsName, Bool.or_eq_true, decide_eq_true_eq] at *
      rcases hextends with (halpha | rfl) | hline
      · exact .inl halpha
      · exact absurd hword (by decide)
      · exact .inr hline
    · exact htail d hmem
  have hgrow : growKeyword (String.singleton c) (tail ++ more) = none := by
    cases hfound : growKeyword (String.singleton c) (tail ++ more) with
    | none => rfl
    | some k =>
      obtain ⟨_, hbegins⟩ := growKeyword_eq_some_iff.1 hfound
      have hall : k.text.toList <+: c :: tail ++ more := by
        rw [String.toList_singleton] at hbegins
        exact hbegins
      have hnot := hkeyword k
      rw [hchars] at hnot
      exact absurd hall (not_isPrefix_append hextends hnot hbreaks)
  have hsame : String.ofList (c :: tail) = name := by
    rw [← hchars, String.ofList_toList]
  rw [hchars, List.cons_append] at hboolean ⊢
  rw [first_of_startsWord hword hdigit hboolean, word, hgrow]
  simp only [hrun, hsame, List.length_cons]

theorem first_name {name : String} {more : List Char} (hname : IsName name) (hcolon : name ≠ ":")
    (hbreaks : Breaks more) :
    first (name.toList ++ more) = ⟨.ok (.name name), name.toList.length⟩ := by
  refine first_of_isName hname ?_ hbreaks
  obtain ⟨c, tail, hchars, _, _, htail, _⟩ := hname
  rw [hchars]
  refine boolean?_eq_none (fun heq => hcolon ?_) htail
  rw [heq] at hchars
  exact String.toList_injective hchars

end Bite

end Hallo
