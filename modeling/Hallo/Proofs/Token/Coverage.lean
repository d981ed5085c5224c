import Hallo.Proofs.Token.Spelling

/-!
Where tokens stand. A scan loses nothing of its source: between the lexemes it finds there are
only spaces, and every token and every error names the place that counting line breaks and
characters gives.
-/
namespace Hallo

namespace Place

/-- The place behind a text, counted from the text itself: a line for each line break, and a column
    for each character since the last of them. -/
def behind (text : List Char) : Place :=
  ⟨1 + text.count '\n', 1 + (text.reverse.takeWhile (· ≠ '\n')).length⟩

theorem behind_concat (text : List Char) (c : Char) :
    behind (text ++ [c]) = (behind text).after c := by
  by_cases hbreak : c = '\n'
  · simp [behind, after, hbreak, Nat.add_assoc]
  · simp [behind, after, hbreak, Nat.add_assoc]

example : behind "<a\n>b".toList = ⟨2, 3⟩ := by decide

/-- Whatever is passed, the place behind it is another one. -/
theorem behind_append_ne (text : List Char) {more : List Char} (hmore : more ≠ []) :
    behind (text ++ more) ≠ behind text := by
  intro hsame
  have hlines : more.count '\n' = 0 := by
    have hline := congrArg line hsame
    simp only [behind, List.count_append] at hline
    omega
  have hbreakless : ∀ c ∈ more.reverse, decide (c ≠ '\n') = true := by
    intro c hmem
    have hne : c ≠ '\n' := fun heq => List.count_eq_zero.1 hlines (heq ▸ List.mem_reverse.1 hmem)
    simpa using hne
  have hcolumn := congrArg column hsame
  simp only [behind, List.reverse_append, List.takeWhile_append_of_pos hbreakless,
    List.length_append, List.length_reverse] at hcolumn
  exact hmore (List.length_eq_zero_iff.1 (by omega))

end Place

/-- How a lexeme stands in a text. The end of input does not stand in it. -/
def Lexeme.WrittenAs : Lexeme → List Char → Prop
  | .integer n, written =>
    written ≠ [] ∧ (∀ c ∈ written, c.isDigit = true) ∧ Decimal.value written = n
  | .text s, written => '>' ∉ s.toList ∧ written = '<' :: (s.toList ++ ['>'])
  | .boolean b, written => written = (Value.glyph b).toList
  | .name s, written => IsName s ∧ written = s.toList
  | .keyword k, written => written = k.text.toList
  | .mark m, written => written = [m.char]
  | .endOfInput, _ => False

theorem Lexeme.WrittenAs.ne_nil {l : Lexeme} {written : List Char}
    (hwritten : l.WrittenAs written) :
    written ≠ [] := by
  cases l with
  | integer n => exact hwritten.1
  | text s => simp [hwritten.2]
  | boolean b =>
    rw [hwritten]
    cases b <;> decide
  | name s =>
    obtain ⟨⟨first, tail, hchars, _⟩, rfl⟩ := hwritten
    simp [hchars]
  | keyword k =>
    rw [hwritten]
    exact k.toList_text_ne_nil
  | mark m =>
    rw [hwritten]
    exact List.cons_ne_nil _ _
  | endOfInput => exact hwritten.elim

/-- What is wrong with a text, and how much of it had been seen when that came out: nothing of an
    unknown character, all of a text literal that is never closed, and all of the digits where
    there are too many. -/
inductive Complaint.About : Complaint → (seen ahead : List Char) → Prop where
  | unknownCharacter {c : Char} {ahead : List Char} (hspace : c ≠ ' ') (hdigit : c.isDigit = false)
      (hopen : c ≠ '<') (hmark : ∀ m : Mark, m.char ≠ c) (hword : Bite.startsWord c = false) :
      About (.unknownCharacter c) [] (c :: ahead)
  | unclosedText {inner : List Char} (hinner : '>' ∉ inner) : About .unclosedText ('<' :: inner) []
  | tooManyDigits {run ahead : List Char} (hrun : ∀ c ∈ run, c.isDigit = true)
      (hlimit : Decimal.digitLimit < run.length) (hahead : ∀ c ∈ ahead.head?, c.isDigit = false) :
      About (.tooManyDigits run.length) run ahead

namespace Bite

/-- All that a bite can be: the end of the text, a lexeme that the text begins with, or a complaint
    about its beginning. -/
inductive Of : List Char → Bite → Prop where
  | endOfInput : Of [] ⟨.ok .endOfInput, 0⟩
  | lexeme {l : Lexeme} {written : List Char} (hwritten : l.WrittenAs written) (ahead : List Char) :
      Of (written ++ ahead) ⟨.ok l, written.length⟩
  | complaint {complaint : Complaint} {seen ahead : List Char}
      (habout : complaint.About seen ahead) :
      Of (seen ++ ahead) ⟨.error complaint, seen.length⟩

namespace Of

variable {text : List Char} {c : Char} {rest : List Char}

theorem lexeme_of_isPrefix {l : Lexeme} {written : List Char} (hwritten : l.WrittenAs written)
    (hbegins : written <+: text) : Of text ⟨.ok l, written.length⟩ := by
  obtain ⟨ahead, rfl⟩ := hbegins
  exact .lexeme hwritten ahead

theorem digits (hdigit : c.isDigit = true) : Of (c :: rest) (Bite.digits (c :: rest)) := by
  have hrun : ∀ d ∈ (c :: rest).takeWhile Char.isDigit, d.isDigit = true :=
    fun d hmem => List.all_eq_true.1 List.all_takeWhile d hmem
  have hne : (c :: rest).takeWhile Char.isDigit ≠ [] := by simp [hdigit]
  have hsplit : (c :: rest).takeWhile Char.isDigit ++ (c :: rest).dropWhile Char.isDigit =
      c :: rest :=
    List.takeWhile_append_dropWhile
  simp only [Bite.digits, if_neg (mt List.isEmpty_iff.1 hne)]
  split
  · rename_i hlimit
    have hahead : ∀ d ∈ ((c :: rest).dropWhile Char.isDigit).head?, d.isDigit = false := by
      intro d hmem
      have hhead := List.head?_dropWhile_not Char.isDigit (c :: rest)
      rw [Option.mem_def.1 hmem] at hhead
      simpa using hhead
    have hof := complaint (.tooManyDigits hrun hlimit hahead)
    rwa [hsplit] at hof
  · exact lexeme_of_isPrefix (l := .integer _) ⟨hne, hrun, rfl⟩ (List.takeWhile_prefix _)

theorem bracketed (rest : List Char) : Of ('<' :: rest) (Bite.bracketed ('<' :: rest)) := by
  by_cases hclosed : '>' ∈ rest
  · obtain ⟨inner, ahead, rfl, hinner⟩ := List.eq_append_cons_of_mem hclosed
    have hs : '>' ∉ (String.ofList inner).toList := by rwa [String.toList_ofList]
    have hbite : Bite.bracketed ('<' :: ((String.ofList inner).toList ++ '>' :: ahead)) =
        ⟨.ok (.text (String.ofList inner)), (String.ofList inner).toList.length + 2⟩ :=
          first_text hs
    rw [String.toList_ofList] at hbite
    rw [hbite]
    have hwritten : (Lexeme.text (String.ofList inner)).WrittenAs ('<' :: (inner ++ ['>'])) :=
      ⟨hs, by rw [String.toList_ofList]⟩
    simpa using lexeme hwritten ahead
  · have hinner : rest.takeWhile (· ≠ '>') = rest := by
      have hne : ∀ d ∈ rest, decide (d ≠ '>') = true := by
        intro d hmem
        have hne : d ≠ '>' := fun heq => hclosed (heq ▸ hmem)
        simpa using hne
      have htake : (rest ++ []).takeWhile (· ≠ '>') = rest := takeWhile_append_of_breaks hne nofun
      rwa [List.append_nil] at htake
    have hbite : Bite.bracketed ('<' :: rest) = ⟨.error .unclosedText, ('<' :: rest).length⟩ := by
      simp only [Bite.bracketed, List.tail_cons, hinner, Nat.lt_irrefl, if_false, List.length_cons]
    have hof := complaint (.unclosedText hclosed)
    rwa [List.append_nil, ← hbite] at hof

theorem word (hword : startsWord c = true) (hdigit : c.isDigit = false) :
    Of (c :: rest) (Bite.word (c :: rest)) := by
  have hfound : ∀ {l : Lexeme}, (Bite.word (c :: rest)).lexeme = .ok l → l.Plausible :=
    plausible_word hword hdigit
  simp only [Bite.word] at hfound ⊢
  split
  · rename_i k hgrow
    have hbegins := (growKeyword_eq_some_iff.1 hgrow).2
    rw [String.toList_singleton] at hbegins
    rw [← String.length_toList]
    exact lexeme_of_isPrefix (l := .keyword k) rfl hbegins
  · rename_i hnone
    simp only [hnone] at hfound
    have hbegins : c :: rest.takeWhile extendsName <+: c :: rest :=
      List.cons_prefix_cons.2 ⟨rfl, List.takeWhile_prefix _⟩
    exact lexeme_of_isPrefix (l := .name _) ⟨hfound rfl, String.toList_ofList.symm⟩ hbegins

theorem boolean {b : Bool} (hboolean : boolean? text = some b) : Of text ⟨.ok (.boolean b), 2⟩ := by
  unfold boolean? at hboolean
  split at hboolean
  · cases hboolean
    have hwritten : (Lexeme.boolean true).WrittenAs [':', ')'] := rfl
    exact lexeme hwritten _
  · cases hboolean
    have hwritten : (Lexeme.boolean false).WrittenAs [':', '('] := rfl
    exact lexeme hwritten _
  · cases hboolean

/-- A bite takes what the text begins with, or complains about it. -/
theorem first (hspace : text.head? ≠ some ' ') : Of text (Bite.first text) := by
  cases text with
  | nil => exact .endOfInput
  | cons c rest =>
    rw [Bite.first]
    split
    · rename_i hdigit
      exact digits hdigit
    · rename_i hdigit
      split
      · rename_i hopen
        rw [hopen]
        exact bracketed rest
      · rename_i hopen
        split
        · rename_i b hboolean
          exact boolean hboolean
        · split
          · rename_i m hmark
            have hchar : m.char = c := by simpa using List.find?_some hmark
            rw [← hchar]
            have hwritten : (Lexeme.mark m).WrittenAs [m.char] := rfl
            exact lexeme hwritten rest
          · rename_i hmark
            split
            · rename_i hword
              exact word hword (by simpa using hdigit)
            · rename_i hword
              have hnone : ∀ m : Mark, m.char ≠ c := by
                intro m
                simpa using List.find?_eq_none.1 hmark m m.mem_all
              exact complaint
                (.unknownCharacter (by simpa using hspace) (by simpa using hdigit) hopen hnone
                (by simpa using hword))

end Of

end Bite

/-- Tokens that stand in a source one behind the other, from one position in it to another, each
    where its place says, and with nothing but spaces before each of them. Positions are given by
    what was passed so far. -/
inductive Covers : (passed : List Char) → List Token → (passed' : List Char) → Prop where
  | nil (passed : List Char) : Covers passed [] passed
  | cons {passed gap written passed' : List Char} {l : Lexeme} {tokens : List Token}
      (hgap : ∀ c ∈ gap, c = ' ') (hwritten : l.WrittenAs written) (hne : written ≠ [])
      (hothers : Covers (passed ++ gap ++ written) tokens passed') :
      Covers passed (⟨l, .behind (passed ++ gap)⟩ :: tokens) passed'

namespace Covers

variable {passed covered : List Char} {tokens : List Token}

theorem exists_passed {token : Token} (hcovers : Covers passed tokens covered)
    (hmem : token ∈ tokens) :
    ∃ more, token.place = .behind (passed ++ more) := by
  induction hcovers with
  | nil => cases hmem
  | @cons passed gap written _ _ _ _ _ _ _ ih =>
    rcases List.mem_cons.1 hmem with rfl | hmem
    · exact ⟨gap, rfl⟩
    · obtain ⟨more, hplace⟩ := ih hmem
      exact ⟨gap ++ written ++ more, by simpa using hplace⟩

/-- No token stands twice: the later ones have the earlier ones behind them. -/
theorem nodup (hcovers : Covers passed tokens covered) : tokens.Nodup := by
  induction hcovers with
  | nil => exact List.nodup_nil
  | cons hgap hwritten hne hothers ih =>
    refine List.nodup_cons.2 ⟨fun hmem => ?_, ih⟩
    obtain ⟨more, hplace⟩ := hothers.exists_passed hmem
    rw [List.append_assoc _ _ more] at hplace
    exact Place.behind_append_ne _ (by simp [hne]) hplace.symm

end Covers

namespace Cursor

/-- A cursor that has come so far in a source and has counted right. -/
structure Reached (source passed : List Char) (c : Cursor) : Prop where
  source_eq : passed ++ c.rest = source
  position_eq : c.position = passed.length
  place_eq : c.place = .behind passed

namespace Reached

variable {source passed : List Char} {c : Cursor}

theorem advance {d : Char} {ahead : List Char} (hc : c.Reached source passed)
    (hrest : c.rest = d :: ahead) :
    c.advance.Reached source (passed ++ [d]) := by
  obtain ⟨passed', rest, position, place⟩ := c
  obtain ⟨hsource, hposition, hplace⟩ := hc
  cases hrest
  refine ⟨by simpa [Cursor.advance] using hsource, ?_, ?_⟩
  · simpa [Cursor.advance] using hposition
  · rw [Place.behind_concat, ← hplace]
    rfl

theorem advanceBy {seen ahead : List Char} (hc : c.Reached source passed)
    (hrest : c.rest = seen ++ ahead) :
    (c.advanceBy seen.length).Reached source (passed ++ seen) := by
  induction seen generalizing c passed with
  | nil => simpa [Cursor.advanceBy] using hc
  | cons d seen ih =>
    have hnext : c.advance.rest = seen ++ ahead := by rw [rest_advance, hrest]; rfl
    have hreached := ih (hc.advance hrest) hnext
    rwa [List.append_assoc] at hreached

theorem skipSpaces (hc : c.Reached source passed) :
    ∃ gap, (∀ d ∈ gap, d = ' ') ∧ c.skipSpaces.rest.head? ≠ some ' ' ∧
      c.skipSpaces.Reached source (passed ++ gap) := by
  refine ⟨c.rest.takeWhile (· = ' '), fun d hmem => ?_, fun hhead => ?_, ?_⟩
  · simpa using List.all_eq_true.1 List.all_takeWhile d hmem
  · have hnot := List.head?_dropWhile_not (· = ' ') c.rest
    rw [rest_skipSpaces] at hhead
    rw [hhead] at hnot
    simp at hnot
  · exact hc.advanceBy List.takeWhile_append_dropWhile.symm

/-- All that the next token can be: the end of input at the end of the source, a token that stands
    behind some spaces, or an error at what stands there. -/
theorem next_cases {result : Except ScanError Token} {after : Cursor} (hc : c.Reached source passed)
    (hnext : c.next = (result, after)) :
    ∃ gap, (∀ d ∈ gap, d = ' ') ∧
      ((passed ++ gap = source ∧ result = .ok ⟨.endOfInput, .behind source⟩ ∧
          after.position = source.length) ∨
        (∃ l written, l.WrittenAs written ∧ result = .ok ⟨l, .behind (passed ++ gap)⟩ ∧
          after.Reached source (passed ++ gap ++ written)) ∨
        ∃ complaint seen ahead, complaint.About seen ahead ∧
          passed ++ gap ++ seen ++ ahead = source ∧
          result = .error ⟨complaint, .behind (passed ++ gap ++ seen)⟩ ∧
          after.position = (passed ++ gap ++ seen).length) := by
  obtain ⟨gap, hgap, hspace, hskipped⟩ := hc.skipSpaces
  refine ⟨gap, hgap, ?_⟩
  have hbite := Bite.Of.first hspace
  rw [next, take] at hnext
  generalize Bite.first c.skipSpaces.rest = bite at hbite hnext
  generalize htext : c.skipSpaces.rest = text at hbite
  cases hbite with
  | endOfInput =>
    cases hnext
    have hsource := hskipped.source_eq
    rw [htext, List.append_nil] at hsource
    exact .inl ⟨hsource, by rw [hskipped.place_eq, hsource], hsource ▸ hskipped.position_eq⟩
  | lexeme hwritten ahead =>
    cases hnext
    exact .inr (.inl ⟨_, _, hwritten, by rw [hskipped.place_eq], hskipped.advanceBy htext⟩)
  | @complaint complaint seen ahead habout =>
    cases hnext
    have hseen := hskipped.advanceBy htext
    refine .inr (.inr ⟨complaint, seen, ahead, habout, ?_, by rw [hseen.place_eq],
      hseen.position_eq⟩)
    rw [List.append_assoc _ seen, ← htext]
    exact hskipped.source_eq

end Reached

end Cursor

namespace Scan

/-- A scan of what is left of a source gives account of all of it. The tokens cover the source up to
    some last spaces; behind these is the end of input, at the end of the source, or that which
    is wrong, and then the error is placed behind what had been seen of it. -/
def Accounts (source passed : List Char) (scan : Scan) : Prop :=
  ∃ covered gap, Covers passed scan.tokens covered ∧ (∀ c ∈ gap, c = ' ') ∧
    match scan.ending with
    | .ok finish =>
      covered ++ gap = source ∧ finish = ⟨.endOfInput, .behind source⟩ ∧
        scan.finish.position = source.length
    | .error error =>
      ∃ seen ahead, error.complaint.About seen ahead ∧ covered ++ gap ++ seen ++ ahead = source ∧
        error.place = .behind (covered ++ gap ++ seen) ∧
        scan.finish.position = (covered ++ gap ++ seen).length

end Scan

/-- The next token is accounted for by its own step, and the others by the scan of what it
    leaves. -/
theorem Cursor.Reached.accounts_scan {source passed : List Char} {c : Cursor}
    (hc : c.Reached source passed) :
    c.scan.Accounts source passed := by
  rw [scan_eq]
  rcases hnext : c.next with ⟨result, after⟩
  obtain ⟨gap, hgap, ⟨hsource, rfl, hposition⟩ | ⟨l, written, hwritten, rfl, hafter⟩ |
    ⟨complaint, seen, ahead, habout, hsource, rfl, hposition⟩⟩ := hc.next_cases hnext
  · exact ⟨passed, gap, .nil passed, hgap, hsource, rfl, hposition⟩
  · have hend : l ≠ .endOfInput := by
      rintro rfl
      exact hwritten
    have hless := length_rest_next hnext hend
    obtain ⟨covered, last, hcovers, hlast, hending⟩ := hafter.accounts_scan
    simp only [if_neg hend]
    exact ⟨covered, last, .cons hgap hwritten hwritten.ne_nil hcovers, hlast, hending⟩
  · exact ⟨passed, gap, .nil passed, hgap, seen, ahead, habout, hsource, rfl, hposition⟩
termination_by c.rest.length

theorem Scan.nodup_tokens (source : String) : (ofSource source).tokens.Nodup := by
  have hstart : (Cursor.ofSource source).Reached source.toList [] := ⟨rfl, rfl, rfl⟩
  obtain ⟨_, _, hcovers, _⟩ := hstart.accounts_scan
  exact hcovers.nodup

/-- Tokenization loses nothing, and its places are exact. The tokens of a source stand in it as they
    are written, with only spaces between them, each at the line and column that its position has.
    The end of input is listed at the end of the source, where the scan comes to its end. If the
    scan fails, the tokens cover the source up to what is wrong: a character that no lexeme begins
    with and where it stands, a text that is not closed and the end of the source, or a run of
    digits beyond the limit. -/
theorem Scan.tokens_cover_source (source : String) :
    ∃ covered gap, Covers [] (ofSource source).tokens covered ∧ (∀ c ∈ gap, c = ' ') ∧
      match (ofSource source).ending with
      | .ok _ =>
        covered ++ gap = source.toList ∧
          (ofSource source).listed = (ofSource source).tokens ++
            [⟨.endOfInput, .behind source.toList⟩] ∧
          (ofSource source).finish.position = source.length
      | .error error =>
        (ofSource source).listed = (ofSource source).tokens ∧
          ∃ seen ahead, error.complaint.About seen ahead ∧
            covered ++ gap ++ seen ++ ahead = source.toList ∧
            error.place = .behind (covered ++ gap ++ seen) ∧
            (ofSource source).finish.position = (covered ++ gap ++ seen).length := by
  have hstart : (Cursor.ofSource source).Reached source.toList [] := ⟨rfl, rfl, rfl⟩
  have haccounts : (ofSource source).Accounts source.toList [] := hstart.accounts_scan
  generalize ofSource source = scan at haccounts
  obtain ⟨tokens, ending, finish⟩ := scan
  obtain ⟨covered, gap, hcovers, hgap, hending⟩ := haccounts
  refine ⟨covered, gap, hcovers, hgap, ?_⟩
  cases ending with
  | ok last =>
    obtain ⟨hsource, rfl, hposition⟩ := hending
    exact ⟨hsource, rfl, String.length_toList ▸ hposition⟩
  | error error => exact ⟨rfl, hending⟩

end Hallo
