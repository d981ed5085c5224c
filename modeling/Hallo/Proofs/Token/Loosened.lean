import Hallo.Proofs.Token.Layout

/-!
More spaces between tokens. Nothing that a scan takes for a token is taken otherwise if further
spaces stand before or behind it: a space ends numerals, names and keywords where they ended before,
and no farewell comes about, since between its words there were spaces already.
-/
namespace Hallo

namespace Layout

/-- The layout with further spaces: so many before each piece, and so many at the end. -/
def loosen (extra : Nat → Nat) : Layout → Layout
  | .last spaces => .last (spaces + extra 0)
  | .piece spaces written others =>
    .piece (spaces + extra 0) written (others.loosen fun i => extra (i + 1))

end Layout

namespace Keyword

/-- Keywords, and what is left of the farewell behind each of its words. -/
def phrases : List (List Char) :=
  all.map (fun k => k.text.toList) ++ ["dann auch mal".toList, "auch mal".toList, "mal".toList]

theorem text_mem_phrases (k : Keyword) : k.text.toList ∈ phrases :=
  List.mem_append_left _ (List.mem_map.2 ⟨k, mem_all k, rfl⟩)

variable {p : List Char}

theorem exists_of_mem_phrases (hp : p ∈ phrases) :
    ∃ c tail, p = c :: tail ∧ Bite.startsWord c = true ∧ Bite.extendsName c = true ∧
      c.isDigit = false ∧ c ≠ ':' := by
  have hall : ∀ p ∈ phrases, p.head?.any (fun c =>
      Bite.startsWord c && Bite.extendsName c && !c.isDigit && c != ':') = true := by decide
  have hhead := hall p hp
  cases p with
  | nil => cases hhead
  | cons c tail => exact ⟨c, tail, rfl, by simpa [and_assoc] using hhead⟩

theorem extendsKeyword_of_mem_phrases (hp : p ∈ phrases) :
    ∀ c ∈ p, Bite.extendsKeyword c = true := by
  have hall : ∀ p ∈ phrases, p.all Bite.extendsKeyword = true := by decide
  exact List.all_eq_true.1 (hall p hp)

/-- A keyword and a phrase that begin alike are the same. -/
theorem eq_of_mem_phrases (hp : p ∈ phrases) {k : Keyword}
    (hbegins : p <+: k.text.toList ∨ k.text.toList <+: p) : p = k.text.toList := by
  have hall : ∀ p ∈ phrases, ∀ k ∈ all, p <+: k.text.toList ∨ k.text.toList <+: p →
      p = k.text.toList := by
    decide
  exact hall p hp k (mem_all k) hbegins

/-- Behind the first word of a phrase there is nothing, or one space and another phrase. -/
theorem dropWhile_of_mem_phrases (hp : p ∈ phrases) :
    p.dropWhile Bite.extendsName = [] ∨
      ∃ q ∈ phrases, p.dropWhile Bite.extendsName = ' ' :: q := by
  have hall : ∀ p ∈ phrases, p.dropWhile Bite.extendsName = [] ∨
      ∃ q ∈ phrases, p.dropWhile Bite.extendsName = ' ' :: q := by decide
  exact hall p hp

end Keyword

namespace Layout

/-- The number of spaces at the beginning. -/
def leading : Layout → Nat
  | .last spaces => spaces
  | .piece spaces _ _ => spaces

variable {passed : List Char} {layout : Layout} {tokens : List Token}

/-- Behind the first spaces a layout begins like its loosened version. -/
theorem Shows.exists_rest (hshows : layout.Shows passed tokens) (extra : Nat → Nat) :
    ∃ rest rest', layout.text = List.replicate layout.leading ' ' ++ rest ∧
      (layout.loosen extra).text = List.replicate (layout.leading + extra 0) ' ' ++ rest' ∧
      rest'.head? = rest.head? ∧ rest.head? ≠ some ' ' := by
  cases hshows with
  | last _ n => exact ⟨[], [], (List.append_nil _).symm, (List.append_nil _).symm, rfl, nofun⟩
  | @piece _ written _ others l _ hbite hend _ =>
    have hne := (Bite.writtenAs_of_first hbite hend).ne_nil
    refine ⟨_, _, rfl, rfl, ?_, Bite.head?_ne_space hbite⟩
    simp [List.head?_append_of_ne_nil _ hne]

/-- What comes first in a loosened layout came first before, or it is a space. -/
theorem Shows.head?_loosen (hshows : layout.Shows passed tokens) (extra : Nat → Nat) :
    (layout.loosen extra).text.head? = some ' ' ∨ (layout.loosen extra).text.head? =
      layout.text.head? := by
  obtain ⟨rest, rest', htext, hloosened, hhead, _⟩ := hshows.exists_rest extra
  rw [htext, hloosened]
  cases hspaces : layout.leading + extra 0 with
  | zero =>
    obtain ⟨hnone, _⟩ := Nat.add_eq_zero_iff.1 hspaces
    rw [hnone]
    exact .inr hhead
  | succ n => exact .inl rfl

/-- A phrase behind one space leaves no room for another space. -/
theorem eq_one_of_isPrefix {q rest : List Char} {n : Nat} (hq : q ∈ Keyword.phrases)
    (hrest : rest.head? ≠ some ' ') (hbegins : ' ' :: q <+: List.replicate n ' ' ++ rest) :
    n = 1 ∧ q <+: rest := by
  obtain ⟨c, tail, rfl, _, hname, _⟩ := Keyword.exists_of_mem_phrases hq
  have hspace : c ≠ ' ' := fun heq => absurd (heq ▸ hname) (by decide)
  match n with
  | 0 =>
    obtain ⟨more, rfl⟩ := hbegins
    exact absurd rfl hrest
  | 1 => exact ⟨rfl, (List.cons_prefix_cons.1 hbegins).2⟩
  | n + 2 =>
    have hagain := (List.cons_prefix_cons.1 hbegins).2
    exact absurd (List.cons_prefix_cons.1 hagain).1 hspace

/-- Before a phrase that goes on behind a name with a space, that space was there already: the name
    would not have ended before the next word of the phrase. -/
theorem Shows.isPrefix_of_space (hshows : layout.Shows passed tokens) {extra : Nat → Nat}
    {q : List Char} (hq : q ∈ Keyword.phrases)
    (hends : ∀ d ∈ layout.text.head?, Bite.extendsName d = false)
    (hbegins : ' ' :: q <+: (layout.loosen extra).text)
    (hbehind : q <+: (layout.loosen extra).text.dropWhile (· = ' ') →
      q <+: layout.text.dropWhile (· = ' ')) :
    ' ' :: q <+: layout.text := by
  obtain ⟨rest, rest', htext, hloosened, hhead, hspace⟩ := hshows.exists_rest extra
  rw [hloosened] at hbegins hbehind
  obtain ⟨hone, hrest'⟩ := eq_one_of_isPrefix hq (hhead ▸ hspace) hbegins
  rw [dropWhile_replicate_append _ (hhead ▸ hspace), htext,
    dropWhile_replicate_append _ hspace] at hbehind
  have hrest := hbehind hrest'
  obtain ⟨c, tail, rfl, _, hname, _⟩ := Keyword.exists_of_mem_phrases hq
  rw [htext] at hends ⊢
  obtain hnone | hspaces : layout.leading = 0 ∨ layout.leading = 1 := by omega
  · obtain ⟨more, rfl⟩ := hrest
    rw [hnone] at hends
    have hc := hends c rfl
    rw [hname] at hc
    cases hc
  · rw [hspaces]
    exact List.cons_prefix_cons.2 ⟨rfl, hrest⟩

/-- A phrase that begins with a name begins with it before a looser text only if it did so
    before. -/
theorem Shows.isPrefix_of_name (hshows : layout.Shows passed tokens) {extra : Nat → Nat}
    {p name : List Char} (hp : p ∈ Keyword.phrases) (hname : ∀ d ∈ name, Bite.extendsName d = true)
    (hends : ∀ d ∈ layout.text.head?, Bite.extendsName d = false)
    (hbegins : p <+: name ++ (layout.loosen extra).text)
    (hbehind : ∀ q ∈ Keyword.phrases, q <+: (layout.loosen extra).text.dropWhile (· = ' ') →
      q <+: layout.text.dropWhile (· = ' ')) :
    p <+: name ++ layout.text := by
  rcases List.prefix_or_prefix_of_prefix hbegins
    (List.prefix_append name _) with hshort | ⟨more, rfl⟩
  · exact hshort.trans (List.prefix_append name _)
  · rw [List.prefix_append_right_inj] at hbegins ⊢
    cases more with
    | nil => exact List.nil_prefix
    | cons d more =>
      by_cases hspace : d = ' '
      · subst hspace
        have hdrop : (name ++ ' ' :: more).dropWhile Bite.extendsName = ' ' :: more := by
          rw [List.dropWhile_append_of_pos hname]
          rfl
        rcases Keyword.dropWhile_of_mem_phrases hp with hnone | ⟨q, hq, hmore⟩
        · rw [hdrop] at hnone
          cases hnone
        · rw [hdrop] at hmore
          cases hmore
          exact hshows.isPrefix_of_space hq hends hbegins (hbehind more hq)
      · -- A character of a phrase that is no space would have extended the name.
        have hextends : Bite.extendsName d = true := by
          have hkeyword := Keyword.extendsKeyword_of_mem_phrases hp d (by simp)
          simpa [Bite.extendsKeyword, Bite.extendsName, hspace] using hkeyword
        obtain ⟨others, hothers⟩ := hbegins
        have hhead : (layout.loosen extra).text.head? = some d := by
          rw [← hothers]
          rfl
        rcases hshows.head?_loosen extra with hloosened | hsame
        · rw [hhead] at hloosened
          exact absurd (Option.some.inj hloosened) hspace
        · rw [hhead] at hsame
          rw [hends d hsame.symm] at hextends
          cases hextends

/-- No phrase begins in a loosened layout that did not begin there before. -/
theorem Shows.isPrefix_of_loosen (hshows : layout.Shows passed tokens) {extra : Nat → Nat}
    {p : List Char} (hp : p ∈ Keyword.phrases)
    (hbegins : p <+: (layout.loosen extra).text.dropWhile (· = ' ')) :
    p <+: layout.text.dropWhile (· = ' ') := by
  induction hshows generalizing extra p with
  | last _ n =>
    obtain ⟨c, tail, rfl, _⟩ := Keyword.exists_of_mem_phrases hp
    simp [loosen, text] at hbegins
  | @piece _ written spaces others l _ hbite hend hothers ih =>
    have hwritten := Bite.writtenAs_of_first hbite hend
    obtain ⟨d, rest, rfl⟩ := List.exists_cons_of_ne_nil hwritten.ne_nil
    have hspace : d ≠ ' ' := by simpa using Bite.head?_ne_space hbite
    rw [text, dropWhile_replicate_append _ (by simpa using hspace)]
    rw [loosen, text, dropWhile_replicate_append _ (by simpa using hspace)] at hbegins
    -- Only a word begins like a phrase.
    obtain ⟨c, tail, rfl, hstarts, hname, hdigit, hcolon⟩ := Keyword.exists_of_mem_phrases hp
    obtain rfl : c = d := (List.cons_prefix_cons.1 hbegins).1
    cases l with
    | integer n =>
      rw [hwritten.2.1 c List.mem_cons_self] at hdigit
      cases hdigit
    | text s =>
      cases hwritten.2
      exact absurd hstarts (by decide)
    | boolean b =>
      refine absurd ?_ hcolon
      have hhead := congrArg List.head? hwritten
      cases b <;> exact Option.some.inj hhead
    | name s =>
      obtain ⟨_, _, _, hall, hends, _⟩ := Bite.first_eq_name_iff.1 hbite
      have hword : ∀ x ∈ c :: rest, Bite.extendsName x = true :=
        List.forall_mem_cons.2 ⟨hname, hall⟩
      exact hothers.isPrefix_of_name hp hword hends hbegins fun q hq => ih hq
    | keyword k =>
      have htext : c :: rest = k.text.toList := hwritten
      have hsame : c :: tail = k.text.toList := by
        refine Keyword.eq_of_mem_phrases hp ?_
        rw [← htext]
        exact List.prefix_or_prefix_of_prefix hbegins (List.prefix_append _ _)
      rw [hsame, ← htext]
      exact List.prefix_append _ _
    | mark m =>
      cases hwritten
      rw [Bite.not_startsWord_char] at hstarts
      cases hstarts
    | endOfInput => exact hwritten.elim

/-- A colon is the first half of a boolean before a looser text only if it was so before. -/
theorem Shows.boolean?_loosen (hshows : layout.Shows passed tokens) (extra : Nat → Nat) {c : Char}
    {tail : List Char} (hboolean : Bite.boolean? (c :: (tail ++ layout.text)) = none) :
    Bite.boolean? (c :: (tail ++ (layout.loosen extra).text)) = none := by
  rw [Bite.boolean?_cons_eq_none_iff] at hboolean ⊢
  cases tail with
  | nil =>
    rcases hshows.head?_loosen extra with hspace | hsame
    · rw [List.nil_append, hspace]
      exact fun _ => ⟨by simp, by simp⟩
    · rwa [List.nil_append, hsame]
  | cons d tail => exact hboolean

/-- What was taken for a lexeme is taken for it also where further spaces follow. -/
theorem Shows.first_loosen (hshows : layout.Shows passed tokens) (extra : Nat → Nat)
    {written : List Char} {l : Lexeme}
    (hbite : Bite.first (written ++ layout.text) = ⟨.ok l, written.length⟩)
    (hend : l ≠ .endOfInput) :
    Bite.first (written ++ (layout.loosen extra).text) = ⟨.ok l, written.length⟩ := by
  have hwritten := Bite.writtenAs_of_first hbite hend
  have hhead : ∀ {q : Char → Bool}, q ' ' = false → (∀ c ∈ layout.text.head?, q c = false) →
      ∀ c ∈ (layout.loosen extra).text.head?, q c = false := by
    intro q hspace hbefore c hmem
    rcases hshows.head?_loosen extra with hloosened | hsame
    · rw [hloosened] at hmem
      cases hmem
      exact hspace
    · rw [hsame] at hmem
      exact hbefore c hmem
  cases l with
  | integer n =>
    obtain ⟨hne, hdigits, hbefore, hlimit⟩ := Bite.first_eq_integer_iff.1 hbite
    exact Bite.first_eq_integer_iff.2 ⟨hne, hdigits, hhead rfl hbefore, hlimit⟩
  | text s =>
    obtain ⟨hs, rfl⟩ := hwritten
    exact Bite.first_text_append hs _
  | boolean b =>
    obtain rfl := hwritten
    rw [Bite.first_boolean]
    cases b <;> rfl
  | name s =>
    obtain ⟨c, tail, rfl⟩ := List.exists_cons_of_ne_nil hwritten.ne_nil
    obtain ⟨hstarts, hdigit, hboolean, hall, hbefore, hkeyword, hname⟩ :=
      Bite.first_eq_name_iff.1 hbite
    refine Bite.first_eq_name_iff.2 ⟨hstarts, hdigit, hshows.boolean?_loosen extra hboolean, hall,
      hhead (by decide) hbefore, fun k hbegins => hkeyword k ?_, hname⟩
    have hk := k.text_mem_phrases
    obtain ⟨first, rest, htext, _, hfirst, _⟩ := Keyword.exists_of_mem_phrases hk
    have hc : Bite.extendsName c = true := by
      rw [htext] at hbegins
      rwa [← (List.cons_prefix_cons.1 hbegins).1]
    exact hshows.isPrefix_of_name hk (List.forall_mem_cons.2 ⟨hc, hall⟩) hbefore hbegins
      fun q hq => hshows.isPrefix_of_loosen hq
  | keyword k =>
    obtain rfl := hwritten
    exact Bite.first_keyword k _
  | mark m =>
    obtain rfl := hwritten
    exact Bite.first_mark m _
  | endOfInput => exact hwritten.elim

/-- A loosened layout spells the same lexemes. -/
theorem Shows.spells_loosen (hshows : layout.Shows passed tokens) (extra : Nat → Nat) :
    ∃ n, Spells (layout.loosen extra).text (tokens.map Token.lexeme) (List.replicate n ' ') := by
  induction hshows generalizing extra with
  | last _ n => exact ⟨n + extra 0, .nil _⟩
  | piece hbite hend hothers ih =>
    obtain ⟨n, hspells⟩ := ih fun i => extra (i + 1)
    exact ⟨n, .piece (hothers.first_loosen _ hbite hend) hend hspells _⟩

end Layout

end Hallo
