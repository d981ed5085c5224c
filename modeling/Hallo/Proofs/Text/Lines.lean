import Hallo.Text.Blank
import Hallo.Text.Lines
import Mathlib.Data.List.Infix

/-!
Programs on one line. A text whose line breaks are written with a backslash is read back as it was,
unless it holds a backslash with an `n` behind it already.
-/
namespace Hallo.Text

/-- Each line break is written as a backslash and an `n`. -/
def escapeBreaks (text : List Char) : List Char :=
  text.flatMap fun c => if c = '\n' then ['\\', 'n'] else [c]

theorem escapeBreaks_break (text : List Char) :
    escapeBreaks ('\n' :: text) = '\\' :: 'n' :: escapeBreaks text := rfl

theorem escapeBreaks_cons {c : Char} (hc : c ≠ '\n') (text : List Char) :
    escapeBreaks (c :: text) = c :: escapeBreaks text := by
  rw [escapeBreaks, List.flatMap_cons, if_neg hc]
  rfl

theorem notMem_escapeBreaks (text : List Char) : '\n' ∉ escapeBreaks text := by
  rw [escapeBreaks, List.mem_flatMap]
  rintro ⟨c, _, hmem⟩
  split at hmem
  · simp at hmem
  · rename_i hc
    exact hc (List.mem_singleton.1 hmem).symm

theorem mem_escapeBreaks {c : Char} {text : List Char} (hc : c ≠ '\n') (hmem : c ∈ text) :
    c ∈ escapeBreaks text := by
  rw [escapeBreaks, List.mem_flatMap]
  exact ⟨c, hmem, by rw [if_neg hc]; exact List.mem_singleton_self c⟩

/-- Only a backslash with an `n` behind it is read as anything else. -/
theorem unescapeBreaks_cons {c : Char} {text : List Char}
    (hpair : c = '\\' → text.head? ≠ some 'n') :
    unescapeBreaks (c :: text) = c :: unescapeBreaks text := by
  rw [unescapeBreaks]
  rintro rest rfl rfl
  exact hpair rfl rfl

theorem head?_escapeBreaks_ne {text : List Char} (hhead : text.head? ≠ some 'n') :
    (escapeBreaks text).head? ≠ some 'n' := by
  cases text with
  | nil => exact hhead
  | cons c text =>
    by_cases hc : c = '\n'
    · rw [hc, escapeBreaks_break]
      simp
    · rw [escapeBreaks_cons hc]
      exact hhead

theorem unescapeBreaks_escapeBreaks {text : List Char} (hpair : ¬ ['\\', 'n'] <:+: text) :
    unescapeBreaks (escapeBreaks text) = text := by
  induction text with
  | nil => rfl
  | cons c text ih =>
    have hothers := ih fun hinfix => hpair (List.infix_cons hinfix)
    by_cases hc : c = '\n'
    · rw [hc, escapeBreaks_break, unescapeBreaks, hothers]
    · rw [escapeBreaks_cons hc, unescapeBreaks_cons, hothers]
      rintro rfl
      refine head?_escapeBreaks_ne fun hhead => hpair ?_
      obtain ⟨rest, rfl⟩ := List.head?_eq_some_iff.1 hhead
      exact ⟨[], rest, rfl⟩

theorem unifyBreaks_eq_self {text : List Char} (hreturn : '\r' ∉ text) :
    unifyBreaks text = text := by
  induction text with
  | nil => rfl
  | cons c text ih =>
    obtain ⟨hc, hothers⟩ := not_or.1 (mt List.mem_cons.2 hreturn)
    rw [unifyBreaks, ih hothers]
    · rintro rest rfl
      exact absurd rfl hc
    · rintro rfl
      exact absurd rfl hc

theorem dropFinalBreaks_eq_self {text : List Char} (hlast : text.getLast? ≠ some '\n') :
    dropFinalBreaks text = text := by
  rw [← List.head?_reverse] at hlast
  have hdrop : text.reverse.dropWhile (· = '\n') = text.reverse := by
    cases hreverse : text.reverse with
    | nil => rfl
    | cons c rest =>
      rw [hreverse] at hlast
      exact List.dropWhile_cons_of_neg (by simpa using hlast)
  rw [dropFinalBreaks, hdrop, List.reverse_reverse]

theorem linesOf_eq_singleton {text : List Char} (hnonempty : text ≠ []) (hbreak : '\n' ∉ text) :
    linesOf text = [text] := by
  induction text with
  | nil => exact absurd rfl hnonempty
  | cons c text ih =>
    obtain ⟨hc, hothers⟩ := not_or.1 (mt List.mem_cons.2 hbreak)
    rw [linesOf]
    · cases text with
      | nil => rfl
      | cons d text => rw [ih (List.cons_ne_nil d text) hothers]
    · rintro rfl
      exact hc rfl

/-- A text that can be typed on one line: there is something to be seen in it, nothing in it could
    be taken for an escaped line break or for a line break of another kind, and it does not end in
    one. -/
structure Typable (text : List Char) : Prop where
  visible : ∃ c ∈ text, isBlank c = false
  plain : ¬ ['\\', 'n'] <:+: text
  noReturn : '\r' ∉ text
  noFinalBreak : text.getLast? ≠ some '\n'

/-- What can be seen in a text can be seen on its one line: a line break is blank. -/
theorem Typable.exists_mem_escapeBreaks {text : List Char} (htext : Typable text) :
    ∃ c ∈ escapeBreaks text, isBlank c = false := by
  obtain ⟨c, hmem, hc⟩ := htext.visible
  refine ⟨c, mem_escapeBreaks ?_ hmem, hc⟩
  rintro rfl
  exact absurd hc (by decide)

end Hallo.Text
