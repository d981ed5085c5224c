import Hallo.Token.Lexer

/-!
The keywords as prefixes. No keyword begins another, and the growing run finds the keyword that
the text begins with. Only the farewell goes on beyond what a name could be.
-/
namespace Hallo

namespace Keyword

theorem eq_of_isPrefix {j k : Keyword} (hbegins : j.text.toList <+: k.text.toList) : j = k := by
  have hall : ∀ j ∈ all, ∀ k ∈ all, j.text.toList <+: k.text.toList → j = k := by decide
  exact hall j (mem_all j) k (mem_all k) hbegins

theorem ofText?_eq_some_iff {text : String} {k : Keyword} :
    ofText? text = some k ↔ k.text = text := by
  constructor
  · intro hfind
    simpa using List.find?_some hfind
  · rintro rfl
    have hall : ∀ k ∈ all, ofText? k.text = some k := by decide
    exact hall k (mem_all k)

theorem extendsKeyword_of_mem {k : Keyword} {c : Char} (hmem : c ∈ k.text.toList) :
    Bite.extendsKeyword c = true := by
  have hall : k.text.toList.all Bite.extendsKeyword = true := by
    cases k <;> decide
  exact List.all_eq_true.1 hall c hmem

theorem toList_text_ne_nil (k : Keyword) : k.text.toList ≠ [] := by
  cases k <;> decide

/-- What a keyword has beyond letters, if anything, begins like the second word of the
    farewell. -/
theorem dropWhile_text (k : Keyword) :
    k.text.toList.dropWhile Bite.extendsName = [] ∨
      ∃ rest, k.text.toList.dropWhile Bite.extendsName = ' ' :: 'd' :: rest := by
  cases k with
  | farewell => exact .inr ⟨"ann auch mal".toList, by decide⟩
  | _ => exact .inl (by decide)

end Keyword

namespace Bite

/-- The growing run spells a keyword exactly if the text begins with one that is not shorter than
    the run. -/
theorem growKeyword_eq_some_iff {run : String} {ahead : List Char} {k : Keyword} :
    growKeyword run ahead = some k ↔
      run.toList <+: k.text.toList ∧ k.text.toList <+: run.toList ++ ahead := by
  induction ahead generalizing run with
  | nil =>
    rw [growKeyword, List.append_nil]
    constructor
    · intro hgrow
      split at hgrow
      · rename_i found hfound
        cases hgrow
        rw [Keyword.ofText?_eq_some_iff.1 hfound]
        exact ⟨List.prefix_refl _, List.prefix_refl _⟩
      · cases hgrow
    · rintro ⟨hrun, hk⟩
      have htext : k.text.toList = run.toList := hk.eq_of_length_le hrun.length_le
      rw [Keyword.ofText?_eq_some_iff.2 (String.toList_injective htext)]
  | cons c ahead ih =>
    rw [growKeyword]
    cases hfound : Keyword.ofText? run with
    | some found =>
      have hrun := Keyword.ofText?_eq_some_iff.1 hfound
      constructor
      · intro hgrow
        cases hgrow
        rw [← hrun]
        exact ⟨List.prefix_refl _, List.prefix_append _ _⟩
      · rintro ⟨hbegins, _⟩
        rw [← hrun] at hbegins
        rw [Keyword.eq_of_isPrefix hbegins]
    | none =>
      have hpush : (run.push c).toList = run.toList ++ [c] := String.toList_push c
      simp only
      constructor
      · intro hgrow
        split at hgrow
        · obtain ⟨hrun, hk⟩ := ih.1 hgrow
          rw [hpush] at hrun hk
          exact ⟨(List.prefix_append _ _).trans hrun, by simpa using hk⟩
        · cases hgrow
      · rintro ⟨⟨extra, hextra⟩, hk⟩
        cases extra with
        | nil =>
          rw [List.append_nil] at hextra
          have htext : k.text = run := String.toList_injective hextra.symm
          rw [Keyword.ofText?_eq_some_iff.2 htext] at hfound
          cases hfound
        | cons d extra =>
          rw [← hextra, List.prefix_append_right_inj] at hk
          obtain ⟨rfl, hk⟩ := List.cons_prefix_cons.1 hk
          have hextends : extendsKeyword d = true :=
            Keyword.extendsKeyword_of_mem (by rw [← hextra]; simp)
          rw [if_pos hextends, ih, hpush, ← hextra]
          refine ⟨⟨extra, by simp⟩, ?_⟩
          simpa using hk

end Bite

end Hallo
