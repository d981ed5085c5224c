import Hallo.Proofs.Text.Lines

/-!
Texts in a row can be told apart again if the separator does not occur in them. Lines are such
texts, and so are names in a list.
-/
namespace Hallo.Text

/-- Where a character stands for the first time, texts are cut in one way only. -/
theorem append_cons_inj {c : Char} {a b r s : List Char} (ha : c ∉ a) (hb : c ∉ b)
    (heq : a ++ c :: r = b ++ c :: s) : a = b ∧ r = s := by
  induction a generalizing b with
  | nil =>
    cases b with
    | nil => exact ⟨rfl, (List.cons.inj heq).2⟩
    | cons d b =>
      obtain ⟨rfl, _⟩ := List.cons.inj heq
      exact absurd List.mem_cons_self hb
  | cons d a ih =>
    cases b with
    | nil =>
      obtain ⟨rfl, _⟩ := List.cons.inj heq
      exact absurd List.mem_cons_self ha
    | cons e b =>
      obtain ⟨rfl, hothers⟩ := List.cons.inj heq
      obtain ⟨rfl, hrest⟩ :=
        ih (mt (List.mem_cons_of_mem d) ha) (mt (List.mem_cons_of_mem d) hb) hothers
      exact ⟨rfl, hrest⟩

section joined

variable {separator : String} {c : Char} {others : List Char}

theorem toList_joined (hseparator : separator.toList = c :: others) (text next : String)
    (texts : List String) :
    (joined separator (text :: next :: texts)).toList =
      text.toList ++ c :: (others ++ (joined separator (next :: texts)).toList) := by
  simp [joined, hseparator]

theorem joined_ne_empty {text : String} {texts : List String} (htext : text ≠ "") :
    joined separator (text :: texts) ≠ "" := by
  cases texts with
  | nil => exact htext
  | cons next texts => simp [joined, htext]

/-- A single text is not several of them: it does not hold the separator. -/
theorem ne_joined (hseparator : separator.toList = c :: others) {single text next : String}
    {texts : List String} (hsingle : c ∉ single.toList) :
    single ≠ joined separator (text :: next :: texts) := by
  rintro rfl
  apply hsingle
  rw [toList_joined hseparator]
  exact List.mem_append_right _ List.mem_cons_self

theorem joined_injective (hseparator : separator.toList = c :: others) :
    ∀ {texts texts' : List String}, (∀ text ∈ texts, text ≠ "" ∧ c ∉ text.toList) →
      (∀ text ∈ texts', text ≠ "" ∧ c ∉ text.toList) →
        joined separator texts = joined separator texts' → texts = texts'
  | [], [], _, _, _ => rfl
  | [], text :: _, _, htexts', heq => by
    exact absurd heq.symm (joined_ne_empty (htexts' text List.mem_cons_self).1)
  | text :: _, [], htexts, _, heq => by
    exact absurd heq (joined_ne_empty (htexts text List.mem_cons_self).1)
  | [text], [text'], _, _, heq => congrArg (fun only => [only]) heq
  | [text], _ :: _ :: _, htexts, _, heq => by
    exact absurd heq (ne_joined hseparator (htexts text List.mem_cons_self).2)
  | _ :: _ :: _, [text'], _, htexts', heq => by
    exact absurd heq.symm (ne_joined hseparator (htexts' text' List.mem_cons_self).2)
  | text :: next :: texts, text' :: next' :: texts', htexts, htexts', heq => by
    obtain ⟨hfirst, hnext⟩ := List.forall_mem_cons.1 htexts
    obtain ⟨hfirst', hnext'⟩ := List.forall_mem_cons.1 htexts'
    have hchars := congrArg String.toList heq
    rw [toList_joined hseparator, toList_joined hseparator] at hchars
    obtain ⟨htext, hrest⟩ := append_cons_inj hfirst.2 hfirst'.2 hchars
    have hjoined := String.toList_injective (List.append_cancel_left hrest)
    rw [String.toList_injective htext, joined_injective hseparator hnext hnext' hjoined]

end joined

theorem linesOf_append_break {line : List Char} (hline : '\n' ∉ line) (rest : List Char) :
    linesOf (line ++ '\n' :: rest) = line :: linesOf rest := by
  induction line with
  | nil => rfl
  | cons c line ih =>
    obtain ⟨hc, hothers⟩ := not_or.1 (mt List.mem_cons.2 hline)
    rw [List.cons_append, linesOf, ih hothers]
    rintro rfl
    exact hc rfl

theorem linesOf_joined {lines : List String}
    (hlines : ∀ line ∈ lines, line ≠ "" ∧ '\n' ∉ line.toList) :
    linesOf (joined "\n" lines).toList = lines.map String.toList := by
  induction lines with
  | nil => rfl
  | cons line lines ih =>
    obtain ⟨⟨hnonempty, hbreak⟩, hothers⟩ := List.forall_mem_cons.1 hlines
    cases lines with
    | nil =>
      rw [joined, linesOf_eq_singleton ?_ hbreak, List.map_singleton]
      exact fun hnil => hnonempty (String.toList_eq_nil_iff.1 hnil)
    | cons next lines =>
      have hseparator : ("\n" : String).toList = ['\n'] := rfl
      rw [toList_joined hseparator, List.nil_append, linesOf_append_break hbreak, ih hothers]
      rfl

/-- Lines in a row are the lines of the text that they make. -/
theorem lines_joined {texts : List String}
    (htexts : ∀ line ∈ texts, line ≠ "" ∧ '\n' ∉ line.toList) :
    lines (joined "\n" texts) = texts := by
  rw [lines, linesOf_joined htexts, List.map_map]
  refine (List.map_congr_left fun line _ => ?_).trans (List.map_id texts)
  exact String.ofList_toList

end Hallo.Text
