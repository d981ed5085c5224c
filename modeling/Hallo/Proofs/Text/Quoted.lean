import Hallo.Text.Quoted
import Mathlib.Algebra.Group.Nat.Defs

/-!
Quoted texts can be told apart. Each character is read back from the way it stands between the
quotes, whatever follows it, and it never stands there as a line break.
-/
namespace Hallo.Text

/-- The number that a hexadecimal digit stands for. -/
def hexDigitValue (c : Char) : Nat :=
  if c.isDigit then c.toNat - 48 else c.toNat - 87

/-- The number that hexadecimal digits stand for. -/
def hexValue (digits : List Char) : Nat :=
  digits.foldl (fun n c => 16 * n + hexDigitValue c) 0

theorem hexDigitValue_hexDigit : ∀ n < 16, hexDigitValue (hexDigit n) = n := by
  decide

theorem hexDigit_ne_lineBreak : ∀ n < 16, hexDigit n ≠ '\n' := by
  decide

theorem length_hexDigits (width n : Nat) : (hexDigits width n).length = width := by
  induction width generalizing n with
  | zero => rfl
  | succ width ih => simp [hexDigits, ih]

theorem hexValue_hexDigits {width n : Nat} (hn : n < 16 ^ width) :
    hexValue (hexDigits width n) = n := by
  induction width generalizing n with
  | zero =>
    rw [Nat.pow_zero] at hn
    simp only [hexDigits, hexValue, List.foldl_nil]
    omega
  | succ width ih =>
    have hquotient : n / 16 < 16 ^ width := by
      rw [Nat.pow_succ] at hn
      omega
    have hlast : hexDigitValue (hexDigit (n % 16)) = n % 16 :=
      hexDigitValue_hexDigit _ (Nat.mod_lt n (by decide))
    have hothers := ih hquotient
    rw [hexValue] at hothers
    rw [hexDigits, hexValue, List.foldl_append, hothers, List.foldl_cons, List.foldl_nil, hlast]
    omega

theorem lineBreak_notMem_hexDigits (width n : Nat) : '\n' ∉ hexDigits width n := by
  induction width generalizing n with
  | zero => simp [hexDigits]
  | succ width ih =>
    rw [hexDigits, List.mem_append, List.mem_singleton, not_or]
    exact ⟨ih _, (hexDigit_ne_lineBreak _ (Nat.mod_lt n (by decide))).symm⟩

/-- The first character of what stands between quotes, and what is left behind it. -/
def unquotedChar : List Char → Option (Char × List Char)
  | [] => none
  | '\\' :: 'n' :: rest => some ('\n', rest)
  | '\\' :: 'r' :: rest => some ('\r', rest)
  | '\\' :: 't' :: rest => some ('\t', rest)
  | '\\' :: 'x' :: rest => some (Char.ofNat (hexValue (rest.take 2)), rest.drop 2)
  | '\\' :: 'u' :: rest => some (Char.ofNat (hexValue (rest.take 4)), rest.drop 4)
  | '\\' :: 'U' :: rest => some (Char.ofNat (hexValue (rest.take 8)), rest.drop 8)
  | '\\' :: c :: rest => some (c, rest)
  | c :: rest => some (c, rest)

theorem toNat_lt_pow (c : Char) : c.toNat < 16 ^ 8 := by
  have hvalid := c.valid
  simp only [UInt32.isValidChar, Nat.isValidChar] at hvalid
  change c.val.toNat < 16 ^ 8
  omega

/-- Digits that are enough for a character give it back, and leave what stands behind them. -/
theorem read_hexDigits {width : Nat} {c : Char} (hc : c.toNat < 16 ^ width) (more : List Char) :
    (Char.ofNat (hexValue ((hexDigits width c.toNat ++ more).take width)),
      (hexDigits width c.toNat ++ more).drop width) = (c, more) := by
  have hlength := length_hexDigits width c.toNat
  rw [List.take_left' hlength, List.drop_left' hlength, hexValue_hexDigits hc, Char.ofNat_toNat]

theorem unquotedChar_codePointEscape (c : Char) (more : List Char) :
    unquotedChar (codePointEscape c.toNat ++ more) = some (c, more) := by
  unfold codePointEscape
  split
  · rename_i hsmall
    exact congrArg some (read_hexDigits hsmall more)
  · split
    · rename_i hmedium
      exact congrArg some (read_hexDigits hmedium more)
    · exact congrArg some (read_hexDigits (toNat_lt_pow c) more)

theorem unquotedChar_of_ne {c : Char} (hc : c ≠ '\\') (more : List Char) :
    unquotedChar (c :: more) = some (c, more) := by
  unfold unquotedChar
  split <;> simp_all

/-- A character is read back from between quotes. -/
theorem unquotedChar_quotedChar {quote : Char} (hquote : quote = '\'' ∨ quote = '"') (c : Char)
    (more : List Char) : unquotedChar (quotedChar quote c ++ more) = some (c, more) := by
  unfold quotedChar
  split
  · rename_i hescaped
    rcases hescaped with rfl | rfl
    · rcases hquote with rfl | rfl <;> rfl
    · rfl
  · rename_i hplain
    split
    · rename_i hbreak
      rw [hbreak]
      rfl
    · split
      · rename_i hreturn
        rw [hreturn]
        rfl
      · split
        · rename_i htab
          rw [htab]
          rfl
        · split
          · exact unquotedChar_of_ne (not_or.1 hplain).2 more
          · exact unquotedChar_codePointEscape c more

theorem flatMap_quotedChar_injective {quote : Char} (hquote : quote = '\'' ∨ quote = '"') :
    ∀ {s t : List Char}, s.flatMap (quotedChar quote) = t.flatMap (quotedChar quote) → s = t
  | [], [], _ => rfl
  | [], d :: t, heq => by
    have hread := congrArg unquotedChar heq
    rw [List.flatMap_cons, unquotedChar_quotedChar hquote] at hread
    cases hread
  | c :: s, [], heq => by
    have hread := congrArg unquotedChar heq
    rw [List.flatMap_cons, unquotedChar_quotedChar hquote] at hread
    cases hread
  | c :: s, d :: t, heq => by
    have hread := congrArg unquotedChar heq
    rw [List.flatMap_cons, List.flatMap_cons, unquotedChar_quotedChar hquote,
      unquotedChar_quotedChar hquote] at hread
    obtain ⟨rfl, hrest⟩ := Prod.mk.inj (Option.some.inj hread)
    rw [flatMap_quotedChar_injective hquote hrest]

theorem quoteFor_eq (text : List Char) : quoteFor text = '\'' ∨ quoteFor text = '"' := by
  unfold quoteFor
  split
  · exact .inr rfl
  · exact .inl rfl

/-- Different texts are quoted differently. -/
theorem quoted_injective : Function.Injective quoted := by
  intro s t heq
  have hchars := congrArg String.toList heq
  simp only [quoted, String.toList_ofList] at hchars
  obtain ⟨hquote, hinner⟩ := List.cons.inj hchars
  rw [← hquote] at hinner
  have hsame := flatMap_quotedChar_injective (quoteFor_eq s.toList)
    (List.append_cancel_right hinner)
  exact String.toList_injective hsame

theorem lineBreak_notMem_quotedChar {quote : Char} (hquote : quote ≠ '\n') (c : Char) :
    '\n' ∉ quotedChar quote c := by
  unfold quotedChar
  split
  · rename_i hescaped
    rcases hescaped with rfl | rfl
    · simpa using hquote.symm
    · decide
  · split
    · decide
    · rename_i hbreak
      split
      · decide
      · split
        · decide
        · split
          · simpa using Ne.symm hbreak
          · unfold codePointEscape
            split
            · simpa using lineBreak_notMem_hexDigits 2 _
            · split
              · simpa using lineBreak_notMem_hexDigits 4 _
              · simpa using lineBreak_notMem_hexDigits 8 _

/-- A quoted text stands on one line. -/
theorem lineBreak_notMem_quoted (text : String) : '\n' ∉ (quoted text).toList := by
  have hquote : quoteFor text.toList ≠ '\n' := by
    rcases quoteFor_eq text.toList with heq | heq <;> rw [heq] <;> decide
  simp only [quoted, String.toList_ofList, List.mem_append, List.mem_cons, List.mem_flatMap, not_or,
    List.not_mem_nil, not_false_eq_true, and_true]
  refine ⟨⟨hquote.symm, ?_⟩, hquote.symm⟩
  rintro ⟨c, _, hmem⟩
  exact lineBreak_notMem_quotedChar hquote c hmem

end Hallo.Text
