import Hallo.Decimal
import Mathlib.Algebra.Group.Nat.Defs

/-!
Reading and writing numerals. A numeral reads back as its number, the digit limit on numerals
is the bound on numbers, and no two numbers have the same numeral.
-/
namespace Hallo.Decimal

theorem value_toDigits (n : Nat) : value (Nat.toDigits 10 n) = n :=
  Nat.ofDigitChars_ten_toDigits

theorem bound_eq_pow : bound = 10 ^ digitLimit := by
  unfold bound
  generalize digitLimit = limit
  rfl

theorem bound_pos : 0 < bound := by
  rw [bound_eq_pow]
  exact Nat.pow_pos (by decide)

theorem length_toDigits_le_iff {n : Nat} : (Nat.toDigits 10 n).length ≤ digitLimit ↔ n < bound := by
  rw [bound_eq_pow, Nat.length_toDigits_le_iff (by decide) (by decide)]

theorem toNat_sub_lt_ten {c : Char} (hdigit : c.isDigit = true) : c.toNat - '0'.toNat < 10 := by
  simp only [Char.isDigit, ge_iff_le, Bool.and_eq_true, decide_eq_true_eq,
    UInt32.le_iff_toNat_le] at hdigit
  have hnine : ('9' : Char).val.toNat = 57 := rfl
  have hzero : ('0' : Char).toNat = 48 := rfl
  have hval : c.toNat = c.val.toNat := rfl
  omega

theorem value_cons (c : Char) (digits : List Char) :
    value (c :: digits) = 10 ^ digits.length * (c.toNat - '0'.toNat) + value digits := by
  change Nat.ofDigitChars 10 (c :: digits) 0 = _
  rw [Nat.ofDigitChars_cons, Nat.mul_zero, Nat.zero_add, Nat.ofDigitChars_eq_ofDigitChars_zero]
  rfl

theorem value_lt_pow {digits : List Char} (hdigits : ∀ c ∈ digits, c.isDigit = true) :
    value digits < 10 ^ digits.length := by
  induction digits with
  | nil => decide
  | cons c digits ih =>
    have hfirst := toNat_sub_lt_ten (hdigits c List.mem_cons_self)
    have hothers := ih fun d hmem => hdigits d (List.mem_cons_of_mem c hmem)
    have hscaled := Nat.mul_le_mul_left (10 ^ digits.length) (Nat.le_of_lt_succ hfirst)
    rw [value_cons, List.length_cons, Nat.pow_succ]
    omega

/-- A run of digits within the limit spells a number within the bound. -/
theorem value_lt_bound {digits : List Char} (hdigits : ∀ c ∈ digits, c.isDigit = true)
    (hlength : digits.length ≤ digitLimit) : value digits < bound := by
  rw [bound_eq_pow]
  exact Nat.lt_of_lt_of_le (value_lt_pow hdigits) (Nat.pow_le_pow_right (by decide) hlength)

theorem notMem_repr {c : Char} (hc : c.isDigit = false) (n : Nat) : c ∉ (Nat.repr n).toList := by
  intro hmem
  rw [Nat.toList_repr] at hmem
  rw [Nat.isDigit_of_mem_toDigits (by decide) (by decide) hmem] at hc
  cases hc

/-- Only the numeral of a negative number has a minus sign. -/
theorem repr_ne_minus (m n : Nat) : Nat.repr m ≠ "-" ++ Nat.repr n := by
  intro heq
  apply notMem_repr (c := '-') (by decide) m
  rw [heq, String.toList_append]
  exact List.mem_cons_self

theorem eq_of_repr_eq {m n : Nat} (heq : Nat.repr m = Nat.repr n) : m = n := by
  have hdigits := congrArg String.toList heq
  rw [Nat.toList_repr, Nat.toList_repr] at hdigits
  rw [← value_toDigits m, hdigits, value_toDigits]

theorem text_injective : Function.Injective text := by
  intro a b heq
  cases a with
  | ofNat m =>
    cases b with
    | ofNat n => exact congrArg Int.ofNat (eq_of_repr_eq heq)
    | negSucc n => exact absurd heq (repr_ne_minus m (n + 1))
  | negSucc m =>
    cases b with
    | ofNat n => exact absurd heq.symm (repr_ne_minus n (m + 1))
    | negSucc n =>
      have hsucc := eq_of_repr_eq ((String.append_right_inj "-").1 heq)
      exact congrArg Int.negSucc (Nat.succ.inj hsucc)

theorem lineBreak_notMem_text (n : Int) : '\n' ∉ (text n).toList := by
  cases n with
  | ofNat n => exact notMem_repr (by decide) n
  | negSucc n =>
    rw [text, String.toList_append, List.mem_append, not_or]
    exact ⟨by decide, notMem_repr (by decide) (n + 1)⟩

end Hallo.Decimal
