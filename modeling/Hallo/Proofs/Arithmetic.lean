import Hallo.Proofs.Token.Layout
import Hallo.Value

/-!
Arithmetic: numerals with signs before them and the four operations between them. What such an
expression equals is said by rules that know nothing of an evaluator; division gives a whole number
and leaves a remainder with the sign of the dividend.
-/
namespace Hallo

/-- A sign before an operand. -/
inductive Sign where
  | plus
  | minus
  deriving DecidableEq, Repr

/-- What an operand with a sign before it comes to. -/
def Sign.apply : Sign → Int → Int
  | .plus, n => n
  | .minus, n => -n

/-- The operations between two operands. -/
inductive Operation where
  | add
  | subtract
  | multiply
  | divide
  deriving DecidableEq, Repr

/-- The whole number that a division comes to. What is left over is smaller than the divisor, and it
    has the sign of the dividend. -/
def IsQuotient (dividend divisor quotient : Int) : Prop :=
  ∃ remainder, dividend = quotient * divisor + remainder ∧ remainder.natAbs < divisor.natAbs ∧
    (remainder = 0 ∨ remainder.sign = dividend.sign)

/-- There is one such number for each divisor other than zero, and it is found by division toward
    zero. -/
theorem isQuotient_iff {n d q : Int} : IsQuotient n d q ↔ truncatingDivide n d = some q := by
  rw [truncatingDivide]
  constructor
  · rintro ⟨r, hn, hsmall, hsign⟩
    have hd : d ≠ 0 := by
      rintro rfl
      simp at hsmall
    have hsum : r + d * q = n := by rw [hn, Int.mul_comm, Int.add_comm]
    rw [if_neg hd, Option.some.injEq]
    -- The remainder is on the side of zero where the dividend is.
    rcases Int.le_total 0 n with hpositive | hnegative
    · have hr : 0 ≤ r := by
        rcases hsign with rfl | hsign
        · exact Int.le_refl 0
        · rwa [← Int.sign_nonneg_iff, hsign, Int.sign_nonneg_iff]
      exact ((Int.tdiv_tmod_unique hpositive hd).2 ⟨hsum, hr, by omega⟩).1
    · have hr : r ≤ 0 := by
        rcases hsign with rfl | hsign
        · exact Int.le_refl 0
        · rwa [← Int.sign_nonpos_iff, hsign, Int.sign_nonpos_iff]
      exact ((Int.tdiv_tmod_unique' hnegative hd).2 ⟨hsum, by omega, hr⟩).1
  · intro hdivide
    split at hdivide
    · cases hdivide
    · rename_i hd
      cases hdivide
      refine ⟨n.tmod d, (Int.tdiv_mul_add_tmod n d).symm, ?_, ?_⟩
      · rw [Int.natAbs_tmod]
        exact Nat.mod_lt _ (Int.natAbs_pos.2 hd)
      · rw [Int.sign_tmod]
        split
        · rename_i hdvd
          exact .inl (Int.tmod_eq_zero_of_dvd hdvd)
        · exact .inr rfl

namespace Operation

/-- What an operation comes to. -/
inductive Yields : Operation → Int → Int → Int → Prop where
  | add (a b : Int) : Yields .add a b (a + b)
  | subtract (a b : Int) : Yields .subtract a b (a - b)
  | multiply (a b : Int) : Yields .multiply a b (a * b)
  | divide {a b q : Int} : IsQuotient a b q → Yields .divide a b q

/-- The result of an operation, if there is one. -/
def result? : Operation → Int → Int → Option Int
  | .add, a, b => some (a + b)
  | .subtract, a, b => some (a - b)
  | .multiply, a, b => some (a * b)
  | .divide, a, b => truncatingDivide a b

theorem result?_eq_some_iff {operation : Operation} {a b v : Int} :
    operation.result? a b = some v ↔ operation.Yields a b v := by
  constructor
  · intro hresult
    cases operation with
    | divide => exact .divide (isQuotient_iff.2 hresult)
    | _ =>
      cases hresult
      constructor
  · intro hyields
    cases hyields with
    | divide hquotient => exact isQuotient_iff.1 hquotient
    | _ => rfl

theorem result?_eq_none_iff {operation : Operation} {a b : Int} :
    operation.result? a b = none ↔ operation = .divide ∧ b = 0 := by
  cases operation <;> simp [result?, truncatingDivide]

end Operation

/-- An expression of arithmetic. -/
inductive Arithmetic where
  | numeral (numeral : Numeral)
  | signed (sign : Sign) (operand : Arithmetic)
  | binary (left : Arithmetic) (operation : Operation) (right : Arithmetic)

namespace Arithmetic

/-- What an expression equals. -/
inductive Equals : Arithmetic → Int → Prop where
  | numeral (n : Numeral) : Equals (.numeral n) n.value
  | signed {operand : Arithmetic} {v : Int} (sign : Sign) :
      Equals operand v → Equals (.signed sign operand) (sign.apply v)
  | binary {left right : Arithmetic} {operation : Operation} {a b v : Int} :
      Equals left a → Equals right b → operation.Yields a b v →
        Equals (.binary left operation right) v

/-- Somewhere in an expression there is a division by what equals zero. -/
inductive DividesByZero : Arithmetic → Prop where
  | here {left right : Arithmetic} : right.Equals 0 → DividesByZero (.binary left .divide right)
  | signed {operand : Arithmetic} (sign : Sign) :
      DividesByZero operand → DividesByZero (.signed sign operand)
  | left {left : Arithmetic} (operation : Operation) (right : Arithmetic) :
      DividesByZero left → DividesByZero (.binary left operation right)
  | right {right : Arithmetic} (left : Arithmetic) (operation : Operation) :
      DividesByZero right → DividesByZero (.binary left operation right)

/-- The value of an expression, if it has one. -/
def value? : Arithmetic → Option Int
  | .numeral n => some n.value
  | .signed sign operand => operand.value?.map sign.apply
  | .binary left operation right =>
    left.value?.bind fun a => right.value?.bind fun b => operation.result? a b

theorem value?_eq_some_iff {e : Arithmetic} {v : Int} : e.value? = some v ↔ e.Equals v := by
  induction e generalizing v with
  | numeral n =>
    constructor
    · rintro ⟨⟩
      exact .numeral n
    · rintro ⟨⟩
      rfl
  | signed sign operand ih =>
    rw [value?, Option.map_eq_some_iff]
    constructor
    · rintro ⟨n, hoperand, rfl⟩
      exact .signed sign (ih.1 hoperand)
    · rintro ⟨⟩
      rename_i n hoperand
      exact ⟨n, ih.2 hoperand, rfl⟩
  | binary left operation right ihleft ihright =>
    simp only [value?, Option.bind_eq_some_iff, ihleft, ihright, Operation.result?_eq_some_iff]
    constructor
    · rintro ⟨a, hleft, b, hright, hyields⟩
      exact .binary hleft hright hyields
    · rintro ⟨⟩
      rename_i a b hleft hright hyields
      exact ⟨a, hleft, b, hright, hyields⟩

theorem value?_eq_none_iff {e : Arithmetic} : e.value? = none ↔ e.DividesByZero := by
  induction e with
  | numeral n => exact ⟨nofun, nofun⟩
  | signed sign operand ih =>
    rw [value?, Option.map_eq_none_iff, ih]
    constructor
    · exact .signed sign
    · rintro ⟨⟩
      assumption
  | binary left operation right ihleft ihright =>
    constructor
    · intro hnone
      cases hleft : left.value? with
      | none => exact .left operation right (ihleft.1 hleft)
      | some a =>
        cases hright : right.value? with
        | none => exact .right left operation (ihright.1 hright)
        | some b =>
          rw [value?, hleft, hright] at hnone
          obtain ⟨rfl, rfl⟩ := Operation.result?_eq_none_iff.1 hnone
          exact .here (value?_eq_some_iff.1 hright)
    · intro hdivides
      cases hdivides with
      | here hright =>
        rw [value?, value?_eq_some_iff.2 hright]
        cases left.value? <;> rfl
      | left _ _ hleft => rw [value?, ihleft.2 hleft, Option.bind_none]
      | right _ _ hright =>
        rw [value?, ihright.2 hright]
        cases left.value? <;> rfl

end Arithmetic

end Hallo
