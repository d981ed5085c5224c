import Hallo.Node
import Mathlib.Logic.ExistsUnique

/-!
The order of values. Equality, less and greater are read off values each in its own way; within a
kind they agree with each other as they do for numbers, and between kinds none of them holds.
-/
namespace Hallo

/-- The characters of a text as numbers. -/
def Text.codePoints (s : String) : List Nat :=
  s.toList.map Char.toNat

theorem Text.lt_iff_codePoints_lt {s t : String} : s < t ↔ codePoints s < codePoints t := by
  rw [String.lt_iff, codePoints, codePoints]
  generalize s.toList = a
  generalize t.toList = b
  induction a generalizing b with
  | nil => cases b <;> simp
  | cons c a ih =>
    cases b with
    | nil => simp
    | cons d b =>
      have hchar : c = d ↔ c.toNat = d.toNat := Char.toNat_inj.symm
      rw [List.map_cons, List.map_cons, List.cons_lt_cons_iff, List.cons_lt_cons_iff, ih, hchar]
      rfl

namespace Value

/-- One value lies below another: as a smaller number; as a text whose code points come first in the
    order of lists, where the end of a list comes before everything; or as the false boolean below
    the true one. -/
inductive Below : Value → Value → Prop where
  | integers {m n : Int} (h : m < n) : Below (.integer m) (.integer n)
  | texts {s t : String} (h : List.Lex (· < ·) (Text.codePoints s) (Text.codePoints t)) :
      Below (.text s) (.text t)
  | booleans : Below (.boolean false) (.boolean true)

theorem Below.of_text_lt {s t : String} (hlt : s < t) : Below (.text s) (.text t) :=
  .texts (List.lex_lt.2 (Text.lt_iff_codePoints_lt.1 hlt))

/-- A proper beginning of a text lies below it. -/
theorem Below.of_beginning (s : String) {t : String} (ht : t ≠ "") :
    Below (.text s) (.text (s ++ t)) := by
  refine .texts ?_
  have hrest : t.toList.map Char.toNat ≠ [] := by simpa using ht
  rw [Text.codePoints, Text.codePoints, String.toList_append, List.map_append]
  generalize t.toList.map Char.toNat = rest at hrest
  induction s.toList with
  | nil =>
    cases rest with
    | nil => exact absurd rfl hrest
    | cons c rest => exact .nil
  | cons c chars ih => exact .cons ih

/-- The order that is computed is the order that is meant. -/
theorem less_iff_below {a b : Value} : a.less b = true ↔ a.Below b := by
  constructor
  · intro hless
    match a, b with
    | .integer m, .integer n => exact .integers (of_decide_eq_true hless)
    | .text s, .text t => exact .of_text_lt (of_decide_eq_true hless)
    | .boolean false, .boolean true => exact .booleans
  · rintro (hlt | hlex | _)
    · exact decide_eq_true hlt
    · exact decide_eq_true (Text.lt_iff_codePoints_lt.2 (List.lex_lt.1 hlex))
    · rfl

/-- What is greater is what the other one is less than. -/
theorem greater_eq_less (a b : Value) : a.greater b = b.less a := by
  cases a with
  | boolean p =>
    cases b with
    | boolean q => exact Bool.and_comm p !q
    | _ => rfl
  | _ => cases b <;> rfl

theorem Below.irrefl (a : Value) : ¬ a.Below a := by
  rintro (hlt | hlex | _)
  · exact Int.lt_irrefl _ hlt
  · exact List.lt_irrefl _ (List.lex_lt.1 hlex)

theorem Below.trans {a b c : Value} (hab : a.Below b) (hbc : b.Below c) : a.Below c := by
  cases hab with
  | integers hab =>
    cases hbc with
    | integers hbc => exact .integers (Int.lt_trans hab hbc)
  | texts hab =>
    cases hbc with
    | texts hbc =>
      exact .texts (List.lex_lt.2 (List.lt_trans (List.lex_lt.1 hab) (List.lex_lt.1 hbc)))
  | booleans => cases hbc

theorem Below.total {a b : Value} (hkind : a.Orderable b) : a = b ∨ a.Below b ∨ b.Below a := by
  match a, b with
  | .integer m, .integer n =>
    rcases Int.lt_trichotomy m n with hlt | rfl | hgt
    · exact .inr (.inl (.integers hlt))
    · exact .inl rfl
    · exact .inr (.inr (.integers hgt))
  | .text s, .text t =>
    rcases Std.lt_trichotomy s t with hlt | rfl | hgt
    · exact .inr (.inl (.of_text_lt hlt))
    · exact .inl rfl
    · exact .inr (.inr (.of_text_lt hgt))
  | .boolean false, .boolean true => exact .inr (.inl .booleans)
  | .boolean true, .boolean false => exact .inr (.inr .booleans)
  | .boolean false, .boolean false => exact .inl rfl
  | .boolean true, .boolean true => exact .inl rfl
  | .nothing, .nothing => exact .inl rfl

end Value

/-- What a comparison says of two values. -/
def Comparison.Holds : Comparison → Value → Value → Prop
  | .equals, a, b => a = b
  | .less, a, b => a.less b = true
  | .greater, a, b => a.greater b = true

instance (k : Comparison) (a b : Value) : Decidable (k.Holds a b) :=
  match k with
  | .equals => inferInstanceAs (Decidable (a = b))
  | .less => inferInstanceAs (Decidable (a.less b = true))
  | .greater => inferInstanceAs (Decidable (a.greater b = true))

namespace Comparison

variable {a b : Value}

theorem holds_less_iff : less.Holds a b ↔ a.Below b :=
  Value.less_iff_below

theorem holds_greater_iff : greater.Holds a b ↔ b.Below a := by
  rw [Holds, Value.greater_eq_less, Value.less_iff_below]

/-- Of values of one kind, exactly one comparison holds. -/
theorem existsUnique_holds (hkind : a.Orderable b) : ∃! k : Comparison, k.Holds a b := by
  rcases Value.Below.total hkind with rfl | hless | hgreater
  · refine ⟨.equals, rfl, fun k hk => ?_⟩
    cases k with
    | equals => rfl
    | less => exact absurd (holds_less_iff.1 hk) (Value.Below.irrefl a)
    | greater => exact absurd (holds_greater_iff.1 hk) (Value.Below.irrefl a)
  · refine ⟨.less, holds_less_iff.2 hless, fun k hk => ?_⟩
    cases k with
    | less => rfl
    | equals =>
      obtain rfl := hk
      exact absurd hless (Value.Below.irrefl a)
    | greater => exact absurd (hless.trans (holds_greater_iff.1 hk)) (Value.Below.irrefl a)
  · refine ⟨.greater, holds_greater_iff.2 hgreater, fun k hk => ?_⟩
    cases k with
    | greater => rfl
    | equals =>
      obtain rfl := hk
      exact absurd hgreater (Value.Below.irrefl a)
    | less => exact absurd (hgreater.trans (holds_less_iff.1 hk)) (Value.Below.irrefl b)

end Comparison

end Hallo
