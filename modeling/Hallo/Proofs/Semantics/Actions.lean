import Hallo.Proofs.Semantics.Means
import Hallo.Proofs.Semantics.Rules.Call
import Hallo.Proofs.Semantics.Rules.Statement

/-!
The meanings of single actions: operations on values, and what reads or changes the scene.
-/
namespace Hallo.Semantics

open Meaning
open Run (Means)

theorem means_number (v : Value) : Means (fun _ => Run.number v) (results (IsNumber v)) := by
  refine .results ?_ fun hnumber m => ?_
  · cases v with
    | integer k => exact ⟨_, .integer k⟩
    | _ => exact ⟨_, .other (by simp [Value.kind])⟩
  · cases hnumber with
    | integer => rfl
    | other hkind =>
      cases v with
      | integer => exact absurd rfl hkind
      | _ => rfl

theorem means_condition (keyword : Keyword) (v : Value) :
    Means (fun _ => Run.condition keyword v) (results (IsCondition keyword v)) := by
  refine .results ?_ fun hcondition m => ?_
  · cases v with
    | boolean b => exact ⟨_, .boolean b⟩
    | _ => exact ⟨_, .other (by simp [Value.kind])⟩
  · cases hcondition with
    | boolean => rfl
    | other hkind =>
      cases v with
      | boolean => exact absurd rfl hkind
      | _ => rfl

theorem means_applyUnary (operator : String) (k : Int) :
    Means (fun _ => Run.applyUnary operator k) (results (Signed operator k)) := by
  refine .results ?_ fun hsigned m => ?_
  · by_cases hplus : operator = "+"
    · subst hplus
      exact ⟨_, .plus k⟩
    · by_cases hminus : operator = "-"
      · subst hminus
        exact ⟨_, .minus k⟩
      · exact ⟨_, .invalid hplus hminus k⟩
  · cases hsigned with
    | plus => rfl
    | minus => rfl
    | invalid hplus hminus =>
      rw [Run.applyUnary, if_neg hminus, if_neg hplus]
      rfl

/-- The divisor is compared with zero before the division, so every division has a result. -/
theorem means_applyBinary (operator : String) (j k : Int) :
    Means (fun _ => Run.applyBinary operator j k) (results (Arithmetic operator j k)) := by
  refine .results ?_ fun hresult m => ?_
  · by_cases hoperator : operator ∈ ["+", "-", "*", "/"]
    · simp only [List.mem_cons, List.not_mem_nil, or_false] at hoperator
      rcases hoperator with rfl | rfl | rfl | rfl
      · exact ⟨_, .plus j k⟩
      · exact ⟨_, .minus j k⟩
      · exact ⟨_, .times j k⟩
      · by_cases hzero : k = 0
        · subst hzero
          exact ⟨_, .dividedByZero j⟩
        · exact ⟨_, .divided hzero⟩
    · exact ⟨_, .invalid hoperator j k⟩
  · cases hresult with
    | plus => rfl
    | minus => rfl
    | times => rfl
    | divided hzero => simp [Run.applyBinary, hzero, truncatingDivide, Run.toEnding]
    | dividedByZero => rfl
    | invalid hoperator =>
      simp only [List.mem_cons, List.not_mem_nil, or_false, not_or] at hoperator
      simp [Run.applyBinary, hoperator, Run.toEnding]

theorem means_applyComparison (comparison : Comparison) (a b : Value) :
    Means (fun _ => Run.applyComparison comparison a b) (results (Compared comparison a b)) := by
  refine .results ?_ fun hresult m => ?_
  · by_cases hkind : a.kind = b.kind
    · cases comparison with
      | equals => exact ⟨_, .equals a b⟩
      | less => exact ⟨_, .less hkind Comparison.holds_less_iff⟩
      | greater => exact ⟨_, .greater hkind Comparison.holds_greater_iff⟩
    · by_cases horder : comparison = .equals
      · subst horder
        exact ⟨_, .equals a b⟩
      · exact ⟨_, .unordered horder hkind⟩
  · cases hresult with
    | equals => rfl
    | less hkind hholds =>
      have horderable : a.Orderable b := hkind
      rw [Run.applyComparison, if_pos horderable,
        Bool.eq_iff_iff.2 (hholds.trans Comparison.holds_less_iff.symm)]
      rfl
    | greater hkind hholds =>
      have horderable : a.Orderable b := hkind
      rw [Run.applyComparison, if_pos horderable,
        Bool.eq_iff_iff.2 (hholds.trans Comparison.holds_greater_iff.symm)]
      rfl
    | unordered horder hkind =>
      cases comparison with
      | equals => exact absurd rfl horder
      | less | greater =>
        have horderable : ¬ a.Orderable b := hkind
        rw [Run.applyComparison, if_neg horderable]
        rfl

theorem means_display (v : Value) : Means (fun _ => Run.display v) (looks fun _ => display v) := by
  refine .looks fun m => ?_
  rw [Run.on_display, display]
  cases v.display <;> rfl

theorem means_assign (name : String) (v : Value) :
    Means (fun _ => Run.assign name v)
      (acts fun s => (.ok (), [], { s with frame := s.frame.set name v })) :=
  .acts fun _ _ => rfl

theorem means_declareRoutine (routine : Routine) :
    Means (fun _ => Run.declareRoutine routine) (acts fun s =>
      match s.frame.declare? routine with
      | some frame => (.ok (), [], { s with frame := frame })
      | none => (.error (.violation (.alreadyDeclared routine.name)), [], s)) := by
  refine .acts fun m _ => ?_
  rw [Run.on_declareRoutine, Machine.scene]
  cases m.stack.top.declare? routine with
  | some frame => rfl
  | none =>
    dsimp only
    rw [← Machine.scene, Machine.moved_scene]
    rfl

theorem means_shout (intensity : Int) (text : String) :
    Means (fun _ => Run.shout intensity text)
      (acts fun s => (.ok (), [.shout intensity text text], s)) := by
  refine .acts fun m hm => ?_
  rw [Run.on_shout_of_quiet hm, Machine.moved, Machine.scene, CallStack.setTop_top]
  rfl

theorem means_askValue (prompt : String) :
    Means (fun _ => Run.askValue prompt) (acts fun s =>
      (match Value.ofAnswer (s.answers.head?.join.getD "") with
        | .ok v => .ok v
        | .error error => .error (.parse error),
      [.question .program prompt s.answers.head?.join],
      { s with answers := s.answers.tail })) := by
  refine .acts fun m _ => ?_
  rw [Run.on_askValue, Machine.moved, Machine.scene, CallStack.setTop_top]
  dsimp only
  cases Value.ofAnswer (m.answers.head?.join.getD "") <;> rfl

theorem means_routineFor (callee : String) (count : Nat) :
    Means (fun _ => Run.routineFor callee count) (looks (routineFor callee count)) := by
  refine .looks fun m => ?_
  rw [Run.routineFor, Run.on_bind_of_ok (Run.on_top m), routineFor]
  cases m.stack.top.function? callee with
  | none => rfl
  | some routine =>
    dsimp only
    split <;> rfl

end Hallo.Semantics
