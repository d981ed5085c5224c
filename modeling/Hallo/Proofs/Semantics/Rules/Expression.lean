import Hallo.Proofs.Semantics.Meaning

/-!
The rules about expressions without calls, read as meanings. For each kind of tree, all rules about
it together say how its meaning is put together from the meanings of its parts.
-/
namespace Hallo.Semantics

open Meaning

variable {n : Nat} {s s' : Scene} {story : List Event} {r : Except Fault Outcome}

theorem evaluates_bare_iff :
    Evaluates n .bare s r story s' ↔
      exactly (.error (.violation (.cannotEvaluate .bare))) s r story s' := by
  constructor
  · rintro ⟨⟩
    exact ⟨rfl, rfl, rfl⟩
  · rintro ⟨rfl, rfl, rfl⟩
    exact .bare

theorem evaluates_empty_iff :
    Evaluates n .empty s r story s' ↔ exactly (.ok (.value .nothing)) s r story s' := by
  constructor
  · rintro ⟨⟩
    exact ⟨rfl, rfl, rfl⟩
  · rintro ⟨rfl, rfl, rfl⟩
    exact .empty

theorem evaluates_literal_iff {v : Value} :
    Evaluates n (.literal v) s r story s' ↔ exactly (.ok (.value v)) s r story s' := by
  constructor
  · rintro ⟨⟩
    exact ⟨rfl, rfl, rfl⟩
  · rintro ⟨rfl, rfl, rfl⟩
    exact .literal

/-- A variable has its value in the frame, or there is none. -/
theorem evaluates_var_iff {name : String} :
    Evaluates n (.var name) s r story s' ↔
      looks (fun frame =>
        match frame.get? name with
        | some v => .ok (.value v)
        | none => .error (.violation (.unknownVariable name))) s r story s' := by
  constructor
  · intro h
    cases h with
    | var hvalue => rw [looks, acts, Frame.get?, hvalue]
    | unknownVariable hnone => rw [looks, acts, Frame.get?, hnone]
  · intro h
    cases hvalue : s.frame.get? name with
    | some v =>
      rw [looks, acts, hvalue] at h
      cases h
      exact .var hvalue
    | none =>
      rw [looks, acts, hvalue] at h
      cases h
      exact .unknownVariable hvalue

/-- A check of what was evaluated changes nothing but the result. -/
theorem andThen_results_iff {α β : Type} {R : Meaning α} {P : α → Except Fault β → Prop}
    {r : Except Fault β} :
    andThen R (fun a => results (P a)) s r story s' ↔
      (∃ a, R s (.ok a) story s' ∧ P a r) ∨ ∃ fault, R s (.error fault) story s' ∧
        r = .error fault := by
  constructor
  · rintro (⟨a, middle, first, second, hR, ⟨hP, rfl, rfl⟩, rfl⟩ | hfault)
    · rw [List.append_nil]
      exact .inl ⟨a, hR, hP⟩
    · exact .inr hfault
  · rintro (⟨a, hR, hP⟩ | hfault)
    · exact .inl ⟨a, s', story, [], hR, ⟨hP, rfl, rfl⟩, (List.append_nil story).symm⟩
    · exact .inr hfault

theorem andThen_value_iff {α : Type} {R : Meaning α} {P : α → Except Fault Value → Prop} :
    andThen R (fun a => map .value (results (P a))) s r story s' ↔
      (∃ a found, R s (.ok a) story s' ∧ P a found ∧ r = found.map .value) ∨
        ∃ fault, R s (.error fault) story s' ∧ r = .error fault := by
  constructor
  · rintro (⟨a, middle, first, second, hR, ⟨found, ⟨hP, rfl, rfl⟩, rfl⟩, rfl⟩ | hfault)
    · rw [List.append_nil]
      exact .inl ⟨a, found, hR, hP, rfl⟩
    · exact .inr hfault
  · rintro (⟨a, found, hR, hP, rfl⟩ | hfault)
    · exact .inl ⟨a, s', story, [], hR, ⟨found, ⟨hP, rfl, rfl⟩, rfl⟩, (List.append_nil story).symm⟩
    · exact .inr hfault

theorem evaluates_unary_iff {operator : String} {operand : Node} :
    Evaluates n (.unary operator operand) s r story s' ↔
      andThen (Operand n operand) (fun k => map .value (results (Signed operator k))) s r
        story s' := by
  rw [andThen_value_iff]
  constructor
  · intro h
    cases h with
    | unary hoperand hsigned => exact .inl ⟨_, _, hoperand, hsigned, rfl⟩
    | unaryFailed hoperand => exact .inr ⟨_, hoperand, rfl⟩
  · rintro (⟨k, found, hoperand, hsigned, rfl⟩ | ⟨fault, hoperand, rfl⟩)
    · exact .unary hoperand hsigned
    · exact .unaryFailed hoperand

/-- The left operand is evaluated and checked before the right one is looked at. -/
theorem evaluates_binary_iff {left right : Node} {operator : String} :
    Evaluates n (.binary left operator right) s r story s' ↔
      andThen (Operand n left) (fun j => andThen (Operand n right) fun k =>
        map .value (results (Arithmetic operator j k))) s r story s' := by
  constructor
  · intro h
    cases h with
    | binary hleft hright hresult =>
      exact .inl ⟨_, _, _, _, hleft, andThen_value_iff.2 (.inl ⟨_, _, hright, hresult, rfl⟩), rfl⟩
    | leftFailed hleft => exact .inr ⟨_, hleft, rfl⟩
    | rightFailed hleft hright => exact .inl ⟨_, _, _, _, hleft, .inr ⟨_, hright, rfl⟩, rfl⟩
  · rintro (⟨j, middle, first, second, hleft, hsecond, rfl⟩ | ⟨fault, hleft, rfl⟩)
    · rcases andThen_value_iff.1 hsecond with ⟨k, found, hright, hresult, rfl⟩
        | ⟨fault, hright, rfl⟩
      · exact .binary hleft hright hresult
      · exact .rightFailed hleft hright
    · exact .leftFailed hleft

theorem evaluates_compare_iff {left right : Node} {comparison : Comparison} :
    Evaluates n (.compare left right comparison) s r story s' ↔
      andThen (Evaluates n left) (fun a => andThen (Evaluates n right) fun b =>
        map .value (results (Compared comparison a.get b.get))) s r story s' := by
  constructor
  · intro h
    cases h with
    | compare hleft hright hresult =>
      exact .inl ⟨_, _, _, _, hleft, andThen_value_iff.2 (.inl ⟨_, _, hright, hresult, rfl⟩), rfl⟩
    | comparedLeftFailed hleft => exact .inr ⟨_, hleft, rfl⟩
    | comparedRightFailed hleft hright => exact .inl ⟨_, _, _, _, hleft, .inr ⟨_, hright, rfl⟩, rfl⟩
  · rintro (⟨a, middle, first, second, hleft, hsecond, rfl⟩ | ⟨fault, hleft, rfl⟩)
    · rcases andThen_value_iff.1 hsecond with ⟨b, found, hright, hresult, rfl⟩
        | ⟨fault, hright, rfl⟩
      · exact .compare hleft hright hresult
      · exact .comparedRightFailed hleft hright
    · exact .comparedLeftFailed hleft

theorem operand_iff {node : Node} {r : Except Fault Int} :
    Operand n node s r story s' ↔
      andThen (Evaluates n node) (fun o => results (IsNumber o.get)) s r story s' := by
  rw [andThen_results_iff]
  constructor
  · intro h
    cases h with
    | checked hvalue hnumber => exact .inl ⟨_, hvalue, hnumber⟩
    | failed hvalue => exact .inr ⟨_, hvalue, rfl⟩
  · rintro (⟨o, hvalue, hnumber⟩ | ⟨fault, hvalue, rfl⟩)
    · exact .checked hvalue hnumber
    · exact .failed hvalue

theorem condition_iff {keyword : Keyword} {node : Node} {r : Except Fault Bool} :
    Condition n keyword node s r story s' ↔
      andThen (Evaluates n node) (fun o => results (IsCondition keyword o.get)) s r story s' := by
  rw [andThen_results_iff]
  constructor
  · intro h
    cases h with
    | checked hvalue hcondition => exact .inl ⟨_, hvalue, hcondition⟩
    | failed hvalue => exact .inr ⟨_, hvalue, rfl⟩
  · rintro (⟨o, hvalue, hcondition⟩ | ⟨fault, hvalue, rfl⟩)
    · exact .checked hvalue hcondition
    · exact .failed hvalue

end Hallo.Semantics
