import Hallo.Proofs.Decimal
import Hallo.Proofs.Text.Joined
import Hallo.Proofs.Text.Quoted
import Hallo.Value

/-!
Inspected values. An inspection shows the kind of a value and its payload on one line, and tells
values apart.
-/
namespace Hallo

theorem Kind.name_injective : Function.Injective Kind.name := by
  intro k l
  cases k <;> cases l <;> decide

namespace Value

theorem payload_injective {v w : Value} {shown : String} (hkind : v.kind = w.kind)
    (hv : v.payload = some shown) (hw : w.payload = some shown) : v = w := by
  cases v with
  | integer m =>
    cases w with
    | integer n =>
      simp only [payload, Decimal.text?, Option.ite_none_right_eq_some, Option.some.injEq] at hv hw
      exact congrArg integer (Decimal.text_injective (hv.2.trans hw.2.symm))
    | _ => cases hkind
  | text s =>
    cases w with
    | text t => exact congrArg text (Text.quoted_injective (Option.some.inj (hv.trans hw.symm)))
    | _ => cases hkind
  | boolean b =>
    cases w with
    | boolean c =>
      have hsame := Option.some.inj (hv.trans hw.symm)
      revert hsame
      cases b <;> cases c <;> decide
    | _ => cases hkind
  | nothing =>
    cases w with
    | nothing => rfl
    | _ => cases hkind

theorem toList_inspect {v : Value} {shown : String} (hv : v.inspect = some shown) :
    ∃ payload, v.payload = some payload ∧
      shown.toList = "DmmValue(".toList ++
        (v.kind.name.toList ++ ':' :: (' ' :: (payload.toList ++ [')']))) := by
  obtain ⟨payload, hpayload, rfl⟩ := Option.map_eq_some_iff.1 hv
  exact ⟨payload, hpayload, by simp⟩

/-- A value is inspected in its own way. -/
theorem inspect_injective {v w : Value} {shown : String} (hv : v.inspect = some shown)
    (hw : w.inspect = some shown) : v = w := by
  have hcolon (kind : Kind) : ':' ∉ kind.name.toList := by
    cases kind <;> decide
  obtain ⟨first, hfirst, hshown⟩ := toList_inspect hv
  obtain ⟨second, hsecond, hshown'⟩ := toList_inspect hw
  rw [hshown] at hshown'
  obtain ⟨hname, hrest⟩ :=
    Text.append_cons_inj (hcolon _) (hcolon _) (List.append_cancel_left hshown')
  have hkind : v.kind = w.kind := Kind.name_injective (String.toList_injective hname)
  have hsame : first = second :=
    String.toList_injective (List.append_cancel_right (List.cons.inj hrest).2)
  exact payload_injective hkind hfirst (hsame ▸ hsecond)

theorem lineBreak_notMem_payload {v : Value} {shown : String} (hv : v.payload = some shown) :
    '\n' ∉ shown.toList := by
  cases v with
  | integer n =>
    simp only [payload, Decimal.text?, Option.ite_none_right_eq_some, Option.some.injEq] at hv
    rw [← hv.2]
    exact Decimal.lineBreak_notMem_text n
  | text s =>
    cases hv
    exact Text.lineBreak_notMem_quoted s
  | boolean b =>
    cases hv
    cases b <;> decide
  | nothing =>
    cases hv
    decide

/-- A value is shown on one line. -/
theorem lineBreak_notMem_inspect {v : Value} {shown : String} (hv : v.inspect = some shown) :
    '\n' ∉ shown.toList := by
  have hname : '\n' ∉ v.kind.name.toList := by
    cases v.kind <;> decide
  obtain ⟨payload, hpayload, hshown⟩ := toList_inspect hv
  have hinner := lineBreak_notMem_payload hpayload
  simp [hshown, hname, hinner]

end Value

end Hallo
