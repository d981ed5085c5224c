import Hallo.Proofs.Decimal
import Hallo.Proofs.Semantics.Binding
import Hallo.Proofs.Semantics.Meaning

/-!
The rules about statements, lists and whole programs, read as meanings.
-/
namespace Hallo.Semantics

open Meaning

variable {n : Nat} {s s' : Scene} {story : List Event}

section statements

variable {r : Except Fault Outcome}

theorem evaluates_block_iff {statements : List Node} :
    Evaluates n (.block statements) s r story s' ↔ Runs n statements s r story s' := by
  constructor
  · rintro ⟨⟩
    assumption
  · exact .block

theorem evaluates_assign_iff {target : String} {value : Node} :
    Evaluates n (.assign target value) s r story s' ↔
      andThen (Evaluates n value) (fun o => map (fun _ => .value .nothing)
        (acts fun s => (.ok (), [], { s with frame := s.frame.set target o.get }))) s r
          story s' := by
  constructor
  · intro h
    cases h with
    | assign hvalue htable =>
      obtain rfl := bound_iff.1 htable
      exact .inl ⟨_, _, _, [], hvalue, ⟨.ok (), rfl, rfl⟩, (List.append_nil _).symm⟩
    | assignFailed hvalue => exact .inr ⟨_, hvalue, rfl⟩
  · rintro (⟨o, middle, first, second, hvalue, ⟨_, hacts, rfl⟩, rfl⟩ | ⟨fault, hvalue, rfl⟩)
    · cases hacts
      rw [List.append_nil]
      exact .assign hvalue (bound_iff.2 rfl)
    · exact .assignFailed hvalue

theorem evaluates_declare_iff {name : String} {params : List String} {body : Node} :
    Evaluates n (.declare name params body) s r story s' ↔
      map (fun _ => .value .nothing) (acts fun s =>
        match s.frame.declare? ⟨name, params, body⟩ with
        | some frame => (.ok (), [], { s with frame := frame })
        | none => (.error (.violation (.alreadyDeclared name)), [], s)) s r story s' := by
  constructor
  · intro h
    cases h with
    | declare hnone =>
      refine ⟨.ok (), ?_, rfl⟩
      simp only [acts, Frame.declare?, Frame.function?, hnone]
    | alreadyDeclared hroutine =>
      refine ⟨.error _, ?_, rfl⟩
      simp only [acts, Frame.declare?, Frame.function?, hroutine]
  · rintro ⟨_, hacts, rfl⟩
    cases hroutine : s.frame.function? name with
    | none =>
      simp only [acts, Frame.declare?, hroutine] at hacts
      cases hacts
      exact .declare hroutine
    | some routine =>
      simp only [acts, Frame.declare?, hroutine] at hacts
      cases hacts
      exact .alreadyDeclared hroutine

theorem evaluates_branch_iff {test body : Node} :
    Evaluates n (.branch test body) s r story s' ↔
      andThen (Condition n .branch test) (fun holds =>
        if holds then
          andThen (Evaluates n body) (unlessReturning (exactly (.ok (.value .nothing))))
        else exactly (.ok (.value .nothing))) s r story s' := by
  constructor
  · intro h
    cases h with
    | branchTaken htest hbody =>
      refine .inl ⟨true, _, _, _, htest, andThen_unlessReturning_iff.2 (.inl ?_), rfl⟩
      exact ⟨_, _, _, [], hbody, ⟨rfl, rfl, rfl⟩, (List.append_nil _).symm⟩
    | branchLeft htest hbody hleaves =>
      exact .inl ⟨true, _, _, _, htest, andThen_unlessReturning_iff.2 (.inr ⟨hbody, hleaves⟩), rfl⟩
    | branchSkipped htest =>
      exact .inl ⟨false, _, _, [], htest, ⟨rfl, rfl, rfl⟩, (List.append_nil _).symm⟩
    | branchFailed htest => exact .inr ⟨_, htest, rfl⟩
  · rintro (⟨_ | _, middle, first, second, htest, hrest, rfl⟩ | ⟨fault, htest, rfl⟩)
    · obtain ⟨rfl, rfl, rfl⟩ := hrest
      rw [List.append_nil]
      exact .branchSkipped htest
    · rcases andThen_unlessReturning_iff.1 hrest with
        ⟨v, later, _, _, hbody, ⟨rfl, rfl, rfl⟩, rfl⟩ | ⟨hbody, hleaves⟩
      · rw [List.append_nil]
        exact .branchTaken htest hbody
      · exact .branchLeft htest hbody hleaves
    · exact .branchFailed htest

/-- The rounds of a loop, one after another. The induction is over all rules at once. -/
theorem loop_of_evaluates {n : Nat} {node : Node} {s s' : Scene} {r : Except Fault Outcome}
    {story : List Event} (h : Evaluates n node s r story s') :
    ∀ test body : Node, node = .loop test body →
      Loop (Condition n .loop test) (Evaluates n body) s r story s' := by
  apply @Evaluates.rec
    (fun n node s r story s' _ => ∀ test body : Node, node = .loop test body →
      Loop (Condition n .loop test) (Evaluates n body) s r story s')
    (fun _ _ _ _ _ _ _ => True) (fun _ _ _ _ _ _ _ _ => True) (fun _ _ _ _ _ _ _ => True)
    (fun _ _ _ _ _ _ _ => True) (fun _ _ _ _ _ _ _ => True) (t := h)
  case loopAgain =>
    rintro n s s' s'' last test body v r story story' story'' htest hbody hagain - - ih _ _ ⟨⟩
    exact .again htest hbody (ih test body rfl)
  case loopLeft =>
    rintro n s s' s'' test body r story story' htest hbody hleaves - - _ _ ⟨⟩
    exact .left htest hbody hleaves
  case loopDone =>
    rintro n s s' test body story htest - _ _ ⟨⟩
    exact .done htest
  case loopFailed =>
    rintro n s s' test body fault story htest - _ _ ⟨⟩
    exact .failed htest
  -- No other rule is about loops.
  all_goals
    intros
    first
      | exact trivial
      | exact Node.noConfusion ‹_ = Node.loop _ _›

/-- The rounds that the rules allow one by one make up a loop, and the other way round. -/
theorem evaluates_loop_iff {test body : Node} :
    Evaluates n (.loop test body) s r story s' ↔
      Loop (Condition n .loop test) (Evaluates n body) s r story s' := by
  constructor
  · intro h
    exact loop_of_evaluates h test body rfl
  · intro h
    induction h with
    | again htest hbody _ ih => exact .loopAgain htest hbody ih
    | left htest hbody hleaves => exact .loopLeft htest hbody hleaves
    | done htest => exact .loopDone htest
    | failed htest => exact .loopFailed htest

theorem evaluates_giveBack_iff {expression : Node} :
    Evaluates n (.giveBack expression) s r story s' ↔
      map (fun o => .returning o.get) (Evaluates n expression) s r story s' := by
  constructor
  · rintro ⟨⟩
    exact ⟨_, by assumption, rfl⟩
  · rintro ⟨_, hvalue, rfl⟩
    exact .giveBack hvalue

end statements

section lists

variable {node : Node} {nodes : List Node}

theorem runs_nil_iff {r : Except Fault Outcome} :
    Runs n [] s r story s' ↔ exactly (.ok (.value .nothing)) s r story s' := by
  constructor
  · rintro ⟨⟩
    exact ⟨rfl, rfl, rfl⟩
  · rintro ⟨rfl, rfl, rfl⟩
    exact .nil

theorem runs_cons_iff {r : Except Fault Outcome} :
    Runs n (node :: nodes) s r story s' ↔
      andThen (Evaluates n node) (unlessReturning (Runs n nodes)) s r story s' := by
  rw [andThen_unlessReturning_iff]
  constructor
  · intro h
    cases h with
    | next hfirst hothers => exact .inl ⟨_, _, _, _, hfirst, hothers, rfl⟩
    | left hfirst hleaves => exact .inr ⟨hfirst, hleaves⟩
  · rintro (⟨v, middle, first, second, hfirst, hothers, rfl⟩ | ⟨hfirst, hleaves⟩)
    · exact .next hfirst hothers
    · exact .left hfirst hleaves

theorem values_nil_iff {r : Except Fault (List Value)} :
    Values n [] s r story s' ↔ exactly (.ok []) s r story s' := by
  constructor
  · rintro ⟨⟩
    exact ⟨rfl, rfl, rfl⟩
  · rintro ⟨rfl, rfl, rfl⟩
    exact .nil

theorem values_cons_iff {r : Except Fault (List Value)} :
    Values n (node :: nodes) s r story s' ↔
      andThen (Evaluates n node) (fun o => map (o.get :: ·) (Values n nodes)) s r story s' := by
  constructor
  · intro h
    cases h with
    | next hfirst hothers => exact .inl ⟨_, _, _, _, hfirst, ⟨_, hothers, rfl⟩, rfl⟩
    | failed hfirst => exact .inr ⟨_, hfirst, rfl⟩
  · rintro (⟨o, middle, first, second, hfirst, ⟨_, hothers, rfl⟩, rfl⟩ | ⟨fault, hfirst, rfl⟩)
    · exact .next hfirst hothers
    · exact .failed hfirst

theorem renders_nil_iff {r : Except Fault String} :
    Renders n [] s r story s' ↔ exactly (.ok "") s r story s' := by
  constructor
  · rintro ⟨⟩
    exact ⟨rfl, rfl, rfl⟩
  · rintro ⟨rfl, rfl, rfl⟩
    exact .nil

/-- The display of a value, which may be too long to be written. -/
def display (v : Value) : Except Fault String :=
  match v.display with
  | some text => .ok text
  | none => .error (.unwritable .longInteger)

theorem text?_eq (k : Int) :
    Decimal.text? k =
      if (Nat.toDigits 10 k.natAbs).length ≤ 4300 then some (toString k) else none := by
  have hlength : (Nat.toDigits 10 k.natAbs).length ≤ 4300 ↔ Decimal.Writable k :=
    Decimal.length_toDigits_le_iff
  have htext : Decimal.text k = toString k := by cases k <;> rfl
  simp only [Decimal.text?, hlength, htext]

theorem displayed_iff {v : Value} {r : Except Fault String} : Displayed v r ↔ display v = r := by
  constructor
  · rintro (hshort | hlong | _ | _ | _ | _)
    · rw [display, Value.display, text?_eq, if_pos hshort]
    · rw [display, Value.display, text?_eq, if_neg (Nat.not_le.2 hlong)]
    all_goals rfl
  · rintro rfl
    cases v with
    | integer k =>
      rw [display, Value.display, text?_eq]
      by_cases hshort : (Nat.toDigits 10 k.natAbs).length ≤ 4300
      · rw [if_pos hshort]
        exact .integer hshort
      · rw [if_neg hshort]
        exact .longInteger (Nat.not_le.1 hshort)
    | text s => exact .text s
    | boolean b => cases b <;> constructor
    | nothing => exact .nothing

theorem andThen_display_iff {α : Type} {v : Value} {F : String → Meaning α} {r : Except Fault α} :
    andThen (looks fun _ => display v) F s r story s' ↔
      (∃ text, Displayed v (.ok text) ∧ F text s r story s') ∨
        ∃ fault, Displayed v (.error fault) ∧ exactly (.error fault) s r story s' := by
  simp only [displayed_iff]
  cases htext : v.display with
  | some text =>
    have hdisplay : display v = .ok text := by rw [display, htext]
    rw [andThen_looks_of_ok hdisplay]
    simp [hdisplay]
  | none =>
    have hdisplay : display v = .error (.unwritable .longInteger) := by rw [display, htext]
    rw [andThen_looks_of_error hdisplay]
    simp [hdisplay]

theorem renders_cons_iff {r : Except Fault String} :
    Renders n (node :: nodes) s r story s' ↔
      andThen (Evaluates n node) (fun o => andThen (looks fun _ => display o.get) fun text =>
        map (text ++ ·) (Renders n nodes)) s r story s' := by
  constructor
  · intro h
    cases h with
    | next hfirst htext hothers =>
      exact .inl ⟨_, _, _, _, hfirst, andThen_display_iff.2 (.inl ⟨_, htext, _, hothers, rfl⟩), rfl⟩
    | unwritable hfirst htext =>
      exact .inl ⟨_, _, _, [], hfirst, andThen_display_iff.2 (.inr ⟨_, htext, rfl, rfl, rfl⟩),
        (List.append_nil _).symm⟩
    | failed hfirst => exact .inr ⟨_, hfirst, rfl⟩
  · rintro (⟨o, middle, first, second, hfirst, hrest, rfl⟩ | ⟨fault, hfirst, rfl⟩)
    · rcases andThen_display_iff.1 hrest with
        ⟨text, htext, _, hothers, rfl⟩ | ⟨fault, htext, rfl, rfl, rfl⟩
      · exact .next hfirst htext hothers
      · rw [List.append_nil]
        exact .unwritable hfirst htext
    · exact .failed hfirst

/-- The end of a program. A return that no call has caught is reported. -/
def reports : Outcome → Meaning Value
  | .value v => exactly (.ok v)
  | .returning v =>
    andThen (looks fun _ => display v) fun text => map (fun _ => v)
      (acts fun s => (.ok (), [.line ("[dmm] This program threw at us a: " ++ text)], s))

end lists

end Hallo.Semantics
