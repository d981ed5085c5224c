import Hallo.Proofs.Arithmetic.Writing
import Hallo.Proofs.Evaluator.Quiet

/-!
Evaluated arithmetic. A strict worker has no part in it, so nothing but the operands decides how an
expression ends: with what it equals, or at the first division by zero.
-/
namespace Hallo

theorem Frame.get?_set (frame : Frame) (name : String) (value : Value) :
    (frame.set name value).get? name = some value := by
  change (Frame.bind name value frame.bindings).lookup name = some value
  induction frame.bindings with
  | nil => simp [Frame.bind]
  | cons entry table ih =>
    rcases entry with ⟨other, old⟩
    rw [Frame.bind]
    split
    · simp
    · rename_i hother
      rw [List.lookup_cons, beq_false_of_ne (Ne.symm hother)]
      exact ih

namespace Run

theorem applyUnary_operator (sign : Sign) (n : Int) :
    applyUnary sign.operator n = pure (.integer (sign.apply n)) := by
  cases sign <;> rfl

theorem applyBinary_operator (operation : Operation) (a b : Int) :
    applyBinary operation.operator a b =
      match operation.result? a b with
      | some v => pure (.integer v)
      | none => violate .divisionByZero := by
  cases operation with
  | divide =>
    rw [applyBinary, Operation.result?, truncatingDivide]
    by_cases hzero : b = 0
    · simp [hzero, Operation.operator]
    · simp [hzero, Operation.operator]
  | _ => rfl

end Run

namespace Arithmetic

open Run

/-- How the evaluation of an expression ends. -/
def ending (e : Arithmetic) : Except Halt Outcome :=
  match e.value? with
  | some v => .ok (.value (.integer v))
  | none => .error (.fault (.violation .divisionByZero))

variable {m : Machine} {rounds : Nat} {body : Node → Run Outcome}

theorem on_watched_of_eq {x : Run Outcome} {found : Except Halt Outcome} {after : Machine}
    {node : Node} (hx : on x m = (found, after)) (hstrict : after.worker.contract.strict = true) :
    on (watched node x) m = (found, after) := by
  rw [on_watched_of_strict (fun hon => ?_), hx]
  rw [hx] at hon
  cases hon
  exact hstrict

/-- Operands are evaluated from left to right, and nothing is done to the machine. -/
theorem on_visit (e : Arithmetic) (hstrict : m.worker.contract.strict = true) :
    on (e.node.visit rounds body) m = (e.ending, m) := by
  induction e with
  | numeral n =>
    rw [node, Node.visit]
    exact on_watched_of_eq rfl hstrict
  | signed sign operand ih =>
    rw [node, Node.visit]
    refine on_watched_of_eq ?_ hstrict
    rw [on_bind, ih]
    cases hvalue : operand.value? with
    | none => simp [ending, value?, hvalue]
    | some n => simp [ending, value?, hvalue, Outcome.get, number, applyUnary_operator]
  | binary left operation right ihleft ihright =>
    rw [node, Node.visit]
    refine on_watched_of_eq ?_ hstrict
    rw [on_bind, ihleft]
    cases hleft : left.value? with
    | none => simp [ending, value?, hleft]
    | some a =>
      simp only [ending, hleft, Outcome.get, number, pure_bind]
      rw [on_bind, ihright]
      cases hright : right.value? with
      | none => simp [ending, value?, hleft, hright]
      | some b =>
        simp only [ending, value?, hleft, hright, Option.bind_some, pure_bind, applyBinary_operator]
        cases operation.result? a b <;> rfl

/-- How an assignment of the expression ends: the variable is bound to the value, or nothing is
    changed. -/
def assigned {α : Type} (e : Arithmetic) (result : α) (m : Machine) : Except Halt α × Machine :=
  match e.value? with
  | some v => (.ok result, { m with stack := m.stack.setTop (m.stack.top.set "x" (.integer v)) })
  | none => (.error (.fault (.violation .divisionByZero)), m)

theorem on_watched_of_assigned {x : Run Outcome} {e : Arithmetic} {result : Outcome} {node : Node}
    (hstrict : m.worker.contract.strict = true) (hx : on x m = e.assigned result m) :
    on (watched node x) m = e.assigned result m := by
  rw [assigned] at hx ⊢
  cases hvalue : e.value? with
  | none => exact on_watched_of_eq (by rw [hx, hvalue]) hstrict
  | some v => exact on_watched_of_eq (by rw [hx, hvalue]) hstrict

/-- What follows an assignment and leaves its machine alone turns one result into another. -/
theorem on_bind_of_assigned {α β : Type} {x : Run α} {f : α → Run β} {e : Arithmetic} {a : α}
    {b : β} (hx : on x m = e.assigned a m) (hf : f a = pure b) :
    on (x >>= f) m = e.assigned b m := by
  rw [on_bind, hx, assigned, assigned]
  cases e.value? with
  | none => rfl
  | some v => simp [hf]

theorem on_visit_assign (e : Arithmetic) (hstrict : m.worker.contract.strict = true) :
    on ((Node.assign "x" e.node).visit rounds body) m = e.assigned (.value .nothing) m := by
  rw [Node.visit]
  refine on_watched_of_assigned hstrict ?_
  rw [on_bind, e.on_visit hstrict, ending, assigned]
  cases e.value? <;> rfl

theorem on_evaluate (e : Arithmetic) (hstrict : m.worker.contract.strict = true)
    (limit rounds : Nat) :
    on (Node.evaluateWithin limit rounds (.block [.assign "x" e.node])) m =
      e.assigned .nothing m := by
  obtain ⟨body, hvisit⟩ := Node.visitWithin_eq_visit rounds limit
  refine on_bind_of_assigned (a := .value .nothing) ?_ rfl
  rw [hvisit, Node.visit]
  refine on_watched_of_assigned hstrict ?_
  rw [Node.visitBlock]
  exact on_bind_of_assigned (e.on_visit_assign hstrict) rfl

/-- A program with written arithmetic gives the variable its value, or it fails and leaves all as it
    was. -/
theorem on_program (e : Arithmetic) {layout : Layout}
    (hpieces : layout.pieces = (e.words 0).map Word.written)
    (hstrict : m.worker.contract.strict = true) (limit rounds : Nat) :
    on (Run.sourceWithin limit rounds (program layout.text)) m = e.assigned .nothing m := by
  rw [Run.sourceWithin, parse_program e hpieces]
  have hevaluate := e.on_evaluate hstrict limit rounds
  rcases hassigned : e.assigned Value.nothing m with ⟨ending, after⟩
  rw [hassigned] at hevaluate
  refine (on_unwinding_eq_iff ?_).2 hevaluate
  rintro rfl
  rw [assigned] at hassigned
  split at hassigned <;> cases hassigned

/-- Written arithmetic means arithmetic. However an expression is spaced, a program that gives a
    variable its value ends with the variable bound to what the expression equals. Only if a divisor
    somewhere in it equals zero, it ends with a division by zero, and the machine is left as it
    was. -/
theorem written_arithmetic_means_arithmetic (e : Arithmetic) {layout : Layout}
    (hpieces : layout.pieces = (e.words 0).map Word.written)
    (hstrict : m.worker.contract.strict = true) (limit rounds : Nat) :
    (∀ v, e.Equals v ↔ ∃ after,
      on (Run.sourceWithin limit rounds (program layout.text)) m = (.ok .nothing, after) ∧
      after.stack.top.get? "x" = some (.integer v)) ∧
    (e.DividesByZero ↔
      on (Run.sourceWithin limit rounds (program layout.text)) m =
        (.error (.fault (.violation .divisionByZero)), m)) ∧
    ((∃ v, e.Equals v) ∨ e.DividesByZero) := by
  rw [e.on_program hpieces hstrict limit rounds, assigned, ← value?_eq_none_iff]
  simp only [← value?_eq_some_iff]
  cases e.value? with
  | none => simp
  | some v =>
    have hbound : (m.stack.setTop (m.stack.top.set "x" (.integer v))).top.get? "x" =
        some (.integer v) := by
      rw [CallStack.top_setTop, Frame.get?_set]
    refine ⟨fun w => ⟨?_, ?_⟩, by simp, .inl ⟨v, rfl⟩⟩
    · rintro ⟨⟩
      exact ⟨_, rfl, hbound⟩
    · rintro ⟨_, ⟨⟩, hx⟩
      rw [hbound] at hx
      cases hx
      rfl

/-- A quotient of a difference in parentheses, and a division by a difference that equals zero. -/
theorem written_arithmetic_means_arithmetic_quotients :
    let start := Machine.start true (Dice.cycling []) (Clock.ticking 0 1) []
    (∃ after, on (Run.sourceWithin 1 0 "hallo\nx = (7 - -2) / -2\nreicht dann auch mal") start =
      (.ok .nothing, after) ∧
      after.stack.top.get? "x" = some (.integer (-4))) ∧
    on (Run.sourceWithin 1 0 "hallo\nx = 7/(2-2)\nreicht dann auch mal") start =
      (.error (.fault (.violation .divisionByZero)), start) ∧ start.stack.top.get? "x" = none := by
  intro start
  obtain ⟨two, htwo⟩ : ∃ n : Numeral, n.digits = ['2'] :=
    ⟨⟨['2'], by decide, List.forall_mem_singleton.2 rfl, by decide⟩, rfl⟩
  obtain ⟨seven, hseven⟩ : ∃ n : Numeral, n.digits = ['7'] :=
    ⟨⟨['7'], by decide, List.forall_mem_singleton.2 rfl, by decide⟩, rfl⟩
  have hrounded :
      Layout.pieces (.piece 0 ['('] (.piece 0 ['7'] (.piece 1 ['-'] (.piece 1 ['-'] (.piece 0 ['2']
        (.piece 0 [')'] (.piece 1 ['/'] (.piece 1 ['-'] (.piece 0 ['2'] (.last 0)))))))))) =
      (words 0 (.binary (.binary (.numeral seven) .subtract (.signed .minus (.numeral two))) .divide
        (.signed .minus (.numeral two)))).map Word.written := by
    simp [Layout.pieces, words, Word.written, Operation.level, Operation.mark, Sign.mark,
      Mark.char, htwo, hseven]
  have hzero :
      Layout.pieces (.piece 0 ['7'] (.piece 0 ['/'] (.piece 0 ['('] (.piece 0 ['2'] (.piece 0 ['-']
        (.piece 0 ['2'] (.piece 0 [')'] (.last 0)))))))) =
      (words 0 (.binary (.numeral seven) .divide
        (.binary (.numeral two) .subtract (.numeral two)))).map Word.written := by
    simp [Layout.pieces, words, Word.written, Operation.level, Operation.mark, Mark.char, htwo,
      hseven]
  refine ⟨?_, ?_, rfl⟩
  · refine ((written_arithmetic_means_arithmetic _ hrounded rfl 1 0).1 (-4)).1
      (value?_eq_some_iff.1 ?_)
    simp only [value?, Numeral.value, htwo, hseven]
    rfl
  · refine (written_arithmetic_means_arithmetic _ hzero rfl 1 0).2.1.1
      (.here (value?_eq_some_iff.1 ?_))
    simp only [value?, Numeral.value, htwo]
    rfl

end Arithmetic

end Hallo
