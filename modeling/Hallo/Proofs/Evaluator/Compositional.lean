import Hallo.Proofs.Evaluator.Congruent

/-!
Properties of all evaluations. The evaluator is put together from a few simple actions, so a
property that these have, and that is kept when actions follow each other, is a property of every
evaluation.
-/
namespace Hallo

/-- A property of actions that the simple actions of the evaluator have, and that is kept when
    actions follow each other or are run in a call. -/
structure Run.Compositional (P : (α : Type) → Run α → Prop) : Prop where
  pure {α : Type} (a : α) : P α (Pure.pure a)
  bind {α β : Type} {x : Run α} {f : α → Run β} : P α x → (∀ a, P β (f a)) → P β (x >>= f)
  violate {α : Type} (violation : Violation) : P α (Run.violate violation)
  unfinished {α : Type} : P α (throw .unfinished)
  display (value : Value) : P String (Run.display value)
  write (text : String) : P Unit (Run.write text)
  top : P Frame Run.top
  assign (name : String) (value : Value) : P Unit (Run.assign name value)
  declareRoutine (routine : Routine) : P Unit (Run.declareRoutine routine)
  shout (intensity : Int) (text : String) : 1 ≤ intensity → P Unit (Run.shout intensity text)
  askValue (prompt : String) : P Value (Run.askValue prompt)
  inCall {x : Run Outcome} (frame : Frame) : P Outcome x → P Outcome (Run.inCall frame x)
  consult (node : Node) (value : Value) : P Unit (Run.consult node value)

namespace Run.Compositional

variable {P : (α : Type) → Run α → Prop} (hP : Compositional P)

include hP

theorem routineFor (name : String) (count : Nat) : P Routine (Run.routineFor name count) := by
  refine hP.bind hP.top fun frame => ?_
  split
  · exact hP.violate _
  · split
    · exact hP.pure _
    · exact hP.violate _

theorem enterRoutine {body : Node → Run Outcome} {routine : Routine}
    (hbody : P Outcome (body routine.body)) (arguments : List Value) :
    P Value (Run.enterRoutine body routine arguments) := by
  refine hP.bind hP.top fun caller => ?_
  refine hP.bind (hP.inCall _ hbody) fun outcome => ?_
  exact hP.pure _

/-- A property of actions, taken for a relation: the two actions are the same, and have it. -/
theorem congruent (rounds : Nat) :
    Congruent (fun _ => True) rounds rounds fun α x y => x = y ∧ P α x where
  kind := .all
  pure a := ⟨rfl, hP.pure a⟩
  bind := by
    rintro α β x _ f g ⟨rfl, hx⟩ hf
    exact ⟨congrArg (x >>= ·) (funext fun a => (hf a).1), hP.bind hx fun a => (hf a).2⟩
  violate violation := ⟨rfl, hP.violate violation⟩
  display value := ⟨rfl, hP.display value⟩
  write text := ⟨rfl, hP.write text⟩
  top := ⟨rfl, hP.top⟩
  assign name value := ⟨rfl, hP.assign name value⟩
  declareRoutine _ := ⟨rfl, hP.declareRoutine _⟩
  shout intensity text hloud := ⟨rfl, hP.shout intensity text hloud⟩
  askValue prompt := ⟨rfl, hP.askValue prompt⟩
  consult node value := ⟨rfl, hP.consult node value⟩
  routineFor := by
    intro β name count f g hf
    have hsame : f = g := funext fun routine => (hf routine trivial).1
    exact ⟨by rw [hsame], hP.bind (hP.routineFor name count) fun routine => (hf routine trivial).2⟩
  enterRoutine := by
    rintro body body' routine arguments ⟨hsame, hbody⟩
    exact ⟨by rw [Run.enterRoutine, Run.enterRoutine, hsame], hP.enterRoutine hbody arguments⟩
  loop _ := ⟨rfl, rfl, hP.unfinished⟩

theorem visitWithin {rounds : Nat} (depth : Nat) (node : Node) :
    P Outcome (Node.visitWithin rounds depth node) :=
  ((hP.congruent rounds).visitWithin depth trivial).2

/-- So is what an evaluation does before the worker has its say about the whole of its tree. -/
theorem exists_watched {rounds : Nat} (depth : Nat) (node : Node) :
    ∃ x, Node.visitWithin rounds depth node = watched node x ∧ P Outcome x := by
  have hwatches : Watches _ node (node.visitWithin rounds depth) (node.visitWithin rounds depth) :=
    (hP.congruent rounds).watches_visitWithin depth trivial
  obtain ⟨x, _, hvisit, _, _, hx⟩ := hwatches
  exact ⟨x, hvisit, hx⟩

/-- A property of actions that can be put together is a property of whole programs. -/
theorem evaluateWithin {rounds : Nat} (limit : Nat) (node : Node) :
    P Value (node.evaluateWithin limit rounds) :=
  ((hP.congruent rounds).evaluateWithin limit trivial).2

end Run.Compositional

end Hallo
