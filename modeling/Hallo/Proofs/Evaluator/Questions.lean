import Hallo.Proofs.Evaluator.Safe
import Mathlib

/-!
The worker's questions. In the runs of programs no value comes up that could not be given as an
answer, unless it is an integer too long to be written; so whatever the worker asks, there is an
answer that lets the run go on.
-/
namespace Hallo.Run

open Node

/-- Every question of the worker can be answered. However often programs were run on a machine, each
    value that was asked about is what its own source is understood as, unless it is an integer
    beyond the digit limit.

    No text with a closing bracket in it comes up: not as the value of a run, not in a frame that
    is left behind, and not in between, where every part of a program is evaluated from a
    well-formed machine to a well-formed machine. All other values are understood as themselves. -/
theorem worker_questions_answerable :
    (∀ (limit rounds : Nat) (sources : List String) (m after : Machine)
      (endings : List (Except Halt Value)),
      m.stack = {} → m.log = [] → m.perform limit rounds (sources.map .source) = (endings, after) →
        (∀ inquiry prompt answer, .question (.worker inquiry) prompt answer ∈ after.log →
          (∀ n, inquiry.value = .integer n → Decimal.Writable n) → inquiry.value.Answerable) ∧
        (∀ value, .ok value ∈ endings → value.Bracketable) ∧ after.WellFormed) ∧
    (∀ (rounds depth : Nat) (node : Node) (m after : Machine) (ending : Except Halt Outcome),
      InProgram node → m.WellFormed → on (node.visitWithin rounds depth) m = (ending, after) →
        after.WellFormed ∧ ∀ outcome, ending = .ok outcome → outcome.get.Bracketable) ∧
    (∀ value : Value, value.Bracketable → (∀ n, value = .integer n → Decimal.Writable n) →
      value.Answerable) := by
  refine ⟨fun limit rounds sources m after endings hstack hlog hperform => ?_,
    fun rounds depth node m after ending hnode hm hon => ?_,
    fun value hvalue hshort => Value.answerable_of_bracketable hvalue hshort⟩
  · obtain ⟨hafter, hendings⟩ := (Machine.WellFormed.of_fresh hstack hlog).perform hperform
    refine ⟨fun inquiry prompt answer hmem hshort => ?_, fun value hmem => hendings _ hmem, hafter⟩
    exact Value.answerable_of_bracketable (hafter.log _ hmem) hshort
  · obtain ⟨hafter, hending⟩ := Safe.visitWithin depth hnode hm hon
    refine ⟨hafter, ?_⟩
    rintro outcome rfl
    exact hending

/-- A worn-out worker asks what a variable holds, and is told nonsense; the text it had in mind,
    with its line break and its opening bracket, could have been given. -/
theorem worker_questions_answerable_text :
    ∃ after inquiry,
      ({ worker := { contract := { bounds := [] }, lastReset := 0, cooldown := 0 }
         shouter := {}
         dice := Dice.cycling []
         clock := Clock.ticking 0 100
         answers := [some "-", some "no"] } : Machine).perform 1 0
          (["hallo\nx = <a\n<>\ny = x\nreicht dann auch mal"].map .source) =
        ([.error (.fault (.wrongAnswer (.text "a\n<") "no"))], after) ∧
      .question (.worker inquiry) "[dmm] what is it? " (some "no") ∈ after.log ∧
      inquiry.value = .text "a\n<" ∧ inquiry.value.Answerable := by
  have hparse : Node.parse "hallo\nx = <a\n<>\ny = x\nreicht dann auch mal" =
      .ok [.assign "x" (.literal (.text "a\n<")), .assign "y" (.var "x")] := by
    cbv
  obtain ⟨after, inquiry, earlier, hrun, hlog, hvalue⟩ : ∃ after inquiry earlier,
      on ((Job.source "hallo\nx = <a\n<>\ny = x\nreicht dann auch mal").run 1 0)
          { worker := { contract := { bounds := [] }, lastReset := 0, cooldown := 0 }
            shouter := {}
            dice := Dice.cycling []
            clock := Clock.ticking 0 100
            answers := [some "-", some "no"] } =
        (.error (.fault (.wrongAnswer (.text "a\n<") "no")), after) ∧
      after.log = .question (.worker inquiry) "[dmm] what is it? " (some "no") :: earlier ∧
      inquiry.value = .text "a\n<" := by
    rw [Job.run, on_source_of_ok hparse rfl, Node.evaluateWithin, Node.visitWithin]
    generalize Node.visitWithin 0 0 = body
    exact ⟨_, _, _, by cbv, by cbv, rfl⟩
  have hperform := Machine.perform_cons hrun (Machine.perform_nil 1 0 after)
  have hmem : .question (.worker inquiry) "[dmm] what is it? " (some "no") ∈ after.log := by
    simp [hlog]
  have hshort : ∀ n, inquiry.value = .integer n → Decimal.Writable n := by simp [hvalue]
  exact ⟨after, inquiry, hperform, hmem, hvalue,
    (worker_questions_answerable.1 1 0 [_] _ _ _ rfl rfl hperform).1 inquiry _ _ hmem hshort⟩

end Hallo.Run
