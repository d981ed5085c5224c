import Hallo.Proofs.Evaluator.Alike
import Hallo.Proofs.Evaluator.Balanced
import Hallo.Proofs.Node.LoopFree
import Mathlib

/-!
Programs without loops end. A function is called for the body that some declaration gave it, so no
loop is ever met; and since calls cannot go deeper than a limit, the rounds that are granted to
loops do not matter.
-/
namespace Hallo

namespace Node

theorem hereditary_loopFree : Hereditary fun node => node.loopFree = true where
  block := loopFreeAll_iff.1
  unary := id
  binary := (Bool.and_eq_true _ _).mp
  compare := (Bool.and_eq_true _ _).mp
  call := loopFreeAll_iff.1
  assign := id
  declare := id
  branch := (Bool.and_eq_true _ _).mp
  loop := nofun
  giveBack := id

end Node

/-- No function in the tables has a loop in its body. -/
def LoopFreeTables (tables : List (List Routine)) : Prop :=
  ∀ table ∈ tables, ∀ routine ∈ table, routine.body.loopFree = true

theorem tableInvariant_loopFree :
    TableInvariant (fun node => node.loopFree = true) LoopFreeTables where
  body htables hmem := htables _ List.mem_cons_self _ hmem
  declare := by
    intro table others routine htables hbody
    obtain ⟨htable, hothers⟩ := List.forall_mem_cons.1 htables
    refine List.forall_mem_cons.2 ⟨List.forall_mem_append.2 ⟨htable, ?_⟩, hothers⟩
    simpa using hbody
  enter htables := List.forall_mem_cons.2 ⟨htables _ List.mem_cons_self, htables⟩
  leave htables := (List.forall_mem_cons.1 htables).2

namespace Run

variable {m : Machine}

/-- However many rounds are granted to loops, the run ends in one and the same way, with a value or
    an error. -/
def Ends {α : Type} (run : (rounds : Nat) → Run α) (m : Machine) : Prop :=
  ∃ (ending : Except Halt α) (after : Machine), ending ≠ .error .unfinished ∧
    ∀ rounds, on (run rounds) m = (ending, after)

/-- Where no function has a loop, a tree without loops is evaluated to an end. -/
theorem ends_evaluateWithin (limit : Nat) {node : Node} (hnode : node.loopFree = true)
    (htables : LoopFreeTables m.stack.tables) :
    Ends (fun rounds => node.evaluateWithin limit rounds) m := by
  -- An evaluation that grants no round at all is what the others are compared with.
  rcases hon : on (node.evaluateWithin limit 0) m with ⟨ending, after⟩
  have halike (rounds : Nat) :
      Alike LoopFreeTables (· ≠ .unfinished)
        (node.evaluateWithin limit 0) (node.evaluateWithin limit rounds) := by
    have hcongruent : Congruent (fun node => node.loopFree = true) 0 rounds fun _ x y =>
        Alike LoopFreeTables (· ≠ .unfinished) x y :=
      congruent_alike Node.hereditary_loopFree tableInvariant_loopFree (fun _ => nofun) nofun
    exact hcongruent.evaluateWithin limit hnode
  refine ⟨ending, after, ?_, fun rounds => (halike rounds htables hon).1⟩
  rintro rfl
  exact (halike 0 htables hon).2.2 .unfinished rfl rfl

theorem Ends.unwinding {α : Type} {run : Nat → Run α} (hends : Ends run m) :
    Ends (fun rounds => Run.unwinding (run rounds)) m := by
  obtain ⟨ending, after, hending, hrun⟩ := hends
  by_cases hdeep : ending = .error (.fault (.violation .stackOverflow))
  · refine ⟨ending, { after with stack := after.stack.unwind }, hending, fun rounds => ?_⟩
    rw [on_unwinding, hrun, hdeep]
  · exact ⟨ending, after, hending, fun rounds => (on_unwinding_eq_iff hdeep).2 (hrun rounds)⟩

/-- Programs without loops end. Where the keyword for loops is not among the tokens of a source, its
    run on a machine without functions comes to a value or an error, whatever the worker, chance,
    time and the answers have to do with it, and whatever the limit on calls inside each other
    is. -/
theorem ends_without_loops {source : String}
    (hloop : ∀ token ∈ (Scan.ofSource source).tokens, token.lexeme ≠ .keyword .loop)
    (hfresh : m.stack = {}) (limit : Nat) :
    Ends (fun rounds => sourceWithin limit rounds source) m := by
  unfold sourceWithin
  cases hparse : Node.parse source with
  | ok nodes =>
    have htables : LoopFreeTables m.stack.tables := by
      rw [hfresh]
      simp [LoopFreeTables, CallStack.tables, CallStack.frames]
    exact (ends_evaluateWithin limit (Node.loopFree_of_parse hparse hloop) htables).unwinding
  | error error => exact ⟨.error (.fault (.parse error)), m, nofun, fun _ => rfl⟩

/-- Two functions that call each other again and again, one of them declared inside of the other. -/
theorem ends_without_loops_mutual :
    Ends (fun rounds => Run.sourceWithin 100 rounds
        "hallo\nfunny f() avo funny g() avo f() cado\ng()\ng() cado\nf()\nreicht dann auch mal")
      (Machine.start false (Dice.cycling [3]) (Clock.ticking 0 1) [some "1", none]) := by
  have htokens :
      List.all (Scan.tokens (.ofSource
        "hallo\nfunny f() avo funny g() avo f() cado\ng()\ng() cado\nf()\nreicht dann auch mal"))
        (·.lexeme ≠ .keyword .loop) = true := by
    cbv
  refine ends_without_loops (fun token hmem => ?_) rfl 100
  simpa using List.all_eq_true.1 htokens token hmem

-- A loop whose test holds for ever takes all rounds that it is granted.
example : (on (Run.sourceWithin 1 5 "hallo\nschleif :) avo cado\nreicht dann auch mal")
    (Machine.start true (Dice.cycling []) (Clock.ticking 0 1) [])).1 = .error .unfinished := by
  cbv

end Run

end Hallo
