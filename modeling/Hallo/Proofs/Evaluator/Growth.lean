import Hallo.Proofs.Evaluator.Alike
import Hallo.Proofs.Evaluator.Balanced
import Hallo.Proofs.Evaluator.Local
import Mathlib

/-!
Frames only grow. An evaluation may add functions and variables to the frame it is made in, but
takes nothing away and rebinds no function, and it does not touch the frames below. So all frames
of running calls agree on the functions that they see, each of them seeing what its caller saw.
-/
namespace Hallo

/-- Tables of functions, the innermost first, each of which begins with every table behind it. -/
def NestedTables : List (List Routine) → Prop :=
  List.Pairwise fun inner outer => outer <+: inner

theorem tableInvariant_nested : TableInvariant (fun _ => True) NestedTables where
  body _ _ := trivial
  declare := by
    intro table others routine hnested _
    obtain ⟨hbelow, hothers⟩ := List.pairwise_cons.1 hnested
    exact List.pairwise_cons.2 ⟨fun outer hmem =>
      (hbelow outer hmem).trans (List.prefix_append _ _), hothers⟩
  enter := by
    intro table others hnested
    obtain ⟨hbelow, _⟩ := List.pairwise_cons.1 hnested
    refine List.pairwise_cons.2 ⟨fun outer hmem => ?_, hnested⟩
    rcases List.mem_cons.1 hmem with rfl | hmem
    · exact List.prefix_refl _
    · exact hbelow outer hmem
  leave hnested := (List.pairwise_cons.1 hnested).2

namespace CallStack

/-- Every frame sees the functions that the frames below it see, in the same order and before its
    own. -/
def Nested (stack : CallStack) : Prop :=
  NestedTables stack.tables

instance : DecidablePred Nested := fun stack =>
  inferInstanceAs (Decidable (stack.tables.Pairwise fun inner outer => outer <+: inner))

theorem nested_of_depth_eq_one {stack : CallStack} (hdepth : stack.depth = 1) : stack.Nested := by
  rcases stack with ⟨root, calls⟩
  cases depth_eq_one_iff.1 hdepth
  exact List.pairwise_singleton _ _

/-- Of any two nested frames, the functions of one begin with those of the other. -/
theorem Nested.isPrefix_or {stack : CallStack} (hnested : stack.Nested) {frame other : Frame}
    (hframe : frame ∈ stack.frames) (hother : other ∈ stack.frames) :
    frame.functions <+: other.functions ∨ other.functions <+: frame.functions := by
  -- Which of the two frames is the inner one is not known, so the relation is made symmetric.
  let R (frame other : Frame) : Prop :=
    frame.functions <+: other.functions ∨ other.functions <+: frame.functions
  have hsymm : Std.Symm R := ⟨fun _ _ => Or.symm⟩
  have hpairs : stack.frames.Pairwise R := (List.pairwise_map.1 hnested).imp Or.inr
  exact hpairs.forall_of_forall (fun _ _ => .inl (List.prefix_refl _)) hframe hother

/-- In nested frames a name stands for the same function wherever it stands for one. -/
theorem Nested.function?_eq {stack : CallStack} (hnested : stack.Nested) {frame other : Frame}
    (hframe : frame ∈ stack.frames) (hother : other ∈ stack.frames) {name : String}
    {routine routine' : Routine} (hfunction : frame.function? name = some routine)
    (hfunction' : other.function? name = some routine') :
    routine = routine' := by
  rcases hnested.isPrefix_or hframe hother with hfunctions | hfunctions
  · have hsame := Frame.function?_of_isPrefix hfunctions hfunction
    exact Option.some.inj (hsame.symm.trans hfunction')
  · have hsame := Frame.function?_of_isPrefix hfunctions hfunction'
    exact Option.some.inj (hfunction.symm.trans hsame)

end CallStack

namespace Run

/-- Run an action, but let an alarm go off instead where the frames are not nested. -/
def unlessNested {α : Type} (alarm x : Run α) : Run α := fun m =>
  if m.stack.Nested then x m else alarm m

end Run

/-- Evaluate a node with at most `depth` calls inside each other, and with an alarm that goes off
    whenever a call is entered and the frames, its own included, are not nested. -/
def Node.visitAlarmed (alarm : Run Outcome) (rounds : Nat) : (depth : Nat) → Node → Run Outcome
  | 0, node => visit rounds (fun _ => Run.unlessNested alarm (Run.violate .stackOverflow)) node
  | depth + 1, node =>
    visit rounds (fun inner => Run.unlessNested alarm (visitAlarmed alarm rounds depth inner)) node

namespace Run

variable {α : Type} {x y : Run α} {m after : Machine}

theorem Alike.unlessNested {E : Halt → Prop} (alarm : Run α)
    (hx : Alike NestedTables E x y) :
    Alike NestedTables E (Run.unlessNested alarm x) y := by
  intro m hm ending after hon
  have hsame : on (Run.unlessNested alarm x) m = on x m := by
    have hrun : Run.unlessNested alarm x m = x m := if_pos hm
    rw [on, hrun, on]
  rw [hsame] at hon
  exact hx hm hon

theorem alike_visitAlarmed (alarm : Run Outcome) (rounds depth : Nat) (node : Node) :
    Alike NestedTables (fun _ => True)
      (node.visitAlarmed alarm rounds depth) (node.visitWithin rounds depth) := by
  have hcongruent : Congruent (fun _ => True) rounds rounds fun _ x y =>
      Alike NestedTables (fun _ => True) x y :=
    congruent_alike .all tableInvariant_nested (fun _ => trivial) fun _ _ _ => ⟨rfl, trivial⟩
  induction depth generalizing node with
  | zero =>
    exact hcongruent.visit (fun _ _ => (hcongruent.violate .stackOverflow).unlessNested alarm)
      node trivial
  | succ depth ih =>
    exact hcongruent.visit (fun inner _ => (ih inner).unlessNested alarm) node trivial

/-- The root frame is the top one, or it is below and untouched. -/
theorem Local.root_grown (hx : Local x) {ending : Except Halt α} (hon : on x m = (ending, after)) :
    m.stack.root.Grown after.stack.root := by
  obtain ⟨hstack, hgrown⟩ := hx.cases hon
  generalize after.stack.top = frame at hstack hgrown
  rw [hstack]
  generalize m.stack = stack at hgrown ⊢
  rcases stack with ⟨root, _ | ⟨call, calls⟩⟩
  · exact hgrown
  · exact .refl root

theorem Local.root_grown_unwinding (hx : Local x) {ending : Except Halt α}
    (hon : on (unwinding x) m = (ending, after)) : m.stack.root.Grown after.stack.root := by
  rw [on_unwinding] at hon
  split at hon
  · rename_i hdeep
    have hgrown := hx.root_grown hdeep
    cases hon
    exact hgrown
  · exact hx.root_grown hon

theorem root_grown_job (limit rounds : Nat) (job : Job) {ending : Except Halt Value}
    (hon : on (job.run limit rounds) m = (ending, after)) :
    m.stack.root.Grown after.stack.root := by
  cases job with
  | tree node => exact (compositional_local.evaluateWithin limit node).root_grown hon
  | source text =>
    cases hparse : Node.parse text with
    | ok nodes =>
      rw [Job.run, Run.sourceWithin, hparse] at hon
      exact (compositional_local.evaluateWithin limit (.block nodes)).root_grown_unwinding hon
    | error error =>
      rw [Job.run, on_source_of_error hparse] at hon
      cases hon
      exact .refl _

/-- Frames only grow. A visit of a tree, wherever it is made and however it ends, changes no frame
    but the top one, and there it adds functions and variables behind those that were there. So at
    every call the functions of each frame begin with those of the frames below it, and an alarm
    that watches over this never goes off; a name stands for the same function in all frames that
    know it; and no sequence of runs takes a function from the root frame or replaces it. -/
theorem frames_only_grow (limit rounds : Nat) :
    (∀ (depth : Nat) (node : Node) (m after : Machine) (ending : Except Halt Outcome),
      on (node.visitWithin rounds depth) m = (ending, after) →
        after.stack = m.stack.setTop after.stack.top ∧
          m.stack.top.functions <+: after.stack.top.functions ∧
            m.stack.top.names <+: after.stack.top.names) ∧
    (∀ (alarm : Run Outcome) (depth : Nat) (node : Node) (m : Machine), m.stack.Nested →
      on (node.visitAlarmed alarm rounds depth) m = on (node.visitWithin rounds depth) m) ∧
    (∀ stack : CallStack, stack.depth = 1 → stack.Nested) ∧
    (∀ stack : CallStack, stack.Nested → ∀ frame ∈ stack.frames, ∀ other ∈ stack.frames,
      ∀ (name : String) (routine routine' : Routine), frame.function? name = some routine →
        other.function? name = some routine' → routine = routine') ∧
    (∀ (jobs : List Job) (m after : Machine) (endings : List (Except Halt Value)),
      m.perform limit rounds jobs = (endings, after) →
        m.stack.root.functions <+: after.stack.root.functions ∧
          ∀ (name : String) (routine : Routine), m.stack.root.function? name = some routine →
            after.stack.root.function? name = some routine) := by
  refine ⟨fun depth node m after ending hon => ?_, fun alarm depth node m hnested => ?_,
    fun stack hdepth => CallStack.nested_of_depth_eq_one hdepth,
    fun stack hnested frame hframe other hother name routine routine' h h' =>
      hnested.function?_eq hframe hother h h',
    fun jobs m after endings hperform => ?_⟩
  · obtain ⟨hstack, hgrown⟩ := (compositional_local.visitWithin depth node).cases hon
    exact ⟨hstack, hgrown.functions, hgrown.names⟩
  · rcases hon : on (node.visitAlarmed alarm rounds depth) m with ⟨ending, after⟩
    exact (alike_visitAlarmed alarm rounds depth node hnested hon).1.symm
  · obtain ⟨hgrown, _⟩ :=
      Machine.perform_induction (I := fun later => m.stack.root.Grown later.stack.root)
      (Q := fun _ => True)
      (fun job _ _ _ _ hlater hon => ⟨hlater.trans (root_grown_job limit rounds job hon), trivial⟩)
      (.refl _) hperform
    exact ⟨hgrown.functions, fun _ _ hfunction =>
      Frame.function?_of_isPrefix hgrown.functions hfunction⟩

/-- A function that declares another one, assigns a variable and then divides by zero, called from a
    frame with a function of its own. The alarm would end the run in another way. -/
theorem frames_only_grow_division :
    let divide : Routine := ⟨"f", [], .block
      [.declare "g" [] .empty, .assign "x" (.literal (.integer 1)),
        .binary (.var "x") "/" (.literal (.integer 0))]⟩
    let start := Machine.start false (Dice.cycling []) (Clock.ticking 0 1) []
    let stack : CallStack :=
      { root := { functions := [divide] }
        calls := [{ bindings := [("y", .nothing)], functions := [divide, ⟨"h", [], .empty⟩] }] }
    ∃ after : Machine,
      on ((Node.call "f" []).visitWithin 0 1) { start with stack := stack } =
        (.error (.fault (.violation .divisionByZero)), after) ∧
      on ((Node.call "f" []).visitAlarmed (throw .unfinished) 0 1) { start with stack := stack } =
        (.error (.fault (.violation .divisionByZero)), after) ∧
      after.stack = stack.setTop after.stack.top ∧
        stack.top.functions <+: after.stack.top.functions ∧
      ∀ jobs : List Job, stack.root.function? "f" =
        ({ start with stack := stack }.perform 1 0 jobs).2.stack.root.function? "f" := by
  intro divide start stack
  obtain ⟨hvisit, halarm, _, _, hperform⟩ := frames_only_grow 1 0
  obtain ⟨after, hon⟩ : ∃ after,
      on ((Node.call "f" []).visitWithin 0 1) { start with stack := stack } =
        (.error (.fault (.violation .divisionByZero)), after) := by
    exact ⟨_, by cbv⟩
  have hnested : stack.Nested := by decide
  obtain ⟨hstack, hfunctions, _⟩ := hvisit 1 _ _ _ _ hon
  refine ⟨after, hon, (halarm _ 1 _ _ hnested).trans hon, hstack, hfunctions, fun jobs => ?_⟩
  obtain ⟨_, hkept⟩ := hperform jobs { start with stack := stack } _ _ rfl
  exact (hkept "f" divide rfl).symm

end Run

end Hallo
