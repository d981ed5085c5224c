import Hallo.Proofs.Evaluator.Compositional
import Hallo.Proofs.Evaluator.Consult
import Hallo.Proofs.Sequence
import Mathlib

/-!
No evaluation leaves a frame behind. Every call that is entered is left again, however its body
ends, so the stack has as many frames behind an evaluation as before it.
-/
namespace Hallo

namespace CallStack

@[simp] theorem depth_setTop (stack : CallStack) (frame : Frame) :
    (stack.setTop frame).depth = stack.depth := by
  rcases stack with ⟨root, _ | ⟨call, calls⟩⟩ <;> rfl

theorem depth_eq_one_iff {stack : CallStack} : stack.depth = 1 ↔ stack.calls = [] := by
  simp [depth]

theorem unwind_of_calls_eq_nil {stack : CallStack} (hcalls : stack.calls = []) :
    stack.unwind = stack := by
  rcases stack with ⟨root, calls⟩
  cases hcalls
  rfl

/-- A stack that is deeper than another one has a call to be left. -/
theorem exists_pop? {stack : CallStack} {n : Nat} (hdepth : stack.depth = n + 2) :
    ∃ frame rest, stack.pop? = some (frame, rest) ∧ rest.depth = n + 1 := by
  rcases stack with ⟨root, _ | ⟨frame, calls⟩⟩
  · simp [depth] at hdepth
  · refine ⟨frame, ⟨root, calls⟩, rfl, ?_⟩
    simpa [depth] using hdepth

end CallStack

namespace Run

variable {α β : Type} {x : Run α} {f : α → Run β} {m after : Machine}

/-- After the action there are as many frames as before, and at no time was a call to be left that
    was not there. -/
def Balanced (x : Run α) : Prop :=
  ∀ ⦃m : Machine⦄ ⦃ending : Except Halt α⦄ ⦃after : Machine⦄, on x m = (ending, after) →
    after.stack.depth = m.stack.depth ∧ ending ≠ .error (.fault .emptyCallStack)

namespace Balanced

theorem of_on {ending : Machine → Except Halt α} {next : Machine → Machine}
    (hx : ∀ m, on x m = (ending m, next m)) (hdepth : ∀ m, (next m).stack.depth = m.stack.depth)
    (hending : ∀ m, ending m ≠ .error (.fault .emptyCallStack)) : Balanced x := by
  intro m ending after hon
  rw [hx] at hon
  cases hon
  exact ⟨hdepth m, hending m⟩

theorem of_ok {a : Machine → α} {next : Machine → Machine} (hx : ∀ m, on x m = (.ok (a m), next m))
    (hdepth : ∀ m, (next m).stack.depth = m.stack.depth) : Balanced x :=
  of_on hx hdepth fun _ => nofun

theorem pure (a : α) : Balanced (Pure.pure a) :=
  of_ok (fun _ => rfl) fun _ => rfl

theorem bind (hx : Balanced x) (hf : ∀ a, Balanced (f a)) : Balanced (x >>= f) := by
  intro m ending after hon
  rcases on_bind_eq_iff.1 hon with ⟨a, middle, hfirst, hsecond⟩ | ⟨halt, hfirst, rfl⟩
  · obtain ⟨hdepth, _⟩ := hx hfirst
    obtain ⟨hdepth', hending⟩ := hf a hsecond
    exact ⟨hdepth'.trans hdepth, hending⟩
  · obtain ⟨hdepth, hhalt⟩ := hx hfirst
    refine ⟨hdepth, fun heq => hhalt ?_⟩
    cases heq
    rfl

theorem violate (violation : Violation) : Balanced (Run.violate violation : Run α) :=
  of_on (fun _ => rfl) (fun _ => rfl) fun _ => nofun

theorem unfinished : Balanced (throw .unfinished : Run α) :=
  of_on (fun _ => rfl) (fun _ => rfl) fun _ => nofun

theorem display (value : Value) : Balanced (Run.display value) := by
  refine of_on (on_display value) (fun _ => rfl) fun _ => ?_
  cases value.display <;> exact nofun

theorem declareRoutine (routine : Routine) : Balanced (Run.declareRoutine routine) := by
  intro m ending after hon
  rw [on_declareRoutine] at hon
  cases hdeclare : m.stack.top.declare? routine with
  | none =>
    rw [hdeclare] at hon
    cases hon
    exact ⟨rfl, nofun⟩
  | some frame =>
    rw [hdeclare] at hon
    cases hon
    exact ⟨m.stack.depth_setTop frame, nofun⟩

theorem askValue (prompt : String) : Balanced (Run.askValue prompt) := by
  refine of_on (on_askValue prompt) (fun _ => rfl) fun m => ?_
  cases Value.ofAnswer (m.answers.head?.join.getD "") <;> exact nofun

/-- The frame of a call is on top again when its body has ended, and is taken away. -/
theorem inCall_cases {ending : Except Halt α} (hx : Balanced x) {frame : Frame}
    (hon : on (Run.inCall frame x) m = (ending, after)) :
    ∃ inside top rest, on x { m with stack := m.stack.push frame } = (ending, inside) ∧
      inside.stack.pop? = some (top, rest) ∧ rest.depth = m.stack.depth ∧
      after = { inside with stack := rest } := by
  rw [on_inCall] at hon
  rcases hbody : on x { m with stack := m.stack.push frame } with ⟨ending', inside⟩
  obtain ⟨hdepth, _⟩ := hx hbody
  obtain ⟨top, rest, hpop, hrest⟩ := CallStack.exists_pop? (n := m.stack.calls.length) hdepth
  simp only [hbody, hpop] at hon
  cases hon
  exact ⟨inside, top, rest, rfl, hpop, hrest, rfl⟩

theorem inCall {x : Run Outcome} (frame : Frame) (hx : Balanced x) :
    Balanced (Run.inCall frame x) := by
  intro m ending after hon
  obtain ⟨inside, top, rest, hbody, _, hrest, rfl⟩ := hx.inCall_cases hon
  exact ⟨hrest, (hx hbody).2⟩

theorem consult (node : Node) (value : Value) : Balanced (Run.consult node value) := by
  intro m ending after hon
  obtain ⟨hremarked, hending⟩ := consult_cases hon
  refine ⟨by rw [hremarked.stack_eq], ?_⟩
  cases hending <;> exact nofun

end Balanced

/-- Every evaluation is balanced, since each of its parts is. -/
theorem compositional_balanced : Compositional fun _ x => Balanced x where
  pure := .pure
  bind := .bind
  violate := .violate
  unfinished := @Balanced.unfinished
  display := .display
  write text := .of_ok (on_write text) fun _ => rfl
  top := .of_ok on_top fun _ => rfl
  assign _ _ := .of_ok (fun _ => rfl) fun m => m.stack.depth_setTop _
  declareRoutine := .declareRoutine
  shout intensity text _ := .of_ok (on_shout intensity text) fun _ => rfl
  askValue := .askValue
  inCall := .inCall
  consult := .consult

/-- From outside of all calls, a program is run as its statements are evaluated: also where calls
    went too deep, each of them was left on the way, and nothing remains to be unwound. -/
theorem on_source_of_ok {source : String} {nodes : List Node}
    (hparse : Node.parse source = .ok nodes) (hcalls : m.stack.calls = []) (limit rounds : Nat) :
    on (Run.sourceWithin limit rounds source) m =
      on (Node.evaluateWithin limit rounds (.block nodes)) m := by
  rcases hon : on (Node.evaluateWithin limit rounds (.block nodes)) m with ⟨ending, after⟩
  obtain ⟨hdepth, _⟩ := compositional_balanced.evaluateWithin limit (.block nodes) hon
  have hafter : after.stack.calls = [] := by
    rw [← CallStack.depth_eq_one_iff, hdepth, CallStack.depth_eq_one_iff, hcalls]
  rw [Run.sourceWithin, hparse]
  simp only [on_unwinding, hon]
  split
  · rename_i heq
    cases heq
    rw [CallStack.unwind_of_calls_eq_nil hafter]
  · rfl

/-- A source that is no program changes nothing. -/
theorem on_source_of_error {source : String} {error : ParseError}
    (hparse : Node.parse source = .error error) (limit rounds : Nat) (m : Machine) :
    on (Run.sourceWithin limit rounds source) m = (.error (.fault (.parse error)), m) := by
  rw [Run.sourceWithin, hparse]
  rfl

/-- Between runs no call is going on. -/
theorem balanced_job {limit rounds : Nat} (job : Job) {ending : Except Halt Value}
    (hcalls : m.stack.calls = []) (hon : on (job.run limit rounds) m = (ending, after)) :
    after.stack.calls = [] ∧ ending ≠ .error (.fault .emptyCallStack) := by
  have hevaluate : ∀ node, on (Node.evaluateWithin limit rounds node) m = (ending, after) →
      after.stack.calls = [] ∧ ending ≠ .error (.fault .emptyCallStack) := by
    intro node hon
    obtain ⟨hdepth, hending⟩ := compositional_balanced.evaluateWithin limit node hon
    rw [← CallStack.depth_eq_one_iff, hdepth, CallStack.depth_eq_one_iff]
    exact ⟨hcalls, hending⟩
  cases job with
  | tree node => exact hevaluate node hon
  | source text =>
    rw [Job.run] at hon
    cases hparse : Node.parse text with
    | ok nodes =>
      rw [on_source_of_ok hparse hcalls] at hon
      exact hevaluate (.block nodes) hon
    | error error =>
      rw [on_source_of_error hparse] at hon
      cases hon
      exact ⟨hcalls, nofun⟩

/-- No run leaves a frame behind. Behind every visit of a tree, wherever it was made and however it
    ended, there are as many frames as before; hence behind every sequence of runs there is only
    the root frame, and never was a call to be left that was not there. A source that is no
    program changes nothing at all. -/
theorem no_frame_left_behind :
    (∀ (rounds depth : Nat) (node : Node) (m after : Machine) (ending : Except Halt Outcome),
      on (node.visitWithin rounds depth) m = (ending, after) →
        after.stack.depth = m.stack.depth ∧ ending ≠ .error (.fault .emptyCallStack)) ∧
    (∀ (limit rounds : Nat) (jobs : List Job) (m after : Machine)
      (endings : List (Except Halt Value)),
      m.stack.depth = 1 → m.perform limit rounds jobs = (endings, after) →
        after.stack.depth = 1 ∧ .error (.fault .emptyCallStack) ∉ endings) ∧
    (∀ (limit rounds : Nat) (source : String) (error : ParseError) (m : Machine),
      Node.parse source = .error error →
        on (Run.sourceWithin limit rounds source) m = (.error (.fault (.parse error)), m)) := by
  refine ⟨fun rounds depth node m after ending hon => ?_,
    fun limit rounds jobs m after endings hroot hperform => ?_,
    fun limit rounds source error m hparse => ?_⟩
  · exact compositional_balanced.visitWithin depth node hon
  · rw [CallStack.depth_eq_one_iff] at hroot ⊢
    obtain ⟨hafter, hendings⟩ := Machine.perform_induction (I := fun m => m.stack.calls = [])
      (Q := fun ending => ending ≠ .error (.fault .emptyCallStack))
      (fun job _ _ _ _ hcalls hon => balanced_job job hcalls hon) hroot hperform
    exact ⟨hafter, fun hmem => hendings _ hmem rfl⟩
  · exact on_source_of_error hparse limit rounds m

set_option maxRecDepth 2000 in
/-- A division by zero inside of a call, and then a source that ends too early. -/
theorem no_frame_left_behind_division :
    ∃ after : Machine,
      (Machine.start true (Dice.cycling []) (Clock.ticking 0 1) []).perform 1 0
          [.source "hallo\nfunny f() avo x = 1 / 0 cado\nf()\nreicht dann auch mal",
            .source "hallo"] =
        ([.error (.fault (.violation .divisionByZero)),
          .error (.fault (.parse (.unexpected ⟨.endOfInput, ⟨1, 6⟩⟩ .breakAfterGreeting)))],
            after) ∧
      after.stack.depth = 1 := by
  have hparse : Node.parse "hallo\nfunny f() avo x = 1 / 0 cado\nf()\nreicht dann auch mal" =
      .ok [.declare "f" []
          (.block [.assign "x" (.binary (.literal (.integer 1)) "/" (.literal (.integer 0)))]),
        .call "f" []] := by
    cbv
  have hrefused : Node.parse "hallo" =
      .error (.unexpected ⟨.endOfInput, ⟨1, 6⟩⟩ .breakAfterGreeting) := by
    cbv
  obtain ⟨middle, hfirst⟩ : ∃ middle,
      on ((Job.source "hallo\nfunny f() avo x = 1 / 0 cado\nf()\nreicht dann auch mal").run 1 0)
          (.start true (Dice.cycling []) (Clock.ticking 0 1) []) =
        (.error (.fault (.violation .divisionByZero)), middle) := by
    have hcalls :
        (Machine.start true (Dice.cycling []) (Clock.ticking 0 1) []).stack.calls = [] := rfl
    rw [Job.run, on_source_of_ok hparse hcalls]
    exact ⟨_, by cbv⟩
  have hsecond : on ((Job.source "hallo").run 1 0) middle =
      (.error (.fault (.parse (.unexpected ⟨.endOfInput, ⟨1, 6⟩⟩ .breakAfterGreeting))), middle) :=
    no_frame_left_behind.2.2 1 0 "hallo" _ middle hrefused
  have hperform := Machine.perform_cons hfirst
    (Machine.perform_cons hsecond (Machine.perform_nil 1 0 middle))
  exact ⟨middle, hperform, (no_frame_left_behind.2.1 1 0 _ _ _ _ rfl hperform).1⟩

end Run

end Hallo
