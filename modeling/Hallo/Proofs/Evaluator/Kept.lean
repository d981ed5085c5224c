import Hallo.Proofs.Evaluator.Local
import Hallo.Proofs.Sequence

/-!
What all runs keep. Most of what can be said of a machine has nothing to do with its frames. If such
a property outlasts writing, shouting, asking and the worker's part after a node, it outlasts every
evaluation, and so every sequence of runs.
-/
namespace Hallo

namespace Run

variable {α β : Type} {I : Machine → Prop} {x : Run α} {f : α → Run β}

/-- On a machine with a certain property, the action leaves a machine with that property behind,
    however it ends. -/
def Keeps (I : Machine → Prop) (x : Run α) : Prop :=
  ∀ ⦃m : Machine⦄ ⦃ending : Except Halt α⦄ ⦃after : Machine⦄, I m →
    on x m = (ending, after) → I after

namespace Keeps

theorem of_on {ending : Machine → Except Halt α} {next : Machine → Machine}
    (hx : ∀ m, on x m = (ending m, next m)) (hnext : ∀ m, I m → I (next m)) : Keeps I x := by
  intro m ending after hm hon
  rw [hx] at hon
  cases hon
  exact hnext m hm

theorem pure (a : α) : Keeps I (Pure.pure a) :=
  of_on (fun _ => rfl) fun _ hm => hm

theorem halt {halt : Halt} (hx : ∀ m, on x m = (.error halt, m)) : Keeps I x :=
  of_on hx fun _ hm => hm

/-- What an action has left, the next one starts with. -/
theorem bind (hx : Keeps I x) (hf : ∀ a, Keeps I (f a)) : Keeps I (x >>= f) := by
  intro m ending after hm hon
  rcases on_bind_eq_iff.1 hon with ⟨a, middle, hfirst, hsecond⟩ | ⟨halt, hfirst, _⟩
  · exact hf a (hx hm hfirst) hsecond
  · exact hx hm hfirst

theorem writable (text : Except Unwritable α) : Keeps I (Run.writable text) := by
  cases text with
  | ok text => exact pure text
  | error reason => exact halt fun _ => rfl

theorem abort (expected : Value) (answer : String) : Keeps I (Run.abort expected answer : Run α) :=
  (writable _).bind fun _ => halt fun _ => rfl

/-- When the worker asks, it writes some lines and asks, and then it may rest. -/
theorem inquire {inquiry : Inquiry} (hwrite : ∀ text, Keeps I (Run.write text))
    (hask : Keeps I (Run.ask (.worker inquiry) "[dmm] what is it? ")) (hrest : Keeps I Run.rest)
    (mood : Mood) (scope : Except Unwritable String) :
    Keeps I (Run.inquire mood scope inquiry) := by
  refine (hwrite _).bind fun _ => (writable scope).bind fun _ => ?_
  refine (hwrite _).bind fun _ => (writable inquiry.node.source).bind fun _ => ?_
  refine (hwrite _).bind fun _ => hask.bind fun answer => ?_
  rw [judge]
  split
  · split
    · exact hrest
    · exact abort _ answer
  · split
    · exact halt fun _ => rfl
    · exact abort _ answer

end Keeps

end Run

/-- A property of machines that has nothing to do with frames and that outlasts all that is done to
    the rest of a machine. -/
structure Machine.Invariant (I : Machine → Prop) : Prop where
  stack {m : Machine} (stack : CallStack) : I m → I { m with stack := stack }
  write (text : String) : Run.Keeps I (Run.write text)
  shout (intensity : Int) (text : String) : 1 ≤ intensity → Run.Keeps I (Run.shout intensity text)
  ask (prompt : String) : Run.Keeps I (Run.ask .program prompt)
  consult (node : Node) (value : Value) : Run.Keeps I (Run.consult node value)

namespace Machine.Invariant

open Run

variable {I : Machine → Prop} (hI : Invariant I)

include hI

theorem declareRoutine (routine : Routine) : Keeps I (Run.declareRoutine routine) := by
  intro m ending after hm hon
  rw [on_declareRoutine] at hon
  cases hdeclare : m.stack.top.declare? routine with
  | none =>
    rw [hdeclare] at hon
    cases hon
    exact hm
  | some frame =>
    rw [hdeclare] at hon
    cases hon
    exact hI.stack _ hm

theorem askValue (prompt : String) : Keeps I (Run.askValue prompt) := by
  refine (hI.ask prompt).bind fun answer => ?_
  split
  · exact .pure _
  · exact .halt fun _ => rfl

theorem inCall {x : Run Outcome} (frame : Frame) (hx : Keeps I x) :
    Keeps I (Run.inCall frame x) := by
  intro m ending after hm hon
  rcases hbody : on x { m with stack := m.stack.push frame } with ⟨ending', inside⟩
  have hinside := hx (hI.stack _ hm) hbody
  rw [on_inCall, hbody] at hon
  dsimp only at hon
  split at hon
  · cases hon
    exact hI.stack _ hinside
  · cases hon
    exact hinside

theorem unwinding {α : Type} {x : Run α} (hx : Keeps I x) : Keeps I (Run.unwinding x) := by
  intro m ending after hm hon
  rw [on_unwinding] at hon
  split at hon
  · rename_i hdeep
    cases hon
    exact hI.stack _ (hx hm hdeep)
  · exact hx hm hon

/-- Every evaluation keeps the property, since each of its parts does. -/
theorem compositional : Compositional fun _ x => Keeps I x where
  pure := .pure
  bind := .bind
  violate _ := .halt fun _ => rfl
  unfinished := @fun _ => .halt fun _ => rfl
  display _ := .writable _
  write := hI.write
  top := .of_on on_top fun _ hm => hm
  assign _ _ := .of_on (fun _ => rfl) fun _ hm => hI.stack _ hm
  declareRoutine := hI.declareRoutine
  shout := hI.shout
  askValue := hI.askValue
  inCall := hI.inCall
  consult := hI.consult

theorem sourceWithin (limit rounds : Nat) (source : String) :
    Keeps I (Run.sourceWithin limit rounds source) := by
  unfold Run.sourceWithin
  split
  · exact hI.unwinding (hI.compositional.evaluateWithin limit _)
  · exact .halt fun _ => rfl

theorem job (limit rounds : Nat) (job : Job) : Keeps I (job.run limit rounds) := by
  cases job with
  | tree node => exact hI.compositional.evaluateWithin limit node
  | source text => exact hI.sourceWithin limit rounds text

/-- Sequences of runs keep the property. -/
theorem perform {limit rounds : Nat} {jobs : List Job} {m after : Machine}
    {endings : List (Except Halt Value)} (hm : I m)
    (hperform : m.perform limit rounds jobs = (endings, after)) : I after := by
  obtain ⟨hafter, _⟩ := perform_induction (I := I) (Q := fun _ => True)
    (fun job _ _ _ _ hm hon => ⟨hI.job limit rounds job hm hon, trivial⟩) hm hperform
  exact hafter

end Machine.Invariant

end Hallo
