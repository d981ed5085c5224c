import Hallo.Proofs.Evaluator.Consult
import Hallo.Proofs.Evaluator.Local
import Hallo.Proofs.Node.RoundTrip
import Mathlib

/-!
Expressions and the frames. An expression can run statements, but only in calls, and a call has a
frame of its own. So the evaluation of an expression touches no frame that was there before,
however it ends, and it never ends in a return.
-/
namespace Hallo

/-- An outcome that is not on its way up to a call. -/
def Outcome.Plain (outcome : Outcome) : Prop :=
  ∃ value, outcome = .value value

namespace Run

open Node

variable {α β : Type} {Q : α → Prop} {R : β → Prop} {x : Run α} {f : α → Run β}

/-- The action leaves every frame as it was, and what it gives is of a certain kind. -/
def Undisturbing (Q : α → Prop) (x : Run α) : Prop :=
  ∀ ⦃m : Machine⦄ ⦃ending : Except Halt α⦄ ⦃after : Machine⦄, on x m = (ending, after) →
    after.stack = m.stack ∧ ∀ a, ending = .ok a → Q a

namespace Undisturbing

theorem of_detached (hx : Detached x) : Undisturbing (fun _ => True) x := by
  intro m ending after hon
  obtain ⟨ending', next, hrun⟩ := hx m
  have hsame := hrun m.stack
  rw [hon] at hsame
  cases hsame
  exact ⟨rfl, fun _ _ => trivial⟩

theorem pure {a : α} (ha : Q a) : Undisturbing Q (Pure.pure a) := by
  intro m ending after hon
  cases hon
  exact ⟨rfl, fun _ heq => Except.ok.inj heq ▸ ha⟩

theorem bind (hx : Undisturbing Q x) (hf : ∀ a, Undisturbing R (f a)) :
    Undisturbing R (x >>= f) := by
  intro m ending after hon
  rcases on_bind_eq_iff.1 hon with ⟨a, middle, hfirst, hsecond⟩ | ⟨halt, hfirst, rfl⟩
  · obtain ⟨hstack, _⟩ := hx hfirst
    obtain ⟨hstack', hending⟩ := hf a hsecond
    exact ⟨hstack'.trans hstack, hending⟩
  · exact ⟨(hx hfirst).1, nofun⟩

theorem violate (violation : Violation) : Undisturbing Q (Run.violate violation : Run α) := by
  intro m ending after hon
  cases hon
  exact ⟨rfl, nofun⟩

theorem of_calculates (hx : Calculates x) : Undisturbing (fun _ => True) x := by
  rcases hx with ⟨a, rfl⟩ | ⟨violation, rfl⟩
  · exact pure trivial
  · exact violate violation

theorem top : Undisturbing (fun _ => True) Run.top := by
  intro m ending after hon
  cases hon
  exact ⟨rfl, fun _ _ => trivial⟩

theorem routineFor (name : String) (count : Nat) :
    Undisturbing (fun _ => True) (Run.routineFor name count) := by
  refine top.bind fun frame => ?_
  split
  · exact violate _
  · split
    · exact pure trivial
    · exact violate _

/-- What happens in a call happens to its own frame, which is gone afterwards. -/
theorem inCall (frame : Frame) (hx : Local x) :
    Undisturbing (fun _ => True) (Run.inCall frame x) := by
  intro m ending after hon
  refine ⟨?_, fun _ _ => trivial⟩
  rcases hbody : on x { m with stack := m.stack.push frame } with ⟨ending', inside⟩
  obtain ⟨hstack, _⟩ := hx.cases hbody
  have hpop : inside.stack.pop? = some (inside.stack.top, m.stack) := by
    rw [hstack, CallStack.top_setTop]
    rfl
  rw [on_inCall, hbody] at hon
  simp only [hpop] at hon
  cases hon
  rfl

theorem enterRoutine {body : Node → Run Outcome} {routine : Routine}
    (hbody : Local (body routine.body)) (arguments : List Value) :
    Undisturbing (fun _ => True) (Run.enterRoutine body routine arguments) :=
  top.bind fun _ => (inCall _ hbody).bind fun _ => pure trivial

/-- The worker shows the variables, and leaves them alone. -/
theorem watched {x : Run Outcome} {Q : Outcome → Prop} (node : Node) (hx : Undisturbing Q x) :
    Undisturbing Q (Run.watched node x) := by
  intro m ending after hon
  rw [watched_eq] at hon
  rcases on_bind_eq_iff.1 hon with ⟨outcome, middle, hfirst, hsecond⟩ | ⟨halt, hfirst, rfl⟩
  · obtain ⟨hstack, houtcome⟩ := hx hfirst
    rcases on_bind_eq_iff.1 hsecond with ⟨_, last, hconsult, hpure⟩ | ⟨halt, hconsult, rfl⟩
    · obtain ⟨hremarked, _⟩ := consult_cases hconsult
      cases hpure
      refine ⟨hremarked.stack_eq.trans hstack, ?_⟩
      rintro _ ⟨⟩
      exact houtcome outcome rfl
    · obtain ⟨hremarked, _⟩ := consult_cases hconsult
      exact ⟨hremarked.stack_eq.trans hstack, nofun⟩
  · exact ⟨(hx hfirst).1, nofun⟩

variable {rounds : Nat} {body : Node → Run Outcome}

theorem valuesOf {arguments : List Node}
    (harguments : ∀ t ∈ arguments, Undisturbing Outcome.Plain (t.visit rounds body)) :
    Undisturbing (fun _ => True) (Node.valuesOf rounds body arguments) := by
  induction arguments with
  | nil => exact pure trivial
  | cons t arguments ih =>
    obtain ⟨hfirst, hothers⟩ := List.forall_mem_cons.1 harguments
    rw [Node.valuesOf]
    exact hfirst.bind fun _ => (ih hothers).bind fun _ => pure trivial

theorem render {arguments : List Node}
    (harguments : ∀ t ∈ arguments, Undisturbing Outcome.Plain (t.visit rounds body)) :
    Undisturbing (fun _ => True) (Node.render rounds body arguments) := by
  induction arguments with
  | nil => exact pure trivial
  | cons t arguments ih =>
    obtain ⟨hfirst, hothers⟩ := List.forall_mem_cons.1 harguments
    rw [Node.render]
    refine hfirst.bind fun outcome => (of_detached (.writable _)).bind fun _ => ?_
    exact (ih hothers).bind fun _ => pure trivial

/-- Where the bodies of functions keep to the frame they are run in, expressions touch no frame at
    all. -/
theorem visit (hbody : ∀ inner, Local (body inner)) {t : Node} (hexpression : IsExpression t) :
    Undisturbing Outcome.Plain (t.visit rounds body) := by
  have hplain (value : Value) : Undisturbing Outcome.Plain (Pure.pure (Outcome.value value)) :=
    pure ⟨value, rfl⟩
  induction hexpression with
  | literal _ =>
    rw [Node.visit]
    exact watched _ (hplain _)
  | var _ =>
    rw [Node.visit]
    refine watched _ (top.bind fun frame => ?_)
    split
    · exact hplain _
    · exact violate _
  | unary _ _ ih =>
    rw [Node.visit]
    refine watched _ (ih.bind fun outcome => ?_)
    refine (of_calculates (calculates_number outcome.get)).bind fun n => ?_
    exact (of_calculates (calculates_applyUnary _ n)).bind hplain
  | binary _ _ _ ihleft ihright =>
    rw [Node.visit]
    refine watched _ (ihleft.bind fun first => ?_)
    refine (of_calculates (calculates_number first.get)).bind fun m => ihright.bind fun second => ?_
    refine (of_calculates (calculates_number second.get)).bind fun n => ?_
    exact (of_calculates (calculates_applyBinary _ m n)).bind hplain
  | compare _ _ ihleft ihright =>
    rw [Node.visit]
    refine watched _ (ihleft.bind fun first => ihright.bind fun second => ?_)
    exact (of_calculates (calculates_applyComparison _ first.get second.get)).bind hplain
  | call _ _ ih =>
    rw [Node.visit]
    refine watched _ ?_
    split
    · refine (render ih).bind fun text => (of_detached (.shout _ text)).bind fun _ => ?_
      exact hplain .nothing
    · split
      · exact (render ih).bind fun prompt => (of_detached (.askValue prompt)).bind hplain
      · refine (routineFor _ _).bind fun routine => (valuesOf ih).bind fun values => ?_
        exact (enterRoutine (hbody routine.body) values).bind hplain

theorem visitWithin (rounds depth : Nat) {t : Node} (hexpression : IsExpression t) :
    Undisturbing Outcome.Plain (t.visitWithin rounds depth) := by
  cases depth with
  | zero => exact visit (fun _ => compositional_local.violate _) hexpression
  | succ depth => exact visit (fun inner => compositional_local.visitWithin depth inner) hexpression

end Undisturbing

/-- An assignment whose right-hand side fails comes no further. -/
theorem on_assign_of_error {rounds : Nat} {body : Node → Run Outcome} {value : Node} {halt : Halt}
    {m after : Machine} (target : String)
    (hon : on (value.visit rounds body) m = (.error halt, after)) :
    on ((Node.assign target value).visit rounds body) m = (.error halt, after) := by
  rw [Node.visit, watched_eq]
  exact on_bind_of_error (on_bind_of_error hon)

/-- Evaluating an expression touches no frame. Wherever an expression of a program is evaluated and
    however this ends, all frames are as they were, and what comes of it is a plain value and never
    a return. So an assignment whose right-hand side fails leaves its variable and all else as it
    was. What stands in place of an expression in a program that was parsed is one of these
    expressions. -/
theorem expressions_touch_no_frame :
    (∀ (source : String) (statements : List Node), Node.parse source = .ok statements →
      ∀ t ∈ statements, IsStatement t) ∧
    (∀ (rounds depth : Nat) (node : Node) (m after : Machine) (ending : Except Halt Outcome),
      IsExpression node → on (node.visitWithin rounds depth) m = (ending, after) →
        after.stack = m.stack ∧ ∀ outcome, ending = .ok outcome → outcome.Plain) ∧
    (∀ (rounds depth : Nat) (target : String) (value : Node) (m after : Machine) (halt : Halt),
      IsExpression value → on (value.visitWithin rounds depth) m = (.error halt, after) →
        on ((Node.assign target value).visitWithin rounds depth) m = (.error halt, after) ∧
          after.stack = m.stack) := by
  refine ⟨fun source statements hparse => isStatement_of_parse hparse,
    fun rounds depth node m after ending hnode hon =>
      Undisturbing.visitWithin rounds depth hnode hon,
    fun rounds depth target value m after halt hvalue hon => ?_⟩
  obtain ⟨hstack, _⟩ := Undisturbing.visitWithin rounds depth hvalue hon
  refine ⟨?_, hstack⟩
  cases depth <;> exact on_assign_of_error target hon

/-- A function that assigns `x`, declares another function and then divides by zero is called for
    the new value of the caller's `x`. The caller's frame keeps its `x`, and so does the frame
    below. -/
theorem expressions_touch_no_frame_division :
    let divide : Routine := ⟨"f", ["x"], .block
      [.assign "x" (.binary (.var "x") "+" (.literal (.integer 1))), .declare "g" [] (.block []),
        .giveBack (.binary (.var "x") "/" (.literal (.integer 0)))]⟩
    let start := Machine.start false (Dice.cycling []) (Clock.ticking 0 1) []
    let stack : CallStack :=
      { root := { bindings := [("x", .nothing)] }
        calls := [{ bindings := [("x", .integer 5)], functions := [divide] }] }
    ∃ after : Machine,
      Node.parse "hallo\nx = 1 - f(x)\nreicht dann auch mal" =
        .ok [.assign "x" (.binary (.literal (.integer 1)) "-" (.call "f" [.var "x"]))] ∧
      on (Node.visitWithin 0 1
          (.assign "x" (.binary (.literal (.integer 1)) "-" (.call "f" [.var "x"]))))
          { start with stack := stack } = (.error (.fault (.violation .divisionByZero)), after) ∧
      after.stack = stack := by
  intro divide start stack
  have hparse : Node.parse "hallo\nx = 1 - f(x)\nreicht dann auch mal" =
      .ok [.assign "x" (.binary (.literal (.integer 1)) "-" (.call "f" [.var "x"]))] := by
    cbv
  obtain ⟨after, hon⟩ : ∃ after,
      on ((Node.binary (.literal (.integer 1)) "-" (.call "f" [.var "x"])).visitWithin 0 1)
          { start with stack := stack } = (.error (.fault (.violation .divisionByZero)), after) :=
    ⟨_, by cbv⟩
  obtain ⟨hstatements, _, hassign⟩ := expressions_touch_no_frame
  cases hstatements _ _ hparse _ List.mem_cons_self with
  | assign _ hvalue =>
    obtain ⟨hfails, hstack⟩ := hassign 0 1 "x" _ _ _ _ hvalue hon
    exact ⟨after, hparse, hfails, hstack⟩

end Run

end Hallo
