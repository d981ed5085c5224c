import Hallo.Proofs.Evaluator.Alike
import Hallo.Proofs.Evaluator.Local
import Hallo.Proofs.Evaluator.Secluded
import Mathlib

/-!
What a call can see. The frame of a call has the caller's functions and the arguments, and of the
caller's variables nothing; so two quiet machines that know the same functions and have the same
answers to give run a call alike, whatever their variables are.
-/
namespace Hallo

namespace Run

variable {α β : Type} {x : Run α} {f : α → Run β} {m other : Machine}

/-- What an evaluation does on a quiet machine follows from the top frame and the answers. -/
theorem Secluded.of_top (hx : Secluded x) (hlocal : Local x) (frame : Frame)
    (answers : List (Option String)) :
    ∃ ending frame' unread story, (∀ event ∈ story, event.Undisguised) ∧
      ∀ m : Machine, m.Quiet → m.stack.top = frame → m.answers = answers →
        on x m =
          (ending, { m with
            stack := m.stack.setTop frame', answers := unread, log := story ++ m.log }) := by
  -- The frame alone on its stack stands for all stacks that have it on top.
  obtain ⟨ending, stack, unread, story, hstory, hrun⟩ := hx { root := frame } answers
  refine ⟨ending, stack.top, unread, story, hstory, fun m hm htop hanswers => ?_⟩
  obtain ⟨ending', frame', next, _, hsame⟩ := hlocal m
  have halone := hrun { m with stack := { root := frame } } ⟨hm.strict, hm.robot⟩ rfl hanswers
  rw [hsame { root := frame } htop.symm] at halone
  have hhere := hsame m.stack rfl
  cases next
  cases halone
  exact hhere

/-- On a quiet machine, how the action ends, what it lets out and what it leaves of the answers
    follows from the answers and the functions in sight alone, and nothing else is changed. -/
def Blind (x : Run α) : Prop :=
  ∀ (functions : List Routine) (answers : List (Option String)), ∃ ending unread story,
    (∀ event ∈ story, event.Undisguised) ∧
      ∀ m : Machine, m.Quiet → m.stack.top.functions = functions → m.answers = answers →
        on x m = (ending, { m with answers := unread, log := story ++ m.log })

namespace Blind

theorem of_detached (hx : Secluded x) (hdetached : Detached x) : Blind x := by
  intro functions answers
  obtain ⟨ending, stack, unread, story, hstory, hrun⟩ := hx {} answers
  refine ⟨ending, unread, story, hstory, fun m hm _ hanswers => ?_⟩
  obtain ⟨ending', next, hsame⟩ := hdetached m
  have halone := hrun { m with stack := {} } ⟨hm.strict, hm.robot⟩ rfl hanswers
  rw [hsame {}] at halone
  have hhere := hsame m.stack
  cases next
  cases halone
  exact hhere

theorem pure (a : α) : Blind (Pure.pure a) :=
  of_detached (.pure a) (.pure a)

theorem bind (hx : Blind x) (hf : ∀ a, Blind (f a)) : Blind (x >>= f) := by
  intro functions answers
  obtain ⟨ending, unread, story, hstory, hrun⟩ := hx functions answers
  cases ending with
  | error halt =>
    refine ⟨.error halt, unread, story, hstory, fun m hm hfunctions hanswers => ?_⟩
    exact on_bind_of_error (hrun m hm hfunctions hanswers)
  | ok a =>
    obtain ⟨ending, unread', story', hstory', hrun'⟩ := hf a functions unread
    refine ⟨ending, unread', story' ++ story, List.forall_mem_append.2 ⟨hstory', hstory⟩,
      fun m hm hfunctions hanswers => ?_⟩
    have hsecond := hrun' { m with answers := unread, log := story ++ m.log }
      ⟨hm.strict, hm.robot⟩ hfunctions rfl
    rw [on_bind_of_ok (hrun m hm hfunctions hanswers), hsecond, List.append_assoc]

theorem display (value : Value) : Blind (Run.display value) :=
  of_detached (.display value) (.writable _)

theorem shout (intensity : Int) (text : String) : Blind (Run.shout intensity text) :=
  of_detached (.shout intensity text) (.shout intensity text)

theorem askValue (prompt : String) : Blind (Run.askValue prompt) :=
  of_detached (.askValue prompt) (.askValue prompt)

theorem routineFor (name : String) (count : Nat) : Blind (Run.routineFor name count) := by
  intro functions answers
  cases hfunction : functions.find? (·.name = name) with
  | none =>
    refine ⟨.error (.fault (.violation (.unknownFunction name))), answers, [], by simp, ?_⟩
    rintro m _ rfl rfl
    rw [on_routineFor, Frame.function?, hfunction]
    rfl
  | some routine =>
    let ending : Except Halt Routine :=
      if routine.params.length = count then .ok routine
      else .error (.fault (.violation (.argumentCount name routine.params.length count)))
    refine ⟨ending, answers, [], by simp, ?_⟩
    rintro m _ rfl rfl
    rw [on_routineFor, Frame.function?, hfunction]
    rfl

/-- A frame of its own hides the frames below, and is gone afterwards. -/
theorem inCall (hx : Secluded x) (hlocal : Local x) (frame : Frame) :
    Blind (Run.inCall frame x) := by
  intro functions answers
  obtain ⟨ending, frame', unread, story, hstory, hrun⟩ := hx.of_top hlocal frame answers
  refine ⟨ending, unread, story, hstory, fun m hm _ hanswers => ?_⟩
  have hinside := hrun { m with stack := m.stack.push frame } ⟨hm.strict, hm.robot⟩ rfl hanswers
  rw [on_inCall, hinside]
  rfl

/-- The frame of a call is made of the functions in sight and the arguments. -/
theorem enterRoutine {body : Node → Run Outcome} {routine : Routine}
    (hbody : Secluded (body routine.body)) (hlocal : Local (body routine.body))
    (arguments : List Value) :
    Blind (Run.enterRoutine body routine arguments) := by
  intro functions answers
  let frame := Frame.entering { functions := functions } routine.params arguments
  obtain ⟨ending, unread, story, hstory, hrun⟩ :=
    (inCall hbody hlocal frame).bind (fun outcome => pure outcome.get) functions answers
  refine ⟨ending, unread, story, hstory, ?_⟩
  rintro m hm rfl rfl
  rw [Run.enterRoutine, on_bind_of_ok (on_top m)]
  exact hrun m hm rfl rfl

theorem watched {x : Run Outcome} (node : Node) (hx : Blind x) : Blind (Run.watched node x) := by
  have hconsult : ∀ value, Blind (Run.consult node value) := by
    intro value functions answers
    refine ⟨.ok (), answers, [], by simp, ?_⟩
    rintro m hm _ rfl
    exact on_consult_of_quiet hm node value
  rw [watched_eq]
  exact hx.bind fun outcome => (hconsult outcome.get).bind fun _ => pure outcome

variable {rounds : Nat} {body : Node → Run Outcome}

theorem literal (value : Value) : Blind ((Node.literal value).visit rounds body) := by
  rw [Node.visit]
  exact watched _ (pure _)

theorem valuesOf (values : List Value) :
    Blind (Node.valuesOf rounds body (values.map .literal)) := by
  induction values with
  | nil => exact pure _
  | cons value values ih =>
    rw [List.map_cons, Node.valuesOf]
    exact (literal value).bind fun _ => ih.bind fun _ => pure _

theorem render (values : List Value) : Blind (Node.render rounds body (values.map .literal)) := by
  induction values with
  | nil => exact pure _
  | cons value values ih =>
    rw [List.map_cons, Node.render]
    exact (literal value).bind fun outcome => (display outcome.get).bind fun _ =>
      ih.bind fun _ => pure _

/-- A call with literal arguments sees nothing of the variables. -/
theorem call (hbody : ∀ node, Secluded (body node)) (hlocal : ∀ node, Local (body node))
    (callee : String) (values : List Value) :
    Blind ((Node.call callee (values.map .literal)).visit rounds body) := by
  rw [Node.visit]
  refine watched _ ?_
  split
  · exact (render values).bind fun text => (shout _ text).bind fun _ => pure _
  · split
    · exact (render values).bind fun prompt => (askValue prompt).bind fun _ => pure _
    · refine (routineFor callee _).bind fun routine => (valuesOf values).bind fun values => ?_
      exact (enterRoutine (hbody routine.body) (hlocal routine.body) values).bind fun _ => pure _

theorem visitWithin_call (rounds depth : Nat) (callee : String) (values : List Value) :
    Blind ((Node.call callee (values.map .literal)).visitWithin rounds depth) := by
  cases depth with
  | zero =>
    have hdeep (_ : Node) : Secluded (violate .stackOverflow : Run Outcome) :=
      compositional_secluded.violate _
    exact call hdeep (fun _ => compositional_local.violate _) callee values
  | succ depth =>
    exact call (fun node => compositional_secluded.visitWithin depth node)
      (fun node => compositional_local.visitWithin depth node) callee values

end Blind

/-- A function sees its arguments and the functions in sight, and nothing else. On two quiet
    machines whose top frames know the same functions and that have the same answers to give, a call
    with literal arguments ends alike, lets out the same, and leaves the same answers unread,
    whatever variables there are in the frames; and it leaves the frames as they were. -/
theorem calls_see_arguments_only (rounds depth : Nat) (callee : String) (values : List Value)
    {m other : Machine} (hm : m.Quiet) (hother : other.Quiet)
    (hfunctions : m.stack.top.functions = other.stack.top.functions)
    (hanswers : m.answers = other.answers) :
    ∃ ending unread story, (∀ event ∈ story, event.Undisguised) ∧
      on ((Node.call callee (values.map .literal)).visitWithin rounds depth) m =
        (ending, { m with answers := unread, log := story ++ m.log }) ∧
      on ((Node.call callee (values.map .literal)).visitWithin rounds depth) other =
        (ending, { other with answers := unread, log := story ++ other.log }) := by
  obtain ⟨ending, unread, story, hstory, hrun⟩ :=
    Blind.visitWithin_call rounds depth callee values m.stack.top.functions m.answers
  exact ⟨ending, unread, story, hstory, hrun m hm rfl rfl,
    hrun other hother hfunctions.symm hanswers.symm⟩

/-- A function that shouts its argument, asks for `x` and adds the caller's `y` to it does not find
    `y`, whether the caller has one or not. -/
theorem calls_see_arguments_only_hidden :
    let add : Routine := ⟨"add", ["a"], .block
      [.call ":O__" [.var "a"], .assign "x" (.call "frag" [.literal (.text "x? ")]),
        .giveBack (.binary (.var "x") "+" (.var "y"))]⟩
    let start := Machine.start true (Dice.cycling []) (Clock.ticking 0 1) [some "3", some "4"]
    let m :=
      { start with stack := { calls := [{ bindings := [("y", .integer 5)], functions := [add] }] } }
    let other :=
      { start with stack := { calls := [{ bindings := [("a", .nothing)], functions := [add] }] } }
    ∃ story,
      on ((Node.call "add" [.literal (.text "hi")]).visitWithin 0 1) m =
        (.error (.fault (.violation (.unknownVariable "y"))),
          { m with answers := [some "4"], log := story }) ∧
      on ((Node.call "add" [.literal (.text "hi")]).visitWithin 0 1) other =
        (.error (.fault (.violation (.unknownVariable "y"))),
          { other with answers := [some "4"], log := story }) := by
  intro add start m other
  have hm : m.Quiet := ⟨rfl, rfl⟩
  have hother : other.Quiet := ⟨rfl, rfl⟩
  obtain ⟨ending, unread, story, _, hon, hon'⟩ :=
    calls_see_arguments_only 0 1 "add" [.text "hi"] hm hother rfl rfl
  obtain ⟨after, hrun, hafter⟩ : ∃ after : Machine,
      on ((Node.call "add" [.literal (.text "hi")]).visitWithin 0 1) m =
        (.error (.fault (.violation (.unknownVariable "y"))), after) ∧ after.answers = [some "4"] :=
    ⟨_, by cbv, rfl⟩
  cases hrun.symm.trans hon
  cases hafter
  exact ⟨story ++ m.log, hon, hon'⟩

end Run

end Hallo
