import Hallo.Proofs.Evaluator.Compositional
import Hallo.Proofs.Evaluator.Quiet
import Hallo.Proofs.Sequence

/-!
What quiet machines depend on. Where the worker is strict and the shouter a robot, an evaluation
sees nothing but the frames and the answers; chance, time and fatigue do not enter into it.
-/
namespace Hallo

/-- What is let out on a quiet machine: lines, texts that are heard as they were said, and the
    program's own questions. There are no naps. -/
def Event.Undisguised : Event → Prop
  | .line _ => True
  | .shout _ text heard => heard = text
  | .question asker _ _ => asker = .program
  | .nap _ => False

namespace Run

variable {α β : Type} {x : Run α} {f : α → Run β}

/-- On a quiet machine, how the action ends, what it lets out and what it leaves of the frames and
    the answers follows from the frames and the answers alone, and nothing else is changed. -/
def Secluded (x : Run α) : Prop :=
  ∀ (stack : CallStack) (answers : List (Option String)), ∃ ending stack' answers' story,
    (∀ event ∈ story, event.Undisguised) ∧
      ∀ m : Machine, m.Quiet → m.stack = stack → m.answers = answers →
        on x m = (ending, { m with stack := stack', answers := answers', log := story ++ m.log })

namespace Secluded

/-- Actions on the frames alone are secluded. -/
theorem of_stack (r : CallStack → Except Halt α) (next : CallStack → CallStack)
    (hx : ∀ m, on x m = (r m.stack, { m with stack := next m.stack })) : Secluded x := by
  intro stack answers
  refine ⟨r stack, next stack, answers, [], by simp, ?_⟩
  rintro m _ rfl rfl
  exact hx m

theorem pure (a : α) : Secluded (Pure.pure a) :=
  of_stack (fun _ => .ok a) id fun _ => rfl

theorem halt {halt : Halt} (hx : ∀ m, on x m = (.error halt, m)) : Secluded x :=
  of_stack (fun _ => .error halt) id hx

theorem bind (hx : Secluded x) (hf : ∀ a, Secluded (f a)) : Secluded (x >>= f) := by
  intro stack answers
  obtain ⟨ending, stack', answers', story, hstory, hrun⟩ := hx stack answers
  cases ending with
  | error halt =>
    refine ⟨.error halt, stack', answers', story, hstory, fun m hm hstack hanswers => ?_⟩
    rw [on_bind_of_error (hrun m hm hstack hanswers)]
  | ok a =>
    obtain ⟨ending, stack'', answers'', story', hstory', hrun'⟩ := hf a stack' answers'
    refine ⟨ending, stack'', answers'', story' ++ story, List.forall_mem_append.2 ⟨hstory', hstory⟩,
      fun m hm hstack hanswers => ?_⟩
    have hsecond := hrun' { m with stack := stack', answers := answers', log := story ++ m.log }
      ⟨hm.strict, hm.robot⟩ rfl rfl
    rw [on_bind_of_ok (hrun m hm hstack hanswers), hsecond, List.append_assoc]

theorem display (value : Value) : Secluded (Run.display value) :=
  of_stack (fun _ => _) id (on_display value)

theorem declareRoutine (routine : Routine) : Secluded (Run.declareRoutine routine) := by
  refine of_stack
    (fun stack =>
      if (stack.top.declare? routine).isSome then .ok ()
      else .error (.fault (.violation (.alreadyDeclared routine.name))))
    (fun stack => (stack.top.declare? routine).elim stack stack.setTop) fun m => ?_
  rw [on_declareRoutine]
  cases m.stack.top.declare? routine <;> rfl

theorem write (text : String) : Secluded (Run.write text) := by
  intro stack answers
  refine ⟨.ok (), stack, answers, [.line text], by simp [Event.Undisguised], ?_⟩
  rintro m _ rfl rfl
  exact on_write text m

/-- A robot draws nothing, takes no nap and keeps its voice. -/
theorem shout (intensity : Int) (text : String) : Secluded (Run.shout intensity text) := by
  intro stack answers
  refine ⟨.ok (), stack, answers, [.shout intensity text text], by simp [Event.Undisguised], ?_⟩
  rintro m hm rfl rfl
  exact on_shout_of_quiet hm intensity text

theorem askValue (prompt : String) : Secluded (Run.askValue prompt) := by
  intro stack answers
  have hstory : ∀ event ∈ [Event.question .program prompt answers.head?.join],
      event.Undisguised := by
    simp [Event.Undisguised]
  cases hanswer : Value.ofAnswer (answers.head?.join.getD "") with
  | ok value =>
    refine ⟨.ok value, stack, answers.tail, _, hstory, ?_⟩
    rintro m _ rfl rfl
    rw [on_askValue, hanswer]
    rfl
  | error error =>
    refine ⟨.error (.fault (.parse error)), stack, answers.tail, _, hstory, ?_⟩
    rintro m _ rfl rfl
    rw [on_askValue, hanswer]
    rfl

theorem inCall {x : Run Outcome} (frame : Frame) (hx : Secluded x) :
    Secluded (Run.inCall frame x) := by
  intro stack answers
  obtain ⟨ending, stack', answers', story, hstory, hrun⟩ := hx (stack.push frame) answers
  have hbody : ∀ m : Machine, m.Quiet → m.stack = stack → m.answers = answers →
      on x { m with stack := m.stack.push frame } =
        (ending, { m with stack := stack', answers := answers', log := story ++ m.log }) := by
    intro m hm hstack hanswers
    exact hrun { m with stack := m.stack.push frame } ⟨hm.strict, hm.robot⟩
      (by rw [hstack]) hanswers
  cases hpop : stack'.pop? with
  | none =>
    refine ⟨.error (.fault .emptyCallStack), stack', answers', story,
      hstory, fun m hm hstack hanswers => ?_⟩
    rw [on_inCall, hbody m hm hstack hanswers]
    simp only [hpop]
  | some popped =>
    refine ⟨ending, popped.2, answers', story, hstory, fun m hm hstack hanswers => ?_⟩
    rw [on_inCall, hbody m hm hstack hanswers]
    simp only [hpop]

theorem consult (node : Node) (value : Value) : Secluded (Run.consult node value) := by
  intro stack answers
  refine ⟨.ok (), stack, answers, [], by simp, ?_⟩
  rintro m hm rfl rfl
  exact on_consult_of_quiet hm node value

theorem unwinding (hx : Secluded x) : Secluded (Run.unwinding x) := by
  intro stack answers
  obtain ⟨ending, stack', answers', story, hstory, hrun⟩ := hx stack answers
  by_cases hdeep : ending = .error (.fault (.violation .stackOverflow))
  · refine ⟨ending, stack'.unwind, answers', story, hstory, fun m hm hstack hanswers => ?_⟩
    rw [on_unwinding, hrun m hm hstack hanswers, hdeep]
  · refine ⟨ending, stack', answers', story, hstory, fun m hm hstack hanswers => ?_⟩
    exact (on_unwinding_eq_iff hdeep).2 (hrun m hm hstack hanswers)

end Secluded

/-- Every evaluation is secluded, since each of its parts is. -/
theorem compositional_secluded : Compositional fun _ x => Secluded x where
  pure := .pure
  bind := .bind
  violate violation := .halt (on_violate violation)
  unfinished := @fun _ => Secluded.halt fun _ => rfl
  display := .display
  write := .write
  top := .of_stack (fun stack => .ok stack.top) id on_top
  assign name value :=
    .of_stack (fun _ => .ok ()) (fun stack => stack.setTop (stack.top.set name value)) fun _ => rfl
  declareRoutine := .declareRoutine
  shout intensity text _ := .shout intensity text
  askValue := .askValue
  inCall := .inCall
  consult := .consult

theorem secluded_job (limit rounds : Nat) (job : Job) : Secluded (job.run limit rounds) := by
  cases job with
  | tree node => exact compositional_secluded.evaluateWithin limit node
  | source text =>
    rw [Job.run, Run.sourceWithin]
    split
    · exact .unwinding (compositional_secluded.evaluateWithin limit _)
    · exact .halt fun _ => rfl

/-- A sequence of secluded runs is secluded. -/
theorem secluded_perform (limit rounds : Nat) (jobs : List Job) (stack : CallStack)
    (answers : List (Option String)) :
    ∃ endings stack' answers' story, (∀ event ∈ story, event.Undisguised) ∧
      ∀ m : Machine, m.Quiet → m.stack = stack → m.answers = answers →
        m.perform limit rounds jobs =
          (endings, { m with stack := stack', answers := answers', log := story ++ m.log }) := by
  induction jobs generalizing stack answers with
  | nil =>
    refine ⟨[], stack, answers, [], by simp, ?_⟩
    rintro m _ rfl rfl
    rfl
  | cons job jobs ih =>
    obtain ⟨ending, stack', answers', story, hstory, hrun⟩ :=
      secluded_job limit rounds job stack answers
    obtain ⟨endings, stack'', answers'', story', hstory', hothers⟩ := ih stack' answers'
    refine ⟨ending :: endings, stack'', answers'', story' ++ story,
      List.forall_mem_append.2 ⟨hstory', hstory⟩, fun m hm hstack hanswers => ?_⟩
    have hsecond := hothers { m with stack := stack', answers := answers', log := story ++ m.log }
      ⟨hm.strict, hm.robot⟩ rfl rfl
    rw [Machine.perform_cons (hrun m hm hstack hanswers) hsecond, List.append_assoc]

/-- Chance, time and fatigue do not enter into quiet runs. Two quiet machines with the same frames
    and the same answers run every sequence of programs and trees alike: each run ends alike on
    both, the same is let out, the same frames and unread answers are left. Dice, clock, worker and
    shouter stay as they were, nobody takes a nap, and only the program asks questions. -/
theorem quiet_runs_agree (limit rounds : Nat) (jobs : List Job) {m other : Machine} (hm : m.Quiet)
    (hother : other.Quiet) (hstack : m.stack = other.stack) (hanswers : m.answers = other.answers) :
    ∃ endings stack unread story, (∀ event ∈ story, event.Undisguised) ∧
      m.perform limit rounds jobs =
        (endings, { m with stack := stack, answers := unread, log := story ++ m.log }) ∧
      other.perform limit rounds jobs =
        (endings, { other with stack := stack, answers := unread, log := story ++ other.log }) := by
  obtain ⟨endings, stack, unread, story, hstory, hrun⟩ :=
    secluded_perform limit rounds jobs m.stack m.answers
  exact ⟨endings, stack, unread, story, hstory, hrun m hm rfl rfl,
    hrun other hother hstack.symm hanswers.symm⟩

/-- A rested worker and a worn-out one, a fresh voice and a lost one make no difference to a program
    that asks and shouts, nor to a tree that means nothing. -/
theorem quiet_runs_agree_worn :
    let jobs : List Job :=
      [.source "hallo\nx = frag(<n>)\n:O___(x)\nreicht dann auch mal", .tree .bare]
    let rested := Machine.start true (Dice.cycling [1, 2]) (Clock.ticking 0 1) [some "7"]
    let worn : Machine :=
      { worker :=
          { contract := { strict := true, bounds := [] }
            fatigue := 10000
            lastReset := 5
            cooldown := 0 }
        shouter := { robot := true, voiceDamage := 2000 }
        dice := Dice.cycling []
        clock := Clock.ticking 9 0
        answers := [some "7"] }
    (worn.perform 1 0 jobs).1 = (rested.perform 1 0 jobs).1 ∧
      (worn.perform 1 0 jobs).2.stack = (rested.perform 1 0 jobs).2.stack ∧
      (worn.perform 1 0 jobs).2.log = (rested.perform 1 0 jobs).2.log ∧
      (worn.perform 1 0 jobs).2.worker = worn.worker := by
  intro jobs rested worn
  obtain ⟨endings, stack, unread, story, _, hrested, hworn⟩ :=
    quiet_runs_agree 1 0 jobs (⟨rfl, rfl⟩ : rested.Quiet) (⟨rfl, rfl⟩ : worn.Quiet) rfl rfl
  rw [hrested, hworn]
  exact ⟨rfl, rfl, rfl, rfl⟩

end Run

end Hallo
