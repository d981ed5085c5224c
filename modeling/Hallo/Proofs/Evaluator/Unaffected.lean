import Hallo.Proofs.Evaluator.Compositional
import Hallo.Proofs.Evaluator.Quiet
import Mathlib

/-!
What the worker and the shouter cannot change. A run on any machine is mirrored by a run on a quiet
one: as long as the worker does not end it, both do the same deeds and end alike.
-/
namespace Hallo

/-- What a program does to the outside: it says a text with some intensity, or it asks for a
    value and gets an answer, which is missing at the end of the input. -/
inductive Deed where
  | said (intensity : Int) (text : String)
  | asked (prompt : String) (answer : Option String)
  deriving DecidableEq, Repr

/-- The answer that was consumed, if a value was asked for. -/
def Deed.answer? : Deed → Option (Option String)
  | .asked _ answer => some answer
  | .said _ _ => none

/-- The deed of the program that an event shows, if it is one. Questions of the worker are not. -/
def Event.deed? : Event → Option Deed
  | .shout intensity text _ => some (.said intensity text)
  | .question .program prompt answer => some (.asked prompt answer)
  | _ => none

/-- What the program did so far, in order. -/
def Machine.deeds (m : Machine) : List Deed :=
  m.events.filterMap Event.deed?

/-- Failures for which the program or an unreadable text is responsible, other than the end of the
    host's own stack. -/
def Halt.Regular : Halt → Prop
  | .fault (.violation broken) => broken ≠ .stackOverflow
  | .fault (.parse error) => error.aboutNumeral = false
  | _ => False

/-- New events in the log are new deeds, in the same order. -/
theorem Machine.deeds_of_log {m after : Machine} (events : List Event)
    (hlog : after.log = events.reverse ++ m.log) :
    after.deeds = m.deeds ++ events.filterMap Event.deed? := by
  rw [deeds, deeds, Machine.events, Machine.events, hlog]
  simp

theorem Machine.deeds_of_idle {m after : Machine} (events : List Event)
    (hlog : after.log = events.reverse ++ m.log) (hidle : events.filterMap Event.deed? = []) :
    after.deeds = m.deeds := by
  rw [deeds_of_log events hlog, hidle, List.append_nil]

namespace Run

variable {α β : Type} {x : Run α} {f : α → Run β}

/-- Endings in a value or in a regular failure. -/
def Regular (ending : Except Halt α) : Prop :=
  ∀ halt, ending = .error halt → halt.Regular

/-- An action that does no deed, leaves every frame alone and never fails regularly. -/
def Idle (x : Run α) : Prop :=
  ∀ ⦃m : Machine⦄ ⦃ending : Except Halt α⦄ ⦃after : Machine⦄, on x m = (ending, after) →
    after.stack = m.stack ∧ after.deeds = m.deeds ∧ (Regular ending → ∃ a, ending = .ok a)

namespace Idle

theorem of_ok {next : Machine → Machine} {a : Machine → α} (hx : ∀ m, on x m = (.ok (a m), next m))
    (hstack : ∀ m, (next m).stack = m.stack) (hdeeds : ∀ m, (next m).deeds = m.deeds) : Idle x := by
  intro m ending after hon
  rw [hx] at hon
  cases hon
  exact ⟨hstack m, hdeeds m, fun _ => ⟨_, rfl⟩⟩

theorem pure (a : α) : Idle (Pure.pure a) :=
  of_ok (fun _ => rfl) (fun _ => rfl) fun _ => rfl

theorem bind (hx : Idle x) (hf : ∀ a, Idle (f a)) : Idle (x >>= f) := by
  intro m ending after hon
  rcases on_bind_eq_iff.1 hon with ⟨a, middle, hfirst, hsecond⟩ | ⟨halt, hfirst, rfl⟩
  · obtain ⟨hstack, hdeeds, _⟩ := hx hfirst
    obtain ⟨hstack', hdeeds', hregular⟩ := hf a hsecond
    exact ⟨hstack'.trans hstack, hdeeds'.trans hdeeds, hregular⟩
  · obtain ⟨hstack, hdeeds, hregular⟩ := hx hfirst
    refine ⟨hstack, hdeeds, fun hhalt => ?_⟩
    obtain ⟨a, ha⟩ := hregular fun other hother => hhalt other (by cases hother; rfl)
    cases ha

theorem fail {fault : Fault} (hfault : ¬ (Halt.fault fault).Regular) :
    Idle (Run.fail fault : Run α) := by
  intro m ending after hon
  cases hon
  exact ⟨rfl, rfl, fun hregular => absurd (hregular _ rfl) hfault⟩

theorem get : Idle (MonadState.get : Run Machine) :=
  of_ok (fun _ => rfl) (fun _ => rfl) fun _ => rfl

theorem writable {text : Except Unwritable α} : Idle (Run.writable text) := by
  cases text with
  | ok text => exact .pure text
  | error reason => exact .fail id

theorem write (text : String) : Idle (Run.write text) :=
  of_ok (on_write text) (fun _ => rfl) fun _ => Machine.deeds_of_idle [.line text] rfl rfl

theorem ask (inquiry : Inquiry) (prompt : String) : Idle (Run.ask (.worker inquiry) prompt) :=
  of_ok (on_ask _ prompt) (fun _ => rfl) fun _ =>
    Machine.deeds_of_idle [.question (.worker inquiry) prompt _] rfl rfl

theorem rest : Idle Run.rest :=
  of_ok (fun _ => rfl) (fun _ => rfl) fun _ => rfl

theorem abort (expected : Value) (answer : String) : Idle (Run.abort expected answer : Run α) :=
  .bind .writable fun _ => .fail id

theorem checkIn (node : Node) (value : Value) : Idle (Run.checkIn node value) := by
  refine .bind .get fun machine => ?_
  refine .bind (.write _) fun _ => .bind .writable fun scope => ?_
  refine .bind (.write _) fun _ => .bind .writable fun source => ?_
  refine .bind (.write _) fun _ => .bind (.ask _ _) fun answer => ?_
  cases Value.ofAnswer answer with
  | ok guess =>
    dsimp only
    split
    · exact .rest
    · exact .abort value answer
  | error error =>
    dsimp only
    split
    · rename_i hnumeral
      refine .fail fun hregular => ?_
      exact Bool.noConfusion (hregular.symm.trans hnumeral)
    · exact .abort value answer

theorem tire : Idle Run.tire := by
  intro m ending after hon
  rw [on_tire] at hon
  rcases hcall : m.worker.call m.dice with ⟨changed, worker, dice⟩
  rw [hcall] at hon
  cases hon
  refine ⟨rfl, ?_, fun _ => ⟨(), rfl⟩⟩
  cases changed with
  | false => exact Machine.deeds_of_idle [] rfl rfl
  | true => exact Machine.deeds_of_idle [.line _] rfl rfl

theorem wantsCheck (node : Node) : Idle (Run.wantsCheck node) :=
  of_ok (on_wantsCheck node) (fun _ => rfl) fun _ => rfl

/-- Whatever the worker does after a node, the program does not notice, unless the worker ends
    the run. -/
theorem consult (node : Node) (value : Value) : Idle (Run.consult node value) := by
  refine .bind .tire fun _ => .bind (.wantsCheck node) fun wants => ?_
  cases wants with
  | false => exact .pure ()
  | true => exact .checkIn node value

end Idle

/-- A run of an action that ends regularly is mirrored by its run on any quiet machine with the same
    frames that is given exactly the answers that the program consumed: it ends alike, with the
    same frames and after the same deeds. -/
def Unaffected (x : Run α) : Prop :=
  ∀ ⦃m : Machine⦄ ⦃ending : Except Halt α⦄ ⦃after : Machine⦄, on x m = (ending, after) →
    Regular ending → ∃ story, after.deeds = m.deeds ++ story ∧
      ∀ ⦃quiet : Machine⦄ ⦃unread : List (Option String)⦄, quiet.Quiet → quiet.stack = m.stack →
        quiet.answers = story.filterMap Deed.answer? ++ unread →
          ∃ final, on x quiet = (ending, final) ∧ final.Quiet ∧ final.stack = after.stack ∧
            final.answers = unread ∧ final.deeds = quiet.deeds ++ story

namespace Unaffected

theorem bind (hx : Unaffected x) (hf : ∀ a, Unaffected (f a)) : Unaffected (x >>= f) := by
  intro m ending after hon hregular
  rcases on_bind_eq_iff.1 hon with ⟨a, middle, hfirst, hsecond⟩ | ⟨halt, hfirst, rfl⟩
  · obtain ⟨story, hstory, hmirror⟩ := hx hfirst fun _ hok => nomatch hok
    obtain ⟨story', hstory', hmirror'⟩ := hf a hsecond hregular
    refine ⟨story ++ story', by rw [hstory', hstory, List.append_assoc], ?_⟩
    intro quiet unread hquiet hstack hanswers
    rw [List.filterMap_append, List.append_assoc] at hanswers
    obtain ⟨halfway, hrun, hquiet, hstack, hanswers, hdeeds⟩ := hmirror hquiet hstack hanswers
    obtain ⟨final, hrun', hquiet', hstack', hanswers', hdeeds'⟩ := hmirror' hquiet hstack hanswers
    refine ⟨final, ?_, hquiet', hstack', hanswers', ?_⟩
    · rw [on_bind_of_ok hrun, hrun']
    · rw [hdeeds', hdeeds, List.append_assoc]
  · obtain ⟨story, hstory, hmirror⟩ := hx hfirst fun other hother =>
      hregular other (by cases hother; rfl)
    refine ⟨story, hstory, ?_⟩
    intro quiet unread hquiet hstack hanswers
    obtain ⟨final, hrun, hfinal⟩ := hmirror hquiet hstack hanswers
    exact ⟨final, on_bind_of_error hrun, hfinal⟩

/-- Actions on the frames alone are mirrored. -/
theorem of_stack (r : CallStack → Except Halt α) (next : CallStack → CallStack)
    (hx : ∀ m, on x m = (r m.stack, { m with stack := next m.stack })) : Unaffected x := by
  intro m ending after hon _
  rw [hx] at hon
  cases hon
  refine ⟨[], Machine.deeds_of_log [] rfl, ?_⟩
  intro quiet unread hquiet hstack hanswers
  refine ⟨{ quiet with stack := next m.stack }, ?_, ⟨hquiet.strict, hquiet.robot⟩, rfl, hanswers,
    Machine.deeds_of_log [] rfl⟩
  rw [hx, hstack]

theorem pure (a : α) : Unaffected (Pure.pure a) :=
  of_stack (fun _ => .ok a) id fun _ => rfl

theorem fail (fault : Fault) : Unaffected (Run.fail fault : Run α) :=
  of_stack (fun _ => .error (.fault fault)) id fun _ => rfl

theorem display (value : Value) : Unaffected (Run.display value) := by
  unfold Run.display
  cases value.display with
  | none => exact .fail _
  | some text => exact .pure text

theorem assign (name : String) (value : Value) : Unaffected (Run.assign name value) :=
  of_stack (fun _ => .ok ()) (fun stack => stack.setTop (stack.top.set name value)) fun _ => rfl

theorem unfinished : Unaffected (throw .unfinished : Run α) := by
  intro m ending after hon hregular
  cases hon
  exact absurd (hregular _ rfl) id

theorem declareRoutine (routine : Routine) : Unaffected (Run.declareRoutine routine) := by
  refine of_stack
    (fun stack =>
      if (stack.top.declare? routine).isSome then .ok ()
      else .error (.fault (.violation (.alreadyDeclared routine.name))))
    (fun stack => (stack.top.declare? routine).elim stack stack.setTop) fun m => ?_
  rw [on_declareRoutine]
  cases m.stack.top.declare? routine <;> rfl

/-- Idle actions are mirrored if a quiet machine does nothing at all instead. -/
theorem of_idle {x : Run Unit} (hx : Idle x)
    (hquiet : ∀ m : Machine, m.Quiet → on x m = (.ok (), m)) :
    Unaffected x := by
  intro m ending after hon hregular
  obtain ⟨hstack, hdeeds, hok⟩ := hx hon
  obtain ⟨⟨⟩, rfl⟩ := hok hregular
  refine ⟨[], by rw [hdeeds, List.append_nil], ?_⟩
  intro quiet unread hquiet' hstack' hanswers
  exact ⟨quiet, hquiet quiet hquiet', hquiet', hstack'.trans hstack.symm, hanswers,
    (List.append_nil quiet.deeds).symm⟩

theorem write (text : String) : Unaffected (Run.write text) := by
  intro m ending after hon _
  rw [on_write] at hon
  cases hon
  refine ⟨[], Machine.deeds_of_log [.line text] rfl, ?_⟩
  intro quiet unread hquiet hstack hanswers
  exact ⟨{ quiet with log := .line text :: quiet.log }, rfl, ⟨hquiet.strict, hquiet.robot⟩, hstack,
    hanswers, Machine.deeds_of_log [.line text] rfl⟩

/-- However a text comes out, it was said. -/
theorem shout (intensity : Int) (text : String) : Unaffected (Run.shout intensity text) := by
  intro m ending after hon _
  rw [on_shout] at hon
  rcases hemit : m.shouter.emit intensity text m.dice with ⟨⟨line, nap⟩, shouter, dice⟩
  rw [hemit] at hon
  cases hon
  refine ⟨[.said intensity text], ?_, ?_⟩
  · cases nap with
    | none => exact Machine.deeds_of_log [.shout intensity text line] rfl
    | some length => exact Machine.deeds_of_log [.nap length, .shout intensity text line] rfl
  · intro quiet unread hquiet hstack hanswers
    exact ⟨_, on_shout_of_quiet hquiet intensity text, ⟨hquiet.strict, hquiet.robot⟩,
      hstack, hanswers, Machine.deeds_of_log [.shout intensity text text] rfl⟩

/-- The program is given the answer that it was given before. -/
theorem askValue (prompt : String) : Unaffected (Run.askValue prompt) := by
  intro m ending after hon _
  rw [on_askValue] at hon
  cases hon
  refine ⟨[.asked prompt m.answers.head?.join],
    Machine.deeds_of_log [.question .program prompt m.answers.head?.join] rfl, ?_⟩
  intro quiet unread hquiet hstack hanswers
  have hhead : quiet.answers.head?.join = m.answers.head?.join := by
    rw [hanswers]
    rfl
  have htail : quiet.answers.tail = unread := by
    rw [hanswers]
    rfl
  have hon := on_askValue prompt quiet
  rw [hhead] at hon
  exact ⟨_, hon, ⟨hquiet.strict, hquiet.robot⟩, hstack, htail,
    Machine.deeds_of_log [.question .program prompt m.answers.head?.join] rfl⟩

theorem inCall {x : Run Outcome} (frame : Frame) (hx : Unaffected x) :
    Unaffected (Run.inCall frame x) := by
  intro m ending after hon hregular
  rw [on_inCall] at hon
  rcases hrun : on x { m with stack := m.stack.push frame } with ⟨ending', middle⟩
  simp only [hrun] at hon
  cases hpop : middle.stack.pop? with
  | none =>
    simp only [hpop] at hon
    cases hon
    exact absurd (hregular _ rfl) id
  | some popped =>
    simp only [hpop] at hon
    cases hon
    obtain ⟨story, hstory, hmirror⟩ := hx hrun hregular
    refine ⟨story, hstory, ?_⟩
    intro quiet unread hquiet hstack hanswers
    obtain ⟨final, hrun', hquiet', hstack', hanswers', hdeeds'⟩ :=
      @hmirror { quiet with stack := quiet.stack.push frame } unread ⟨hquiet.strict, hquiet.robot⟩
        (by rw [hstack]) hanswers
    refine ⟨{ final with stack := popped.2 }, ?_, ⟨hquiet'.strict, hquiet'.robot⟩, rfl,
      hanswers', hdeeds'⟩
    rw [on_inCall, hrun']
    simp only [hstack', hpop]

/-- Calls that went too deep are no regular failure, so nothing is unwound. -/
theorem unwinding (hx : Unaffected x) : Unaffected (Run.unwinding x) := by
  intro m ending after hon hregular
  have hending : ending ≠ .error (.fault (.violation .stackOverflow)) :=
    fun heq => absurd rfl (hregular _ heq)
  obtain ⟨story, hstory, hmirror⟩ := hx ((on_unwinding_eq_iff hending).1 hon) hregular
  refine ⟨story, hstory, ?_⟩
  intro quiet unread hquiet hstack hanswers
  obtain ⟨final, hrun, hfinal⟩ := hmirror hquiet hstack hanswers
  exact ⟨final, (on_unwinding_eq_iff hending).2 hrun, hfinal⟩

end Unaffected

/-- Every evaluation is mirrored, since each of its parts is. -/
theorem compositional_unaffected : Compositional fun _ x => Unaffected x where
  pure := .pure
  bind := .bind
  violate violation := .fail (.violation violation)
  unfinished := @Unaffected.unfinished
  display := .display
  write := .write
  top := .of_stack (fun stack => .ok stack.top) id fun _ => rfl
  assign := .assign
  declareRoutine := .declareRoutine
  shout intensity text _ := .shout intensity text
  askValue := .askValue
  inCall := .inCall
  consult node value := .of_idle (.consult node value) fun _ hm => on_consult_of_quiet hm node value

theorem unaffected_source (limit rounds : Nat) (source : String) :
    Unaffected (Run.sourceWithin limit rounds source) := by
  unfold Run.sourceWithin
  split
  · exact .unwinding (compositional_unaffected.evaluateWithin limit _)
  · exact .fail _

/-- The worker and the shouter never change what a program computes. A run that ends in a value or
    in a regular failure ends alike, with the same root frame and after the same deeds, on every
    quiet machine that starts with the same root frame and is given the answers that the program
    consumed, be they texts or the end of the input; all of these are consumed again. -/
theorem source_on_quiet (limit rounds : Nat) (source : String) (root : Frame) (m quiet : Machine)
    {ending : Except Halt Value} {after : Machine} (hstack : m.stack = { root := root })
    (hlog : m.log = []) (hrun : on (Run.sourceWithin limit rounds source) m = (ending, after))
    (hregular : Regular ending) (hquiet : quiet.Quiet) (hroot : quiet.stack = { root := root })
    (hsilent : quiet.log = []) (hanswers : quiet.answers = after.deeds.filterMap Deed.answer?) :
    ∃ final, on (Run.sourceWithin limit rounds source) quiet = (ending, final) ∧
      final.stack = after.stack ∧ final.deeds = after.deeds ∧ final.answers = [] := by
  obtain ⟨story, hstory, hmirror⟩ := unaffected_source limit rounds source hrun hregular
  have hdeeds : m.deeds = [] := by
    rw [Machine.deeds, Machine.events, hlog]
    rfl
  have hdeeds' : quiet.deeds = [] := by
    rw [Machine.deeds, Machine.events, hsilent]
    rfl
  rw [hdeeds, List.nil_append] at hstory
  rw [hstory, ← List.append_nil (List.filterMap _ _)] at hanswers
  obtain ⟨final, hrun', _, hstack', hanswers', hfinal⟩ :=
    hmirror hquiet (hroot.trans hstack.symm) hanswers
  refine ⟨final, hrun', hstack', ?_, hanswers'⟩
  rw [hfinal, hdeeds', List.nil_append, hstory]

/-- A worker without any patience asks about every node. Its questions are no deeds, and the quiet
    run does without them. -/
theorem source_on_quiet_impatient :
    ∃ final : Machine,
      on (Run.sourceWithin 1 0 "hallo\nx = frag()\nreicht dann auch mal")
          (.start true (Dice.cycling []) (Clock.ticking 0 1) [some ":)"]) = (.ok .nothing, final) ∧
        final.stack.root.bindings = [("x", .boolean true)] := by
  have hparse : Node.parse "hallo\nx = frag()\nreicht dann auch mal" =
      .ok [.assign "x" (.call "frag" [])] := by
    cbv
  obtain ⟨after, hrun, hanswers, hroot⟩ : ∃ after,
      on (Run.sourceWithin 1 0 "hallo\nx = frag()\nreicht dann auch mal")
          { worker := { contract := { bounds := [] }, lastReset := 0, cooldown := 0 }
            shouter := {}
            dice := Dice.cycling []
            clock := Clock.ticking 0 1
            answers := [some ":)", some ":)", some "-", some "-"] } = (.ok .nothing, after) ∧
        [some ":)"] = after.deeds.filterMap Deed.answer? ∧
        after.stack.root.bindings = [("x", .boolean true)] := by
    rw [Run.sourceWithin, hparse]
    dsimp only
    rw [Node.evaluateWithin, Node.visitWithin]
    generalize Node.visitWithin 0 0 = body
    exact ⟨_, by cbv, by cbv, by cbv⟩
  obtain ⟨final, hfinal, hstack, _⟩ :=
    source_on_quiet 1 0 "hallo\nx = frag()\nreicht dann auch mal" {}
    _ (.start true (Dice.cycling []) (Clock.ticking 0 1) [some ":)"]) rfl rfl hrun
    (fun _ hok => by cases hok) ⟨rfl, rfl⟩ rfl rfl hanswers
  exact ⟨final, hfinal, by rw [hstack, hroot]⟩

end Run

end Hallo
