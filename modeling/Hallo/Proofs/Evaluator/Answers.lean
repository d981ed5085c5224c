import Hallo.Proofs.Evaluator.Local
import Hallo.Proofs.Evaluator.Secluded

/-!
What a run makes of the answers. They are taken from the front, one for each question, and each is
noted with its question; so a run that gets the same answers to the same questions does the same,
whatever else could have been answered.
-/
namespace Hallo

/-- The answer to a question, if it is one. The answer itself is missing at the end of the input. -/
def Event.reply? : Event → Option (Option String)
  | .question _ _ answer => some answer
  | _ => none

/-- The line of input that was the answer to a question, if there was one. -/
def Event.answer? (event : Event) : Option String :=
  event.reply?.join

/-- The answers to the questions among events of which the latest comes first, from the earliest
    on. -/
def replies (log : List Event) : List (Option String) :=
  log.reverse.filterMap Event.reply?

theorem filterMap_id_replies (log : List Event) :
    (replies log).filterMap id = log.reverse.filterMap Event.answer? := by
  rw [replies, List.filterMap_filterMap]
  rfl

theorem replies_eq_nil {log : List Event} (hasked : ∀ event ∈ log, event.prompt? = none) :
    replies log = [] := by
  rw [replies, List.filterMap_eq_nil_iff]
  intro event hmem
  have hprompt := hasked event (List.mem_reverse.1 hmem)
  cases event with
  | question => cases hprompt
  | _ => rfl

theorem replies_append (later earlier : List Event) :
    replies (later ++ earlier) = replies earlier ++ replies later := by
  simp [replies]

/-- Questions are answered like this from the front of a list, and this is what is left of the
    list. -/
inductive Gives : List (Option String) → List (Option String) → List (Option String) → Prop where
  | nil (answers : List (Option String)) : Gives answers [] answers
  | cons {answers replies rest : List (Option String)} (hothers : Gives answers.tail replies rest) :
      Gives answers (answers.head?.join :: replies) rest

namespace Gives

variable {answers middle rest first second : List (Option String)}

theorem append_iff :
    Gives answers (first ++ second) rest ↔ ∃ middle, Gives answers first middle ∧
      Gives middle second rest := by
  constructor
  · intro hgives
    induction first generalizing answers with
    | nil => exact ⟨answers, .nil answers, hgives⟩
    | cons reply first ih =>
      cases hgives with
      | cons hothers =>
        obtain ⟨middle, hfirst, hsecond⟩ := ih hothers
        exact ⟨middle, .cons hfirst, hsecond⟩
  · rintro ⟨middle, hfirst, hsecond⟩
    induction hfirst with
    | nil => exact hsecond
    | cons _ ih => exact .cons (ih hsecond)

/-- Where no answer is missing from the list, its lines are the answers that were given and those
    that are left. -/
theorem eq_append_of_map_some {lines : List String} {replies : List (Option String)}
    (hgives : Gives (lines.map some) replies rest) :
    ∃ others, rest = others.map some ∧ replies.filterMap id ++ others = lines := by
  generalize hanswers : lines.map some = answers at hgives
  induction hgives generalizing lines with
  | nil => exact ⟨lines, hanswers.symm, rfl⟩
  | cons _ ih =>
    subst hanswers
    obtain ⟨others, hrest, hlines⟩ := @ih lines.tail List.map_tail
    refine ⟨others, hrest, ?_⟩
    cases lines with
    | nil => exact hlines
    | cons line lines => simpa using hlines

end Gives

namespace Run

variable {α β : Type} {x : Run α} {f : α → Run β}

/-- The action heeds the answers that it asks for and no others: if the same questions are answered
    in the same way, it does the same. -/
def Heeds (x : Run α) : Prop :=
  ∀ ⦃m : Machine⦄ ⦃ending : Except Halt α⦄ ⦃after : Machine⦄, on x m = (ending, after) →
    ∃ story, after.log = story ++ m.log ∧ Gives m.answers (replies story) after.answers ∧
      ∀ answers rest, Gives answers (replies story) rest →
        on x { m with answers := answers } = (ending, { after with answers := rest })

namespace Heeds

/-- An action that has nothing to do with the answers and asks nothing. -/
theorem of_on (hlog : ∀ m, ∃ story, (on x m).2.log = story ++ m.log ∧ replies story = [])
    (hanswers : ∀ (m : Machine) (answers : List (Option String)),
      on x { m with answers := answers } = ((on x m).1, { (on x m).2 with answers := answers })) :
    Heeds x := by
  intro m ending after hon
  obtain ⟨story, hstory, hreplies⟩ := hlog m
  have hsame : after.answers = m.answers := by
    simpa only [hon] using congrArg (·.2.answers) (hanswers m m.answers)
  rw [hon] at hstory
  refine ⟨story, hstory, ?_, ?_⟩
  · rw [hreplies, hsame]
    exact .nil _
  · intro answers rest hgives
    rw [hreplies] at hgives
    cases hgives
    rw [hanswers, hon]

theorem of_still (hlog : ∀ m, (on x m).2.log = m.log)
    (hanswers : ∀ (m : Machine) (answers : List (Option String)),
      on x { m with answers := answers } = ((on x m).1, { (on x m).2 with answers := answers })) :
    Heeds x :=
  of_on (fun m => ⟨[], hlog m, rfl⟩) hanswers

theorem pure (a : α) : Heeds (Pure.pure a) :=
  of_still (fun _ => rfl) fun _ _ => rfl

theorem halt {halt : Halt} (hx : ∀ m, on x m = (.error halt, m)) : Heeds x :=
  of_still (fun m => by rw [hx]) fun m answers => by rw [hx, hx]

/-- The second action starts with the answers that the first one has left. -/
theorem bind (hx : Heeds x) (hf : ∀ a, Heeds (f a)) : Heeds (x >>= f) := by
  intro m ending after hon
  rcases on_bind_eq_iff.1 hon with ⟨a, middle, hfirst, hsecond⟩ | ⟨halt, hfirst, rfl⟩
  · obtain ⟨story, hlog, hgives, hsame⟩ := hx hfirst
    obtain ⟨story', hlog', hgives', hsame'⟩ := hf a hsecond
    refine ⟨story' ++ story, ?_, ?_, ?_⟩
    · rw [hlog', hlog, List.append_assoc]
    · rw [replies_append]
      exact Gives.append_iff.2 ⟨_, hgives, hgives'⟩
    · intro answers rest hrest
      rw [replies_append] at hrest
      obtain ⟨left, hleft, hrest⟩ := Gives.append_iff.1 hrest
      rw [on_bind_of_ok (hsame answers left hleft), hsame' left rest hrest]
  · obtain ⟨story, hlog, hgives, hsame⟩ := hx hfirst
    exact ⟨story, hlog, hgives, fun answers rest hrest =>
      on_bind_of_error (hsame answers rest hrest)⟩

theorem writable (text : Except Unwritable α) : Heeds (Run.writable text) := by
  cases text with
  | ok text => exact pure text
  | error reason => exact halt fun _ => rfl

theorem abort (expected : Value) (answer : String) : Heeds (Run.abort expected answer : Run α) :=
  (writable _).bind fun _ => halt fun _ => rfl

theorem write (text : String) : Heeds (Run.write text) :=
  of_on (fun _ => ⟨[.line text], rfl, rfl⟩) fun _ _ => rfl

theorem ask (asker : Asker) (prompt : String) : Heeds (Run.ask asker prompt) := by
  intro m ending after hon
  cases hon
  refine ⟨[.question asker prompt m.answers.head?.join], rfl, .cons (.nil _), ?_⟩
  intro answers rest hgives
  generalize hreply : replies [.question asker prompt m.answers.head?.join] = given at hgives
  cases hgives with
  | nil => cases hreply
  | cons hothers =>
    obtain ⟨hhead, hnil⟩ := List.cons.inj hreply
    rw [← hnil] at hothers
    cases hothers
    rw [on_ask, hhead]

theorem declareRoutine (routine : Routine) : Heeds (Run.declareRoutine routine) := by
  refine of_still (fun m => ?_) fun m answers => ?_
  · rw [on_declareRoutine]
    cases m.stack.top.declare? routine <;> rfl
  · rw [on_declareRoutine, on_declareRoutine]
    cases m.stack.top.declare? routine <;> rfl

theorem shout (intensity : Int) (text : String) : Heeds (Run.shout intensity text) := by
  refine of_on (fun m => ?_) fun m answers => by rw [on_shout, on_shout]
  rw [on_shout]
  rcases m.shouter.emit intensity text m.dice with ⟨⟨line, nap⟩, shouter, dice⟩
  refine ⟨.shout intensity text line :: nap.toList.map .nap, rfl, ?_⟩
  cases nap <;> rfl

theorem askValue (prompt : String) : Heeds (Run.askValue prompt) := by
  refine (ask .program prompt).bind fun answer => ?_
  split
  · exact pure _
  · exact halt fun _ => rfl

theorem inCall {x : Run Outcome} (frame : Frame) (hx : Heeds x) : Heeds (Run.inCall frame x) := by
  intro m ending after hon
  rcases hbody : on x { m with stack := m.stack.push frame } with ⟨ending', inside⟩
  obtain ⟨story, hlog, hgives, hsame⟩ := hx hbody
  rw [on_inCall, hbody] at hon
  cases hpop : inside.stack.pop? with
  | none =>
    simp only [hpop] at hon
    cases hon
    refine ⟨story, hlog, hgives, fun answers rest hrest => ?_⟩
    rw [on_inCall, hsame answers rest hrest]
    simp only [hpop]
  | some popped =>
    simp only [hpop] at hon
    cases hon
    refine ⟨story, hlog, hgives, fun answers rest hrest => ?_⟩
    rw [on_inCall, hsame answers rest hrest]
    simp only [hpop]

theorem unwinding (hx : Heeds x) : Heeds (Run.unwinding x) := by
  intro m ending after hon
  rcases hinside : on x m with ⟨ending', inside⟩
  obtain ⟨story, hlog, hgives, hsame⟩ := hx hinside
  by_cases hdeep : ending' = .error (.fault (.violation .stackOverflow))
  · rw [on_unwinding, hinside, hdeep] at hon
    cases hon
    refine ⟨story, hlog, hgives, fun answers rest hrest => ?_⟩
    rw [on_unwinding, hsame answers rest hrest, hdeep]
  · rw [(on_unwinding_eq_iff hdeep).2 hinside] at hon
    cases hon
    exact ⟨story, hlog, hgives, fun answers rest hrest =>
      (on_unwinding_eq_iff hdeep).2 (hsame answers rest hrest)⟩

theorem tire : Heeds Run.tire := by
  refine of_on (fun m => ?_) fun m answers => by rw [on_tire, on_tire]
  rw [on_tire]
  rcases m.worker.call m.dice with ⟨changed, worker, dice⟩
  refine ⟨_, rfl, ?_⟩
  cases changed <;> rfl

theorem inquire (mood : Mood) (scope : Except Unwritable String) (inquiry : Inquiry) :
    Heeds (Run.inquire mood scope inquiry) := by
  refine (write _).bind fun _ => (writable scope).bind fun _ => (write _).bind fun _ => ?_
  refine (writable inquiry.node.source).bind fun _ => (write _).bind fun _ =>
    (ask _ _).bind fun answer => ?_
  rw [judge]
  split
  · split
    · exact of_still (fun _ => rfl) fun _ _ => rfl
    · exact abort _ _
  · split
    · exact halt fun _ => rfl
    · exact abort _ _

theorem checkIn (node : Node) (value : Value) : Heeds (Run.checkIn node value) := by
  intro m ending after hon
  rw [on_checkIn] at hon
  obtain ⟨story, hlog, hgives, hsame⟩ := inquire _ _ _ hon
  refine ⟨story, hlog, hgives, fun answers rest hrest => ?_⟩
  rw [on_checkIn]
  exact hsame answers rest hrest

theorem consult (node : Node) (value : Value) : Heeds (Run.consult node value) := by
  refine tire.bind fun _ => bind (of_still (fun _ => rfl) fun _ _ => rfl) fun wants => ?_
  cases wants with
  | false => exact pure ()
  | true => exact checkIn node value

end Heeds

/-- Every evaluation heeds just the answers that it asks for, since each of its parts does. -/
theorem compositional_heeds : Compositional fun _ x => Heeds x where
  pure := .pure
  bind := .bind
  violate violation := .halt (on_violate violation)
  unfinished := @fun _ => Heeds.halt fun _ => rfl
  display _ := .writable _
  write := .write
  top := .of_still (fun _ => rfl) fun _ _ => rfl
  assign _ _ := .of_still (fun _ => rfl) fun _ _ => rfl
  declareRoutine := .declareRoutine
  shout intensity text _ := .shout intensity text
  askValue := .askValue
  inCall := .inCall
  consult := .consult

theorem heeds_source (limit rounds : Nat) (source : String) :
    Heeds (Run.sourceWithin limit rounds source) := by
  unfold Run.sourceWithin
  split
  · exact .unwinding (compositional_heeds.evaluateWithin limit _)
  · exact .halt fun _ => rfl

/-- On quiet machines with the same frames, a run that asks nothing is the same. -/
theorem on_source_of_unasked {limit rounds : Nat} {source : String} {m other after : Machine}
    {ending : Except Halt Value} {story : List Event} (hm : m.Quiet) (hother : other.Quiet)
    (hstack : other.stack = m.stack)
    (hon : on (Run.sourceWithin limit rounds source) m = (ending, after))
    (hlog : after.log = story ++ m.log) (hasked : replies story = []) :
    on (Run.sourceWithin limit rounds source) other =
      (ending, { other with stack := after.stack, log := story ++ other.log }) := by
  obtain ⟨story', hlog', _, hsame⟩ := heeds_source limit rounds source hon
  obtain rfl : story' = story := List.append_cancel_right (hlog'.symm.trans hlog)
  obtain ⟨ending', stack, answers, story, _, hrun⟩ :=
    secluded_job limit rounds (.source source) m.stack other.answers
  have hanswers : on (Run.sourceWithin limit rounds source) { m with answers := other.answers } =
      (ending, { after with answers := other.answers }) := by
    refine hsame other.answers other.answers ?_
    rw [hasked]
    exact .nil _
  have heq :=
    hanswers.symm.trans (hrun { m with answers := other.answers } ⟨hm.strict, hm.robot⟩ rfl rfl)
  simp only [Prod.mk.injEq, Machine.mk.injEq] at heq
  obtain ⟨rfl, rfl, -, -, -, -, rfl, hstory⟩ := heq
  obtain rfl : story' = story := List.append_cancel_right (hlog.symm.trans hstory)
  exact hrun other hother hstack rfl

end Run

end Hallo
