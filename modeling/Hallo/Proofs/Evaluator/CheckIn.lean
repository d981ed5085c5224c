import Hallo.Proofs.Evaluator.Local
import Hallo.Proofs.Shell.ExitCode

/-!
How the worker takes an answer. The right one lets it rest, and any other text ends the run as an
abort; but a numeral that is too long to be read is not taken for a wrong answer, and ends the run
as a fault of its own. A run goes on only as long as every answer that the worker was given is
right.
-/
namespace Hallo

open Node

theorem Value.source_ne_none {v : Value} (hshort : ∀ n, v = .integer n → Decimal.Writable n) :
    v.source ≠ none := by
  cases v with
  | integer n => simp [source_integer (hshort n rfl)]
  | _ => exact nofun

/-- The variables can be written if each of their values can. -/
theorem Frame.exists_describe {frame : Frame}
    (hbindings : ∀ binding ∈ frame.bindings, binding.2.source ≠ none) :
    ∃ scope, frame.describe = .ok scope := by
  have hall : ∃ texts, describeAll frame.bindings = .ok texts := by
    generalize frame.bindings = table at hbindings
    induction table with
    | nil => exact ⟨[], rfl⟩
    | cons first table ih =>
      obtain ⟨text, htext⟩ := Option.ne_none_iff_exists'.1 (hbindings first List.mem_cons_self)
      obtain ⟨texts, htexts⟩ := ih fun binding hmem =>
        hbindings binding (List.mem_cons_of_mem first hmem)
      refine ⟨(first.1 ++ " = " ++ text) :: texts, ?_⟩
      rw [describeAll, htext, htexts]
      rfl
  obtain ⟨texts, htexts⟩ := hall
  rw [describe]
  split
  · exact ⟨_, rfl⟩
  · exact ⟨_, by rw [htexts]; rfl⟩

/-- An answer that cannot be read, since a numeral in it has more digits than the limit allows. -/
def Value.Overlong (answer : String) : Prop :=
  ∃ count place, ofAnswer answer = .error (.scan ⟨.tooManyDigits count, place⟩) ∧
    Decimal.digitLimit < count

namespace Value

variable {answer : String}

/-- Nothing but its length is ever wrong with a numeral. -/
theorem overlong_iff :
    Overlong answer ↔ ∃ error, ofAnswer answer = .error error ∧ error.aboutNumeral = true := by
  constructor
  · rintro ⟨count, place, hanswer, _⟩
    exact ⟨_, hanswer, rfl⟩
  · rintro ⟨error, hanswer, hnumeral⟩
    have hfounded := founded_of_ofAnswer hanswer
    rcases error with ⟨⟨complaint, place⟩⟩ | ⟨found, expected⟩
    · cases complaint with
      | tooManyDigits count => exact ⟨count, place, hanswer, hfounded⟩
      | noDigits => cases hfounded
      | unknownCharacter | unclosedText => cases hnumeral
    · cases hnumeral

/-- A numeral with more digits than the limit allows is such an answer. -/
theorem overlong_of_digits {digits : List Char} (hdigits : ∀ c ∈ digits, c.isDigit = true)
    (hlong : Decimal.digitLimit < digits.length) : Overlong (String.ofList digits) := by
  have hrun : digits.takeWhile Char.isDigit = digits := by simpa using hdigits
  have hne : digits ≠ [] := by
    rintro rfl
    cases hlong
  obtain ⟨c, rest, rfl⟩ := List.exists_cons_of_ne_nil hne
  have hdigit : c.isDigit = true := hdigits c List.mem_cons_self
  have hfirst : Bite.first (c :: rest) =
      ⟨.error (.tooManyDigits (c :: rest).length), (c :: rest).length⟩ := by
    rw [Bite.first, if_pos hdigit, Bite.digits, hrun]
    simp only [List.isEmpty_cons, Bool.false_eq_true, if_false, if_pos hlong]
  have hspaces : (Cursor.ofSource (String.ofList (c :: rest))).skipSpaces =
      Cursor.ofSource (String.ofList (c :: rest)) := by
    have hspace : c ≠ ' ' := by
      rintro rfl
      cases hdigit
    simp [Cursor.skipSpaces, Cursor.ofSource, hspace, Cursor.advanceBy]
  obtain ⟨place, hscan⟩ : ∃ place, Feed.ofSource (String.ofList (c :: rest)) =
      ⟨[], .error ⟨.tooManyDigits (c :: rest).length, place⟩⟩ := by
    refine ⟨((Cursor.ofSource (String.ofList (c :: rest))).advanceBy (c :: rest).length).place, ?_⟩
    rw [Feed.ofSource, Scan.ofSource, Cursor.scan_eq, Cursor.next, hspaces, Cursor.take]
    simp only [Cursor.ofSource, String.toList_ofList, hfirst]
  refine ⟨_, place, ?_, hlong⟩
  change (Parser.answer (Feed.ofSource _)).map Prod.fst = _
  rw [hscan]
  rfl

end Value

namespace Run

variable {α β : Type} {x : Run α} {f : α → Run β} {m : Machine} {value : Value} {answer : String}

/-- The two ways in which the worker is done with an answer. Told the value that it asked for, it
    rests: the clock is read once and one cooldown is drawn. Told anything else, it ends the run,
    and the machine stays as it was behind the question. -/
inductive CheckedIn (value : Value) (answer : String) (asked : Machine) :
    Except Halt Unit × Machine → Prop where
  | rested {time cooldown : Int} {dice : Dice} {clock : Clock}
      (hanswer : Value.ofAnswer answer = .ok value)
      (hread : asked.clock.read = (time, clock))
      (hdrawn : asked.dice.within asked.worker.contract.cooldownRange = (cooldown, dice)) :
      CheckedIn value answer asked (.ok (), { asked with
        worker := { asked.worker with fatigue := 0, lastReset := time, cooldown := cooldown }
        dice := dice
        clock := clock })
  | aborted (hanswer : Value.ofAnswer answer ≠ .ok value) :
      CheckedIn value answer asked (.error (.fault (.wrongAnswer value answer)), asked)

/-- The fault of an answer that is not the value asked for. It is a wrong answer, unless it is not
    even read. -/
inductive Refused (value : Value) (answer : String) : Fault → Prop where
  | wrong (hanswer : Value.ofAnswer answer ≠ .ok value) (hlegible : ¬ Value.Overlong answer) :
      Refused value answer (.wrongAnswer value answer)
  | illegible {error : ParseError} (hlong : Value.Overlong answer)
      (hanswer : Value.ofAnswer answer = .error error) :
      Refused value answer (.parse error)

theorem on_abort_of_source (hvalue : value.source ≠ none) (answer : String) (m : Machine) :
    on (abort value answer : Run α) m = (.error (.fault (.wrongAnswer value answer)), m) := by
  obtain ⟨text, htext⟩ := Option.ne_none_iff_exists'.1 hvalue
  rw [abort, htext]
  rfl

theorem on_judge_of_right (hanswer : Value.ofAnswer answer = .ok value) (m : Machine) :
    on (judge value answer) m = on rest m := by
  rw [judge, hanswer]
  simp

theorem on_judge_of_illegible {error : ParseError} (hanswer : Value.ofAnswer answer = .error error)
    (hnumeral : error.aboutNumeral = true) (m : Machine) :
    on (judge value answer) m = (.error (.fault (.parse error)), m) := by
  rw [judge, hanswer]
  simp only [hnumeral, if_true]
  rfl

theorem on_judge_of_wrong (hvalue : value.source ≠ none)
    (hanswer : Value.ofAnswer answer ≠ .ok value) (hlegible : ¬ Value.Overlong answer)
    (m : Machine) :
    on (judge value answer) m = (.error (.fault (.wrongAnswer value answer)), m) := by
  rw [← on_abort_of_source hvalue answer m, judge]
  cases hread : Value.ofAnswer answer with
  | ok guess =>
    have hguess : guess ≠ value := fun heq => hanswer (heq ▸ hread)
    simp only [hguess, if_false]
  | error error =>
    have hnumeral : ¬ error.aboutNumeral = true := fun hnumeral =>
      hlegible (Value.overlong_iff.2 ⟨error, hread, hnumeral⟩)
    simp only [hnumeral]
    rfl

/-- Every answer but the right one ends the run, and changes nothing. -/
theorem on_judge_of_refused (hvalue : value.source ≠ none)
    (hanswer : Value.ofAnswer answer ≠ .ok value) (m : Machine) :
    ∃ fault, Refused value answer fault ∧ on (judge value answer) m =
      (.error (.fault fault), m) := by
  by_cases hlong : Value.Overlong answer
  · obtain ⟨error, herror, hnumeral⟩ := Value.overlong_iff.1 hlong
    exact ⟨.parse error, .illegible hlong herror, on_judge_of_illegible herror hnumeral m⟩
  · exact ⟨.wrongAnswer value answer, .wrong hanswer hlong,
      on_judge_of_wrong hvalue hanswer hlong m⟩

theorem checkedIn_judge_iff (hvalue : value.source ≠ none) (m : Machine) :
    CheckedIn value answer m (on (judge value answer) m) ↔ ¬ Value.Overlong answer := by
  constructor
  · intro hchecked hlong
    obtain ⟨error, herror, hnumeral⟩ := Value.overlong_iff.1 hlong
    rw [on_judge_of_illegible herror hnumeral] at hchecked
    cases hchecked
  · intro hlegible
    by_cases hanswer : Value.ofAnswer answer = .ok value
    · rw [on_judge_of_right hanswer]
      exact .rested hanswer rfl rfl
    · rw [on_judge_of_wrong hvalue hanswer hlegible]
      exact .aborted hanswer

/-- Where everything can be written, the worker asks and then makes something of the answer. -/
theorem on_checkIn_of_writable {node : Node} {scope source : String}
    (hscope : m.stack.top.describe = .ok scope) (hsource : node.source = .ok source) :
    on (checkIn node value) m =
      on (judge value (m.answers.head?.join.getD "")) (m.asked node value scope source) := by
  rw [on_checkIn, inquire, hscope, hsource]
  rfl

/-- Whether the worker was told what it wanted to hear, or else the run has ended for that
    reason. -/
def Heard (ending : Except Halt α) : Event → Prop
  | .question (.worker inquiry) _ answer =>
    inquiry.value.source ≠ none → Value.ofAnswer (answer.getD "") ≠ .ok inquiry.value →
      ∃ fault, Refused inquiry.value (answer.getD "") fault ∧ ending = .error (.fault fault)
  | _ => True

namespace Heard

variable {event : Event}

theorem of_ok {a : α} (hevent : Heard (.ok a) event) (ending : Except Halt β) :
    Heard ending event := by
  rcases event with _ | _ | _ | ⟨_ | inquiry | _, _, _⟩
  case question.worker =>
    intro hvalue hanswer
    obtain ⟨_, _, hending⟩ := hevent hvalue hanswer
    cases hending
  all_goals trivial

theorem of_error {halt : Halt} (hevent : Heard (.error halt : Except Halt α) event) :
    Heard (.error halt : Except Halt β) event := by
  rcases event with _ | _ | _ | ⟨_ | inquiry | _, _, _⟩
  case question.worker =>
    intro hvalue hanswer
    obtain ⟨fault, hrefused, hending⟩ := hevent hvalue hanswer
    cases hending
    exact ⟨fault, hrefused, rfl⟩
  all_goals trivial

end Heard

/-- The action ends as soon as the worker is told something else than it wants to hear. -/
def Attentive (x : Run α) : Prop :=
  ∀ ⦃m : Machine⦄ ⦃ending : Except Halt α⦄ ⦃after : Machine⦄, on x m = (ending, after) →
    ∃ story, after.log = story ++ m.log ∧ ∀ event ∈ story, Heard ending event

namespace Attentive

/-- An action in which the worker asks nothing. -/
theorem of_on (hlog : ∀ m, ∃ story, (on x m).2.log = story ++ m.log ∧
    ∀ event ∈ story, ∀ ending : Except Halt α, Heard ending event) : Attentive x := by
  intro m ending after hon
  obtain ⟨story, hstory, hheard⟩ := hlog m
  rw [hon] at hstory
  exact ⟨story, hstory, fun event hmem => hheard event hmem ending⟩

theorem of_still (hlog : ∀ m, (on x m).2.log = m.log) : Attentive x :=
  of_on fun m => ⟨[], hlog m, by simp⟩

theorem pure (a : α) : Attentive (Pure.pure a) :=
  of_still fun _ => rfl

/-- What comes later cannot make up for a wrong answer: there is nothing later. -/
theorem bind (hx : Attentive x) (hf : ∀ a, Attentive (f a)) : Attentive (x >>= f) := by
  intro m ending after hon
  rcases on_bind_eq_iff.1 hon with ⟨a, middle, hfirst, hsecond⟩ | ⟨halt, hfirst, rfl⟩
  · obtain ⟨story, hlog, hheard⟩ := hx hfirst
    obtain ⟨story', hlog', hheard'⟩ := hf a hsecond
    refine ⟨story' ++ story, by rw [hlog', hlog, List.append_assoc], fun event hmem => ?_⟩
    rcases List.mem_append.1 hmem with hmem | hmem
    · exact hheard' event hmem
    · exact (hheard event hmem).of_ok ending
  · obtain ⟨story, hlog, hheard⟩ := hx hfirst
    exact ⟨story, hlog, fun event hmem => (hheard event hmem).of_error⟩

theorem writable (text : Except Unwritable α) : Attentive (Run.writable text) := by
  cases text with
  | ok text => exact pure text
  | error reason => exact of_still fun _ => rfl

theorem write (text : String) : Attentive (Run.write text) :=
  of_on fun _ => ⟨[.line text], rfl, by simp [Heard]⟩

theorem declareRoutine (routine : Routine) : Attentive (Run.declareRoutine routine) := by
  refine of_still fun m => ?_
  rw [on_declareRoutine]
  cases m.stack.top.declare? routine <;> rfl

theorem shout (intensity : Int) (text : String) : Attentive (Run.shout intensity text) := by
  refine of_on fun m => ?_
  rw [on_shout]
  rcases m.shouter.emit intensity text m.dice with ⟨⟨line, nap⟩, shouter, dice⟩
  refine ⟨.shout intensity text line :: nap.toList.map .nap, rfl, ?_⟩
  cases nap <;> simp [Heard]

theorem askValue (prompt : String) : Attentive (Run.askValue prompt) := by
  refine of_on fun m => ?_
  rw [on_askValue]
  exact ⟨[.question .program prompt m.answers.head?.join], rfl, by simp [Heard]⟩

theorem inCall {x : Run Outcome} (frame : Frame) (hbalanced : Balanced x) (hx : Attentive x) :
    Attentive (Run.inCall frame x) := by
  intro m ending after hon
  obtain ⟨inside, _, _, hbody, _, _, rfl⟩ := hbalanced.inCall_cases hon
  obtain ⟨story, hlog, hheard⟩ := hx hbody
  exact ⟨story, hlog, hheard⟩

theorem unwinding (hx : Attentive x) : Attentive (Run.unwinding x) := by
  intro m ending after hon
  rcases hinside : on x m with ⟨ending', inside⟩
  obtain ⟨story, hlog, hheard⟩ := hx hinside
  rw [on_unwinding, hinside] at hon
  split at hon
  · rename_i heq
    cases heq
    cases hon
    exact ⟨story, hlog, hheard⟩
  · cases hon
    exact ⟨story, hlog, hheard⟩

theorem tire : Attentive Run.tire := by
  refine of_on fun m => ?_
  rw [on_tire]
  rcases m.worker.call m.dice with ⟨changed, worker, dice⟩
  refine ⟨_, rfl, ?_⟩
  cases changed <;> simp [Heard]

/-- A question of the worker and what it makes of the answer belong together. -/
theorem ask_judge (inquiry : Inquiry) (prompt : String) :
    Attentive (Run.ask (.worker inquiry) prompt >>= judge inquiry.value) := by
  intro m ending after hon
  rw [on_bind_of_ok (on_ask _ _ m)] at hon
  have hlog : after.log = .question (.worker inquiry) prompt m.answers.head?.join :: m.log := by
    obtain ⟨_, hlog, _⟩ := judge_cases {} inquiry.node hon
    exact hlog
  refine ⟨[.question (.worker inquiry) prompt m.answers.head?.join], hlog, fun event hmem => ?_⟩
  rw [List.mem_singleton.1 hmem]
  intro hvalue hanswer
  obtain ⟨fault, hrefused, hjudge⟩ := on_judge_of_refused hvalue hanswer
    { m with
      answers := m.answers.tail
      log := .question (.worker inquiry) prompt m.answers.head?.join :: m.log }
  rw [hjudge] at hon
  cases hon
  exact ⟨fault, hrefused, rfl⟩

theorem checkIn (node : Node) (value : Value) : Attentive (Run.checkIn node value) := by
  intro m ending after hon
  rw [on_checkIn] at hon
  have hinquire : ∀ mood scope inquiry, Attentive (Run.inquire mood scope inquiry) := by
    intro mood scope inquiry
    -- Where something cannot be written, the run ends before the question.
    refine (write _).bind fun _ => (writable scope).bind fun _ => (write _).bind fun _ => ?_
    exact (writable inquiry.node.source).bind fun _ => (write _).bind fun _ => ask_judge inquiry _
  exact hinquire _ _ _ hon

theorem consult (node : Node) (value : Value) : Attentive (Run.consult node value) := by
  refine tire.bind fun _ => bind (of_still fun _ => rfl) fun wants => ?_
  cases wants with
  | false => exact pure ()
  | true => exact checkIn node value

end Attentive

/-- Every evaluation is attentive, since each of its parts is. Calls are left on the way, which they
    can be since every evaluation is balanced. -/
theorem compositional_attentive : Compositional fun _ x => Balanced x ∧ Attentive x where
  pure a := ⟨.pure a, .pure a⟩
  bind hx hf := ⟨hx.1.bind fun a => (hf a).1, hx.2.bind fun a => (hf a).2⟩
  violate violation := ⟨.violate violation, .of_still fun _ => rfl⟩
  unfinished := @fun _ => ⟨Balanced.unfinished, .of_still fun _ => rfl⟩
  display value := ⟨.display value, .writable _⟩
  write text := ⟨compositional_balanced.write text, .write text⟩
  top := ⟨compositional_balanced.top, .of_still fun _ => rfl⟩
  assign name value := ⟨compositional_balanced.assign name value, .of_still fun _ => rfl⟩
  declareRoutine routine := ⟨.declareRoutine routine, .declareRoutine routine⟩
  shout intensity text hloud :=
    ⟨compositional_balanced.shout intensity text hloud, .shout intensity text⟩
  askValue prompt := ⟨.askValue prompt, .askValue prompt⟩
  inCall frame hx := ⟨.inCall frame hx.1, .inCall frame hx.1 hx.2⟩
  consult node value := ⟨.consult node value, .consult node value⟩

theorem attentive_source (limit rounds : Nat) (source : String) :
    Attentive (Run.sourceWithin limit rounds source) := by
  unfold Run.sourceWithin
  split
  · exact .unwinding (compositional_attentive.evaluateWithin limit _).2
  · exact .of_still fun _ => rfl

/-- The worker is done with every answer in one of the two ways, unless a numeral in it is too long
    to be read; then the run ends too, but as a fault of the numeral and not as an abort.

    On the way three lines are written and one answer is taken, whoever the worker is and wherever
    it asks. In a whole run every answer that was not the value asked for is the one that ended it,
    and a run that ended with a wrong answer has the code of an abort. -/
theorem checkIn_rests_or_aborts_iff (value : Value)
    (hshort : ∀ n, value = .integer n → Decimal.Writable n) :
    (∀ (node : Node) (m : Machine), InProgram node →
      (∀ binding ∈ m.stack.top.bindings, ∀ n, binding.2 = .integer n → Decimal.Writable n) →
        ∃ scope source, m.stack.top.describe = .ok scope ∧ node.source = .ok source ∧
          (CheckedIn value (m.answers.head?.join.getD "") (m.asked node value scope source)
              (on (checkIn node value) m) ↔
            ¬ Value.Overlong (m.answers.head?.join.getD "")) ∧
          (Value.Overlong (m.answers.head?.join.getD "") →
            ∃ error, Value.ofAnswer (m.answers.head?.join.getD "") = .error error ∧
              on (checkIn node value) m =
                (.error (.fault (.parse error)), m.asked node value scope source))) ∧
    (∀ (limit rounds : Nat) (source : String) (m after : Machine) (ending : Except Halt Value),
      on (Run.sourceWithin limit rounds source) m = (ending, after) →
        ∃ story, after.log = story ++ m.log ∧
          ∀ inquiry prompt answer, .question (.worker inquiry) prompt answer ∈ story →
            inquiry.value = value → Value.ofAnswer (answer.getD "") ≠ .ok value →
              ∃ fault, Refused value (answer.getD "") fault ∧ ending = .error (.fault fault)) ∧
    (∀ (limit rounds : Nat) (strict : Bool) (source answer : String) (desk : Shell.Desk)
      (after : Machine),
      on (Run.sourceWithin limit rounds source) (.start strict desk.dice desk.clock desk.input) =
          (.error (.fault (.wrongAnswer value answer)), after) →
        (Shell.interpret limit rounds strict source desk).1 = some 3) := by
  have hvalue : value.source ≠ none := Value.source_ne_none hshort
  refine ⟨fun node m hnode hbindings => ?_, fun limit rounds source m after ending hon => ?_,
    fun limit rounds strict source answer desk after hon => ?_⟩
  · obtain ⟨scope, hscope⟩ := Frame.exists_describe fun binding hmem =>
      Value.source_ne_none (hbindings binding hmem)
    obtain ⟨source, hsource⟩ := hnode.writable
    refine ⟨scope, source, hscope, hsource, ?_⟩
    rw [on_checkIn_of_writable hscope hsource]
    refine ⟨checkedIn_judge_iff hvalue _, fun hlong => ?_⟩
    obtain ⟨error, herror, hnumeral⟩ := Value.overlong_iff.1 hlong
    exact ⟨error, herror, on_judge_of_illegible herror hnumeral _⟩
  · obtain ⟨story, hlog, hheard⟩ := attentive_source limit rounds source hon
    refine ⟨story, hlog, fun inquiry prompt answer hmem heq hanswer => ?_⟩
    subst heq
    exact hheard _ hmem hvalue hanswer
  · exact Shell.interpret_eq_three_iff.2 ⟨value, answer, after, hon⟩

/-- A worn-out worker asks about an assignment. It is content with the right answer, and ends the
    run at two numerals where one was expected. -/
theorem checkIn_rests_or_aborts_iff_assignment :
    (∃ m : Machine, m.answers = [some "-"] ∧
      ∃ scope source, CheckedIn .nothing "-"
        (m.asked (.assign "x" (.literal (.text "a"))) .nothing scope source)
        (on (checkIn (.assign "x" (.literal (.text "a"))) .nothing) m)) ∧
    ∃ m after : Machine, m.answers = [some "1 1"] ∧
      on (Run.sourceWithin 1 0 "hallo\nx = <a>\nreicht dann auch mal") m =
        (.error (.fault (.wrongAnswer .nothing "1 1")), after) ∧
      ∃ fault, Refused .nothing "1 1" fault ∧ fault = .wrongAnswer .nothing "1 1" := by
  have hparse : Node.parse "hallo\nx = <a>\nreicht dann auch mal" =
      .ok [.assign "x" (.literal (.text "a"))] := by
    cbv
  constructor
  · have hnode : InProgram (.assign "x" (.literal (.text "a"))) :=
      .statement (isStatement_of_parse hparse _ List.mem_cons_self)
    have hlegible : ¬ Value.Overlong "-" := by
      rintro ⟨count, place, hanswer, _⟩
      have hread : Value.ofAnswer "-" = .ok .nothing := by cbv
      rw [hread] at hanswer
      cases hanswer
    let m : Machine :=
      { stack := { root := { bindings := [("x", .text "a"), ("n", .integer 0)] } }
        worker := { contract := {}, fatigue := 10000, lastReset := 0, cooldown := 0 }
        shouter := {}
        dice := Dice.cycling [7]
        clock := Clock.ticking 0 100
        answers := [some "-"] }
    have hbindings : ∀ binding ∈ m.stack.top.bindings, ∀ n, binding.2 = .integer n →
        Decimal.Writable n := by
      simp [m, CallStack.top, Decimal.Writable, Decimal.bound_pos]
    obtain ⟨scope, source, _, _, hchecked, _⟩ :=
      (checkIn_rests_or_aborts_iff .nothing (by simp)).1 _ m hnode hbindings
    refine ⟨m, rfl, ?_⟩
    exact ⟨scope, source, hchecked.2 hlegible⟩
  · obtain ⟨after, inquiry, earlier, hrun, hlog, hvalue⟩ : ∃ after inquiry earlier,
        on (Run.sourceWithin 1 0 "hallo\nx = <a>\nreicht dann auch mal")
            { worker := { contract := { bounds := [] }, lastReset := 0, cooldown := 0 }
              shouter := {}
              dice := Dice.cycling []
              clock := Clock.ticking 0 100
              answers := [some "1 1"] } =
          (.error (.fault (.wrongAnswer .nothing "1 1")), after) ∧
        after.log = .question (.worker inquiry) "[dmm] what is it? " (some "1 1") :: earlier ∧
        inquiry.value = .nothing := by
      rw [on_source_of_ok hparse rfl, Node.evaluateWithin, Node.visitWithin]
      generalize Node.visitWithin 0 0 = body
      exact ⟨_, _, _, by cbv, by cbv, rfl⟩
    refine ⟨_, after, rfl, hrun, ?_⟩
    obtain ⟨story, hstory, hrefused⟩ :=
      (checkIn_rests_or_aborts_iff .nothing (by simp)).2.1 1 0 _ _ after _ hrun
    have hmem : .question (.worker inquiry) "[dmm] what is it? " (some "1 1") ∈ story := by
      rw [hlog, List.append_nil] at hstory
      simp [← hstory]
    have hwrong : Value.ofAnswer "1 1" ≠ .ok .nothing := by
      have hread :
        Value.ofAnswer "1 1" = .error (.unexpected ⟨.integer 1, ⟨1, 3⟩⟩ .endOfInput) := by cbv
      simp [hread]
    obtain ⟨fault, hfault, hending⟩ := hrefused inquiry _ _ hmem hvalue hwrong
    cases hending
    exact ⟨_, hfault, rfl⟩

/-- A numeral with one digit too many is no wrong answer: the run ends with a fault of the numeral,
    and is reported as an internal error. -/
theorem checkIn_neither_rests_nor_aborts :
    ∃ error after,
      on (checkIn (.assign "x" (.literal (.text "a"))) .nothing)
          { worker := { contract := {}, fatigue := 10000, lastReset := 0, cooldown := 0 }
            shouter := {}
            dice := Dice.cycling []
            clock := Clock.ticking 0 100
            answers := [some (String.ofList (List.replicate 4301 '1'))] } =
        (.error (.fault (.parse error)), after) ∧
      (∀ asked, ¬ CheckedIn .nothing (String.ofList (List.replicate 4301 '1')) asked
        (.error (.fault (.parse error)), after)) ∧
      (Shell.report after.worker.mood (.parse error)).2 = 2 := by
  have hlong : Value.Overlong (String.ofList (List.replicate 4301 '1')) := by
    refine Value.overlong_of_digits (fun c hmem => ?_) ?_
    · rw [List.eq_of_mem_replicate hmem]
      rfl
    · rw [List.length_replicate]
      decide
  -- The digits themselves are of no further interest, and far too many to be looked at.
  generalize String.ofList (List.replicate 4301 '1') = answer at hlong ⊢
  obtain ⟨error, herror, hnumeral⟩ := Value.overlong_iff.1 hlong
  refine ⟨error, _, (on_checkIn_of_writable rfl rfl).trans
    (on_judge_of_illegible herror hnumeral _), fun asked hchecked => ?_, ?_⟩
  · cases hchecked
  · rw [Shell.code_report]
    simp [hnumeral]

end Run

end Hallo
