import Hallo.Proofs.Evaluator.Quiet

/-!
What the worker can do after a node. It may announce its mood and it may ask about the node; it
changes no frame, and it ends a run for a few reasons only.
-/
namespace Hallo

/-- What the worker lets out about a node: lines, and questions about just this node and value. -/
def Event.RemarkOn (node : Node) (value : Value) : Event → Prop
  | .line _ => True
  | .question (.worker inquiry) _ _ => inquiry.node = node ∧ inquiry.value = value
  | _ => False

/-- The worker made some remarks on a node, and left every frame alone. -/
structure Machine.Remarked (node : Node) (value : Value) (m after : Machine) : Prop where
  stack_eq : after.stack = m.stack
  log_eq : ∃ remarks, after.log = remarks ++ m.log ∧ ∀ event ∈ remarks, event.RemarkOn node value

namespace Machine.Remarked

variable {node : Node} {value : Value} {m middle after : Machine}

theorem of_log (remarks : List Event) (hstack : after.stack = m.stack)
    (hlog : after.log = remarks ++ m.log)
    (hremarks : ∀ event ∈ remarks, event.RemarkOn node value) :
    Remarked node value m after :=
  ⟨hstack, remarks, hlog, hremarks⟩

theorem trans (hfirst : Remarked node value m middle) (hsecond : Remarked node value middle after) :
    Remarked node value m after := by
  obtain ⟨first, hlog, hremarks⟩ := hfirst.log_eq
  obtain ⟨second, hlog', hremarks'⟩ := hsecond.log_eq
  refine .of_log (second ++ first) (hsecond.stack_eq.trans hfirst.stack_eq) ?_ ?_
  · rw [hlog', hlog, List.append_assoc]
  · intro event hmem
    rcases List.mem_append.1 hmem with hmem | hmem
    · exact hremarks' event hmem
    · exact hremarks event hmem

end Machine.Remarked

/-- The machine behind a question of the worker: three lines were written, and one answer was
    taken. -/
def Machine.asked (m : Machine) (node : Node) (value : Value) (scope source : String) : Machine :=
  { m with
    answers := m.answers.tail
    log :=
      .question (.worker ⟨node, value, m.worker, m.clock.last⟩) "[dmm] what is it? "
        m.answers.head?.join ::
        .line ("  node:  " ++ source) :: .line ("  scope: " ++ scope) ::
        .line ("[dmm] " ++ m.worker.mood.glyph ++ " I need a break. Quick, help me out.") :: m.log }

namespace Run

variable {node : Node} {value : Value} {m after : Machine} {ending : Except Halt Unit}

/-- How the worker's part after a node ends. It ends the run if the variables, the node or the value
    cannot be written, at a numeral that cannot be read, and at a wrong answer. -/
inductive Consulted (frame : Frame) (node : Node) (value : Value) : Except Halt Unit → Prop where
  | content : Consulted frame node value (.ok ())
  | unwritableScope {reason : Unwritable} (hscope : frame.describe = .error reason) :
      Consulted frame node value (.error (.fault (.unwritable reason)))
  | unwritableNode {reason : Unwritable} (hnode : node.source = .error reason) :
      Consulted frame node value (.error (.fault (.unwritable reason)))
  | unwritableValue (hvalue : value.source = none) :
      Consulted frame node value (.error (.fault (.unwritable .longInteger)))
  | unreadableNumeral {answer : String} {error : ParseError}
      (hanswer : Value.ofAnswer answer = .error error)
      (hnumeral : error.aboutNumeral = true) :
      Consulted frame node value (.error (.fault (.parse error)))
  | wrongAnswer (answer : String) :
      Consulted frame node value (.error (.fault (.wrongAnswer value answer)))

theorem on_writable {α : Type} (text : Except Unwritable α) (m : Machine) :
    on (writable text) m =
      (match text with
        | .ok text => .ok text
        | .error reason => .error (.fault (.unwritable reason)), m) := by
  cases text <;> rfl

/-- An abort has to name the value that was expected. -/
theorem abort_cases {answer : String} (frame : Frame) (node : Node)
    (hon : on (abort value answer) m = (ending, after)) :
    after = m ∧ Consulted frame node value ending := by
  rw [abort, on_bind, on_writable] at hon
  cases hsource : value.source with
  | none =>
    rw [hsource] at hon
    cases hon
    exact ⟨rfl, .unwritableValue hsource⟩
  | some text =>
    rw [hsource] at hon
    cases hon
    exact ⟨rfl, .wrongAnswer answer⟩

/-- What the worker makes of an answer. -/
def judge (value : Value) (answer : String) : Run Unit :=
  match Value.ofAnswer answer with
  | .ok guess => if guess = value then rest else abort value answer
  | .error error => if error.aboutNumeral then fail (.parse error) else abort value answer

/-- What becomes of an answer: the worker rests, or the run ends. -/
theorem judge_cases {answer : String} (frame : Frame) (node : Node)
    (hon : on (judge value answer) m = (ending, after)) :
    after.stack = m.stack ∧ after.log = m.log ∧ Consulted frame node value ending := by
  have habort : on (abort value answer) m = (ending, after) →
      after.stack = m.stack ∧ after.log = m.log ∧ Consulted frame node value ending := by
    intro hon
    obtain ⟨rfl, hending⟩ := abort_cases frame node hon
    exact ⟨rfl, rfl, hending⟩
  cases hanswer : Value.ofAnswer answer with
  | ok guess =>
    simp only [judge, hanswer] at hon
    split at hon
    · cases hon
      exact ⟨rfl, rfl, .content⟩
    · exact habort hon
  | error error =>
    simp only [judge, hanswer] at hon
    split at hon
    · rename_i hnumeral
      cases hon
      exact ⟨rfl, rfl, .unreadableNumeral hanswer hnumeral⟩
    · exact habort hon

/-- What the worker does when it asks after a node, with all that it has looked up before. -/
def inquire (mood : Mood) (scope : Except Unwritable String) (inquiry : Inquiry) : Run Unit := do
  write ("[dmm] " ++ mood.glyph ++ " I need a break. Quick, help me out.")
  write ("  scope: " ++ (← writable scope))
  write ("  node:  " ++ (← writable inquiry.node.source))
  judge inquiry.value (← ask (.worker inquiry) "[dmm] what is it? ")

theorem on_checkIn (node : Node) (value : Value) (m : Machine) :
    on (checkIn node value) m =
      on (inquire m.worker.mood m.stack.top.describe ⟨node, value, m.worker, m.clock.last⟩) m := by
  rw [checkIn, on_bind_of_ok (on_get m)]
  rfl

/-- The worker writes some lines. Unless something cannot be written, it asks a single question then
    and judges the answer. -/
theorem checkIn_asked (hon : on (checkIn node value) m = (ending, after)) :
    (∃ (reason : Unwritable) (texts : List String),
      (m.stack.top.describe = .error reason ∨ node.source = .error reason) ∧
      ending = .error (.fault (.unwritable reason)) ∧
      after = { m with log := texts.map .line ++ m.log }) ∨
    ∃ scope source, on (judge value (m.answers.head?.join.getD ""))
      (m.asked node value scope source) = (ending, after) := by
  rw [on_checkIn, inquire, on_bind_of_ok (on_write _ m), on_bind, on_writable] at hon
  cases hscope : m.stack.top.describe with
  | error reason =>
    rw [hscope] at hon
    cases hon
    exact .inl ⟨reason, [_], .inl rfl, rfl, rfl⟩
  | ok scope =>
    simp only [hscope] at hon
    rw [on_bind_of_ok (on_write _ _), on_bind, on_writable] at hon
    cases hsource : node.source with
    | error reason =>
      rw [hsource] at hon
      cases hon
      exact .inl ⟨reason, [_, _], .inr rfl, rfl, rfl⟩
    | ok source =>
      simp only [hsource] at hon
      rw [on_bind_of_ok (on_write _ _), on_bind_of_ok (on_ask _ _ _)] at hon
      exact .inr ⟨scope, source, hon⟩

theorem checkIn_cases (hon : on (checkIn node value) m = (ending, after)) :
    m.Remarked node value after ∧ Consulted m.stack.top node value ending := by
  rcases checkIn_asked hon with ⟨reason, texts, hreason, rfl, rfl⟩ | ⟨scope, source, hjudge⟩
  · refine ⟨.of_log (texts.map .line) rfl rfl (by simp [Event.RemarkOn]), ?_⟩
    rcases hreason with hscope | hnode
    · exact .unwritableScope hscope
    · exact .unwritableNode hnode
  · obtain ⟨hstack, hlog, hending⟩ := judge_cases m.stack.top node hjudge
    exact ⟨.of_log [.question (.worker _) _ _, .line _, .line _, .line _] hstack hlog
      (by simp [Event.RemarkOn]), hending⟩

theorem tire_remarks (node : Node) (value : Value) (m : Machine) :
    ∃ middle, on tire m = (.ok (), middle) ∧ m.Remarked node value middle := by
  have hon := on_tire m
  rcases m.worker.call m.dice with ⟨changed, worker, dice⟩
  refine ⟨_, hon, .of_log _ rfl rfl ?_⟩
  cases changed <;> simp [Event.RemarkOn]

theorem wantsCheck_remarks (node : Node) (value : Value) (m : Machine) :
    ∃ wants middle, on (wantsCheck node) m = (.ok wants, middle) ∧ m.Remarked node value middle :=
  ⟨_, _, on_wantsCheck node m, .of_log [] rfl rfl (by simp)⟩

/-- Whatever the worker does after a node, it only makes remarks on it, and it ends the run for one
    of the known reasons or not at all. -/
theorem consult_cases (hon : on (consult node value) m = (ending, after)) :
    m.Remarked node value after ∧ Consulted m.stack.top node value ending := by
  obtain ⟨tired, htire, hfirst⟩ := tire_remarks node value m
  obtain ⟨wants, ready, hwants, hsecond⟩ := wantsCheck_remarks node value tired
  have hready := hfirst.trans hsecond
  rw [consult, on_bind_of_ok htire, on_bind_of_ok hwants] at hon
  cases wants with
  | false =>
    cases hon
    exact ⟨hready, .content⟩
  | true =>
    obtain ⟨hremarked, hending⟩ := checkIn_cases hon
    rw [hready.stack_eq] at hending
    exact ⟨hready.trans hremarked, hending⟩

end Run

end Hallo
