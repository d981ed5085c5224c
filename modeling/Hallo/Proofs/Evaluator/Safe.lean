import Hallo.Proofs.Evaluator.Balanced
import Hallo.Proofs.Evaluator.WellFormed
import Hallo.Proofs.Node.RoundTrip
import Hallo.Proofs.Parser.Complaints

/-!
What can go wrong in the run of a program. The parts of a program are evaluated from well-formed
machines to well-formed machines and to values that their brackets can hold; where they fail, the
program has broken a rule that programs can break, an answer was wrong, or a number went beyond the
digit limit.
-/
namespace Hallo

open Node

/-- Rules that a program can break. The others are about trees that no program has. -/
def Violation.Ordinary : Violation → Prop
  | .invalidUnary _ => False
  | .invalidBinary _ => False
  | .cannotEvaluate _ => False
  | _ => True

namespace Fault

/-- Faults of a program or of an answer: the text is no program, a rule is broken, the answer is
    wrong. -/
def Ordinary : Fault → Prop
  | .parse error => error.aboutNumeral = false
  | .violation broken => broken.Ordinary
  | .wrongAnswer _ _ => True
  | .unwritable _ => False
  | .zeroDivisor => False
  | .emptyCallStack => False

/-- Faults at the digit limit: a numeral is too long to be read, or an integer to be written. -/
def AtDigitLimit : Fault → Prop
  | .parse (.scan error) =>
    ∃ count, error.complaint = .tooManyDigits count ∧ Decimal.digitLimit < count
  | .unwritable reason => reason = .longInteger
  | _ => False

/-- What a text can give rise to is the fault of the text, or of the digit limit. -/
theorem parse_of_founded {error : ParseError} (hfounded : error.Founded) :
    (Fault.parse error).Ordinary ∨ (Fault.parse error).AtDigitLimit := by
  rcases error with ⟨⟨complaint, place⟩⟩ | ⟨found, expected⟩
  · cases complaint with
    | unknownCharacter c => exact .inl rfl
    | unclosedText => exact .inl rfl
    | tooManyDigits count => exact .inr ⟨count, rfl, hfounded⟩
    | noDigits => cases hfounded
  · exact .inl rfl

end Fault

/-- An outcome whose value its brackets can hold. -/
def Outcome.Bracketable (outcome : Outcome) : Prop :=
  outcome.get.Bracketable

namespace Run

variable {α β : Type} {Q : α → Prop} {R : β → Prop} {x : Run α} {f : α → Run β}

/-- Endings that programs can have: a value of a certain kind, or a fault that is theirs. -/
def Lands (Q : α → Prop) : Except Halt α → Prop
  | .ok a => Q a
  | .error (.fault fault) => fault.Ordinary ∨ fault.AtDigitLimit
  | .error .unfinished => True

/-- On a well-formed machine the action ends as programs can end, and the machine stays
    well-formed. -/
def Safe (Q : α → Prop) (x : Run α) : Prop :=
  ∀ ⦃m : Machine⦄ ⦃ending : Except Halt α⦄ ⦃after : Machine⦄, m.WellFormed →
    on x m = (ending, after) → after.WellFormed ∧ Lands Q ending

namespace Safe

theorem of_on {ending : Machine → Except Halt α} {next : Machine → Machine}
    (hx : ∀ m, on x m = (ending m, next m)) (hnext : ∀ m, m.WellFormed → (next m).WellFormed)
    (hending : ∀ m, m.WellFormed → Lands Q (ending m)) : Safe Q x := by
  intro m ending after hm hon
  rw [hx] at hon
  cases hon
  exact ⟨hnext m hm, hending m hm⟩

theorem pure {a : α} (ha : Q a) : Safe Q (Pure.pure a) :=
  of_on (fun _ => rfl) (fun _ hm => hm) fun _ _ => ha

theorem bind (hx : Safe Q x) (hf : ∀ a, Q a → Safe R (f a)) : Safe R (x >>= f) := by
  intro m ending after hm hon
  rcases on_bind_eq_iff.1 hon with ⟨a, middle, hfirst, hsecond⟩ | ⟨halt, hfirst, rfl⟩
  · obtain ⟨hmiddle, ha⟩ := hx hm hfirst
    exact hf a ha hmiddle hsecond
  · obtain ⟨hafter, hhalt⟩ := hx hm hfirst
    exact ⟨hafter, by cases halt <;> exact hhalt⟩

theorem violate {violation : Violation} (hviolation : violation.Ordinary) :
    Safe Q (Run.violate violation : Run α) :=
  of_on (fun _ => rfl) (fun _ hm => hm) fun _ _ => .inl hviolation

theorem display (value : Value) : Safe (fun _ => True) (Run.display value) := by
  refine of_on (on_display value) (fun _ hm => hm) fun _ _ => ?_
  cases value.display with
  | none => exact .inr rfl
  | some text => trivial

theorem write (text : String) : Safe (fun _ => True) (Run.write text) := by
  refine of_on (on_write text) (fun _ hm => hm.of_log [.line text] rfl rfl ?_) fun _ _ => trivial
  simp [Event.WellFormed]

theorem top : Safe Frame.WellFormed Run.top :=
  of_on on_top (fun _ hm => hm) fun _ hm => hm.stack.top

theorem setTop {frame : Frame} (hframe : frame.WellFormed) :
    Safe (fun _ => True) (Run.setTop frame) :=
  of_on (fun _ => rfl) (fun _ hm => hm.withStack (hm.stack.setTop hframe)) fun _ _ => trivial

theorem declareRoutine {routine : Routine} (hroutine : routine.WellFormed) :
    Safe (fun _ => True) (Run.declareRoutine routine) := by
  refine top.bind fun frame hframe => ?_
  cases hdeclare : frame.declare? routine with
  | none => exact violate trivial
  | some after => exact setTop (hframe.declare? hroutine hdeclare)

theorem shout (intensity : Int) (text : String) :
    Safe (fun _ => True) (Run.shout intensity text) := by
  refine of_on (on_shout intensity text) (fun m hm => ?_) fun _ _ => trivial
  let shout := (m.shouter.emit intensity text m.dice).1
  refine hm.of_log (.shout intensity text shout.line :: shout.nap.toList.map Event.nap) rfl rfl ?_
  cases shout.nap <;> simp [Event.WellFormed]

/-- An answer is a value that its brackets can hold, or is not understood. -/
theorem askValue (prompt : String) : Safe Value.Bracketable (Run.askValue prompt) := by
  refine of_on (on_askValue prompt) (fun m hm => ?_) fun m _ => ?_
  · exact hm.of_log [.question .program prompt _] rfl rfl (by simp [Event.WellFormed])
  · cases hanswer : Value.ofAnswer (m.answers.head?.join.getD "") with
    | ok value => exact Value.bracketable_of_ofAnswer hanswer
    | error error => exact Fault.parse_of_founded (Value.founded_of_ofAnswer hanswer)

theorem inCall {frame : Frame} (hframe : frame.WellFormed) (hbalanced : Balanced x)
    (hx : Safe Q x) :
    Safe Q (Run.inCall frame x) := by
  intro m ending after hm hon
  obtain ⟨inside, top, rest, hbody, hpop, _, rfl⟩ := hbalanced.inCall_cases hon
  obtain ⟨hinside, hending⟩ := hx (hm.withStack (hm.stack.push hframe)) hbody
  exact ⟨hinside.withStack (hinside.stack.pop? hpop), hending⟩

theorem unwinding (hx : Safe Q x) : Safe Q (Run.unwinding x) := by
  intro m ending after hm hon
  rcases hfirst : on x m with ⟨ending', inside⟩
  obtain ⟨hinside, hending⟩ := hx hm hfirst
  rw [on_unwinding, hfirst] at hon
  split at hon
  · rename_i heq
    cases heq
    cases hon
    exact ⟨hinside.withStack ⟨hinside.stack.root, nofun⟩, hending⟩
  · cases hon
    exact ⟨hinside, hending⟩

/-- The worker can write every part of a program, and asks only about values that can be written,
    unless an integer is too long. -/
theorem consult {node : Node} {value : Value} (hnode : InProgram node)
    (hvalue : value.Bracketable) :
    Safe (fun _ => True) (Run.consult node value) := by
  intro m ending after hm hon
  obtain ⟨⟨hstack, remarks, hlog, hremarks⟩, hending⟩ := consult_cases hon
  constructor
  · refine hm.of_log remarks hstack hlog fun event hmem => ?_
    have hremark := hremarks event hmem
    rcases event with _ | _ | _ | ⟨_ | inquiry | _, _, _⟩
    case question.worker =>
      change inquiry.value.Bracketable
      rw [hremark.2]
      exact hvalue
    all_goals trivial
  · cases hending with
    | content => trivial
    | unwritableScope hscope => exact .inr (Frame.describe_error hscope)
    | unwritableNode hsource =>
      obtain ⟨text, htext⟩ := hnode.writable
      rw [htext] at hsource
      cases hsource
    | unwritableValue _ => exact .inr rfl
    | unreadableNumeral hanswer _ =>
      exact Fault.parse_of_founded (Value.founded_of_ofAnswer hanswer)
    | wrongAnswer _ => exact .inl trivial

theorem watched {node : Node} {x : Run Outcome} (hnode : InProgram node)
    (hx : Safe Outcome.Bracketable x) :
    Safe Outcome.Bracketable (Run.watched node x) := by
  rw [watched_eq]
  exact hx.bind fun outcome houtcome => (consult hnode houtcome).bind fun _ _ => pure houtcome

theorem number (value : Value) : Safe (fun _ => True) (Run.number value) := by
  cases value with
  | integer n => exact pure trivial
  | _ => exact violate trivial

theorem condition (keyword : Keyword) (value : Value) :
    Safe (fun _ => True) (Run.condition keyword value) := by
  cases value with
  | boolean b => exact pure trivial
  | _ => exact violate trivial

theorem applyUnary {operator : String} (hoperator : operator ∈ ["+", "-"]) (n : Int) :
    Safe Value.Bracketable (Run.applyUnary operator n) := by
  simp only [List.mem_cons, List.not_mem_nil, or_false] at hoperator
  rcases hoperator with rfl | rfl <;> exact pure trivial

theorem applyBinary {operator : String} (hoperator : operator ∈ ["+", "-", "*", "/"]) (m n : Int) :
    Safe Value.Bracketable (Run.applyBinary operator m n) := by
  simp only [List.mem_cons, List.not_mem_nil, or_false] at hoperator
  rcases hoperator with rfl | rfl | rfl | rfl
  · exact pure trivial
  · exact pure trivial
  · exact pure trivial
  · by_cases hzero : n = 0
    · have hon : Run.applyBinary "/" m n = Run.violate .divisionByZero := if_pos hzero
      rw [hon]
      exact violate trivial
    · have hon : Run.applyBinary "/" m n = Pure.pure (.integer (m.tdiv n)) := by
        simp [Run.applyBinary, truncatingDivide, hzero]
      rw [hon]
      exact pure trivial

theorem applyComparison (comparison : Comparison) (left right : Value) :
    Safe Value.Bracketable (Run.applyComparison comparison left right) := by
  unfold Run.applyComparison
  cases comparison with
  | equals => exact pure trivial
  | less | greater =>
    dsimp only
    split
    · exact pure trivial
    · exact violate trivial

theorem done : Safe Outcome.Bracketable Run.done :=
  pure trivial

theorem repeatWhile {test : Run Bool} {body : Run Outcome} (htest : Safe (fun _ => True) test)
    (hbody : Safe Outcome.Bracketable body) (rounds : Nat) :
    Safe Outcome.Bracketable (Run.repeatWhile test body rounds) := by
  induction rounds with
  | zero => exact of_on (fun _ => rfl) (fun _ hm => hm) fun _ _ => trivial
  | succ rounds ih =>
    refine htest.bind fun holds _ => ?_
    split
    · refine hbody.bind fun outcome houtcome => ?_
      cases outcome with
      | returning value => exact pure houtcome
      | value _ => exact ih
    · exact done

theorem routineFor (name : String) (count : Nat) :
    Safe Routine.WellFormed (Run.routineFor name count) := by
  refine top.bind fun frame hframe => ?_
  cases hfunction : frame.function? name with
  | none => exact violate trivial
  | some routine =>
    dsimp only
    split
    · exact pure (hframe.of_function? hfunction)
    · exact violate trivial

end Safe

/-- The evaluator of bodies is safe on every block of statements. -/
structure SafeBody (body : Node → Run Outcome) : Prop where
  balanced (node : Node) : Balanced (body node)
  safe {statements : List Node} (hstatements : ∀ t ∈ statements, IsStatement t) :
    Safe Outcome.Bracketable (body (.block statements))

namespace Safe

variable {rounds : Nat} {body : Node → Run Outcome}

theorem enterRoutine (hbody : SafeBody body) {routine : Routine} {arguments : List Value}
    (hroutine : routine.WellFormed) (harguments : ∀ v ∈ arguments, v.Bracketable) :
    Safe Value.Bracketable (Run.enterRoutine body routine arguments) := by
  obtain ⟨statements, hblock, hstatements⟩ := hroutine
  refine top.bind fun caller hcaller => ?_
  have hcall : Safe Outcome.Bracketable
      (Run.inCall (caller.entering routine.params arguments) (body routine.body)) := by
    rw [hblock]
    exact inCall (hcaller.entering routine.params harguments) (hbody.balanced _)
      (hbody.safe hstatements)
  exact hcall.bind fun outcome houtcome => pure houtcome

theorem visitBlock {statements : List Node}
    (hstatements : ∀ t ∈ statements, Safe Outcome.Bracketable (t.visit rounds body)) :
    Safe Outcome.Bracketable (Node.visitBlock rounds body statements) := by
  induction statements with
  | nil => exact done
  | cons t statements ih =>
    rw [Node.visitBlock]
    refine (hstatements t List.mem_cons_self).bind fun outcome houtcome => ?_
    cases outcome with
    | returning value => exact pure houtcome
    | value _ => exact ih fun other hmem => hstatements other (List.mem_cons_of_mem t hmem)

theorem valuesOf {arguments : List Node}
    (harguments : ∀ t ∈ arguments, Safe Outcome.Bracketable (t.visit rounds body)) :
    Safe (fun values => ∀ v ∈ values, v.Bracketable) (Node.valuesOf rounds body arguments) := by
  induction arguments with
  | nil => exact pure nofun
  | cons t arguments ih =>
    rw [Node.valuesOf]
    refine (harguments t List.mem_cons_self).bind fun outcome houtcome => ?_
    have hothers := ih fun other hmem => harguments other (List.mem_cons_of_mem t hmem)
    exact hothers.bind fun values hvalues => pure (List.forall_mem_cons.2 ⟨houtcome, hvalues⟩)

theorem render {arguments : List Node}
    (harguments : ∀ t ∈ arguments, Safe Outcome.Bracketable (t.visit rounds body)) :
    Safe (fun _ => True) (Node.render rounds body arguments) := by
  induction arguments with
  | nil => exact pure trivial
  | cons t arguments ih =>
    rw [Node.render]
    refine (harguments t List.mem_cons_self).bind fun outcome _ => ?_
    refine (display outcome.get).bind fun text _ => ?_
    have hothers := ih fun other hmem => harguments other (List.mem_cons_of_mem t hmem)
    exact hothers.bind fun _ _ => pure trivial

/-- A call is evaluated alike as an expression and as a statement. -/
theorem visit_call (hbody : SafeBody body) {callee : String} {arguments : List Node}
    (hnode : InProgram (.call callee arguments))
    (harguments : ∀ t ∈ arguments, Safe Outcome.Bracketable (t.visit rounds body)) :
    Safe Outcome.Bracketable ((Node.call callee arguments).visit rounds body) := by
  rw [Node.visit]
  refine watched hnode ?_
  split
  · exact (render harguments).bind fun text _ => (shout _ text).bind fun _ _ => done
  · split
    · exact (render harguments).bind fun prompt _ => (askValue prompt).bind fun _ hvalue =>
        pure hvalue
    · refine (routineFor callee _).bind fun routine hroutine => ?_
      refine (valuesOf harguments).bind fun values hvalues => ?_
      exact (enterRoutine hbody hroutine hvalues).bind fun _ hvalue => pure hvalue

theorem visit_expression (hbody : SafeBody body) {t : Node} (hexpression : IsExpression t) :
    Safe Outcome.Bracketable (t.visit rounds body) := by
  induction hexpression with
  | literal hvalue =>
    rw [Node.visit]
    exact watched (.expression (.literal hvalue)) (pure hvalue.bracketable)
  | @var name hname =>
    rw [Node.visit]
    refine watched (.expression (.var hname)) (top.bind fun frame hframe => ?_)
    cases hget : frame.get? name with
    | none => exact violate trivial
    | some value => exact pure (hframe.of_get? hget)
  | unary hoperator hoperand ih =>
    rw [Node.visit]
    refine watched (.expression (.unary hoperator hoperand)) (ih.bind fun outcome _ => ?_)
    refine (number outcome.get).bind fun n _ => ?_
    exact (applyUnary hoperator n).bind fun _ hvalue => pure hvalue
  | binary hoperator hleft hright ihleft ihright =>
    rw [Node.visit]
    refine watched (.expression (.binary hoperator hleft hright)) (ihleft.bind fun first _ => ?_)
    refine (number first.get).bind fun m _ => ihright.bind fun second _ => ?_
    refine (number second.get).bind fun n _ => ?_
    exact (applyBinary hoperator m n).bind fun _ hvalue => pure hvalue
  | compare hleft hright ihleft ihright =>
    rw [Node.visit]
    refine watched (.expression (.compare hleft hright)) (ihleft.bind fun first _ => ?_)
    refine ihright.bind fun second _ => ?_
    exact (applyComparison _ first.get second.get).bind fun _ hvalue => pure hvalue
  | call hcallee harguments ih => exact visit_call hbody (.expression (.call hcallee harguments)) ih

theorem visit_block {statements : List Node} (hstatements : ∀ t ∈ statements, IsStatement t)
    (hvisits : ∀ t ∈ statements, Safe Outcome.Bracketable (t.visit rounds body)) :
    Safe Outcome.Bracketable ((Node.block statements).visit rounds body) := by
  rw [Node.visit]
  exact watched (.block hstatements) (visitBlock hvisits)

theorem visit_statement (hbody : SafeBody body) {t : Node} (hstatement : IsStatement t) :
    Safe Outcome.Bracketable (t.visit rounds body) := by
  induction hstatement with
  | call hcallee harguments =>
    exact visit_call hbody (.statement (.call hcallee harguments)) fun t hmem =>
      visit_expression hbody (harguments t hmem)
  | @assign target value htarget hvalue =>
    rw [Node.visit]
    refine watched (.statement (.assign htarget hvalue)) ?_
    refine (visit_expression hbody hvalue).bind fun outcome houtcome =>
      top.bind fun frame hframe => ?_
    exact (setTop (hframe.set target houtcome)).bind fun _ _ => done
  | declare hname hparams hnodup hinner =>
    rw [Node.visit]
    refine watched (.statement (.declare hname hparams hnodup hinner)) ?_
    exact (declareRoutine ⟨_, rfl, hinner⟩).bind fun _ _ => done
  | branch htest hinner ih =>
    rw [Node.visit]
    refine watched (.statement (.branch htest hinner)) ?_
    refine (visit_expression hbody htest).bind fun outcome _ => ?_
    refine (condition .branch outcome.get).bind fun holds _ => ?_
    split
    · refine (visit_block hinner ih).bind fun result hresult => ?_
      cases result with
      | returning value => exact pure hresult
      | value _ => exact done
    · exact done
  | loop htest hinner ih =>
    rw [Node.visit]
    refine watched (.statement (.loop htest hinner)) (repeatWhile ?_ (visit_block hinner ih) rounds)
    exact (visit_expression hbody htest).bind fun outcome _ => condition .loop outcome.get
  | giveBack hvalue =>
    rw [Node.visit]
    refine watched (.statement (.giveBack hvalue)) ?_
    exact (visit_expression hbody hvalue).bind fun outcome houtcome => pure houtcome

/-- Every part of a program is evaluated safely, if bodies are. -/
theorem visit (hbody : SafeBody body) {t : Node} (ht : InProgram t) :
    Safe Outcome.Bracketable (t.visit rounds body) := by
  cases ht with
  | expression hexpression => exact visit_expression hbody hexpression
  | statement hstatement => exact visit_statement hbody hstatement
  | block hstatements =>
    exact visit_block hstatements fun t hmem => visit_statement hbody (hstatements t hmem)

theorem visitWithin (depth : Nat) {t : Node} (ht : InProgram t) :
    Safe Outcome.Bracketable (t.visitWithin rounds depth) := by
  induction depth generalizing t with
  | zero =>
    have hbody : SafeBody fun _ => Run.violate .stackOverflow :=
      ⟨fun _ => .violate .stackOverflow, fun _ => violate trivial⟩
    exact visit hbody ht
  | succ depth ih =>
    exact visit ⟨compositional_balanced.visitWithin depth, fun hstatements =>
      ih (.block hstatements)⟩ ht

theorem evaluateWithin (limit : Nat) {t : Node} (ht : InProgram t) :
    Safe Value.Bracketable (t.evaluateWithin limit rounds) := by
  refine (visitWithin limit ht).bind fun outcome houtcome => ?_
  cases outcome with
  | value v => exact pure houtcome
  | returning v => exact (display v).bind fun text _ => (write _).bind fun _ _ => pure houtcome

/-- Every source is run safely, whatever it is. -/
theorem sourceWithin (limit rounds : Nat) (source : String) :
    Safe Value.Bracketable (Run.sourceWithin limit rounds source) := by
  unfold Run.sourceWithin
  cases hparse : Node.parse source with
  | ok nodes =>
    exact unwinding (evaluateWithin limit (.block fun t hmem => isStatement_of_parse hparse t hmem))
  | error error =>
    exact of_on (fun _ => rfl) (fun _ hm => hm) fun _ _ =>
      Fault.parse_of_founded (founded_of_parse hparse)

end Safe

end Run

/-- Runs of sources leave a well-formed machine behind, and each of them ends as programs can
    end. -/
theorem Machine.WellFormed.perform {m after : Machine} {limit rounds : Nat} {sources : List String}
    {endings : List (Except Halt Value)} (hm : m.WellFormed)
    (hperform : m.perform limit rounds (sources.map .source) = (endings, after)) :
    after.WellFormed ∧ ∀ ending ∈ endings, Run.Lands Value.Bracketable ending := by
  refine perform_induction (I := Machine.WellFormed)
    (fun job hmem m after ending hm hon => ?_) hm hperform
  obtain ⟨source, _, rfl⟩ := List.mem_map.1 hmem
  exact Run.Safe.sourceWithin limit rounds source hm hon

end Hallo
