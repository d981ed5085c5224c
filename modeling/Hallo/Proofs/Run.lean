import Hallo.Evaluator

/-!
Runs of actions. Whether an action gives a value or fails, it leaves a machine behind; both are
taken together here, so that one law says how actions follow each other.
-/
namespace Hallo

namespace Run

variable {α β : Type} {x : Run α} {f : α → Run β} {m after middle : Machine}

/-- How an action ends when it is run on a machine, and what the machine is then like. -/
def on (x : Run α) (m : Machine) : Except Halt α × Machine :=
  match x m with
  | .ok a after => (.ok a, after)
  | .error halt after => (.error halt, after)

theorem on_bind (x : Run α) (f : α → Run β) (m : Machine) :
    on (x >>= f) m =
      match on x m with
      | (.ok a, middle) => on (f a) middle
      | (.error halt, middle) => (.error halt, middle) := by
  change on (EStateM.bind x f) m = _
  unfold on EStateM.bind
  cases x m <;> rfl

theorem on_bind_of_ok {a : α} (hx : on x m = (.ok a, middle)) :
    on (x >>= f) m = on (f a) middle := by
  rw [on_bind, hx]

theorem on_bind_of_error {halt : Halt} (hx : on x m = (.error halt, middle)) :
    on (x >>= f) m = (.error halt, middle) := by
  rw [on_bind, hx]

/-- An action that is followed by another one ends where the other one ends, or fails on its
    own. -/
theorem on_bind_eq_iff {ending : Except Halt β} :
    on (x >>= f) m = (ending, after) ↔
      (∃ a middle, on x m = (.ok a, middle) ∧ on (f a) middle = (ending, after)) ∨
        ∃ halt, on x m = (.error halt, after) ∧ ending = .error halt := by
  rw [on_bind]
  rcases on x m with ⟨halt | a, middle⟩
  · constructor
    · intro heq
      cases heq
      exact .inr ⟨halt, rfl, rfl⟩
    · rintro (⟨_, _, hx, _⟩ | ⟨_, hx, rfl⟩)
      · cases hx
      · cases hx
        rfl
  · constructor
    · intro heq
      exact .inl ⟨a, middle, rfl, heq⟩
    · rintro (⟨_, _, hx, hf⟩ | ⟨_, hx, _⟩)
      · cases hx
        exact hf
      · cases hx

@[simp] theorem on_pure (a : α) (m : Machine) : on (pure a) m = (.ok a, m) := rfl

@[simp] theorem on_violate (violation : Violation) (m : Machine) :
    on (violate violation : Run α) m = (.error (.fault (.violation violation)), m) := rfl

theorem on_top (m : Machine) : on top m = (.ok m.stack.top, m) := rfl

theorem on_write (text : String) (m : Machine) :
    on (write text) m = (.ok (), { m with log := .line text :: m.log }) := rfl

theorem on_ask (asker : Asker) (prompt : String) (m : Machine) :
    on (ask asker prompt) m = (.ok (m.answers.head?.join.getD ""),
      { m with
        answers := m.answers.tail
        log := .question asker prompt m.answers.head?.join :: m.log }) := rfl

theorem on_get (m : Machine) : on get m = (.ok m, m) := rfl

/-- A call is entered, and left again wherever it ends. -/
theorem on_inCall (frame : Frame) (x : Run α) (m : Machine) :
    on (inCall frame x) m =
      match on x { m with stack := m.stack.push frame } with
      | (ending, after) =>
        match after.stack.pop? with
        | some (_, stack) => (ending, { after with stack := stack })
        | none => (.error (.fault .emptyCallStack), after) := by
  unfold on inCall
  cases x { m with stack := m.stack.push frame } with
  | ok a after =>
    dsimp only
    cases after.stack.pop? <;> rfl
  | error halt after =>
    dsimp only
    cases after.stack.pop? <;> rfl

/-- Only where calls went too deep is anything unwound. -/
theorem on_unwinding (x : Run α) (m : Machine) :
    on (unwinding x) m =
      match on x m with
      | (.error (.fault (.violation .stackOverflow)), after) =>
        (.error (.fault (.violation .stackOverflow)), { after with stack := after.stack.unwind })
      | result => result := by
  unfold on unwinding
  rcases x m with ⟨a, after⟩ | ⟨⟨_ | ⟨broken⟩ | _ | _ | _ | _⟩ | _, after⟩
  case error.fault.violation => cases broken <;> rfl
  all_goals rfl

theorem on_unwinding_eq_iff {ending : Except Halt α}
    (hending : ending ≠ .error (.fault (.violation .stackOverflow))) :
    on (unwinding x) m = (ending, after) ↔ on x m = (ending, after) := by
  rw [on_unwinding]
  constructor
  · intro hon
    split at hon
    · cases hon
      exact absurd rfl hending
    · exact hon
  · intro hon
    rw [hon]
    split
    · rename_i heq
      cases heq
      exact absurd rfl hending
    · rfl

/-- The action has nothing to do with the machine: it gives a value, or it breaks a rule. -/
def Calculates (x : Run α) : Prop :=
  (∃ a, x = pure a) ∨ ∃ violation, x = violate violation

theorem calculates_number (value : Value) : Calculates (number value) := by
  cases value with
  | integer n => exact .inl ⟨n, rfl⟩
  | _ => exact .inr ⟨_, rfl⟩

theorem calculates_condition (keyword : Keyword) (value : Value) :
    Calculates (condition keyword value) := by
  cases value with
  | boolean b => exact .inl ⟨b, rfl⟩
  | _ => exact .inr ⟨_, rfl⟩

theorem calculates_applyUnary (operator : String) (operand : Int) :
    Calculates (applyUnary operator operand) := by
  unfold applyUnary
  split
  · exact .inl ⟨_, rfl⟩
  · split
    · exact .inl ⟨_, rfl⟩
    · exact .inr ⟨_, rfl⟩

/-- The divisor is compared with zero before the division, so this does not fail in another way. -/
theorem calculates_applyBinary (operator : String) (left right : Int) :
    Calculates (applyBinary operator left right) := by
  unfold applyBinary
  split
  · exact .inl ⟨_, rfl⟩
  · split
    · exact .inl ⟨_, rfl⟩
    · split
      · exact .inl ⟨_, rfl⟩
      · split
        · split
          · exact .inr ⟨_, rfl⟩
          · rename_i hzero
            rw [truncatingDivide, if_neg hzero]
            exact .inl ⟨_, rfl⟩
        · exact .inr ⟨_, rfl⟩

theorem calculates_applyComparison (comparison : Comparison) (left right : Value) :
    Calculates (applyComparison comparison left right) := by
  unfold applyComparison
  cases comparison with
  | equals => exact .inl ⟨_, rfl⟩
  | less | greater =>
    dsimp only
    split
    · exact .inl ⟨_, rfl⟩
    · exact .inr ⟨_, rfl⟩

/-- The worker's part after a node: it tires, and it may want to be asked after. -/
def consult (node : Node) (value : Value) : Run Unit := do
  tire
  if ← wantsCheck node then
    checkIn node value

theorem watched_eq (node : Node) (action : Run Outcome) :
    watched node action = action >>= fun outcome => consult node outcome.get >>= fun _ =>
      pure outcome := by
  unfold watched consult
  simp only [bind_assoc]
  congr
  funext outcome
  congr
  funext _
  congr
  funext wants
  cases wants <;> simp

/-- Give a variable of the innermost call a value. -/
def assign (name : String) (value : Value) : Run Unit := do
  setTop ((← top).set name value)

theorem on_declareRoutine (routine : Routine) (m : Machine) :
    on (declareRoutine routine) m =
      match m.stack.top.declare? routine with
      | some frame => (.ok (), { m with stack := m.stack.setTop frame })
      | none => (.error (.fault (.violation (.alreadyDeclared routine.name))), m) := by
  unfold declareRoutine
  rw [on_bind, on_top]
  dsimp only
  cases m.stack.top.declare? routine <;> rfl

/-- Nothing that is said is more quiet than the shortest output form says it. -/
theorem one_le_intensity {name : String} {intensity : Int}
    (hintensity : intensity? name = some intensity) :
    1 ≤ intensity := by
  rw [intensity?] at hintensity
  split at hintensity
  · rename_i hstem
    have hlength := (List.isPrefixOf_iff_prefix.1 hstem).length_le
    rw [String.length_toList] at hlength
    obtain rfl := Option.some.inj hintensity
    omega
  · cases hintensity

/-- A shout is noted with what was to be said, behind the nap it may have cost. -/
theorem on_shout (intensity : Int) (text : String) (m : Machine) :
    on (shout intensity text) m =
      match m.shouter.emit intensity text m.dice with
      | (shout, shouter, dice) =>
        (.ok (), { m with
          shouter := shouter
          dice := dice
          log := .shout intensity text shout.line ::
            (shout.nap.toList.map Event.nap ++ m.log) }) := by
  unfold shout
  rw [on_bind, on_get]
  dsimp only
  rcases m.shouter.emit intensity text m.dice with ⟨⟨line, nap⟩, shouter, dice⟩
  cases nap <;> rfl

/-- An answer is taken from the front and read. -/
theorem on_askValue (prompt : String) (m : Machine) :
    on (askValue prompt) m =
      (match Value.ofAnswer (m.answers.head?.join.getD "") with
        | .ok value => .ok value
        | .error error => .error (.fault (.parse error)),
      { m with
        answers := m.answers.tail
        log := .question .program prompt m.answers.head?.join :: m.log }) := by
  unfold askValue
  rw [on_bind, on_ask]
  dsimp only
  cases Value.ofAnswer (m.answers.head?.join.getD "") <;> rfl

theorem on_display (value : Value) (m : Machine) :
    on (display value) m =
      (match value.display with
        | some text => .ok text
        | none => .error (.fault (.unwritable .longInteger)), m) := by
  unfold display
  cases value.display <;> rfl

end Run

/-- However many calls can be inside each other, a tree is visited in the same way; only the bodies
    of functions are not. -/
theorem Node.visitWithin_eq_visit (rounds limit : Nat) :
    ∃ body, ∀ node : Node, node.visitWithin rounds limit = node.visit rounds body := by
  cases limit with
  | zero => exact ⟨_, fun _ => rfl⟩
  | succ limit => exact ⟨_, fun _ => rfl⟩

end Hallo
