import Hallo.Proofs.Evaluator.Congruent
import Hallo.Proofs.Evaluator.Consult

/-!
Evaluations that come to the same. What an evaluation does can depend on the functions that its
frames see. As long as the tables of functions keep to some condition, two evaluations that run the
bodies of such functions alike do the same.
-/
namespace Hallo

theorem Frame.functions_entering (frame : Frame) (params : List String) (arguments : List Value) :
    (frame.entering params arguments).functions = frame.functions := by
  rw [entering]
  have hchild : frame.child.functions = frame.functions := rfl
  generalize frame.child = start at hchild
  generalize params.zip arguments = pairs
  induction pairs generalizing start with
  | nil => exact hchild
  | cons pair pairs ih => exact ih _ hchild

namespace CallStack

/-- The frames of a stack, the innermost first. -/
def frames (stack : CallStack) : List Frame :=
  stack.calls ++ [stack.root]

/-- The tables of functions, the innermost first. -/
def tables (stack : CallStack) : List (List Routine) :=
  stack.frames.map Frame.functions

variable {stack rest : CallStack} {frame : Frame}

theorem tables_push (stack : CallStack) (frame : Frame) :
    (stack.push frame).tables = frame.functions :: stack.tables := rfl

theorem tables_of_pop? (hpop : stack.pop? = some (frame, rest)) :
    stack.tables = frame.functions :: rest.tables := by
  rcases stack with ⟨root, _ | ⟨call, calls⟩⟩
  · cases hpop
  · cases hpop
    rfl

/-- A change of the top frame changes the first table only. -/
theorem exists_tables_setTop (stack : CallStack) :
    ∃ others, ∀ frame, (stack.setTop frame).tables = frame.functions :: others := by
  rcases stack with ⟨root, _ | ⟨call, calls⟩⟩
  · exact ⟨[], fun _ => rfl⟩
  · exact ⟨(calls ++ [root]).map Frame.functions, fun _ => rfl⟩

theorem exists_tables (stack : CallStack) :
    ∃ others, stack.tables = stack.top.functions :: others ∧
      ∀ frame, (stack.setTop frame).tables = frame.functions :: others := by
  obtain ⟨others, hothers⟩ := stack.exists_tables_setTop
  exact ⟨others, by rw [← hothers, setTop_top], hothers⟩

end CallStack

/-- A condition on tables of functions that is kept by declarations, calls and returns, and by which
    the bodies of all functions in sight are of a certain kind. -/
structure TableInvariant (N : Node → Prop) (I : List (List Routine) → Prop) : Prop where
  body {table : List Routine} {others : List (List Routine)} {routine : Routine} :
    I (table :: others) → routine ∈ table → N routine.body
  declare {table : List Routine} {others : List (List Routine)} {routine : Routine} :
    I (table :: others) → N routine.body → I ((table ++ [routine]) :: others)
  enter {table : List Routine} {others : List (List Routine)} :
    I (table :: others) → I (table :: table :: others)
  leave {table : List Routine} {others : List (List Routine)} : I (table :: others) → I others

namespace Run

variable {α β : Type} {x y : Run α} {f g : α → Run β} {m after : Machine}

theorem on_routineFor (name : String) (count : Nat) (m : Machine) :
    on (routineFor name count) m =
      (match m.stack.top.function? name with
        | none => .error (.fault (.violation (.unknownFunction name)))
        | some routine =>
          if routine.params.length = count then .ok routine
          else .error (.fault (.violation (.argumentCount name routine.params.length count))),
            m) := by
  rw [routineFor, on_bind_of_ok (on_top m)]
  cases m.stack.top.function? name with
  | none => rfl
  | some routine =>
    dsimp only
    split <;> rfl

theorem function?_of_routineFor {name : String} {count : Nat} {routine : Routine}
    (hon : on (routineFor name count) m = (.ok routine, after)) :
    m.stack.top.function? name = some routine ∧ after = m := by
  rw [on_routineFor] at hon
  obtain ⟨hending, rfl⟩ := Prod.mk.inj hon
  refine ⟨?_, rfl⟩
  split at hending
  · cases hending
  · rename_i found hfunction
    split at hending
    · cases hending
      exact hfunction
    · cases hending

/-- An action that leaves every frame alone, and that does not stop for want of rounds. -/
def Steady (x : Run α) : Prop :=
  ∀ ⦃m : Machine⦄ ⦃ending : Except Halt α⦄ ⦃after : Machine⦄, on x m = (ending, after) →
    after.stack = m.stack ∧ ending ≠ .error .unfinished

/-- On a machine, both actions do the same, the tables of functions meet a condition afterwards, and
    if the actions stop without a value, then in certain ways only. -/
def AlikeOn (I : List (List Routine) → Prop) (E : Halt → Prop) (m : Machine) (x y : Run α) : Prop :=
  ∀ ⦃ending : Except Halt α⦄ ⦃after : Machine⦄, on x m = (ending, after) →
    on y m = (ending, after) ∧ I after.stack.tables ∧ ∀ halt, ending = .error halt → E halt

/-- Both actions do the same on every machine whose tables meet the condition before. -/
def Alike (I : List (List Routine) → Prop) (E : Halt → Prop) (x y : Run α) : Prop :=
  ∀ ⦃m : Machine⦄, I m.stack.tables → AlikeOn I E m x y

namespace Steady

theorem of_on {ending : Machine → Except Halt α} {next : Machine → Machine}
    (hx : ∀ m, on x m = (ending m, next m)) (hstack : ∀ m, (next m).stack = m.stack)
    (hending : ∀ m, ending m ≠ .error .unfinished) : Steady x := by
  intro m ending after hon
  rw [hx] at hon
  cases hon
  exact ⟨hstack m, hending m⟩

theorem pure (a : α) : Steady (Pure.pure a) :=
  of_on (fun _ => rfl) (fun _ => rfl) fun _ => nofun

theorem display (value : Value) : Steady (Run.display value) := by
  refine of_on (on_display value) (fun _ => rfl) fun _ => ?_
  cases value.display <;> exact nofun

theorem askValue (prompt : String) : Steady (Run.askValue prompt) := by
  refine of_on (on_askValue prompt) (fun _ => rfl) fun m => ?_
  cases Value.ofAnswer (m.answers.head?.join.getD "") <;> exact nofun

theorem routineFor (name : String) (count : Nat) : Steady (Run.routineFor name count) := by
  refine of_on (on_routineFor name count) (fun _ => rfl) fun m => ?_
  split
  · exact nofun
  · split <;> exact nofun

theorem consult (node : Node) (value : Value) : Steady (Run.consult node value) := by
  intro m ending after hon
  obtain ⟨hremarked, hending⟩ := consult_cases hon
  refine ⟨hremarked.stack_eq, ?_⟩
  cases hending <;> exact nofun

end Steady

namespace Alike

variable {N : Node → Prop} {I : List (List Routine) → Prop} {E : Halt → Prop}

theorem of_steady (hE : ∀ fault, E (.fault fault)) (hx : Steady x) : Alike I E x x := by
  intro m hm ending after hon
  obtain ⟨hstack, hending⟩ := hx hon
  refine ⟨hon, by rwa [hstack], fun halt heq => ?_⟩
  cases halt with
  | fault fault => exact hE fault
  | unfinished => exact absurd heq hending

theorem bind_on (hx : AlikeOn I E m x y) (hf : ∀ a, Alike I E (f a) (g a)) :
    AlikeOn I E m (x >>= f) (y >>= g) := by
  intro ending after hon
  rcases on_bind_eq_iff.1 hon with ⟨a, middle, hfirst, hsecond⟩ | ⟨halt, hfirst, rfl⟩
  · obtain ⟨hfirst', hmiddle, _⟩ := hx hfirst
    rw [on_bind_of_ok hfirst']
    exact hf a hmiddle hsecond
  · obtain ⟨hfirst', hafter, hending⟩ := hx hfirst
    refine ⟨on_bind_of_error hfirst', hafter, fun other heq => hending other ?_⟩
    cases heq
    rfl

theorem bind (hx : Alike I E x y) (hf : ∀ a, Alike I E (f a) (g a)) :
    Alike I E (x >>= f) (y >>= g) :=
  fun _ hm => bind_on (hx hm) hf

theorem assign (name : String) (value : Value) :
    Alike I E (Run.assign name value) (Run.assign name value) := by
  intro m hm ending after hon
  refine ⟨hon, ?_, ?_⟩
  · cases hon
    obtain ⟨others, htables, hset⟩ := m.stack.exists_tables
    rw [htables] at hm
    change I (m.stack.setTop (m.stack.top.set name value)).tables
    rw [hset]
    exact hm
  · cases hon
    exact nofun

theorem declareRoutine (hE : ∀ fault, E (.fault fault)) (hI : TableInvariant N I)
    {routine : Routine} (hbody : N routine.body) :
    Alike I E (Run.declareRoutine routine) (Run.declareRoutine routine) := by
  intro m hm ending after hon
  refine ⟨hon, ?_⟩
  rw [on_declareRoutine] at hon
  cases hdeclare : m.stack.top.declare? routine with
  | none =>
    rw [hdeclare] at hon
    cases hon
    exact ⟨hm, by rintro halt ⟨⟩; exact hE _⟩
  | some frame =>
    rw [hdeclare] at hon
    cases hon
    obtain ⟨others, htables, hset⟩ := m.stack.exists_tables
    have hframe : frame.functions = m.stack.top.functions ++ [routine] := by
      rw [Frame.declare?] at hdeclare
      split at hdeclare
      · cases hdeclare
      · cases hdeclare
        rfl
    rw [htables] at hm
    refine ⟨?_, nofun⟩
    change I (m.stack.setTop frame).tables
    rw [hset, hframe]
    exact hI.declare hm hbody

/-- The function that a call goes to is one of those that the condition is about. -/
theorem routineFor (hE : ∀ fault, E (.fault fault)) (hI : TableInvariant N I) {name : String}
    {count : Nat} {f g : Routine → Run β}
    (hf : ∀ routine, N routine.body → Alike I E (f routine) (g routine)) :
    Alike I E (Run.routineFor name count >>= f) (Run.routineFor name count >>= g) := by
  intro m hm ending after hon
  rcases on_bind_eq_iff.1 hon with ⟨routine, middle, hfirst, hsecond⟩ | ⟨halt, hfirst, rfl⟩
  · obtain ⟨hfunction, rfl⟩ := function?_of_routineFor hfirst
    obtain ⟨others, htables, _⟩ := middle.stack.exists_tables
    have hbody : N routine.body := hI.body (htables ▸ hm) (List.mem_of_find?_eq_some hfunction)
    rw [on_bind_of_ok hfirst]
    exact hf routine hbody hm hsecond
  · obtain ⟨_, hafter, hending⟩ := of_steady hE (.routineFor name count) hm hfirst
    exact ⟨on_bind_of_error hfirst, hafter, fun other heq => hending other (by cases heq; rfl)⟩

/-- A frame that sees what its caller sees meets the condition together with the others. -/
theorem inCall_on {x y : Run Outcome} (hE : ∀ fault, E (.fault fault)) (hI : TableInvariant N I)
    {frame : Frame} (hx : Alike I E x y) (hm : I m.stack.tables)
    (hframe : frame.functions = m.stack.top.functions) :
    AlikeOn I E m (Run.inCall frame x) (Run.inCall frame y) := by
  intro ending after hon
  have hentered : I (m.stack.push frame).tables := by
    obtain ⟨others, htables, _⟩ := m.stack.exists_tables
    rw [CallStack.tables_push, hframe, htables]
    exact hI.enter (htables ▸ hm)
  rcases hinside : on x { m with stack := m.stack.push frame } with ⟨ending', inside⟩
  obtain ⟨hinside', htables, hending⟩ := hx hentered hinside
  rw [on_inCall, hinside] at hon
  rw [on_inCall, hinside']
  cases hpop : inside.stack.pop? with
  -- No body leaves fewer frames than it found, but this holds without knowing so.
  | none =>
    simp only [hpop] at hon ⊢
    cases hon
    exact ⟨rfl, htables, by rintro halt ⟨⟩; exact hE _⟩
  | some popped =>
    simp only [hpop] at hon ⊢
    cases hon
    rw [CallStack.tables_of_pop? hpop] at htables
    exact ⟨rfl, hI.leave htables, hending⟩

theorem enterRoutine (hE : ∀ fault, E (.fault fault)) (hI : TableInvariant N I)
    {body body' : Node → Run Outcome} {routine : Routine} (arguments : List Value)
    (hbody : Alike I E (body routine.body) (body' routine.body)) :
    Alike I E (Run.enterRoutine body routine arguments)
      (Run.enterRoutine body' routine arguments) := by
  intro m hm ending after hon
  have hframe := m.stack.top.functions_entering routine.params arguments
  rw [Run.enterRoutine, on_bind_of_ok (on_top m)] at hon ⊢
  exact bind_on (inCall_on hE hI hbody hm hframe)
    (fun outcome => of_steady hE (.pure outcome.get)) hon

end Alike

/-- Evaluations that meet a condition on tables again and again come to the same. -/
theorem congruent_alike {N : Node → Prop} {I : List (List Routine) → Prop} {E : Halt → Prop}
    {rounds rounds' : Nat} (hN : Node.Hereditary N) (hI : TableInvariant N I)
    (hE : ∀ fault, E (.fault fault))
    (hloop : ∀ test inner, N (.loop test inner) → rounds = rounds' ∧ E .unfinished) :
    Congruent N rounds rounds' fun _ x y => Alike I E x y where
  kind := hN
  pure a := .of_steady hE (.pure a)
  bind := .bind
  violate violation := .of_steady hE (.of_on (on_violate violation) (fun _ => rfl) fun _ => nofun)
  display value := .of_steady hE (.display value)
  write text := .of_steady hE (.of_on (on_write text) (fun _ => rfl) fun _ => nofun)
  top := .of_steady hE (.of_on on_top (fun _ => rfl) fun _ => nofun)
  assign := .assign
  declareRoutine := .declareRoutine hE hI
  shout intensity text _ :=
    .of_steady hE (.of_on (on_shout intensity text) (fun _ => rfl) fun _ => nofun)
  askValue prompt := .of_steady hE (.askValue prompt)
  consult node value := .of_steady hE (.consult node value)
  routineFor := .routineFor hE hI
  enterRoutine := .enterRoutine hE hI
  loop := by
    intro test inner hnode
    obtain ⟨hrounds, hunfinished⟩ := hloop test inner hnode
    refine ⟨hrounds, fun m hm ending after hon => ?_⟩
    refine ⟨hon, ?_⟩
    cases hon
    exact ⟨hm, by rintro halt ⟨⟩; exact hunfinished⟩

end Run

end Hallo
