import Hallo.Machine
import Hallo.Proofs.Node.Writing
import Hallo.Proofs.Value.Answer

/-!
What the runs of programs keep in order. No variable holds a text that its brackets could not hold,
every function has the body that a program gave it, and the worker has asked about nothing else.
-/
namespace Hallo

open Node

theorem Value.IsLiteral.bracketable {v : Value} (hv : v.IsLiteral) : v.Bracketable := by
  cases v with
  | text s => exact hv
  | _ => trivial

/-- A function whose body is a block of statements. -/
def Routine.WellFormed (routine : Routine) : Prop :=
  ∃ statements, routine.body = .block statements ∧ ∀ t ∈ statements, IsStatement t

/-- A frame that programs can have filled. -/
structure Frame.WellFormed (frame : Frame) : Prop where
  bracketable : ∀ binding ∈ frame.bindings, binding.2.Bracketable
  functions : ∀ routine ∈ frame.functions, routine.WellFormed

namespace Frame

variable {frame : Frame}

theorem WellFormed.of_get? (hframe : frame.WellFormed) {name : String} {v : Value}
    (hget : frame.get? name = some v) : v.Bracketable := by
  rw [get?, List.lookup_eq_some_iff] at hget
  obtain ⟨before, after, hsplit, _⟩ := hget
  exact hframe.bracketable (name, v) (by simp [hsplit])

theorem WellFormed.of_function? (hframe : frame.WellFormed) {name : String} {routine : Routine}
    (hfunction : frame.function? name = some routine) : routine.WellFormed :=
  hframe.functions routine (List.mem_of_find?_eq_some hfunction)

theorem mem_bind {name : String} {v : Value} {binding : String × Value}
    {table : List (String × Value)} (hmem : binding ∈ bind name v table) :
    binding = (name, v) ∨ binding ∈ table := by
  induction table with
  | nil => exact .inl (List.mem_singleton.1 hmem)
  | cons first table ih =>
    rw [bind] at hmem
    split at hmem
    · rcases List.mem_cons.1 hmem with heq | hmem
      · exact .inl heq
      · exact .inr (List.mem_cons_of_mem _ hmem)
    · rcases List.mem_cons.1 hmem with heq | hmem
      · exact .inr (heq ▸ List.mem_cons_self)
      · exact (ih hmem).imp id (List.mem_cons_of_mem _)

theorem WellFormed.set (hframe : frame.WellFormed) (name : String) {v : Value}
    (hv : v.Bracketable) :
    (frame.set name v).WellFormed where
  bracketable binding hmem := by
    rcases mem_bind hmem with rfl | hmem
    · exact hv
    · exact hframe.bracketable binding hmem
  functions := hframe.functions

theorem WellFormed.declare? (hframe : frame.WellFormed) {routine : Routine} {after : Frame}
    (hroutine : routine.WellFormed) (hdeclare : frame.declare? routine = some after) :
    after.WellFormed := by
  rw [Frame.declare?] at hdeclare
  split at hdeclare
  · cases hdeclare
  · cases hdeclare
    refine ⟨hframe.bracketable, fun other hmem => ?_⟩
    rcases List.mem_append.1 hmem with hmem | hmem
    · exact hframe.functions other hmem
    · rw [List.mem_singleton.1 hmem]
      exact hroutine

/-- The frame of a call has the caller's functions, and no values but the arguments. -/
theorem WellFormed.entering (hframe : frame.WellFormed) (params : List String)
    {arguments : List Value} (harguments : ∀ v ∈ arguments, v.Bracketable) :
    (frame.entering params arguments).WellFormed := by
  rw [Frame.entering]
  have hpairs : ∀ pair ∈ params.zip arguments, pair.2.Bracketable :=
    fun pair hmem => harguments pair.2 (List.of_mem_zip hmem).2
  have hchild : frame.child.WellFormed := ⟨by simp [child], hframe.functions⟩
  generalize frame.child = start at hchild
  generalize params.zip arguments = pairs at hpairs
  induction pairs generalizing start with
  | nil => exact hchild
  | cons pair pairs ih =>
    exact ih _ (hchild.set pair.1 (hpairs pair List.mem_cons_self))
      fun other hmem => hpairs other (List.mem_cons_of_mem pair hmem)

theorem describeAll_error {table : List (String × Value)} {reason : Unwritable}
    (htable : describeAll table = .error reason) : reason = .longInteger := by
  induction table with
  | nil => cases htable
  | cons first table ih =>
    rw [describeAll] at htable
    cases hfirst : first.2.source with
    | none =>
      rw [hfirst] at htable
      cases htable
      rfl
    | some text =>
      cases hothers : describeAll table with
      | ok texts =>
        rw [hfirst, hothers] at htable
        cases htable
      | error other =>
        rw [hfirst, hothers] at htable
        cases htable
        exact ih hothers

/-- Only a long integer keeps the variables from being written. -/
theorem describe_error {reason : Unwritable} (hdescribe : frame.describe = .error reason) :
    reason = .longInteger := by
  rw [describe] at hdescribe
  split at hdescribe
  · cases hdescribe
  · cases htable : describeAll frame.bindings with
    | ok texts =>
      rw [htable] at hdescribe
      cases hdescribe
    | error other =>
      rw [htable] at hdescribe
      cases hdescribe
      exact describeAll_error htable

end Frame

/-- A call stack of frames that programs can have filled. -/
structure CallStack.WellFormed (stack : CallStack) : Prop where
  root : stack.root.WellFormed
  calls : ∀ frame ∈ stack.calls, frame.WellFormed

namespace CallStack.WellFormed

variable {stack : CallStack} {frame : Frame}

theorem top (hstack : stack.WellFormed) : stack.top.WellFormed := by
  rcases stack with ⟨root, _ | ⟨call, calls⟩⟩
  · exact hstack.root
  · exact hstack.calls call List.mem_cons_self

theorem push (hstack : stack.WellFormed) (hframe : frame.WellFormed) :
    (stack.push frame).WellFormed :=
  ⟨hstack.root, List.forall_mem_cons.2 ⟨hframe, hstack.calls⟩⟩

theorem pop? (hstack : stack.WellFormed) {rest : CallStack}
    (hpop : stack.pop? = some (frame, rest)) :
    rest.WellFormed := by
  rcases stack with ⟨root, _ | ⟨call, calls⟩⟩
  · cases hpop
  · cases hpop
    exact ⟨hstack.root, fun other hmem => hstack.calls other (List.mem_cons_of_mem _ hmem)⟩

theorem setTop (hstack : stack.WellFormed) (hframe : frame.WellFormed) :
    (stack.setTop frame).WellFormed := by
  rcases stack with ⟨root, _ | ⟨call, calls⟩⟩
  · exact ⟨hframe, hstack.calls⟩
  · exact ⟨hstack.root, List.forall_mem_cons.2 ⟨hframe, (List.forall_mem_cons.1 hstack.calls).2⟩⟩

end CallStack.WellFormed

/-- A question of the worker is about a value that its brackets can hold; of other events nothing is
    asked. -/
def Event.WellFormed : Event → Prop
  | .question (.worker inquiry) _ _ => inquiry.value.Bracketable
  | _ => True

/-- A machine that runs of programs can have left. -/
structure Machine.WellFormed (m : Machine) : Prop where
  stack : m.stack.WellFormed
  log : ∀ event ∈ m.log, event.WellFormed

namespace Machine.WellFormed

variable {m after : Machine}

/-- A machine before any run. -/
theorem of_fresh (hstack : m.stack = {}) (hlog : m.log = []) : m.WellFormed where
  stack := by
    rw [hstack]
    exact ⟨⟨nofun, nofun⟩, nofun⟩
  log := by simp [hlog]

theorem of_log (hm : m.WellFormed) (events : List Event) (hstack : after.stack = m.stack)
    (hlog : after.log = events ++ m.log) (hevents : ∀ event ∈ events, event.WellFormed) :
    after.WellFormed where
  stack := hstack ▸ hm.stack
  log event hmem := by
    rw [hlog, List.mem_append] at hmem
    rcases hmem with hmem | hmem
    · exact hevents event hmem
    · exact hm.log event hmem

theorem withStack (hm : m.WellFormed) {stack : CallStack} (hstack : stack.WellFormed) :
    { m with stack := stack }.WellFormed :=
  ⟨hstack, hm.log⟩

end Machine.WellFormed

end Hallo
