import Hallo.Proofs.Evaluator.Compositional
import Hallo.Proofs.Evaluator.Consult

/-!
Evaluations and the frame they are made in. Only the frame on top of the call stack is looked at
and changed, so it does not matter what lies below; and the top frame only grows.
-/
namespace Hallo

namespace Frame

variable {frame middle after : Frame}

/-- The names of the variables, in the order of their first assignments. -/
def names (frame : Frame) : List String :=
  frame.bindings.map Prod.fst

/-- A frame that came of another one. No function and no variable of the old frame was lost or
    moved, and no function was replaced. -/
structure Grown (frame after : Frame) : Prop where
  functions : frame.functions <+: after.functions
  names : frame.names <+: after.names

theorem Grown.refl (frame : Frame) : frame.Grown frame :=
  ⟨List.prefix_refl _, List.prefix_refl _⟩

theorem Grown.trans (hfirst : frame.Grown middle) (hsecond : middle.Grown after) :
    frame.Grown after :=
  ⟨hfirst.functions.trans hsecond.functions, hfirst.names.trans hsecond.names⟩

/-- A name that is bound anew keeps its position, and a new one comes last. -/
theorem names_isPrefix_bind (name : String) (value : Value) (table : List (String × Value)) :
    table.map Prod.fst <+: (bind name value table).map Prod.fst := by
  induction table with
  | nil => exact List.nil_prefix
  | cons first table ih =>
    rw [bind]
    split
    · rename_i heq
      simp [heq]
    · simpa using ih

theorem grown_set (frame : Frame) (name : String) (value : Value) :
    frame.Grown (frame.set name value) :=
  ⟨List.prefix_refl _, names_isPrefix_bind name value frame.bindings⟩

theorem grown_declare? {routine : Routine} (hdeclare : frame.declare? routine = some after) :
    frame.Grown after := by
  rw [declare?] at hdeclare
  split at hdeclare
  · cases hdeclare
  · cases hdeclare
    exact ⟨List.prefix_append _ _, List.prefix_refl _⟩

/-- What a name stands for in a frame, it stands for in every frame whose functions begin with the
    same ones. -/
theorem function?_of_isPrefix (hfunctions : frame.functions <+: after.functions) {name : String}
    {routine : Routine} (hfunction : frame.function? name = some routine) :
    after.function? name = some routine := by
  obtain ⟨others, hothers⟩ := hfunctions
  rw [Frame.function?] at hfunction ⊢
  rw [← hothers, List.find?_append, hfunction]
  rfl

end Frame

namespace Run

variable {α β : Type} {x : Run α} {f : α → Run β} {m after : Machine}

/-- The action has nothing to do with the frames. -/
def Detached (x : Run α) : Prop :=
  ∀ m : Machine, ∃ (ending : Except Halt α) (next : Machine), ∀ stack : CallStack,
    on x { m with stack := stack } = (ending, { next with stack := stack })

/-- The action looks at nothing but the top frame and lets it grow; whatever frames are below, it
    does the same, and they stay as they are. -/
def Local (x : Run α) : Prop :=
  ∀ m : Machine, ∃ (ending : Except Halt α) (frame : Frame) (next : Machine),
    m.stack.top.Grown frame ∧
    ∀ stack : CallStack, stack.top = m.stack.top →
      on x { m with stack := stack } = (ending, { next with stack := stack.setTop frame })

namespace Detached

theorem of_on {ending : Machine → Except Halt α} {next : Machine → Machine}
    (hx : ∀ m, on x m = (ending m, next m))
    (hending : ∀ (m : Machine) (stack : CallStack), ending { m with stack := stack } = ending m)
    (hnext : ∀ (m : Machine) (stack : CallStack),
      next { m with stack := stack } = { next m with stack := stack }) : Detached x :=
  fun m => ⟨ending m, next m, fun stack => by rw [hx, hending, hnext]⟩

theorem pure (a : α) : Detached (Pure.pure a) :=
  of_on (fun _ => rfl) (fun _ _ => rfl) fun _ _ => rfl

theorem halt {halt : Halt} (hx : ∀ m, on x m = (.error halt, m)) : Detached x :=
  of_on hx (fun _ _ => rfl) fun _ _ => rfl

theorem bind (hx : Detached x) (hf : ∀ a, Detached (f a)) : Detached (x >>= f) := by
  intro m
  obtain ⟨ending, next, hrun⟩ := hx m
  cases ending with
  | error halt => exact ⟨.error halt, next, fun stack => on_bind_of_error (hrun stack)⟩
  | ok a =>
    obtain ⟨ending, last, hrun'⟩ := hf a next
    exact ⟨ending, last, fun stack => (on_bind_of_ok (hrun stack)).trans (hrun' stack)⟩

theorem writable (text : Except Unwritable α) : Detached (Run.writable text) := by
  cases text with
  | ok text => exact pure text
  | error reason => exact halt fun _ => rfl

theorem write (text : String) : Detached (Run.write text) :=
  of_on (on_write text) (fun _ _ => rfl) fun _ _ => rfl

theorem ask (asker : Asker) (prompt : String) : Detached (Run.ask asker prompt) :=
  of_on (on_ask asker prompt) (fun _ _ => rfl) fun _ _ => rfl

theorem shout (intensity : Int) (text : String) : Detached (Run.shout intensity text) :=
  of_on (on_shout intensity text) (fun _ _ => rfl) fun _ _ => rfl

theorem askValue (prompt : String) : Detached (Run.askValue prompt) :=
  of_on (on_askValue prompt) (fun _ _ => rfl) fun _ _ => rfl

theorem tire : Detached Run.tire :=
  of_on on_tire (fun _ _ => rfl) fun _ _ => rfl

theorem wantsCheck (node : Node) : Detached (Run.wantsCheck node) :=
  of_on (on_wantsCheck node) (fun _ _ => rfl) fun _ _ => rfl

theorem rest : Detached Run.rest :=
  of_on (fun _ => rfl) (fun _ _ => rfl) fun _ _ => rfl

theorem abort (expected : Value) (answer : String) : Detached (Run.abort expected answer : Run α) :=
  (writable _).bind fun _ => halt fun _ => rfl

theorem inquire (mood : Mood) (scope : Except Unwritable String) (inquiry : Inquiry) :
    Detached (Run.inquire mood scope inquiry) := by
  refine (write _).bind fun _ => (writable scope).bind fun _ => (write _).bind fun _ => ?_
  refine (writable inquiry.node.source).bind fun _ => (write _).bind fun _ => ?_
  refine (ask _ _).bind fun answer => ?_
  rw [judge]
  split
  · split
    · exact rest
    · exact abort inquiry.value answer
  · split
    · exact halt fun _ => rfl
    · exact abort inquiry.value answer

end Detached

namespace Local

theorem of_detached (hx : Detached x) : Local x := by
  intro m
  obtain ⟨ending, next, hrun⟩ := hx m
  refine ⟨ending, m.stack.top, next, .refl _, fun stack htop => ?_⟩
  rw [hrun, ← htop, CallStack.setTop_top]

theorem bind (hx : Local x) (hf : ∀ a, Local (f a)) : Local (x >>= f) := by
  intro m
  obtain ⟨ending, frame, next, hgrown, hrun⟩ := hx m
  cases ending with
  | error halt =>
    exact ⟨.error halt, frame, next, hgrown, fun stack htop => on_bind_of_error (hrun stack htop)⟩
  | ok a =>
    obtain ⟨ending, frame', last, hgrown', hrun'⟩ :=
      hf a { next with stack := m.stack.setTop frame }
    rw [CallStack.top_setTop] at hgrown' hrun'
    refine ⟨ending, frame', last, hgrown.trans hgrown', fun stack htop => ?_⟩
    have hsecond := hrun' (stack.setTop frame) (CallStack.top_setTop stack frame)
    rw [on_bind_of_ok (hrun stack htop), hsecond, CallStack.setTop_setTop]

/-- Of all frames an evaluation changes only the top one, and lets it grow. -/
theorem cases (hx : Local x) {ending : Except Halt α} (hon : on x m = (ending, after)) :
    after.stack = m.stack.setTop after.stack.top ∧ m.stack.top.Grown after.stack.top := by
  obtain ⟨ending', frame, next, hgrown, hrun⟩ := hx m
  have hsame := hrun m.stack rfl
  rw [hon] at hsame
  cases hsame
  rw [CallStack.top_setTop]
  exact ⟨rfl, hgrown⟩

theorem top : Local Run.top := by
  intro m
  refine ⟨.ok m.stack.top, m.stack.top, m, .refl _, fun stack htop => ?_⟩
  rw [← htop, CallStack.setTop_top]
  rfl

theorem assign (name : String) (value : Value) : Local (Run.assign name value) := by
  intro m
  refine ⟨.ok (), m.stack.top.set name value, m,
    m.stack.top.grown_set name value, fun stack htop => ?_⟩
  rw [← htop]
  rfl

theorem declareRoutine (routine : Routine) : Local (Run.declareRoutine routine) := by
  intro m
  cases hdeclare : m.stack.top.declare? routine with
  | none =>
    refine ⟨.error (.fault (.violation (.alreadyDeclared routine.name))), m.stack.top, m,
      .refl _, ?_⟩
    intro stack htop
    rw [on_declareRoutine]
    simp only [htop, hdeclare]
    rw [← htop, CallStack.setTop_top]
  | some frame =>
    refine ⟨.ok (), frame, m, Frame.grown_declare? hdeclare, fun stack htop => ?_⟩
    rw [on_declareRoutine]
    simp only [htop, hdeclare]

/-- A call has a frame of its own, and leaves the caller's frame as it was. -/
theorem inCall (frame : Frame) (hx : Local x) : Local (Run.inCall frame x) := by
  intro m
  obtain ⟨ending, frame', next, _, hrun⟩ := hx { m with stack := m.stack.push frame }
  refine ⟨ending, m.stack.top, next, .refl _, fun stack htop => ?_⟩
  have hbody := hrun (stack.push frame) rfl
  rw [on_inCall, hbody, ← htop, CallStack.setTop_top]
  rfl

/-- The worker tells what is in the top frame, and asks. -/
theorem checkIn (node : Node) (value : Value) : Local (Run.checkIn node value) := by
  intro m
  have hinquire : Local (Run.inquire m.worker.mood m.stack.top.describe
      ⟨node, value, m.worker, m.clock.last⟩) :=
    of_detached (.inquire _ _ _)
  obtain ⟨ending, frame, next, hgrown, hrun⟩ := hinquire m
  refine ⟨ending, frame, next, hgrown, fun stack htop => ?_⟩
  rw [on_checkIn, htop]
  exact hrun stack htop

theorem consult (node : Node) (value : Value) : Local (Run.consult node value) := by
  refine (of_detached .tire).bind fun _ => (of_detached (.wantsCheck node)).bind fun wants => ?_
  cases wants with
  | false => exact of_detached (.pure ())
  | true => exact checkIn node value

end Local

/-- Every evaluation is local, since each of its parts is. -/
theorem compositional_local : Compositional fun _ x => Local x where
  pure a := .of_detached (.pure a)
  bind := .bind
  violate _ := .of_detached (.halt fun _ => rfl)
  unfinished := @fun _ => .of_detached (.halt fun _ => rfl)
  display _ := .of_detached (.writable _)
  write text := .of_detached (.write text)
  top := .top
  assign := .assign
  declareRoutine := .declareRoutine
  shout intensity text _ := .of_detached (.shout intensity text)
  askValue prompt := .of_detached (.askValue prompt)
  inCall := .inCall
  consult := .consult

end Run

end Hallo
