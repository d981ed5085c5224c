import Hallo.Frame

/-!
The call stack: the frame of the program itself, and above it one frame for each running call.
By its type it is never empty.
-/
namespace Hallo

/-- A root frame and the frames of running calls, the innermost first. -/
structure CallStack where
  root : Frame := {}
  calls : List Frame := []
  deriving DecidableEq, Repr

namespace CallStack

instance : Inhabited CallStack := ⟨{}⟩

/-- The number of frames, the root included. -/
def depth (stack : CallStack) : Nat :=
  stack.calls.length + 1

/-- The frame of the innermost call, or the root where no call runs. -/
def top (stack : CallStack) : Frame :=
  stack.calls.headD stack.root

/-- The stack with another frame in place of its top. -/
def setTop (stack : CallStack) (frame : Frame) : CallStack :=
  match stack.calls with
  | [] => { stack with root := frame }
  | _ :: calls => { stack with calls := frame :: calls }

/-- Enter a call. -/
def push (stack : CallStack) (frame : Frame) : CallStack :=
  { stack with calls := frame :: stack.calls }

/-- Leave the innermost call. The root frame is never left. -/
def pop? (stack : CallStack) : Option (Frame × CallStack) :=
  match stack.calls with
  | [] => none
  | frame :: calls => some (frame, { stack with calls := calls })

/-- Leave all calls. -/
def unwind (stack : CallStack) : CallStack :=
  { stack with calls := [] }

theorem pop?_push (stack : CallStack) (frame : Frame) :
    (stack.push frame).pop? = some (frame, stack) := rfl

theorem top_setTop (stack : CallStack) (frame : Frame) : (stack.setTop frame).top = frame := by
  rcases stack with ⟨root, _ | ⟨call, calls⟩⟩ <;> rfl

theorem setTop_top (stack : CallStack) : stack.setTop stack.top = stack := by
  rcases stack with ⟨root, _ | ⟨call, calls⟩⟩ <;> rfl

theorem setTop_setTop (stack : CallStack) (first second : Frame) :
    (stack.setTop first).setTop second = stack.setTop second := by
  rcases stack with ⟨root, _ | ⟨call, calls⟩⟩ <;> rfl

end CallStack

end Hallo
