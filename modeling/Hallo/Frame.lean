import Hallo.Node.Source

/-!
Frames: the variables of one call and the functions it can see. Both tables keep the order in
which their names first appeared.
-/
namespace Hallo

/-- A declared function. -/
structure Routine where
  name : String
  params : List String
  body : Node
  deriving DecidableEq, Repr

/-- One call's variables and functions. -/
structure Frame where
  bindings : List (String × Value) := []
  functions : List Routine := []
  deriving DecidableEq, Repr

namespace Frame

instance : Inhabited Frame := ⟨{}⟩

/-- A table with one name bound anew: a known name keeps its position, a new one comes last. -/
def bind (name : String) (value : Value) : List (String × Value) → List (String × Value)
  | [] => [(name, value)]
  | (other, old) :: table =>
    if other = name then (name, value) :: table else (other, old) :: bind name value table

/-- The value of a variable. -/
def get? (frame : Frame) (name : String) : Option Value :=
  frame.bindings.lookup name

/-- Whether a variable has a value. -/
def has (frame : Frame) (name : String) : Bool :=
  (frame.get? name).isSome

/-- Give a variable a value. -/
def set (frame : Frame) (name : String) (value : Value) : Frame :=
  { frame with bindings := bind name value frame.bindings }

/-- The function of a name. -/
def function? (frame : Frame) (name : String) : Option Routine :=
  frame.functions.find? (·.name = name)

/-- Add a function, unless its name is taken. -/
def declare? (frame : Frame) (routine : Routine) : Option Frame :=
  match frame.function? routine.name with
  | some _ => none
  | none => some { frame with functions := frame.functions ++ [routine] }

/-- A fresh frame for a call made from this one: it sees the same functions and no variable. -/
def child (frame : Frame) : Frame :=
  { functions := frame.functions }

/-- The frame of a call: the caller's functions, and each parameter with its argument. -/
def entering (caller : Frame) (params : List String) (arguments : List Value) : Frame :=
  (params.zip arguments).foldl (fun frame (param, value) => frame.set param value) caller.child

/-- Variables with their values as they would be written in a program. -/
def describeAll : List (String × Value) → Except Unwritable (List String)
  | [] => .ok []
  | (name, value) :: table => do
    let text ← Unwritable.unlessLong value.source
    let texts ← describeAll table
    return (name ++ " = " ++ text) :: texts

/-- The variables on one line. -/
def describe (frame : Frame) : Except Unwritable String :=
  if frame.bindings.isEmpty then .ok "(nothing)"
  else (describeAll frame.bindings).map (Text.joined ", ")

end Frame

end Hallo
