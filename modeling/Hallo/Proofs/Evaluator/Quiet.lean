import Hallo.Proofs.Run

/-!
Quiet machines. Their worker is strict and their shouter is a robot, so the first has nothing to
say and the second says what it is told.
-/
namespace Hallo

/-- A machine with a strict worker and a robot for a shouter. -/
structure Machine.Quiet (m : Machine) : Prop where
  strict : m.worker.contract.strict = true
  robot : m.shouter.robot = true

namespace Run

variable {m : Machine}

theorem on_tire (m : Machine) :
    on tire m =
      match m.worker.call m.dice with
      | (changed, worker, dice) =>
        (.ok (), { m with
          worker := worker
          dice := dice
          log := (if changed then [.line ("[dmm] " ++ worker.mood.glyph)] else []) ++ m.log }) := by
  unfold tire
  rw [on_bind, on_get]
  dsimp only
  rcases m.worker.call m.dice with ⟨_ | _, worker, dice⟩ <;> rfl

theorem on_wantsCheck (node : Node) (m : Machine) :
    on (wantsCheck node) m =
      match m.worker.wantsCheck node m.clock with
      | (wants, clock) => (.ok wants, { m with clock := clock }) := rfl

/-- A strict worker neither tires nor asks. -/
theorem on_consult_of_strict (hstrict : m.worker.contract.strict = true) (node : Node)
    (value : Value) :
    on (consult node value) m = (.ok (), m) := by
  have htire : on tire m = (.ok (), m) := by
    rw [on_tire, Worker.call, if_pos hstrict]
    rfl
  have hwants : on (wantsCheck node) m = (.ok false, m) := by
    rw [on_wantsCheck, Worker.wantsCheck, hstrict]
    rfl
  rw [consult, on_bind_of_ok htire, on_bind_of_ok hwants]
  rfl

theorem on_consult_of_quiet (hm : m.Quiet) (node : Node) (value : Value) :
    on (consult node value) m = (.ok (), m) :=
  on_consult_of_strict hm.strict node value

/-- A strict worker leaves an evaluation as it is. -/
theorem on_watched_of_strict {x : Run Outcome}
    (hstrict : ∀ {ending after}, on x m = (ending, after) → after.worker.contract.strict = true)
    (node : Node) :
    on (watched node x) m = on x m := by
  rw [watched_eq, on_bind]
  rcases hx : on x m with ⟨halt | outcome, after⟩
  · rfl
  · dsimp only
    rw [on_bind_of_ok (on_consult_of_strict (hstrict hx) node outcome.get)]
    rfl

theorem on_watched_of_quiet {x : Run Outcome}
    (hquiet : ∀ {ending after}, on x m = (ending, after) → after.Quiet) (node : Node) :
    on (watched node x) m = on x m :=
  on_watched_of_strict (fun hon => (hquiet hon).strict) node

/-- A robot says what it is told, at once and with an unchanged voice. -/
theorem on_shout_of_quiet (hm : m.Quiet) (intensity : Int) (text : String) :
    on (shout intensity text) m =
      (.ok (), { m with log := .shout intensity text text :: m.log }) := by
  rw [on_shout, Shouter.emit, if_pos hm.robot]
  rfl

end Run

end Hallo
