import Hallo.Proofs.Run

/-!
Two evaluations side by side. The evaluator is put together from a few simple actions; a relation
between actions that holds where both do the same simple thing, and that is kept when actions
follow each other, holds between the evaluations of a tree. The two evaluations may differ in how
they run the bodies of functions and in how many rounds they grant to loops.
-/
namespace Hallo

/-- A kind of trees whose parts are all of the same kind. -/
structure Node.Hereditary (N : Node → Prop) : Prop where
  block {statements : List Node} : N (.block statements) → ∀ t ∈ statements, N t
  unary {operator : String} {operand : Node} : N (.unary operator operand) → N operand
  binary {left right : Node} {operator : String} : N (.binary left operator right) →
    N left ∧ N right
  compare {left right : Node} {comparison : Comparison} :
    N (.compare left right comparison) → N left ∧ N right
  call {callee : String} {arguments : List Node} : N (.call callee arguments) → ∀ t ∈ arguments, N t
  assign {target : String} {value : Node} : N (.assign target value) → N value
  declare {name : String} {params : List String} {body : Node} :
    N (.declare name params body) → N body
  branch {test body : Node} : N (.branch test body) → N test ∧ N body
  loop {test body : Node} : N (.loop test body) → N test ∧ N body
  giveBack {expression : Node} : N (.giveBack expression) → N expression

namespace Node

theorem Hereditary.all : Hereditary fun _ => True := by
  constructor <;> simp

end Node

/-- A relation between actions that is kept by all that the evaluator does with trees of a certain
    kind. A function that is found is known to have such a tree for its body; and where there are
    loops, both evaluations grant them the same number of rounds. -/
structure Run.Congruent (N : Node → Prop) (rounds rounds' : Nat)
    (R : (α : Type) → Run α → Run α → Prop) : Prop where
  kind : Node.Hereditary N
  pure {α : Type} (a : α) : R α (Pure.pure a) (Pure.pure a)
  bind {α β : Type} {x y : Run α} {f g : α → Run β} :
    R α x y → (∀ a, R β (f a) (g a)) → R β (x >>= f) (y >>= g)
  violate {α : Type} (violation : Violation) : R α (Run.violate violation) (Run.violate violation)
  display (value : Value) : R String (Run.display value) (Run.display value)
  write (text : String) : R Unit (Run.write text) (Run.write text)
  top : R Frame Run.top Run.top
  assign (name : String) (value : Value) : R Unit (Run.assign name value) (Run.assign name value)
  declareRoutine {routine : Routine} :
    N routine.body → R Unit (Run.declareRoutine routine) (Run.declareRoutine routine)
  shout (intensity : Int) (text : String) :
    1 ≤ intensity → R Unit (Run.shout intensity text) (Run.shout intensity text)
  askValue (prompt : String) : R Value (Run.askValue prompt) (Run.askValue prompt)
  consult (node : Node) (value : Value) : R Unit (Run.consult node value) (Run.consult node value)
  routineFor {β : Type} {name : String} {count : Nat} {f g : Routine → Run β} :
    (∀ routine, N routine.body → R β (f routine) (g routine)) →
      R β (Run.routineFor name count >>= f) (Run.routineFor name count >>= g)
  enterRoutine {body body' : Node → Run Outcome} {routine : Routine} (arguments : List Value) :
    R Outcome (body routine.body) (body' routine.body) →
      R Value (Run.enterRoutine body routine arguments) (Run.enterRoutine body' routine arguments)
  loop {test inner : Node} : N (.loop test inner) →
    rounds = rounds' ∧ R Outcome (throw .unfinished) (throw .unfinished)

/-- Two evaluations of a node after both of which the worker has its say, with a relation between
    what they do before. -/
def Run.Watches (R : (α : Type) → Run α → Run α → Prop) (node : Node) (x y : Run Outcome) : Prop :=
  ∃ a b, x = Run.watched node a ∧ y = Run.watched node b ∧ R Outcome a b

namespace Run.Congruent

variable {N : Node → Prop} {rounds rounds' : Nat} {R : (α : Type) → Run α → Run α → Prop}
  (hR : Congruent N rounds rounds' R)

include hR

theorem watched {x y : Run Outcome} (node : Node) (hxy : R Outcome x y) :
    R Outcome (Run.watched node x) (Run.watched node y) := by
  rw [watched_eq, watched_eq]
  exact hR.bind hxy fun outcome => hR.bind (hR.consult node outcome.get) fun _ => hR.pure outcome

theorem of_watches {node : Node} {x y : Run Outcome} (hxy : Watches R node x y) :
    R Outcome x y := by
  obtain ⟨a, b, rfl, rfl, hab⟩ := hxy
  exact hR.watched node hab

theorem of_calculates {α : Type} {x : Run α} (hx : Calculates x) : R α x x := by
  rcases hx with ⟨a, rfl⟩ | ⟨violation, rfl⟩
  · exact hR.pure a
  · exact hR.violate violation

theorem repeatWhile {test test' : Run Bool} {body body' : Run Outcome} (htest : R Bool test test')
    (hbody : R Outcome body body') (hunfinished : R Outcome (throw .unfinished) (throw .unfinished))
    (count : Nat) :
    R Outcome (Run.repeatWhile test body count) (Run.repeatWhile test' body' count) := by
  induction count with
  | zero => exact hunfinished
  | succ count ih =>
    refine hR.bind htest fun holds => ?_
    split
    · refine hR.bind hbody fun outcome => ?_
      cases outcome with
      | returning value => exact hR.pure _
      | value _ => exact ih
    · exact hR.pure _

variable {body body' : Node → Run Outcome}

mutual

/-- Where the bodies of functions are run alike, so are all trees, up to where the worker has its
    say. -/
theorem watches_visit (hbody : ∀ t, N t → R Outcome (body t) (body' t)) :
    (node : Node) → N node → Watches R node (node.visit rounds body) (node.visit rounds' body')
  | .bare, _ => by
    rw [Node.visit, Node.visit]
    refine ⟨_, _, rfl, rfl, ?_⟩
    exact hR.violate _
  | .empty, _ => by
    rw [Node.visit, Node.visit]
    refine ⟨_, _, rfl, rfl, ?_⟩
    exact hR.pure _
  | .block statements, hnode => by
    rw [Node.visit, Node.visit]
    refine ⟨_, _, rfl, rfl, ?_⟩
    exact visitBlock hbody statements (hR.kind.block hnode)
  | .literal value, _ => by
    rw [Node.visit, Node.visit]
    refine ⟨_, _, rfl, rfl, ?_⟩
    exact hR.pure _
  | .var name, _ => by
    rw [Node.visit, Node.visit]
    refine ⟨_, _, rfl, rfl, ?_⟩
    refine hR.bind hR.top fun frame => ?_
    split
    · exact hR.pure _
    · exact hR.violate _
  | .unary operator operand, hnode => by
    rw [Node.visit, Node.visit]
    refine ⟨_, _, rfl, rfl, ?_⟩
    refine hR.bind
      (hR.of_watches (watches_visit hbody operand (hR.kind.unary hnode))) fun outcome => ?_
    refine hR.bind (hR.of_calculates (calculates_number outcome.get)) fun n => ?_
    exact hR.bind (hR.of_calculates (calculates_applyUnary operator n)) fun _ => hR.pure _
  | .binary left operator right, hnode => by
    obtain ⟨hleft, hright⟩ := hR.kind.binary hnode
    rw [Node.visit, Node.visit]
    refine ⟨_, _, rfl, rfl, ?_⟩
    refine hR.bind (hR.of_watches (watches_visit hbody left hleft)) fun first => ?_
    refine hR.bind (hR.of_calculates (calculates_number first.get)) fun m => ?_
    refine hR.bind (hR.of_watches (watches_visit hbody right hright)) fun second => ?_
    refine hR.bind (hR.of_calculates (calculates_number second.get)) fun n => ?_
    exact hR.bind (hR.of_calculates (calculates_applyBinary operator m n)) fun _ => hR.pure _
  | .compare left right comparison, hnode => by
    obtain ⟨hleft, hright⟩ := hR.kind.compare hnode
    rw [Node.visit, Node.visit]
    refine ⟨_, _, rfl, rfl, ?_⟩
    refine hR.bind (hR.of_watches (watches_visit hbody left hleft)) fun first => ?_
    refine hR.bind (hR.of_watches (watches_visit hbody right hright)) fun second => ?_
    have hresult := calculates_applyComparison comparison first.get second.get
    exact hR.bind (hR.of_calculates hresult) fun _ => hR.pure _
  | .call callee arguments, hnode => by
    have harguments := hR.kind.call hnode
    rw [Node.visit, Node.visit]
    refine ⟨_, _, rfl, rfl, ?_⟩
    split
    · rename_i hintensity
      refine hR.bind (render hbody arguments harguments) fun text => ?_
      exact hR.bind (hR.shout _ text (one_le_intensity hintensity)) fun _ => hR.pure _
    · split
      · refine hR.bind (render hbody arguments harguments) fun prompt => ?_
        exact hR.bind (hR.askValue prompt) fun _ => hR.pure _
      · refine hR.routineFor fun routine hroutine => ?_
        refine hR.bind (valuesOf hbody arguments harguments) fun values => ?_
        exact hR.bind (hR.enterRoutine values (hbody _ hroutine)) fun _ => hR.pure _
  | .assign target value, hnode => by
    rw [Node.visit, Node.visit]
    refine ⟨_, _, rfl, rfl, ?_⟩
    refine hR.bind
      (hR.of_watches (watches_visit hbody value (hR.kind.assign hnode))) fun outcome => ?_
    have hassign : R Outcome (Run.assign target outcome.get >>= fun _ => done)
        (Run.assign target outcome.get >>= fun _ => done) :=
      hR.bind (hR.assign target outcome.get) fun _ => hR.pure _
    rwa [Run.assign, bind_assoc] at hassign
  | .declare name params inner, hnode => by
    rw [Node.visit, Node.visit]
    refine ⟨_, _, rfl, rfl, ?_⟩
    refine hR.bind (hR.declareRoutine ?_) fun _ => hR.pure _
    exact hR.kind.declare hnode
  | .branch test inner, hnode => by
    obtain ⟨htest, hinner⟩ := hR.kind.branch hnode
    rw [Node.visit, Node.visit]
    refine ⟨_, _, rfl, rfl, ?_⟩
    refine hR.bind (hR.of_watches (watches_visit hbody test htest)) fun outcome => ?_
    refine hR.bind (hR.of_calculates (calculates_condition .branch outcome.get)) fun holds => ?_
    split
    · refine hR.bind (hR.of_watches (watches_visit hbody inner hinner)) fun result => ?_
      cases result with
      | returning value => exact hR.pure _
      | value _ => exact hR.pure _
    · exact hR.pure _
  | .loop test inner, hnode => by
    obtain ⟨htest, hinner⟩ := hR.kind.loop hnode
    obtain ⟨hrounds, hunfinished⟩ := hR.loop hnode
    have hvisit := hR.of_watches (watches_visit hbody inner hinner)
    have hcondition := hR.bind (hR.of_watches (watches_visit hbody test htest)) fun outcome =>
      hR.of_calculates (calculates_condition .loop outcome.get)
    rw [Node.visit, Node.visit, ← hrounds]
    rw [← hrounds] at hvisit hcondition
    exact ⟨_, _, rfl, rfl, hR.repeatWhile hcondition hvisit hunfinished rounds⟩
  | .giveBack expression, hnode => by
    rw [Node.visit, Node.visit]
    refine ⟨_, _, rfl, rfl, ?_⟩
    have hvalue := hR.of_watches (watches_visit hbody expression (hR.kind.giveBack hnode))
    exact hR.bind hvalue fun _ => hR.pure _

theorem visitBlock (hbody : ∀ t, N t → R Outcome (body t) (body' t)) :
    (statements : List Node) → (∀ t ∈ statements, N t) →
    R Outcome (Node.visitBlock rounds body statements) (Node.visitBlock rounds' body' statements)
  | [], _ => hR.pure _
  | statement :: statements, hstatements => by
    obtain ⟨hfirst, hothers⟩ := List.forall_mem_cons.1 hstatements
    rw [Node.visitBlock, Node.visitBlock]
    refine hR.bind (hR.of_watches (watches_visit hbody statement hfirst)) fun outcome => ?_
    cases outcome with
    | returning value => exact hR.pure _
    | value _ => exact visitBlock hbody statements hothers

theorem valuesOf (hbody : ∀ t, N t → R Outcome (body t) (body' t)) :
    (arguments : List Node) → (∀ t ∈ arguments, N t) →
    R (List Value) (Node.valuesOf rounds body arguments) (Node.valuesOf rounds' body' arguments)
  | [], _ => hR.pure _
  | argument :: arguments, harguments => by
    obtain ⟨hfirst, hothers⟩ := List.forall_mem_cons.1 harguments
    rw [Node.valuesOf, Node.valuesOf]
    refine hR.bind (hR.of_watches (watches_visit hbody argument hfirst)) fun _ => ?_
    exact hR.bind (valuesOf hbody arguments hothers) fun _ => hR.pure _

theorem render (hbody : ∀ t, N t → R Outcome (body t) (body' t)) :
    (arguments : List Node) → (∀ t ∈ arguments, N t) →
    R String (Node.render rounds body arguments) (Node.render rounds' body' arguments)
  | [], _ => hR.pure _
  | argument :: arguments, harguments => by
    obtain ⟨hfirst, hothers⟩ := List.forall_mem_cons.1 harguments
    rw [Node.render, Node.render]
    refine hR.bind (hR.of_watches (watches_visit hbody argument hfirst)) fun outcome => ?_
    refine hR.bind (hR.display outcome.get) fun _ => ?_
    exact hR.bind (render hbody arguments hothers) fun _ => hR.pure _

end

theorem visit (hbody : ∀ t, N t → R Outcome (body t) (body' t)) (node : Node) (hnode : N node) :
    R Outcome (node.visit rounds body) (node.visit rounds' body') :=
  hR.of_watches (hR.watches_visit hbody node hnode)

theorem watches_visitWithin (depth : Nat) {node : Node} (hnode : N node) :
    Watches R node (node.visitWithin rounds depth) (node.visitWithin rounds' depth) := by
  induction depth generalizing node with
  | zero => exact hR.watches_visit (fun _ _ => hR.violate .stackOverflow) node hnode
  | succ depth ih => exact hR.watches_visit (fun _ hinner => hR.of_watches (ih hinner)) node hnode

theorem visitWithin (depth : Nat) {node : Node} (hnode : N node) :
    R Outcome (node.visitWithin rounds depth) (node.visitWithin rounds' depth) :=
  hR.of_watches (hR.watches_visitWithin depth hnode)

/-- The relation holds between evaluations of a whole program, whatever the limit on calls is. -/
theorem evaluateWithin (limit : Nat) {node : Node} (hnode : N node) :
    R Value (node.evaluateWithin limit rounds) (node.evaluateWithin limit rounds') := by
  refine hR.bind (hR.visitWithin limit hnode) fun outcome => ?_
  cases outcome with
  | value v => exact hR.pure v
  | returning v =>
    refine hR.bind (hR.display v) fun text => ?_
    exact hR.bind (hR.write _) fun _ => hR.pure v

end Run.Congruent

end Hallo
