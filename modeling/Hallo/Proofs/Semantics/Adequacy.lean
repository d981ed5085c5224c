import Hallo.Proofs.Evaluator.Balanced
import Hallo.Proofs.Semantics.Actions
import Hallo.Proofs.Semantics.Rules.Expression
import Mathlib

/-!
The evaluator comes to what the rules say, and to nothing else.
-/
namespace Hallo.Semantics

open Meaning
open Run (Means)

variable {n : Nat} {body : Nat → Node → Run Outcome}

theorem means_enterRoutine (hbody : ∀ node, Means (fun rounds => body rounds node) (bodies n node))
    (routine : Routine) (values : List Value) :
    Means (fun rounds => Run.enterRoutine (body rounds) routine values)
      (enters n routine values) := by
  have htop : Means (fun _ => Run.top) (looks .ok) := .looks fun _ => rfl
  exact htop.bind fun caller => (Means.inCall _ (hbody routine.body)).map Outcome.get

theorem means_operand {x : Nat → Run Outcome} {node : Node} (hx : Means x (Evaluates n node)) :
    Means (fun rounds => x rounds >>= fun o => Run.number o.get) (Operand n node) :=
  (hx.bind fun o => means_number o.get).congr operand_iff

theorem means_test {x : Nat → Run Outcome} {node : Node} (keyword : Keyword)
    (hx : Means x (Evaluates n node)) :
    Means (fun rounds => x rounds >>= fun o => Run.condition keyword o.get)
      (Condition n keyword node) :=
  (hx.bind fun o => means_condition keyword o.get).congr condition_iff

/-- A return on its way skips the action behind. -/
theorem means_unlessReturning {x y : Nat → Run Outcome} {R R' : Meaning Outcome} (hx : Means x R)
    (hy : Means y R') :
    Means (fun rounds => do
      match ← x rounds with
      | .returning v => return .returning v
      | .value _ => y rounds) (andThen R (unlessReturning R')) := by
  refine hx.bind fun o => ?_
  cases o with
  | returning v => exact .pure _
  | value v => exact hy

mutual

/-- A visit of a tree means what the rules say about it, if called bodies do. -/
theorem means_visit (hbody : ∀ node, Means (fun rounds => body rounds node) (bodies n node)) :
    (node : Node) → Means (fun rounds => node.visit rounds (body rounds)) (Evaluates n node)
  | .bare => by
    simp only [Node.visit]
    exact (Means.watched _ (.exactly fun _ => rfl)).congr evaluates_bare_iff
  | .empty => by
    simp only [Node.visit]
    exact (Means.watched _ (.pure _)).congr evaluates_empty_iff
  | .literal v => by
    simp only [Node.visit]
    exact (Means.watched _ (.pure _)).congr evaluates_literal_iff
  | .block statements => by
    simp only [Node.visit]
    exact (Means.watched _ (means_visitBlock hbody statements)).congr evaluates_block_iff
  | .var name => by
    simp only [Node.visit]
    refine (Means.watched _ (.looks fun m => ?_)).congr evaluates_var_iff
    rw [Run.on_bind_of_ok (Run.on_top m)]
    cases m.stack.top.get? name <;> rfl
  | .unary operator operand => by
    simp only [Node.visit]
    have hall := (means_operand (means_visit hbody operand)).bind fun k =>
      (means_applyUnary operator k).map Outcome.value
    simp only [bind_assoc] at hall
    exact (Means.watched _ hall).congr evaluates_unary_iff
  | .binary left operator right => by
    simp only [Node.visit]
    have hall := (means_operand (means_visit hbody left)).bind fun j =>
      (means_operand (means_visit hbody right)).bind fun k =>
        (means_applyBinary operator j k).map Outcome.value
    simp only [bind_assoc] at hall
    exact (Means.watched _ hall).congr evaluates_binary_iff
  | .compare left right comparison => by
    simp only [Node.visit]
    have hall := (means_visit hbody left).bind fun a => (means_visit hbody right).bind fun b =>
      (means_applyComparison comparison a.get b.get).map Outcome.value
    exact (Means.watched _ hall).congr evaluates_compare_iff
  | .call callee args => by
    simp only [Node.visit]
    cases hintensity : Run.intensity? callee with
    | some intensity =>
      have hall := (means_render hbody args).bind fun text =>
        (means_shout intensity text).map fun _ => Outcome.value .nothing
      exact (Means.watched _ hall).congr (evaluates_output_iff (shouts_iff.2 hintensity))
    | none =>
      by_cases hinput : callee = Run.inputName
      · subst hinput
        have hall := (means_render hbody args).bind fun prompt =>
          (means_askValue prompt).map Outcome.value
        exact (Means.watched _ hall).congr evaluates_input_iff
      · simp only [if_neg hinput]
        have hall := (means_routineFor callee args.length).bind fun routine =>
          (means_valuesOf hbody args).bind fun values =>
            (means_enterRoutine hbody routine values).map Outcome.value
        exact (Means.watched _ hall).congr
          (evaluates_call_iff (ordinary_iff.2 ⟨hintensity, hinput⟩))
  | .assign target value => by
    simp only [Node.visit]
    have hall := (means_visit hbody value).bind fun o =>
      (means_assign target o.get).map fun _ => Outcome.value .nothing
    simp only [Run.assign, bind_assoc] at hall
    exact (Means.watched _ hall).congr evaluates_assign_iff
  | .declare name params inner => by
    simp only [Node.visit]
    have hall := (means_declareRoutine ⟨name, params, inner⟩).map fun _ => Outcome.value .nothing
    exact (Means.watched _ hall).congr evaluates_declare_iff
  | .branch test inner => by
    simp only [Node.visit]
    have hskip : Means (fun _ => Run.done) (exactly (.ok (.value .nothing))) := .pure _
    have htaken := means_unlessReturning (means_visit hbody inner) hskip
    have hall := (means_test .branch (means_visit hbody test)).bind fun holds =>
      htaken.ite hskip holds
    simp only [bind_assoc] at hall
    exact (Means.watched _ hall).congr evaluates_branch_iff
  | .loop test inner => by
    simp only [Node.visit]
    have hall := (means_test .loop (means_visit hbody test)).repeatWhile (means_visit hbody inner)
    exact (Means.watched _ hall).congr evaluates_loop_iff
  | .giveBack expression => by
    simp only [Node.visit]
    have hall := (means_visit hbody expression).map fun o => Outcome.returning o.get
    exact (Means.watched _ hall).congr evaluates_giveBack_iff

theorem means_visitBlock (hbody : ∀ node, Means (fun rounds => body rounds node) (bodies n node)) :
    (statements : List Node) →
      Means (fun rounds => Node.visitBlock rounds (body rounds) statements) (Runs n statements)
  | [] => (Means.pure _).congr runs_nil_iff
  | statement :: statements => by
    simp only [Node.visitBlock]
    have hall := means_unlessReturning (means_visit hbody statement)
      (means_visitBlock hbody statements)
    exact hall.congr runs_cons_iff

theorem means_valuesOf (hbody : ∀ node, Means (fun rounds => body rounds node) (bodies n node)) :
    (args : List Node) → Means (fun rounds => Node.valuesOf rounds (body rounds) args)
      (Values n args)
  | [] => (Means.pure _).congr values_nil_iff
  | arg :: args => by
    simp only [Node.valuesOf]
    have hall := (means_visit hbody arg).bind fun o => (means_valuesOf hbody args).map (o.get :: ·)
    exact hall.congr values_cons_iff

theorem means_render (hbody : ∀ node, Means (fun rounds => body rounds node) (bodies n node)) :
    (args : List Node) → Means (fun rounds => Node.render rounds (body rounds) args)
      (Renders n args)
  | [] => (Means.pure _).congr renders_nil_iff
  | arg :: args => by
    simp only [Node.render]
    have hall := (means_visit hbody arg).bind fun o => (means_display o.get).bind fun text =>
      (means_render hbody args).map (text ++ ·)
    exact hall.congr renders_cons_iff

end

end Hallo.Semantics
