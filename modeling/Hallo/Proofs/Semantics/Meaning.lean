import Hallo.Proofs.Evaluator.Quiet
import Hallo.Proofs.Semantics

/-!
Meanings and the actions that have them. A meaning relates scenes as the rules do; it is put
together from simpler ones as actions are. An action has a meaning if its runs on quiet machines
come to exactly what the meaning relates.
-/
namespace Hallo

/-- What is related to a scene: results, what was noticed meanwhile, and scenes left behind. -/
abbrev Meaning (α : Type) := Scene → Except Fault α → List Event → Scene → Prop

namespace Meaning

open Semantics

variable {α β : Type}

/-- A result that may be anything of a certain kind, with nothing to be noticed. -/
def results (P : Except Fault α → Prop) : Meaning α := fun s r story s' =>
  P r ∧ story = [] ∧ s' = s

/-- A single result, with nothing to be noticed. -/
def exactly (r : Except Fault α) : Meaning α := results (· = r)

/-- What a function of the scene says. -/
def acts (f : Scene → Except Fault α × List Event × Scene) : Meaning α := fun s r story s' =>
  f s = (r, story, s')

/-- What is looked up in the frame. -/
def looks (f : Frame → Except Fault α) : Meaning α := acts fun s => (f s.frame, [], s)

/-- One meaning after another, unless the first is a fault. -/
def andThen (R : Meaning α) (F : α → Meaning β) : Meaning β := fun s r story s' =>
  (∃ a middle first second, R s (.ok a) first middle ∧ F a middle r second s' ∧
    story = first ++ second) ∨
  ∃ fault, R s (.error fault) story s' ∧ r = .error fault

/-- A meaning with its results changed. -/
def map (g : α → β) (R : Meaning α) : Meaning β := fun s r story s' =>
  ∃ found, R s found story s' ∧ r = found.map g

/-- A return on its way is passed on; any other value is forgotten. -/
def unlessReturning (R : Meaning Outcome) : Outcome → Meaning Outcome
  | .returning v => exactly (.ok (.returning v))
  | .value _ => R

/-- A body in a frame of its own, of which nothing stays but the answers that are left. -/
def called (frame : Frame) (R : Meaning Outcome) : Meaning Outcome := fun s r story s' =>
  ∃ inner, R ⟨frame, s.answers⟩ r story inner ∧ s' = ⟨s.frame, inner.answers⟩

/-- A body again and again, as long as a test holds. -/
inductive Loop (T : Meaning Bool) (R : Meaning Outcome) : Meaning Outcome where
  | again {s s' s'' last : Scene} {v : Value} {r : Except Fault Outcome}
      {story story' story'' : List Event} (htest : T s (.ok true) story s')
      (hbody : R s' (.ok (.value v)) story' s'') (hagain : Loop T R s'' r story'' last) :
      Loop T R s r (story ++ (story' ++ story'')) last
  | left {s s' s'' : Scene} {r : Except Fault Outcome} {story story' : List Event}
      (htest : T s (.ok true) story s') (hbody : R s' r story' s'') (hleaves : Leaves r) :
      Loop T R s r (story ++ story') s''
  | done {s s' : Scene} {story : List Event} (htest : T s (.ok false) story s') :
      Loop T R s (.ok (.value .nothing)) story s'
  | failed {s s' : Scene} {fault : Fault} {story : List Event}
      (htest : T s (.error fault) story s') :
      Loop T R s (.error fault) story s'

/-- What is run only if a result does not leave, or is left out. -/
theorem andThen_unlessReturning_iff {R R' : Meaning Outcome} {s s' : Scene}
    {r : Except Fault Outcome} {story : List Event} :
    R.andThen (unlessReturning R') s r story s' ↔
      (∃ v middle first second, R s (.ok (.value v)) first middle ∧ R' middle r second s' ∧
        story = first ++ second) ∨ R s r story s' ∧ Leaves r := by
  constructor
  · rintro (⟨_ | v, middle, first, second, hfirst, hsecond, rfl⟩ | ⟨fault, hfirst, rfl⟩)
    · exact .inl ⟨_, _, _, _, hfirst, hsecond, rfl⟩
    · obtain ⟨rfl, rfl, rfl⟩ := hsecond
      rw [List.append_nil]
      exact .inr ⟨hfirst, .returning v⟩
    · exact .inr ⟨hfirst, .failed fault⟩
  · rintro (⟨v, middle, first, second, hfirst, hsecond, rfl⟩ | ⟨hfirst, hleaves⟩)
    · exact .inl ⟨_, _, _, _, hfirst, hsecond, rfl⟩
    · cases hleaves with
      | returning v =>
        refine .inl ⟨_, _, _, [], hfirst, ⟨rfl, rfl, rfl⟩, ?_⟩
        rw [List.append_nil]
      | failed fault => exact .inr ⟨fault, hfirst, rfl⟩

theorem andThen_looks_of_ok {f : Frame → Except Fault α} {F : α → Meaning β} {s s' : Scene}
    {r : Except Fault β} {story : List Event} {a : α} (hf : f s.frame = .ok a) :
    andThen (looks f) F s r story s' ↔ F a s r story s' := by
  constructor
  · rintro (⟨_, _, _, _, hlooks, hF, rfl⟩ | ⟨_, hlooks, _⟩)
    · rw [looks, acts, hf] at hlooks
      cases hlooks
      exact hF
    · rw [looks, acts, hf] at hlooks
      cases hlooks
  · intro hF
    refine .inl ⟨a, s, [], story, ?_, hF, rfl⟩
    rw [looks, acts, hf]

theorem andThen_looks_of_error {f : Frame → Except Fault α} {F : α → Meaning β} {s s' : Scene}
    {r : Except Fault β} {story : List Event} {fault : Fault} (hf : f s.frame = .error fault) :
    andThen (looks f) F s r story s' ↔ exactly (.error fault) s r story s' := by
  constructor
  · rintro (⟨_, _, _, _, hlooks, _, _⟩ | ⟨_, hlooks, rfl⟩)
    · rw [looks, acts, hf] at hlooks
      cases hlooks
    · rw [looks, acts, hf] at hlooks
      cases hlooks
      exact ⟨rfl, rfl, rfl⟩
  · rintro ⟨rfl, rfl, rfl⟩
    refine .inr ⟨fault, ?_, rfl⟩
    rw [looks, acts, hf]

end Meaning

end Hallo
