import Hallo.Proofs.Evaluator.Quiet
import Hallo.Proofs.Value.Order

/-!
Evaluated comparisons. The operands are evaluated first, whatever the comparison is; from then on
only their values matter, and the three comparisons agree about them.
-/
namespace Hallo

namespace Run

/-- Any two values can be told equal or not; less and greater need values of one kind. -/
theorem applyComparison_of_defined {k : Comparison} {a b : Value}
    (hdefined : k = .equals ∨ a.Orderable b) :
    applyComparison k a b = pure (.boolean (k.Holds a b)) := by
  cases k with
  | equals => rfl
  | less =>
    have hsame : decide (Comparison.less.Holds a b) = a.less b := Bool.decide_eq_true
    rw [hsame]
    exact if_pos (hdefined.resolve_left (by decide))
  | greater =>
    have hsame : decide (Comparison.greater.Holds a b) = a.greater b := Bool.decide_eq_true
    rw [hsame]
    exact if_pos (hdefined.resolve_left (by decide))

theorem applyComparison_of_not_orderable {k : Comparison} {a b : Value} (hk : k ≠ .equals)
    (hkind : ¬ a.Orderable b) : applyComparison k a b = violate (.cannotOrder a.kind b.kind) := by
  cases k with
  | equals => exact absurd rfl hk
  | less => exact if_neg hkind
  | greater => exact if_neg hkind

/-- The worker has its say about what an action leaves, however it came about. -/
theorem on_watched_of_on_eq {x y : Run Outcome} {m after : Machine} (node : Node)
    (hxy : on x m = on y after) :
    on (watched node x) m = on (watched node y) after := by
  rw [watched_eq, watched_eq, on_bind, on_bind, hxy]

end Run

namespace Node

open Run

variable {rounds : Nat} {body : Node → Run Outcome} {left right : Node} {x y : Outcome}
  {m middle after : Machine}

/-- A node comes to a value: nothing is left then but the worker's say, and a strict worker has
    none. -/
structure ComesTo (rounds : Nat) (body : Node → Run Outcome) (node : Node) (m : Machine)
    (value : Value) (after : Machine) : Prop where
  watched : on (node.visit rounds body) m = on (watched node (pure (.value value))) after
  strict : after.worker.contract.strict = true → on (node.visit rounds body) m =
    (.ok (.value value), after)

/-- The operands are evaluated from left to right, and then their values are compared. -/
theorem on_visit_compare (hleft : on (left.visit rounds body) m = (.ok x, middle))
    (hright : on (right.visit rounds body) middle = (.ok y, after)) (k : Comparison) :
    on ((Node.compare left right k).visit rounds body) m =
      on (watched (.compare left right k) (applyComparison k x.get y.get >>= fun v =>
        pure (.value v))) after := by
  rw [visit]
  apply on_watched_of_on_eq
  rw [on_bind_of_ok hleft, on_bind_of_ok hright]

theorem comesTo_compare (hleft : on (left.visit rounds body) m = (.ok x, middle))
    (hright : on (right.visit rounds body) middle = (.ok y, after)) {k : Comparison}
    (hdefined : k = .equals ∨ x.get.Orderable y.get) :
    ComesTo rounds body (.compare left right k) m (.boolean (k.Holds x.get y.get)) after := by
  have hvisit := on_visit_compare hleft hright k
  rw [applyComparison_of_defined hdefined, pure_bind] at hvisit
  refine ⟨hvisit, fun hstrict => ?_⟩
  rw [hvisit, on_watched_of_strict, on_pure]
  rintro _ _ ⟨⟩
  exact hstrict

theorem on_visit_compare_of_not_orderable (hleft : on (left.visit rounds body) m = (.ok x, middle))
    (hright : on (right.visit rounds body) middle = (.ok y, after)) {k : Comparison}
    (hk : k ≠ .equals) (hkind : ¬ x.get.Orderable y.get) :
    on ((Node.compare left right k).visit rounds body) m =
      (.error (.fault (.violation (.cannotOrder x.get.kind y.get.kind))), after) := by
  rw [on_visit_compare hleft hright k, applyComparison_of_not_orderable hk hkind]
  rfl

/-- Comparisons agree with each other. Within each kind the values have one total order, of which
    less and greater are the two directions, and values of different kinds are not equal. So,
    whatever two operands do before they have values, exactly one of the three comparisons of them
    is true and the others are false; or the values are of different kinds, and then they are not
    equal and both other comparisons end in a violation. -/
theorem comparisons_agree (hleft : on (left.visit rounds body) m = (.ok x, middle))
    (hright : on (right.visit rounds body) middle = (.ok y, after)) :
    ((∀ a b : Value, a.Orderable b → ∃! k : Comparison, k.Holds a b) ∧
      (∀ a b : Value, a.greater b = b.less a) ∧
      (∀ a b c : Value, a.less b = true → b.less c = true → a.less c = true) ∧
      (∀ a : Value, a.less a = false) ∧
      (∀ a b : Value, a.less b = true ↔ a.Below b) ∧
      (∀ s t : String, t ≠ "" → (Value.text s).less (.text (s ++ t)) = true) ∧
      (∀ b : Value, Value.nothing.Orderable b ↔ b = .nothing) ∧
      ∀ a b : Value, ¬ a.Orderable b → a ≠ b) ∧
    (x.get.Orderable y.get → ∃ k : Comparison, k.Holds x.get y.get ∧
      ∀ k', ComesTo rounds body (.compare left right k') m (.boolean (k' = k)) after) ∧
    (¬ x.get.Orderable y.get →
      ComesTo rounds body (.compare left right .equals) m (.boolean false) after ∧
      ∀ k, k ≠ .equals → ∃ fault : Fault,
        on ((Node.compare left right k).visit rounds body) m = (.error (.fault fault), after) ∧
          fault = .violation (.cannotOrder x.get.kind y.get.kind) ∧
          fault.message = "Cannot order " ++ x.get.kind.name ++ " against " ++
            y.get.kind.name) := by
  refine ⟨⟨fun _ _ hkind => Comparison.existsUnique_holds hkind, Value.greater_eq_less, ?_, ?_,
    fun _ _ => Value.less_iff_below, ?_, ?_, ?_⟩, ?_, ?_⟩
  · intro a b c hab hbc
    rw [Value.less_iff_below] at hab hbc ⊢
    exact hab.trans hbc
  · intro a
    rw [← Bool.not_eq_true, Value.less_iff_below]
    exact Value.Below.irrefl a
  · exact fun s t ht => Value.less_iff_below.2 (.of_beginning s ht)
  · intro b
    cases b <;> simp [Value.Orderable, Value.kind]
  · rintro a _ hkind rfl
    exact hkind rfl
  · intro hkind
    obtain ⟨k, hholds, hunique⟩ := Comparison.existsUnique_holds hkind
    refine ⟨k, hholds, fun k' => ?_⟩
    have hiff : k'.Holds x.get y.get ↔ k' = k := ⟨hunique k', fun hk => hk ▸ hholds⟩
    have hcomes := comesTo_compare hleft hright (k := k') (.inr hkind)
    rwa [decide_eq_decide.2 hiff] at hcomes
  · intro hkind
    have hne : ¬ Comparison.equals.Holds x.get y.get := fun heq => hkind (congrArg Value.kind heq)
    have hcomes := comesTo_compare hleft hright (k := .equals) (.inl rfl)
    rw [decide_eq_false hne] at hcomes
    refine ⟨hcomes, fun k hk => ⟨_, ?_, rfl, rfl⟩⟩
    exact on_visit_compare_of_not_orderable hleft hright hk hkind

/-- A text and a longer one that begins with it, and a number and a text. -/
theorem comparisons_agree_texts :
    let start := Machine.start true (Dice.cycling []) (Clock.ticking 0 1) []
    let visited (t : Node) := on (t.visit 0 fun _ => violate .stackOverflow) start
    let short : Node := .literal (.text "a")
    let long : Node := .literal (.text "ab")
    let number : Node := .literal (.integer 1)
    (∀ k, visited (.compare short long k) = (.ok (.value (.boolean (k = .less))), start)) ∧
      visited (.compare number short .equals) = (.ok (.value (.boolean false)), start) ∧
      visited (.compare number short .less) =
        (.error (.fault (.violation (.cannotOrder .integer .text))), start) := by
  intro start visited short long number
  have hshort : visited short = (.ok (.value (.text "a")), start) := rfl
  have hlong : visited long = (.ok (.value (.text "ab")), start) := rfl
  have hnumber : visited number = (.ok (.value (.integer 1)), start) := rfl
  obtain ⟨_, htexts, _⟩ := comparisons_agree hshort hlong
  obtain ⟨k, hholds, htexts⟩ := htexts rfl
  obtain ⟨_, _, hkinds⟩ := comparisons_agree hnumber hshort
  obtain ⟨hequals, hothers⟩ := hkinds (by decide)
  obtain ⟨_, hless, rfl, _⟩ := hothers .less (by decide)
  obtain rfl : k = .less := by
    revert hholds
    cases k <;> decide
  exact ⟨fun k' => (htexts k').strict rfl, hequals.strict rfl, hless⟩

end Node

end Hallo
