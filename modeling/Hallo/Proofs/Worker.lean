import Hallo.Worker
import Mathlib

/-!
How tired a worker can be. With every node its fatigue grows by at least one and by at most the
greatest growth in its contract, and a rest takes it back to nothing; so fatigue tells how many
nodes were visited since the last rest, and a worker is at its end when it has reached the greatest
bound of the moods that have one.
-/
namespace Hallo

namespace Dice

variable {range : Int × Int}

theorem le_within (dice : Dice) (hrange : range.1 ≤ range.2) : range.1 ≤ (dice.within range).1 := by
  have hnonneg : 0 ≤ Int.fmod dice.draw.1 (range.2 - range.1 + 1) :=
    Int.fmod_nonneg_of_pos _ (by omega)
  rw [within]
  omega

theorem within_le (dice : Dice) (hrange : range.1 ≤ range.2) : (dice.within range).1 ≤ range.2 := by
  have hlt : Int.fmod dice.draw.1 (range.2 - range.1 + 1) < range.2 - range.1 + 1 :=
    Int.fmod_lt_of_pos _ (by omega)
  rw [within]
  omega

end Dice

namespace Mood

/-- The mood whose bound is the first above a level, of moods with bounds in turn and the worst
    behind them. -/
theorem find?_zip_eq_deactivated_iff (moods : List Mood) (hmoods : .deactivated ∉ moods)
    (bounds : List Int) (level : Int) :
    (match ((moods ++ [Mood.deactivated]).zip bounds).find? (fun (_, bound) => level < bound) with
      | some (mood, _) => mood
      | none =>
        .deactivated) = .deactivated ↔ ∀ bound ∈ bounds.take moods.length, bound ≤ level := by
  induction moods generalizing bounds with
  | nil =>
    cases bounds with
    | nil => simp
    | cons bound bounds => by_cases hlevel : level < bound <;> simp [hlevel]
  | cons mood moods ih =>
    obtain ⟨hmood, hothers⟩ := not_or.1 (mt List.mem_cons.2 hmoods)
    cases bounds with
    | nil => simp
    | cons bound bounds =>
      by_cases hlevel : level < bound
      · simp [hlevel, Ne.symm hmood]
      · have hle : bound ≤ level := by omega
        simpa [hlevel, hle] using ih hothers bounds

/-- Only the first six bounds matter: the seventh mood is the worst anyway. -/
theorem ofLevel_eq_deactivated_iff {bounds : List Int} {level : Int} :
    ofLevel bounds level = .deactivated ↔ ∀ bound ∈ bounds.take 6, bound ≤ level :=
  find?_zip_eq_deactivated_iff [.happy, .glad, .okay, .sad, .aggressive, .depressive]
    (by decide) bounds level

end Mood

namespace Worker

variable {worker : Worker}

theorem exhausted_iff {tolerance : Int}
    (htolerance : (worker.contract.bounds.take 6).max? = some tolerance) :
    worker.exhausted = true ↔ tolerance ≤ worker.fatigue := by
  obtain ⟨hmem, hgreatest⟩ := List.max?_eq_some_iff.1 htolerance
  rw [exhausted, decide_eq_true_iff, mood, Mood.ofLevel_eq_deactivated_iff]
  constructor
  · intro hbounds
    exact hbounds tolerance hmem
  · intro hfatigue bound hbound
    exact (hgreatest bound hbound).trans hfatigue

/-- The worker is as tired as so many nodes can have made it. -/
structure TiredBy (worker : Worker) (count : Nat) : Prop where
  least : count ≤ worker.fatigue
  most : worker.fatigue ≤ worker.contract.maxGrowth * count

/-- What one node does to a worker that is not strict. -/
theorem call_eq (hstrict : worker.contract.strict = false) (hgrowth : 1 ≤ worker.contract.maxGrowth)
    (dice : Dice) :
    ∃ growth, 1 ≤ growth ∧ growth ≤ worker.contract.maxGrowth ∧
      (worker.call dice).2 =
        ({ worker with
            fatigue := worker.fatigue + growth
            announced := .ofLevel worker.contract.bounds (worker.fatigue + growth) },
          { dice with drawn := dice.drawn + 1 }) := by
  refine ⟨(dice.within (1, worker.contract.maxGrowth)).1, dice.le_within hgrowth,
    dice.within_le hgrowth, ?_⟩
  rw [call, if_neg (by simp [hstrict])]
  rfl

theorem faces_call (worker : Worker) (dice : Dice) : (worker.call dice).2.2.faces = dice.faces := by
  unfold call
  split <;> rfl

theorem drawn_le_call (worker : Worker) (dice : Dice) :
    dice.drawn ≤ (worker.call dice).2.2.drawn := by
  unfold call
  split
  · exact le_rfl
  · exact Nat.le_succ _

namespace TiredBy

variable {count : Nat}

theorem of_rested (hfatigue : worker.fatigue = 0) : worker.TiredBy 0 := by
  constructor
  · simp [hfatigue]
  · simp [hfatigue]

/-- A node adds at least one to the fatigue, and at most the greatest growth. -/
theorem call (htired : worker.TiredBy count) (hstrict : worker.contract.strict = false)
    (hgrowth : 1 ≤ worker.contract.maxGrowth) (dice : Dice) :
    (worker.call dice).2.1.TiredBy (count + 1) := by
  obtain ⟨growth, hleast, hmost, hcall⟩ := call_eq hstrict hgrowth dice
  have hold := htired.least
  have hold' := htired.most
  rw [hcall]
  constructor
  · push_cast
    omega
  · push_cast
    rw [mul_add, mul_one]
    omega

/-- After as many nodes as the greatest bound a worker is at its end. -/
theorem exhausted {tolerance : Int} (htired : worker.TiredBy count)
    (htolerance : (worker.contract.bounds.take 6).max? = some tolerance)
    (hcount : tolerance ≤ count) :
    worker.exhausted = true := by
  rw [exhausted_iff htolerance]
  exact hcount.trans htired.least

/-- It takes so many nodes to bring a worker to its end. -/
theorem ceil_le {tolerance : Int} (htired : worker.TiredBy count)
    (hgrowth : 1 ≤ worker.contract.maxGrowth)
    (htolerance : (worker.contract.bounds.take 6).max? = some tolerance)
    (hexhausted : worker.exhausted = true) :
    ⌈(tolerance / worker.contract.maxGrowth : ℚ)⌉ ≤ count := by
  have hfatigue : tolerance ≤ worker.contract.maxGrowth * count :=
    ((exhausted_iff htolerance).1 hexhausted).trans htired.most
  have hpositive : (0 : ℚ) < worker.contract.maxGrowth := by
    exact_mod_cast lt_of_lt_of_le zero_lt_one hgrowth
  rw [Int.ceil_le, div_le_iff₀' hpositive]
  exact_mod_cast hfatigue

end TiredBy

/-- A worker that wants to ask has read the clock for it, is at its end, and was left alone for
    long enough; and it does not ask about a literal. -/
theorem wantsCheck_cases (worker : Worker) (node : Node) (clock : Clock) :
    worker.wantsCheck node clock = (false, clock) ∨
      ∃ wants, worker.wantsCheck node clock = (wants, clock.read.2) ∧
        (wants = true → (∀ value, node ≠ .literal value) ∧ worker.exhausted = true ∧
          worker.cooldown ≤ clock.read.1 - worker.lastReset) := by
  unfold wantsCheck
  split
  · exact .inl rfl
  · rename_i hready
    simp only [Bool.or_eq_true, not_or, Bool.not_eq_true, Bool.not_eq_false'] at hready
    obtain ⟨⟨_, hnode⟩, hexhausted⟩ := hready
    refine .inr ⟨_, rfl, fun hcooled => ⟨?_, hexhausted, of_decide_eq_true hcooled⟩⟩
    rintro value rfl
    cases hnode

end Worker

end Hallo
