import Hallo.Proofs.Worker
import Mathlib.Data.List.Destutter

/-!
What a worker announces. Each call tells whether the mood behind it differs from the mood behind the
call before, so the announced moods are the moods of all calls without repetitions. The first bound
above a level can only move on as the level rises, whatever the bounds are; so between two rests the
moods get worse and never better.
-/
namespace Hallo

namespace Mood

/-- The position of a mood in the order: the higher, the worse. -/
def rank (mood : Mood) : Nat :=
  order.idxOf mood

theorem rank_injective : Function.Injective rank := by
  intro a b hrank
  have hmem : a ∈ order := by cases a <;> decide
  exact (List.idxOf_inj hmem).1 hrank

/-- What is found of moods with bounds in turn is one of them, or the worst. -/
theorem find?_zip_mem (moods : List Mood) (bounds : List Int) (level : Int) :
    (match (moods.zip bounds).find? (fun (_, bound) => level < bound) with
      | some (mood, _) => mood
      | none => .deactivated) ∈ moods ++ [.deactivated] := by
  split
  · rename_i mood bound hfind
    exact List.mem_append_left _ (List.of_mem_zip (List.mem_of_find?_eq_some hfind)).1
  · exact List.mem_append_right _ List.mem_cons_self

/-- Bounds above the higher level are above the lower one, so the first of them does not come
    earlier. -/
theorem rank_find?_zip_le {moods : List Mood}
    (hmoods : (moods ++ [Mood.deactivated]).Pairwise fun a b => a.rank ≤ b.rank)
    (bounds : List Int) {low high : Int} (hlevel : low ≤ high) :
    rank (match (moods.zip bounds).find? (fun (_, bound) => low < bound) with
      | some (mood, _) => mood
      | none => .deactivated) ≤
    rank (match (moods.zip bounds).find? (fun (_, bound) => high < bound) with
      | some (mood, _) => mood
      | none => .deactivated) := by
  induction moods generalizing bounds with
  | nil => simp
  | cons mood moods ih =>
    obtain ⟨hfirst, hothers⟩ := List.pairwise_cons.1 hmoods
    cases bounds with
    | nil => simp
    | cons bound bounds =>
      by_cases hlow : low < bound
      · by_cases hhigh : high < bound
        · simp [hlow, hhigh]
        · simpa [hlow, hhigh] using hfirst _ (find?_zip_mem moods bounds high)
      · have hhigh : ¬ high < bound := by omega
        simpa [hlow, hhigh] using ih hothers bounds

/-- A higher level is never a better mood. -/
theorem rank_ofLevel_le (bounds : List Int) {low high : Int} (hlevel : low ≤ high) :
    (ofLevel bounds low).rank ≤ (ofLevel bounds high).rank :=
  rank_find?_zip_le (by decide) bounds hlevel

end Mood

namespace Worker

/-- What can happen to a worker: a node is visited, or it is given a rest. -/
inductive Step where
  | call
  | reset
  deriving DecidableEq, Repr

/-- What a call tells, and the mood behind it. -/
structure Report where
  changed : Bool
  mood : Mood
  deriving DecidableEq, Repr

/-- A worker goes through some steps, with its dice and its clock. Every call is reported. -/
def go : List Step → Worker × Dice × Clock → List Report × Worker × Dice × Clock
  | [], state => ([], state)
  | .call :: steps, (worker, dice, clock) =>
    let (changed, worker, dice) := worker.call dice
    let (reports, after) := go steps (worker, dice, clock)
    (⟨changed, worker.mood⟩ :: reports, after)
  | .reset :: steps, (worker, dice, clock) => go steps (worker.reset dice clock)

/-- The moods that were announced. -/
def announcedIn (reports : List Report) : List Mood :=
  (reports.filter Report.changed).map Report.mood

theorem go_append (first second : List Step) (state : Worker × Dice × Clock) :
    (go (first ++ second) state).1 = (go first state).1 ++ (go second (go first state).2).1 := by
  induction first generalizing state with
  | nil => rfl
  | cons step first ih =>
    obtain ⟨worker, dice, clock⟩ := state
    cases step with
    | call => simp only [List.cons_append, go, ih]
    | reset => exact ih _

theorem length_go (steps : List Step) (state : Worker × Dice × Clock) :
    (go steps state).1.length = steps.count .call := by
  induction steps generalizing state with
  | nil => rfl
  | cons step steps ih =>
    obtain ⟨worker, dice, clock⟩ := state
    cases step with
    | call => simp [go, ih]
    | reset => simp [go, ih]

/-- A worker that is not strict, and that every node tires. -/
structure Tiring (worker : Worker) : Prop where
  strict : worker.contract.strict = false
  growth : 1 ≤ worker.contract.maxGrowth

namespace Tiring

variable {worker : Worker}

/-- One call: the worker tells whether its mood is another one than it announced last, and it is not
    a better one than before. -/
theorem call (htiring : worker.Tiring) (dice : Dice) :
    ∃ tired dice', worker.call dice = (decide (tired.mood ≠ worker.announced), tired, dice') ∧
      tired.Tiring ∧ tired.announced = tired.mood ∧ worker.mood.rank ≤ tired.mood.rank := by
  obtain ⟨growth, hleast, _, hafter⟩ := call_eq htiring.strict htiring.growth dice
  have hchanged :
      (worker.call dice).1 = decide ((worker.call dice).2.1.mood ≠ worker.announced) := by
    rw [Worker.call, if_neg (by simp [htiring.strict])]
    rfl
  rw [hafter] at hchanged
  have hfatigue : worker.fatigue ≤ worker.fatigue + growth := by omega
  refine ⟨_, _, Prod.ext hchanged hafter, ⟨htiring.strict, htiring.growth⟩, rfl, ?_⟩
  exact Mood.rank_ofLevel_le worker.contract.bounds hfatigue

/-- Rest takes nothing back of what was announced. -/
theorem reset (htiring : worker.Tiring) (dice : Dice) (clock : Clock) :
    (worker.reset dice clock).1.Tiring ∧ (worker.reset dice clock).1.announced = worker.announced :=
  ⟨⟨htiring.strict, htiring.growth⟩, rfl⟩

/-- Each call compares the mood with the one behind the call before. -/
theorem changed_go (htiring : worker.Tiring) (dice : Dice) (clock : Clock) (steps : List Step) :
    (go steps (worker, dice, clock)).1.map Report.changed =
      List.zipWith (fun old new => decide (new ≠ old))
        (worker.announced :: (go steps (worker, dice, clock)).1.map Report.mood)
        ((go steps (worker, dice, clock)).1.map Report.mood) := by
  induction steps generalizing worker dice clock with
  | nil => rfl
  | cons step steps ih =>
    cases step with
    | call =>
      obtain ⟨tired, dice', hcall, htired, hannounced, _⟩ := htiring.call dice
      have hothers := ih htired dice' clock
      rw [hannounced] at hothers
      simp only [go, hcall, List.map_cons, List.zipWith_cons_cons, hothers]
    | reset =>
      obtain ⟨hrested, hannounced⟩ := htiring.reset dice clock
      have hothers := ih hrested (worker.reset dice clock).2.1 (worker.reset dice clock).2.2
      rw [hannounced] at hothers
      exact hothers

/-- What is announced are the moods behind all calls, repetitions left out. -/
theorem announcedIn_go (htiring : worker.Tiring) (dice : Dice) (clock : Clock) (steps : List Step) :
    worker.announced :: announcedIn (go steps (worker, dice, clock)).1 =
      (worker.announced :: (go steps (worker, dice, clock)).1.map Report.mood).destutter
        (· ≠ ·) := by
  induction steps generalizing worker dice clock with
  | nil => rfl
  | cons step steps ih =>
    cases step with
    | call =>
      obtain ⟨tired, dice', hcall, htired, hannounced, _⟩ := htiring.call dice
      have hothers := ih htired dice' clock
      rw [hannounced, List.destutter_cons'] at hothers
      by_cases hmood : tired.mood = worker.announced
      · simpa [go, hcall, announcedIn, hmood, List.destutter_cons_cons] using hothers
      · simpa [go, hcall, announcedIn, hmood, Ne.symm hmood, List.destutter_cons_cons] using hothers
    | reset =>
      obtain ⟨hrested, hannounced⟩ := htiring.reset dice clock
      have hothers := ih hrested (worker.reset dice clock).2.1 (worker.reset dice clock).2.2
      rw [hannounced] at hothers
      exact hothers

/-- Without a rest no mood is better than an earlier one. -/
theorem pairwise_go (htiring : worker.Tiring) (dice : Dice) (clock : Clock) (n : Nat) :
    (worker.mood :: (go (List.replicate n .call) (worker, dice, clock)).1.map Report.mood).Pairwise
      fun a b => a.rank ≤ b.rank := by
  induction n generalizing worker dice with
  | zero => simp [go]
  | succ n ih =>
    obtain ⟨tired, dice', hcall, htired, _, hrank⟩ := htiring.call dice
    have hothers := ih htired dice'
    simp only [List.replicate_succ, go, hcall, List.map_cons]
    refine List.pairwise_cons.2 ⟨fun mood hmem => ?_, hothers⟩
    rcases List.mem_cons.1 hmem with rfl | hmem
    · exact hrank
    · exact hrank.trans ((List.pairwise_cons.1 hothers).1 mood hmem)

end Tiring

/-- The moods behind calls that no rest interrupts. None is better than an earlier one, every mood
    that is announced behind the first call is worse than all before it, and there are not more than
    there are moods. -/
structure Declining (reports : List Report) : Prop where
  moods : (reports.map Report.mood).Pairwise fun a b => a.rank ≤ b.rank
  announced : ∀ first others, reports = first :: others →
    (first.mood :: announcedIn others).Pairwise fun a b => a.rank < b.rank
  count : (announcedIn reports).length ≤ 7

/-- Moods that get worse each time are not more than seven. -/
theorem length_le_of_pairwise {moods : List Mood}
    (hmoods : moods.Pairwise fun a b => a.rank < b.rank) :
    moods.length ≤ 7 := by
  have hnodup : moods.Nodup := hmoods.imp fun hlt heq => by
    rw [heq] at hlt
    exact Nat.lt_irrefl _ hlt
  have hsubset : moods ⊆ Mood.order := fun mood _ => by cases mood <;> decide
  exact (hnodup.subperm hsubset).length_le

theorem length_announcedIn_cons_le (first : Report) (others : List Report) :
    (announcedIn (first :: others)).length ≤ (first.mood :: announcedIn others).length := by
  unfold announcedIn
  by_cases hchanged : first.changed = true
  · simp [hchanged]
  · simp [hchanged]

/-- Calls without a rest between them. -/
theorem Tiring.declining_go {worker : Worker} (htiring : worker.Tiring) (dice : Dice)
    (clock : Clock) (n : Nat) :
    Declining (go (List.replicate n .call) (worker, dice, clock)).1 := by
  have hworse : ∀ first others, (go (List.replicate n .call) (worker, dice, clock)).1 =
    first :: others →
      (first.mood :: announcedIn others).Pairwise fun a b => a.rank < b.rank := by
    intro first others hreports
    cases n with
    | zero => cases hreports
    | succ n =>
      obtain ⟨tired, dice', hcall, htired, hannounced, _⟩ := htiring.call dice
      simp only [List.replicate_succ, go, hcall] at hreports
      cases hreports
      -- What is announced behind the first call is sorted, and repetitions are left out of it.
      have hsorted := htired.pairwise_go dice' clock n
      have hlisted := htired.announcedIn_go dice' clock (List.replicate n .call)
      have hantisymm : Std.Antisymm fun a b : Mood => a.rank ≤ b.rank :=
        ⟨fun a b hab hba => Mood.rank_injective (Nat.le_antisymm hab hba)⟩
      rw [hannounced, hsorted.destutter_eq_dedup] at hlisted
      rw [hlisted]
      have hpairs := (hsorted.sublist (List.dedup_sublist _)).and (List.nodup_dedup _)
      exact hpairs.imp fun ⟨hle, hne⟩ => Nat.lt_of_le_of_ne hle (Mood.rank_injective.ne hne)
  refine ⟨(List.pairwise_cons.1 (htiring.pairwise_go dice clock n)).2, hworse, ?_⟩
  cases hreports : (go (List.replicate n .call) (worker, dice, clock)).1 with
  | nil => exact Nat.zero_le 7
  | cons first others =>
    exact (length_announcedIn_cons_le first others).trans
      (length_le_of_pairwise (hworse first others hreports))

theorem Tiring.go {worker : Worker} (htiring : worker.Tiring) (dice : Dice) (clock : Clock)
    (steps : List Step) :
    (Worker.go steps (worker, dice, clock)).2.1.Tiring := by
  induction steps generalizing worker dice clock with
  | nil => exact htiring
  | cons step steps ih =>
    cases step with
    | call =>
      obtain ⟨tired, dice', hcall, htired, _⟩ := htiring.call dice
      simpa only [Worker.go, hcall] using ih htired dice' clock
    | reset => exact ih (htiring.reset dice clock).1 _ _

/-- Announcements are exact and never go backwards between two rests. Whatever its bounds are, a
    worker that is not strict tells at each call exactly whether the mood behind it differs from the
    mood behind the call before, the best one to begin with; so the announced moods are the moods
    behind all calls, each repetition left out. The calls between two rests have moods that never
    get better; each mood announced behind the first of them is worse than the one before, and at
    most seven are announced. -/
theorem announcements_exact {worker : Worker} (hstrict : worker.contract.strict = false)
    (hgrowth : 1 ≤ worker.contract.maxGrowth) (hfresh : worker.announced = .happy) (dice : Dice)
    (clock : Clock) (steps : List Step) {reports : List Report}
    (hreports : (go steps (worker, dice, clock)).1 = reports) :
    reports.length = steps.count .call ∧
    reports.map Report.changed =
      List.zipWith (fun old new => decide (new ≠ old)) (.happy :: reports.map Report.mood)
        (reports.map Report.mood) ∧
    .happy :: announcedIn reports = (.happy :: reports.map Report.mood).destutter (· ≠ ·) ∧
    ∀ before n after, steps = before ++ List.replicate n .call ++ after →
      Declining ((reports.drop (before.count .call)).take n) := by
  subst hreports
  have htiring : worker.Tiring := ⟨hstrict, hgrowth⟩
  refine ⟨length_go steps _, ?_, ?_, ?_⟩
  · rw [htiring.changed_go, hfresh]
  · rw [← hfresh, htiring.announcedIn_go]
  · rintro before n after rfl
    rw [go_append, go_append, ← length_go before (worker, dice, clock), List.append_assoc,
      List.drop_left]
    have hlength :
        (go (List.replicate n .call) (go before (worker, dice, clock)).2).1.length = n := by
      rw [length_go, List.count_replicate_self]
    rw [List.take_left' hlength]
    exact (htiring.go dice clock before).declining_go _ _ n

/-- Bounds out of order, of which the second is never the first above a level. The mood passes over
    it, and only behind the rest a better one is announced. -/
theorem announcements_exact_rested :
    let reports : List Report := [⟨false, .happy⟩, ⟨true, .okay⟩, ⟨false, .okay⟩, ⟨true, .happy⟩]
    (go [.call, .call, .call, .reset, .call]
        (hire { bounds := [5, 3, 20] } (.cycling [4, 0]) (.ticking 0 1))).1 = reports ∧
      .happy :: announcedIn reports = (.happy :: reports.map Report.mood).destutter (· ≠ ·) ∧
      announcedIn reports = [.okay, .happy] ∧ Declining (reports.take 3) := by
  intro reports
  have hreports : (go [.call, .call, .call, .reset, .call]
      (hire { bounds := [5, 3, 20] } (.cycling [4, 0]) (.ticking 0 1))).1 = reports := by decide
  obtain ⟨_, _, hannounced, hdeclining⟩ :=
    announcements_exact (by decide) (by decide) (by decide) _ _ _ hreports
  exact ⟨hreports, hannounced, by decide, hdeclining [] 3 [.reset, .call] rfl⟩

end Worker

end Hallo
