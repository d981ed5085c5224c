import Hallo.Proofs.Semantics.Binding
import Hallo.Proofs.Semantics.Meaning

/-!
The rules about calls, read as meanings: output forms, the input form, and declared functions.
-/
namespace Hallo.Semantics

open Meaning

variable {n : Nat} {s s' : Scene} {story : List Event}
  {r : Except Fault Outcome} {callee : String} {args : List Node}

/-- The names of output forms and how loud they are, as the evaluator finds out. -/
theorem shouts_iff {intensity : Int} :
    Shouts callee intensity ↔ Run.intensity? callee = some intensity := by
  have hstem : Run.outputStem.isPrefixOf callee.toList = true ↔ ∃ louder, callee =
      ":O__" ++ louder := by
    rw [List.isPrefixOf_iff_prefix]
    constructor
    · rintro ⟨rest, hrest⟩
      refine ⟨String.ofList rest, ?_⟩
      rw [← String.toList_inj, ← hrest]
      simp [Run.outputStem]
    · rintro ⟨louder, rfl⟩
      exact ⟨louder.toList, by rw [String.toList_append]; rfl⟩
  have hlength : Run.outputStem.length = ":O__".length := rfl
  rw [Run.intensity?]
  constructor
  · rintro ⟨louder, rfl, rfl⟩
    rw [if_pos (hstem.2 ⟨louder, rfl⟩), String.length_append]
    congr 1
    omega
  · intro hsome
    split at hsome
    · rename_i hbegins
      obtain ⟨louder, rfl⟩ := hstem.1 hbegins
      cases hsome
      refine ⟨louder, rfl, ?_⟩
      rw [String.length_append]
      omega
    · cases hsome

theorem ordinary_iff : Ordinary callee ↔ Run.intensity? callee = none ∧ callee ≠ Run.inputName := by
  refine and_congr_left fun _ => ?_
  simp only [shouts_iff]
  cases Run.intensity? callee <;> simp

theorem not_shouts_input {intensity : Int} : ¬ Shouts "frag" intensity := by
  rw [shouts_iff]
  intro hsome
  cases hsome

/-- An output form hands the displays of its arguments to the shouter. -/
theorem evaluates_output_iff {intensity : Int} (hname : Shouts callee intensity) :
    Evaluates n (.call callee args) s r story s' ↔
      andThen (Renders n args) (fun text => map (fun _ => .value .nothing)
        (acts fun s => (.ok (), [.shout intensity text text], s))) s r story s' := by
  constructor
  · intro h
    cases h with
    | output hother hargs =>
      have hsome := shouts_iff.1 hname
      rw [shouts_iff.1 hother] at hsome
      cases hsome
      exact .inl ⟨_, _, _, _, hargs, ⟨.ok (), rfl, rfl⟩, rfl⟩
    | outputFailed _ hargs => exact .inr ⟨_, hargs, rfl⟩
    | input | inputRefused | inputFailed => exact absurd hname not_shouts_input
    | unknownFunction hordinary | argumentCount hordinary | argumentFailed hordinary
        | call hordinary =>
      exact absurd hname (hordinary.1 intensity)
  · rintro (⟨text, middle, first, second, hargs, ⟨_, hacts, rfl⟩, rfl⟩ | ⟨fault, hargs, rfl⟩)
    · cases hacts
      exact .output hname hargs
    · exact .outputFailed hname hargs

/-- The input form shows its arguments and reads the next answer. -/
theorem evaluates_input_iff :
    Evaluates n (.call "frag" args) s r story s' ↔
      andThen (Renders n args) (fun prompt => map .value (acts fun s =>
        (match Value.ofAnswer (s.answers.head?.join.getD "") with
          | .ok v => .ok v
          | .error error => .error (.parse error),
        [.question .program prompt s.answers.head?.join],
        { s with answers := s.answers.tail }))) s r story s' := by
  constructor
  · intro h
    cases h with
    | output hname | outputFailed hname => exact absurd hname not_shouts_input
    | input hargs hanswer =>
      refine .inl ⟨_, _, _, _, hargs, ⟨.ok _, ?_, rfl⟩, rfl⟩
      rw [acts, hanswer]
    | inputRefused hargs hanswer =>
      refine .inl ⟨_, _, _, _, hargs, ⟨.error _, ?_, rfl⟩, rfl⟩
      rw [acts, hanswer]
    | inputFailed hargs => exact .inr ⟨_, hargs, rfl⟩
    | unknownFunction hordinary | argumentCount hordinary | argumentFailed hordinary
        | call hordinary =>
      exact absurd rfl hordinary.2
  · rintro (⟨prompt, middle, first, second, hargs, ⟨_, hacts, rfl⟩, rfl⟩ | ⟨fault, hargs, rfl⟩)
    · cases hanswer : Value.ofAnswer (middle.answers.head?.join.getD "") with
      | ok v =>
        rw [acts, hanswer] at hacts
        cases hacts
        exact .input hargs hanswer
      | error error =>
        rw [acts, hanswer] at hacts
        cases hacts
        exact .inputRefused hargs hanswer
    · exact .inputFailed hargs

/-- The bodies of functions one call deeper. Without a call left, they have no meaning. -/
def bodies : Nat → Node → Meaning Outcome
  | 0, _ => fun _ _ _ _ => False
  | n + 1, node => Evaluates n node

/-- The declared function that takes so many arguments. -/
def routineFor (callee : String) (count : Nat) (frame : Frame) : Except Fault Routine :=
  match frame.function? callee with
  | none => .error (.violation (.unknownFunction callee))
  | some routine =>
    if routine.params.length = count then .ok routine
    else .error (.violation (.argumentCount callee routine.params.length count))

theorem routineFor_of_none {count : Nat} (hnone : s.frame.function? callee = none) :
    routineFor callee count s.frame = .error (.violation (.unknownFunction callee)) := by
  rw [routineFor, hnone]

theorem routineFor_of_ne {count : Nat} {routine : Routine}
    (hroutine : s.frame.function? callee = some routine) (hcount : routine.params.length ≠ count) :
    routineFor callee count s.frame =
      .error (.violation (.argumentCount callee routine.params.length count)) := by
  simp only [routineFor, hroutine, if_neg hcount]

theorem routineFor_of_eq {count : Nat} {routine : Routine}
    (hroutine : s.frame.function? callee = some routine) (hcount : routine.params.length = count) :
    routineFor callee count s.frame = .ok routine := by
  simp only [routineFor, hroutine, if_pos hcount]

/-- A body in a fresh frame, with the caller's functions and the arguments. -/
def enters (n : Nat) (routine : Routine) (values : List Value) : Meaning Value :=
  andThen (looks .ok) fun caller =>
    map Outcome.get (called (caller.entering routine.params values) (bodies n routine.body))

theorem map_enters_iff {routine : Routine} {values : List Value} :
    map .value (enters n routine values) s r story s' ↔
      ∃ table found inner, Receives routine.params values table ∧
        bodies n routine.body
          ⟨{ bindings := table, functions := s.frame.functions }, s.answers⟩ found story inner ∧
        r = (found.map fun outcome => .value outcome.get) ∧ s' = ⟨s.frame, inner.answers⟩ := by
  have hmap : ∀ found : Except Fault Outcome,
      (found.map Outcome.get).map Outcome.value = found.map fun outcome => .value outcome.get := by
    intro found
    cases found <;> rfl
  constructor
  · rintro ⟨_, henters, rfl⟩
    obtain ⟨found, ⟨inner, hbody, rfl⟩, rfl⟩ := (andThen_looks_of_ok rfl).1 henters
    have hframe := s.frame.entering_eq routine.params values
    rw [hframe] at hbody
    exact ⟨_, found, inner, (receives_iff s.frame).2 hframe, hbody, hmap found, rfl⟩
  · rintro ⟨table, found, inner, htable, hbody, rfl, rfl⟩
    rw [← (receives_iff s.frame).1 htable] at hbody
    exact ⟨_, (andThen_looks_of_ok rfl).2 ⟨found, ⟨inner, hbody, rfl⟩, rfl⟩, (hmap found).symm⟩

/-- A call looks for the function, counts and evaluates the arguments, and then runs the body. -/
theorem evaluates_call_iff (hname : Ordinary callee) :
    Evaluates n (.call callee args) s r story s' ↔
      andThen (looks (routineFor callee args.length)) (fun routine =>
        andThen (Values n args) fun values => map .value (enters n routine values)) s r
          story s' := by
  constructor
  · intro h
    cases h with
    | output hshouts | outputFailed hshouts => exact absurd hshouts (hname.1 _)
    | input | inputRefused | inputFailed => exact absurd rfl hname.2
    | unknownFunction _ hnone =>
      exact (andThen_looks_of_error (routineFor_of_none hnone)).2 ⟨rfl, rfl, rfl⟩
    | argumentCount _ hroutine hcount =>
      exact (andThen_looks_of_error (routineFor_of_ne hroutine hcount)).2 ⟨rfl, rfl, rfl⟩
    | argumentFailed _ hroutine hcount hargs =>
      refine (andThen_looks_of_ok (routineFor_of_eq hroutine hcount)).2 ?_
      exact .inr ⟨_, hargs, rfl⟩
    | call _ hroutine hcount hargs htable hbody =>
      refine (andThen_looks_of_ok (routineFor_of_eq hroutine hcount)).2 ?_
      exact .inl ⟨_, _, _, _, hargs, map_enters_iff.2 ⟨_, _, _, htable, hbody, rfl, rfl⟩, rfl⟩
  · intro h
    cases hroutine : s.frame.function? callee with
    | none =>
      obtain ⟨rfl, rfl, rfl⟩ := (andThen_looks_of_error (routineFor_of_none hroutine)).1 h
      exact .unknownFunction hname hroutine
    | some routine =>
      by_cases hcount : routine.params.length = args.length
      · rcases (andThen_looks_of_ok (routineFor_of_eq hroutine hcount)).1 h with
          ⟨values, middle, first, second, hargs, henters, rfl⟩ | ⟨fault, hargs, rfl⟩
        · obtain ⟨table, found, inner, htable, hbody, rfl, rfl⟩ := map_enters_iff.1 henters
          cases n with
          | zero => cases hbody
          | succ n => exact .call hname hroutine hcount hargs htable hbody
        · exact .argumentFailed hname hroutine hcount hargs
      · obtain ⟨rfl, rfl, rfl⟩ :=
          (andThen_looks_of_error (routineFor_of_ne hroutine hcount)).1 h
        exact .argumentCount hname hroutine hcount

end Hallo.Semantics
