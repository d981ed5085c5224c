import Hallo.Proofs.Evaluator.Safe
import Hallo.Shell
import Mathlib

/-!
The exit code of a run. A program never brings out a defect of the interpreter, so the code for
internal errors is left to numbers beyond the digit limit.
-/
namespace Hallo

namespace Shell

/-- The code that a fault is reported with. -/
theorem code_report (mood : Mood) (fault : Fault) :
    (report mood fault).2 =
      match fault with
      | .parse error => if error.aboutNumeral then 2 else 1
      | .violation _ => 1
      | .wrongAnswer _ _ => 3
      | .unwritable _ | .zeroDivisor | .emptyCallStack => 2 := by
  unfold report
  cases fault with
  | parse error =>
    dsimp only
    split <;> rfl
  | _ => rfl

theorem report_of_ordinary {fault : Fault} (hfault : fault.Ordinary) (mood : Mood) :
    (report mood fault).2 ≠ 2 := by
  rw [code_report]
  cases fault with
  | parse error =>
    have hnumeral : error.aboutNumeral = false := hfault
    simp [hnumeral]
  | violation | wrongAnswer => simp
  | unwritable | zeroDivisor | emptyCallStack => cases hfault

theorem report_of_atDigitLimit {fault : Fault} (hfault : fault.AtDigitLimit) (mood : Mood) :
    (report mood fault).2 = 2 := by
  rw [code_report]
  cases fault with
  | parse error =>
    cases error with
    | unexpected => cases hfault
    | scan error =>
      obtain ⟨count, hcomplaint, _⟩ := hfault
      simp [ParseError.aboutNumeral, hcomplaint, Complaint.aboutNumeral]
  | unwritable reason => rfl
  | violation | wrongAnswer | zeroDivisor | emptyCallStack => cases hfault

/-- A run that does not succeed has the code of the fault that it failed with. -/
theorem interpret_eq_some_iff {limit rounds : Nat} {strict : Bool} {source : String} {desk : Desk}
    {code : Nat} (hcode : code ≠ 0) :
    (interpret limit rounds strict source desk).1 = some code ↔
      ∃ fault after, Run.on (Run.sourceWithin limit rounds source)
          (.start strict desk.dice desk.clock desk.input) = (.error (.fault fault), after) ∧
        (report after.worker.mood fault).2 = code := by
  simp only [interpret, Run.on]
  rcases Run.sourceWithin limit rounds source (.start strict desk.dice desk.clock desk.input) with
    ⟨value, after⟩ | ⟨fault | _, after⟩
  · simp [hcode.symm]
  · constructor
    · exact fun hreport => ⟨fault, after, rfl, by simpa using hreport⟩
    · rintro ⟨_, _, hrun, hreport⟩
      cases hrun
      simpa using hreport
  · simp

/-- A run is reported as an internal error exactly if it failed with a fault that is reported so. -/
theorem interpret_eq_two_iff {limit rounds : Nat} {strict : Bool} {source : String} {desk : Desk} :
    (interpret limit rounds strict source desk).1 = some 2 ↔
      ∃ fault after, Run.on (Run.sourceWithin limit rounds source)
          (.start strict desk.dice desk.clock desk.input) = (.error (.fault fault), after) ∧
        (report after.worker.mood fault).2 = 2 :=
  interpret_eq_some_iff (by decide)

/-- Only a wrong answer to the worker has the code of an abort. -/
theorem interpret_eq_three_iff {limit rounds : Nat} {strict : Bool} {source : String}
    {desk : Desk} :
    (interpret limit rounds strict source desk).1 = some 3 ↔
      ∃ value answer after, Run.on (Run.sourceWithin limit rounds source)
          (.start strict desk.dice desk.clock desk.input) =
        (.error (.fault (.wrongAnswer value answer)), after) := by
  rw [interpret_eq_some_iff (by decide)]
  constructor
  · rintro ⟨fault, after, hrun, hreport⟩
    rw [code_report] at hreport
    cases fault with
    | wrongAnswer value answer => exact ⟨value, answer, after, hrun⟩
    | parse error =>
      dsimp only at hreport
      split at hreport <;> cases hreport
    | violation | unwritable | zeroDivisor | emptyCallStack => cases hreport
  · rintro ⟨value, answer, after, hrun⟩
    exact ⟨_, after, hrun, rfl⟩

end Shell

namespace Run

/-- No source reaches a defect of the interpreter, whatever was run before on the same machine. A
    run that fails has met a text that is no program, a broken rule that programs can break, a wrong
    answer, or the digit limit; and only the last of these is reported as an internal error. -/
theorem programs_fail_ordinarily :
    (∀ (limit rounds : Nat) (sources : List String) (m after : Machine)
      (endings : List (Except Halt Value)) (fault : Fault), m.stack = {} → m.log = [] →
        m.perform limit rounds (sources.map .source) = (endings, after) →
          .error (.fault fault) ∈ endings → fault.Ordinary ∨ fault.AtDigitLimit) ∧
    (∀ (limit rounds : Nat) (strict : Bool) (source : String) (desk : Shell.Desk),
      (Shell.interpret limit rounds strict source desk).1 = some 2 ↔
        ∃ fault after, on (Run.sourceWithin limit rounds source)
            (.start strict desk.dice desk.clock desk.input) = (.error (.fault fault), after) ∧
          fault.AtDigitLimit) := by
  constructor
  · intro limit rounds sources m after endings fault hstack hlog hperform hmem
    obtain ⟨_, hendings⟩ := (Machine.WellFormed.of_fresh hstack hlog).perform hperform
    exact hendings _ hmem
  · intro limit rounds strict source desk
    rw [Shell.interpret_eq_two_iff]
    refine exists₂_congr fun fault after => and_congr_right fun hon => ?_
    have hfresh : (Machine.start strict desk.dice desk.clock desk.input).WellFormed :=
      .of_fresh rfl rfl
    obtain ⟨_, hfault⟩ := Safe.sourceWithin limit rounds source hfresh hon
    constructor
    · exact fun hreport => hfault.resolve_left fun hordinary =>
        Shell.report_of_ordinary hordinary _ hreport
    · exact fun hlimit => Shell.report_of_atDigitLimit hlimit _

set_option maxRecDepth 2000 in
/-- A function that an earlier run has declared divides by zero. -/
theorem programs_fail_ordinarily_division :
    ∃ after : Machine,
      (Machine.start true (Dice.cycling []) (Clock.ticking 0 1) []).perform 1 0
          (["hallo\nfunny f() avo x = 1 / 0 cado\nreicht dann auch mal",
            "hallo\nf()\nreicht dann auch mal"].map .source) =
        ([.ok .nothing, .error (.fault (.violation .divisionByZero))], after) ∧
      ((Fault.violation .divisionByZero).Ordinary ∨
        (Fault.violation .divisionByZero).AtDigitLimit) := by
  have hdeclares : Node.parse "hallo\nfunny f() avo x = 1 / 0 cado\nreicht dann auch mal" =
      .ok [.declare "f" []
        (.block [.assign "x" (.binary (.literal (.integer 1)) "/" (.literal (.integer 0)))])] := by
    cbv
  have hcalls : Node.parse "hallo\nf()\nreicht dann auch mal" = .ok [.call "f" []] := by
    cbv
  obtain ⟨middle, after, hfirst, hsecond⟩ : ∃ middle after,
      on ((Job.source "hallo\nfunny f() avo x = 1 / 0 cado\nreicht dann auch mal").run 1 0)
          (.start true (Dice.cycling []) (Clock.ticking 0 1) []) = (.ok .nothing, middle) ∧
      on ((Job.source "hallo\nf()\nreicht dann auch mal").run 1 0) middle =
        (.error (.fault (.violation .divisionByZero)), after) := by
    simp only [Job.run, Run.sourceWithin, hdeclares, hcalls]
    exact ⟨_, _, by cbv, by cbv⟩
  have hperform := Machine.perform_cons hfirst
    (Machine.perform_cons hsecond (Machine.perform_nil 1 0 after))
  exact ⟨after, hperform,
    programs_fail_ordinarily.1 1 0 [_, _] _ _ _ _ rfl rfl hperform (by simp)⟩

end Run

end Hallo
