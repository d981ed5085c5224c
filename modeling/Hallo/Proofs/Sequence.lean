import Hallo.Proofs.Run

/-!
Several runs on one machine. Whatever a run has left, and however it ended, the next one starts
with it.
-/
namespace Hallo

/-- What a machine can be given to run: the source of a program, or a tree that was built by
    hand. -/
inductive Job where
  | source (text : String)
  | tree (node : Node)
  deriving DecidableEq, Repr

/-- Run a job, with at most `limit` calls inside each other and so many rounds granted to each of
    its loops. -/
def Job.run (limit rounds : Nat) : Job → Run Value
  | .source text => Run.sourceWithin limit rounds text
  | .tree node => node.evaluateWithin limit rounds

namespace Machine

/-- Run jobs one after the other. Tells how each of them ended, in order, and what the machine is
    like behind the last. -/
def perform (limit rounds : Nat) : List Job → Machine → List (Except Halt Value) × Machine
  | [], m => ([], m)
  | job :: jobs, m =>
    let (ending, middle) := Run.on (job.run limit rounds) m
    let (endings, after) := perform limit rounds jobs middle
    (ending :: endings, after)

@[simp] theorem perform_nil (limit rounds : Nat) (m : Machine) :
    m.perform limit rounds [] = ([], m) := rfl

theorem perform_cons {limit rounds : Nat} {job : Job} {jobs : List Job} {m middle after : Machine}
    {ending : Except Halt Value} {endings : List (Except Halt Value)}
    (hfirst : Run.on (job.run limit rounds) m = (ending, middle))
    (hothers : middle.perform limit rounds jobs = (endings, after)) :
    m.perform limit rounds (job :: jobs) = (ending :: endings, after) := by
  rw [perform, hfirst]
  simp only [hothers]

/-- What every run keeps, sequences of runs keep; what every run ends in, each of them ends in. -/
theorem perform_induction {I : Machine → Prop} {Q : Except Halt Value → Prop}
    {limit rounds : Nat} {jobs : List Job} {m after : Machine} {endings : List (Except Halt Value)}
    (hrun : ∀ job ∈ jobs, ∀ {m after : Machine} {ending : Except Halt Value}, I m →
      Run.on (job.run limit rounds) m = (ending, after) → I after ∧ Q ending)
    (hm : I m) (hperform : m.perform limit rounds jobs = (endings, after)) :
    I after ∧ ∀ ending ∈ endings, Q ending := by
  induction jobs generalizing m endings with
  | nil =>
    cases hperform
    exact ⟨hm, by simp⟩
  | cons job jobs ih =>
    rcases hfirst : Run.on (job.run limit rounds) m with ⟨ending, middle⟩
    rcases hothers : middle.perform limit rounds jobs with ⟨others, last⟩
    rw [perform_cons hfirst hothers] at hperform
    cases hperform
    obtain ⟨hmiddle, hending⟩ := hrun job List.mem_cons_self hm hfirst
    obtain ⟨hafter, hendings⟩ :=
      ih (fun other hmem => hrun other (List.mem_cons_of_mem job hmem)) hmiddle hothers
    exact ⟨hafter, by simpa using ⟨hending, hendings⟩⟩

end Machine

end Hallo
