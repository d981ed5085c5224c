import Hallo.Proofs.Node.Printing

/-!
Writing the parts of programs. Whatever names they use, the expressions, statements and bodies of
programs can be written: a literal was short enough to be read.
-/
namespace Hallo.Node

/-- The trees that a program is made of. -/
inductive InProgram : Node → Prop where
  | expression {t : Node} (hexpression : IsExpression t) : InProgram t
  | statement {t : Node} (hstatement : IsStatement t) : InProgram t
  | block {statements : List Node} (hstatements : ∀ t ∈ statements, IsStatement t) :
      InProgram (.block statements)

/-- A tree that has a canonical source. -/
def Writable (t : Node) : Prop :=
  ∃ text, t.source = .ok text

theorem exists_sources {nodes : List Node} (hnodes : ∀ t ∈ nodes, Writable t) :
    ∃ texts, sources nodes = .ok texts := by
  induction nodes with
  | nil => exact ⟨[], rfl⟩
  | cons t nodes ih =>
    obtain ⟨text, htext⟩ := hnodes t List.mem_cons_self
    obtain ⟨texts, htexts⟩ := ih fun other hmem => hnodes other (List.mem_cons_of_mem t hmem)
    exact ⟨text :: texts, by rw [sources, htext, htexts]; rfl⟩

theorem writable_call {callee : String} {arguments : List Node}
    (harguments : ∀ t ∈ arguments, Writable t) :
    Writable (.call callee arguments) := by
  obtain ⟨texts, htexts⟩ := exists_sources harguments
  exact ⟨_, by rw [source, htexts]; rfl⟩

theorem writable_block {statements : List Node} (hstatements : ∀ t ∈ statements, Writable t) :
    Writable (.block statements) := by
  obtain ⟨texts, htexts⟩ := exists_sources hstatements
  exact ⟨_, by rw [source, htexts]; rfl⟩

theorem IsExpression.writable {t : Node} (hexpression : IsExpression t) : Writable t := by
  induction hexpression with
  | literal hvalue =>
    obtain ⟨text, _, htext, _⟩ := printed_literal hvalue
    exact ⟨text, htext⟩
  | var _ => exact ⟨_, rfl⟩
  | unary _ _ ih =>
    obtain ⟨text, htext⟩ := ih
    exact ⟨_, by rw [source, htext]; rfl⟩
  | binary _ _ _ ihleft ihright =>
    obtain ⟨first, hfirst⟩ := ihleft
    obtain ⟨second, hsecond⟩ := ihright
    exact ⟨_, by rw [source, hfirst, hsecond]; rfl⟩
  | compare _ _ ihleft ihright =>
    obtain ⟨first, hfirst⟩ := ihleft
    obtain ⟨second, hsecond⟩ := ihright
    exact ⟨_, by rw [source, hfirst, hsecond]; rfl⟩
  | call _ _ ih => exact writable_call ih

theorem IsStatement.writable {t : Node} (hstatement : IsStatement t) : Writable t := by
  induction hstatement with
  | call _ harguments => exact writable_call fun t hmem => (harguments t hmem).writable
  | assign _ hvalue =>
    obtain ⟨text, htext⟩ := hvalue.writable
    exact ⟨_, by rw [source, htext]; rfl⟩
  | declare _ _ _ _ ih =>
    obtain ⟨text, htext⟩ := writable_block ih
    exact ⟨_, by rw [source, htext]; rfl⟩
  | branch htest _ ih =>
    obtain ⟨first, hfirst⟩ := htest.writable
    obtain ⟨second, hsecond⟩ := writable_block ih
    exact ⟨_, by rw [source, hfirst, hsecond]; rfl⟩
  | loop htest _ ih =>
    obtain ⟨first, hfirst⟩ := htest.writable
    obtain ⟨second, hsecond⟩ := writable_block ih
    exact ⟨_, by rw [source, hfirst, hsecond]; rfl⟩
  | giveBack hvalue =>
    obtain ⟨text, htext⟩ := hvalue.writable
    exact ⟨_, by rw [source, htext]; rfl⟩

/-- Every part of a program can be written. -/
theorem InProgram.writable {t : Node} (ht : InProgram t) : Writable t := by
  cases ht with
  | expression hexpression => exact hexpression.writable
  | statement hstatement => exact hstatement.writable
  | block hstatements => exact writable_block fun t hmem => (hstatements t hmem).writable

end Hallo.Node
