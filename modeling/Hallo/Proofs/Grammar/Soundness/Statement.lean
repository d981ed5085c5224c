import Hallo.Proofs.Grammar.Soundness.Expression

/-!
Whatever a reader of statements takes from a feed, the grammar derives, with the trees that were
read; and a program is read from a whole feed.
-/
namespace Hallo.Parser

open Grammar

variable {feed rest : Feed}

/-- Parameters are distinct from each other and from those seen before. -/
theorem parameterNames_sound {rounds : Nat} {seen names : List String} (hproper : feed.Proper)
    (hread : parameterNames rounds seen feed = .ok (names, rest)) :
    ∃ ts, feed.Takes ts rest ∧ Names ts names ∧ names.Nodup ∧ ∀ name ∈ names, name ∉ seen := by
  induction rounds generalizing feed seen names with
  | zero => exact absurd hread refuse_ne_ok
  | succ rounds ih =>
    rw [parameterNames] at hread
    simp only [bind_eq_ok_iff] at hread
    obtain ⟨token, _, hcurrent, name, _, hname, hread⟩ := hread
    obtain ⟨htoken, rfl⟩ := current_eq_ok_iff.1 hcurrent
    have hfirst := takes_of_expectName hproper hname
    have hmiddle := hfirst.proper hproper
    by_cases hseen : name ∈ seen
    · simp only [hseen, if_true, bind_eq_ok_iff] at hread
      obtain ⟨_, _, hthrow, _⟩ := hread
      cases hthrow
    · simp only [hseen, if_false, bind_eq_ok_iff] at hread
      obtain ⟨comma, _, hsees, hread⟩ := hread
      obtain ⟨_, _, _, rfl⟩ := sees_eq_ok_iff.1 hsees
      cases comma with
      | false =>
        obtain ⟨rfl, rfl⟩ := pure_eq_ok_iff.1 hread
        exact ⟨_, hfirst, .last name, by simp, by simpa using hseen⟩
      | true =>
        simp only [if_true, bind_eq_ok_iff] at hread
        obtain ⟨_, _, hadvance, others, _, hothers, hpure⟩ := hread
        obtain ⟨rfl, rfl⟩ := pure_eq_ok_iff.1 hpure
        have hcomma := takes_of_sees hmiddle (by decide) hsees hadvance
        obtain ⟨ts, hts, hspells, hnodup, hfresh⟩ := ih (hcomma.proper hmiddle) hothers
        refine ⟨_, hfirst.trans (hcomma.trans hts), .more name hspells, ?_, ?_⟩
        · refine List.nodup_cons.2 ⟨fun hmem => ?_, hnodup⟩
          exact hfresh name hmem List.mem_cons_self
        · intro other hmem
          rcases List.mem_cons.1 hmem with rfl | hmem
          · exact hseen
          · exact fun hold => hfresh other hmem (List.mem_cons_of_mem name hold)

theorem parameters_sound :
    Sound parameters fun ts params => Parameters ts params ∧ params.Nodup := by
  intro feed rest params hproper hread
  unfold parameters at hread
  simp only [bind_eq_ok_iff] at hread
  obtain ⟨_, inside, hopen, seen, _, hsees, hread⟩ := hread
  obtain ⟨_, _, _, rfl⟩ := sees_eq_ok_iff.1 hsees
  have hparen := takes_of_expect hproper (by decide) hopen
  have hinside := hparen.proper hproper
  cases seen with
  | true =>
    simp only [if_true, bind_eq_ok_iff] at hread
    obtain ⟨_, _, hadvance, hpure⟩ := hread
    obtain ⟨rfl, rfl⟩ := pure_eq_ok_iff.1 hpure
    have hclose := takes_of_sees hinside (by decide) hsees hadvance
    exact ⟨_, hparen.trans hclose, .none, List.nodup_nil⟩
  | false =>
    simp only [Bool.false_eq_true, if_false, bind_eq_ok_iff] at hread
    obtain ⟨names, _, hnames, _, _, hclose, hpure⟩ := hread
    obtain ⟨rfl, rfl⟩ := pure_eq_ok_iff.1 hpure
    obtain ⟨ts, hts, hspells, hnodup, _⟩ := parameterNames_sound hinside hnames
    have hcloses := takes_of_expect (hts.proper hinside) (by decide) hclose
    exact ⟨_, hparen.trans (hts.trans hcloses), .some hspells, hnodup⟩

/-- Lexemes of a statement, or none where there is no statement. -/
def SpellsStatement (ts : List Lexeme) : Option Node → Prop
  | none => ts = []
  | some node => Statement ts node

theorem moreStatements_sound {statement : Parser (Option Node)}
    (hstatement : Sound statement SpellsStatement) (rounds : Nat) :
    Sound (moreStatements statement rounds) Following := by
  induction rounds with
  | zero =>
    intro feed rest nodes hproper hread
    obtain ⟨rfl, rfl⟩ := pure_eq_ok_iff.1 hread
    exact ⟨[], .refl feed, .done⟩
  | succ rounds ih =>
    intro feed rest nodes hproper hread
    rw [moreStatements, bind_eq_ok_iff] at hread
    obtain ⟨seen, _, hsees, hread⟩ := hread
    obtain ⟨_, _, _, rfl⟩ := sees_eq_ok_iff.1 hsees
    cases seen with
    | false =>
      obtain ⟨rfl, rfl⟩ := pure_eq_ok_iff.1 hread
      exact ⟨[], .refl feed, .done⟩
    | true =>
      simp only [if_true, bind_eq_ok_iff] at hread
      obtain ⟨_, _, hadvance, found, _, hfound, hread⟩ := hread
      have hbreak := takes_of_sees hproper (by decide) hsees hadvance
      obtain ⟨ts, hts, hspells⟩ := hstatement (hbreak.proper hproper) hfound
      have htakes := hbreak.trans hts
      cases found with
      | none =>
        obtain ⟨rfl, rfl⟩ := pure_eq_ok_iff.1 hread
        cases hspells
        exact ⟨_, htakes, .lineBreak⟩
      | some node =>
        simp only [bind_eq_ok_iff] at hread
        obtain ⟨others, _, hothers, hpure⟩ := hread
        obtain ⟨rfl, rfl⟩ := pure_eq_ok_iff.1 hpure
        obtain ⟨us, hus, hfollowing⟩ := ih (htakes.proper hproper) hothers
        exact ⟨_, htakes.trans hus, .more hspells hfollowing⟩

theorem statements_sound {statement : Parser (Option Node)}
    (hstatement : Sound statement SpellsStatement) : Sound (statements statement) Statements := by
  intro feed rest nodes hproper hread
  unfold statements at hread
  simp only [bind_eq_ok_iff] at hread
  obtain ⟨found, _, hfound, others, _, hothers, hpure⟩ := hread
  obtain ⟨rfl, rfl⟩ := pure_eq_ok_iff.1 hpure
  obtain ⟨ts, hts, hspells⟩ := hstatement hproper hfound
  obtain ⟨us, hus, hfollowing⟩ := moreStatements_sound hstatement _ (hts.proper hproper) hothers
  refine ⟨_, hts.trans hus, ?_⟩
  cases found with
  | none =>
    cases hspells
    exact .empty hfollowing
  | some node => exact .first hspells hfollowing

theorem block_sound {statement : Parser (Option Node)}
    (hstatement : Sound statement SpellsStatement) : Sound (block statement) Block := by
  intro feed rest node hproper hread
  unfold block at hread
  simp only [bind_eq_ok_iff] at hread
  obtain ⟨_, _, hopen, nodes, _, hnodes, _, _, hclose, hpure⟩ := hread
  obtain ⟨rfl, rfl⟩ := pure_eq_ok_iff.1 hpure
  have hopens := takes_of_expect hproper (by decide) hopen
  obtain ⟨ts, hts, hspells⟩ := statements_sound hstatement (hopens.proper hproper) hnodes
  have hcloses := takes_of_expect ((hopens.trans hts).proper hproper) (by decide) hclose
  exact ⟨_, hopens.trans (hts.trans hcloses), .block hspells⟩

/-- A condition and a block, as branches and loops have them. -/
theorem guarded_sound {statement : Parser (Option Node)} {build : Node → Node → Node} {l : Lexeme}
    {middle : Feed} {found : Option Node} (hstatement : Sound statement SpellsStatement)
    (hproper : feed.Proper) (htakes : feed.Takes [l] middle)
    (hbuild : ∀ {ts us test body}, Expression ts test → Block us body →
      Statement (l :: (ts ++ us)) (build test body))
    (hread : (do
      let condition ← expression
      let body ← block statement
      return some (build condition body) : Parser (Option Node)) middle = .ok (found, rest)) :
    ∃ ts, feed.Takes ts rest ∧ SpellsStatement ts found := by
  simp only [bind_eq_ok_iff] at hread
  obtain ⟨test, _, htest, body, _, hbody, hpure⟩ := hread
  obtain ⟨rfl, rfl⟩ := pure_eq_ok_iff.1 hpure
  have hmiddle := htakes.proper hproper
  obtain ⟨ts, hts, hcondition⟩ := expression_sound hmiddle htest
  obtain ⟨us, hus, hblock⟩ := block_sound hstatement (hts.proper hmiddle) hbody
  have hspells := hbuild hcondition hblock
  exact ⟨_, htakes.trans (hts.trans hus), hspells⟩

/-- What may stand behind the name that begins a statement. -/
theorem named_sound {name : String} {middle : Feed} {found : Option Node} (hproper : feed.Proper)
    (hname : feed.Takes [.name name] middle)
    (hread : (do
      if ← sees (.mark .assign) then
        advance
        let value ← expression
        return some (.assign name value)
      else if ← sees (.mark .parenOpen) then
        let arguments ← arguments expression
        return some (.call name arguments)
      else
        refuse .assignOrCall : Parser (Option Node)) middle = .ok (found, rest)) :
    ∃ ts, feed.Takes ts rest ∧ SpellsStatement ts found := by
  have hmiddle := hname.proper hproper
  rw [bind_eq_ok_iff] at hread
  obtain ⟨assigns, _, hassign, hread⟩ := hread
  obtain ⟨_, _, _, rfl⟩ := sees_eq_ok_iff.1 hassign
  cases assigns with
  | true =>
    simp only [if_true, bind_eq_ok_iff] at hread
    obtain ⟨_, _, hadvance, value, _, hvalue, hpure⟩ := hread
    obtain ⟨rfl, rfl⟩ := pure_eq_ok_iff.1 hpure
    have hsign := takes_of_sees hmiddle (by decide) hassign hadvance
    obtain ⟨ts, hts, hspells⟩ := expression_sound (hsign.proper hmiddle) hvalue
    exact ⟨_, hname.trans (hsign.trans hts), .assign name hspells⟩
  | false =>
    simp only [Bool.false_eq_true, if_false] at hread
    rw [bind_eq_ok_iff] at hread
    obtain ⟨calls, _, hcall, hread⟩ := hread
    obtain ⟨_, _, _, rfl⟩ := sees_eq_ok_iff.1 hcall
    cases calls with
    | true =>
      simp only [if_true, bind_eq_ok_iff] at hread
      obtain ⟨args, _, hargs, hpure⟩ := hread
      obtain ⟨rfl, rfl⟩ := pure_eq_ok_iff.1 hpure
      obtain ⟨ts, hts, hspells⟩ := arguments_sound expression_sound hmiddle hargs
      exact ⟨_, hname.trans hts, .call name hspells⟩
    | false =>
      simp only [Bool.false_eq_true, if_false] at hread
      exact absurd hread refuse_ne_ok

theorem statement_sound (depth : Nat) : Sound (statement depth) SpellsStatement := by
  induction depth with
  | zero =>
    intro feed rest found hproper hread
    obtain ⟨rfl, rfl⟩ := pure_eq_ok_iff.1 hread
    exact ⟨[], .refl feed, rfl⟩
  | succ depth ih =>
    intro feed rest found hproper hread
    rw [statement, bind_eq_ok_iff] at hread
    obtain ⟨token, _, hcurrent, hread⟩ := hread
    obtain ⟨htoken, rfl⟩ := current_eq_ok_iff.1 hcurrent
    cases hlexeme : token.lexeme with
    | name name =>
      simp only [hlexeme] at hread
      rw [bind_eq_ok_iff] at hread
      obtain ⟨_, middle, hadvance, hread⟩ := hread
      have hname := takes_of_advance hproper htoken (by simp [hlexeme]) hadvance
      rw [hlexeme] at hname
      exact named_sound hproper hname hread
    | keyword k =>
      cases k with
      | branch =>
        simp only [hlexeme] at hread
        rw [bind_eq_ok_iff] at hread
        obtain ⟨_, _, hadvance, hread⟩ := hread
        have hkeyword := takes_of_advance hproper htoken (by simp [hlexeme]) hadvance
        exact guarded_sound ih hproper (hlexeme ▸ hkeyword) .branch hread
      | loop =>
        simp only [hlexeme] at hread
        rw [bind_eq_ok_iff] at hread
        obtain ⟨_, _, hadvance, hread⟩ := hread
        have hkeyword := takes_of_advance hproper htoken (by simp [hlexeme]) hadvance
        exact guarded_sound ih hproper (hlexeme ▸ hkeyword) .loop hread
      | function =>
        simp only [hlexeme, bind_eq_ok_iff] at hread
        obtain ⟨_, _, hadvance, name, _, hname, params, _, hparams, body, _, hbody, hpure⟩ := hread
        obtain ⟨rfl, rfl⟩ := pure_eq_ok_iff.1 hpure
        have hkeyword := takes_of_advance hproper htoken (by simp [hlexeme]) hadvance
        have hnamed := hkeyword.trans (takes_of_expectName (hkeyword.proper hproper) hname)
        obtain ⟨ts, hts, hspells, hnodup⟩ := parameters_sound (hnamed.proper hproper) hparams
        obtain ⟨us, hus, hblock⟩ := block_sound ih ((hnamed.trans hts).proper hproper) hbody
        have hdeclare := Statement.declare name hspells hnodup hblock
        rw [hlexeme] at hnamed
        exact ⟨_, hnamed.trans (hts.trans hus), hdeclare⟩
      | assignTarget =>
        simp only [hlexeme, bind_eq_ok_iff] at hread
        obtain ⟨_, _, hadvance, name, _, hname, _, _, hauf, value, _, hvalue, hpure⟩ := hread
        obtain ⟨rfl, rfl⟩ := pure_eq_ok_iff.1 hpure
        have hkeyword := takes_of_advance hproper htoken (by simp [hlexeme]) hadvance
        have hnamed := hkeyword.trans (takes_of_expectName (hkeyword.proper hproper) hname)
        have hto := hnamed.trans (takes_of_expect (hnamed.proper hproper) (by decide) hauf)
        obtain ⟨ts, hts, hspells⟩ := expression_sound (hto.proper hproper) hvalue
        rw [hlexeme] at hto
        exact ⟨_, hto.trans hts, .assignTo name hspells⟩
      | giveBack =>
        simp only [hlexeme, bind_eq_ok_iff] at hread
        obtain ⟨_, _, hadvance, value, _, hvalue, hpure⟩ := hread
        obtain ⟨rfl, rfl⟩ := pure_eq_ok_iff.1 hpure
        have hkeyword := takes_of_advance hproper htoken (by simp [hlexeme]) hadvance
        obtain ⟨ts, hts, hspells⟩ := expression_sound (hkeyword.proper hproper) hvalue
        rw [hlexeme] at hkeyword
        exact ⟨_, hkeyword.trans hts, .giveBack hspells⟩
      | greeting | farewell | blockOpen | blockClose | assignValue | equals | less | greater =>
        simp only [hlexeme] at hread
        obtain ⟨rfl, rfl⟩ := pure_eq_ok_iff.1 hread
        exact ⟨[], .refl feed, rfl⟩
    | integer | text | boolean | mark | endOfInput =>
      simp only [hlexeme] at hread
      obtain ⟨rfl, rfl⟩ := pure_eq_ok_iff.1 hread
      exact ⟨[], .refl feed, rfl⟩

/-- A program that was read to its end is derived from all lexemes of the feed. -/
theorem program_sound {nodes : List Node} (hproper : feed.Proper)
    (hread : program feed = .ok (nodes, rest)) :
    (∃ finish, feed.ending = .ok finish) ∧ Program (feed.lexemes ++ [.endOfInput]) nodes := by
  unfold program at hread
  simp only [bind_eq_ok_iff] at hread
  obtain ⟨_, _, hgreet, _, _, hbreak, found, body, hbody, _, last, hleave, _, _, hend,
    hpure⟩ := hread
  obtain ⟨rfl, rfl⟩ := pure_eq_ok_iff.1 hpure
  have hhallo := takes_of_expect hproper (by decide) hgreet
  have hopen := hhallo.trans (takes_of_expect (hhallo.proper hproper) (by decide) hbreak)
  obtain ⟨ts, hts, hspells⟩ :=
    statements_sound (statement_sound _) (hopen.proper hproper) hbody
  have hinner := hopen.trans hts
  have hall := hinner.trans (takes_of_expect (hinner.proper hproper) (by decide) hleave)
  obtain ⟨token, htoken, hsame, _⟩ := sees_eq_ok_iff.1 (expect_eq_ok hend).1
  obtain ⟨hnil, hending⟩ := (hall.proper hproper).ending_of_endOfInput htoken (by simpa using hsame)
  refine ⟨⟨token, hall.ending_eq ▸ hending⟩, ?_⟩
  rw [hall.lexemes_eq, hnil]
  simpa using Program.program hspells

end Hallo.Parser
