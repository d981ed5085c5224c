import Hallo.Proofs.Grammar.Soundness.Statement
import Hallo.Proofs.Grammar.ViablePrefix.Expression
import Mathlib.Data.List.Nodup

/-!
What stands before the point where a reader of statements gives up can be completed to a program.
The one exception is a repeated parameter, which is complained about only when the characters behind
it could be read.
-/
namespace Hallo

/-- There are names enough: one letter over and over, more often than any of the others is long. -/
theorem exists_isName (names : List String) : ∃ name, IsName name ∧ name ∉ names := by
  obtain ⟨n, hn⟩ : ∃ n, ∀ name ∈ names, name.toList.length ≤ n := by
    induction names with
    | nil => exact ⟨0, by simp⟩
    | cons name names ih =>
      obtain ⟨n, hn⟩ := ih
      refine ⟨max name.toList.length n, ?_⟩
      intro other hmem
      rcases List.mem_cons.1 hmem with rfl | hmem
      · exact Nat.le_max_left _ _
      · exact Nat.le_trans (hn other hmem) (Nat.le_max_right _ _)
  refine ⟨String.ofList ('x' :: List.replicate n 'x'), ?_, fun hmem => ?_⟩
  · refine ⟨'x', List.replicate n 'x', String.toList_ofList, by decide, by decide, ?_, ?_⟩
    · intro c hmem
      obtain rfl := List.eq_of_mem_replicate hmem
      decide
    · intro k hbegins
      have hfirst : k.text.toList.head? ≠ some 'x' := by cases k <;> decide
      rw [String.toList_ofList] at hbegins
      cases htext : k.text.toList with
      | nil => exact k.toList_text_ne_nil htext
      | cons c rest =>
        rw [htext] at hbegins hfirst
        exact hfirst (congrArg some (List.cons_prefix_cons.1 hbegins).1)
  · have hlong := hn _ hmem
    rw [String.toList_ofList, List.length_cons, List.length_replicate] at hlong
    omega

namespace Grammar

/-- Parameters each with a comma behind it, in reverse. -/
inductive NamesSoFar : List Lexeme → List String → Prop where
  | none : NamesSoFar [] []
  | more {ts : List Lexeme} {names : List String} (name : String) :
      NamesSoFar ts names → NamesSoFar (ts ++ [.name name, .mark .comma]) (name :: names)

theorem NamesSoFar.append {ts us : List Lexeme} {seen names : List String}
    (hseen : NamesSoFar ts seen) (hnames : Names us names) :
    Names (ts ++ us) (seen.reverse ++ names) := by
  induction hseen generalizing us names with
  | none => exact hnames
  | more name hseen ih => simpa using ih (.more name hnames)

theorem NamesSoFar.last {ts : List Lexeme} {seen : List String} (hseen : NamesSoFar ts seen)
    (name : String) : Names (ts ++ [.name name]) (name :: seen).reverse := by
  rw [List.reverse_cons]
  exact hseen.append (.last name)

/-- A repeated name has a comma before it, and before that all the names so far. -/
theorem NamesSoFar.exists_names {ts : List Lexeme} {seen : List String} {name : String}
    (hseen : NamesSoFar ts seen) (hmem : name ∈ seen) :
    ∃ us names, ts = us ++ [.mark .comma] ∧ Names us names ∧ name ∈ names := by
  cases hseen with
  | none => cases hmem
  | more last hseen => exact ⟨_, _, by simp, hseen.last last, List.mem_reverse.2 hmem⟩

/-- The beginning of a declaration, up to the names of its parameters. -/
def declaring (name : String) (ts : List Lexeme) : List Lexeme :=
  .keyword .function :: .name name :: .mark .parenOpen :: ts

theorem Names.viable {ts : List Lexeme} {names : List String} {name : String} {error : ParseError}
    (more : List Lexeme) (hmore : ∀ l ∈ more, l.Plausible) (hnames : Names (ts ++ more) names)
    (hnodup : names.Nodup) : Viable Statement error (declaring name ts) := by
  have hstatement := Statement.declare name (.some hnames) hnodup (.block (.empty .done))
  refine .completed (more ++ [.mark .parenClose, .keyword .blockOpen, .keyword .blockClose]) ?_
    (by simpa [declaring] using hstatement)
  intro l hmem
  rcases List.mem_append.1 hmem with hmem | hmem
  · exact hmore l hmem
  · have hafter : ∀ l ∈ [Lexeme.mark .parenClose, .keyword .blockOpen, .keyword .blockClose],
        l.Plausible := by simp [Lexeme.Plausible]
    exact hafter l hmem

/-- Behind a comma there is a name that was not there before. -/
theorem NamesSoFar.viable {ts : List Lexeme} {seen : List String} {name : String}
    {error : ParseError} (hseen : NamesSoFar ts seen) (hnodup : seen.Nodup) :
    Viable Statement error (declaring name ts) := by
  obtain ⟨fresh, hfresh, hnew⟩ := exists_isName seen
  have hplausible : ∀ l ∈ [Lexeme.name fresh], l.Plausible := by
    intro l hmem
    obtain rfl := List.mem_singleton.1 hmem
    exact hfresh
  exact (hseen.last fresh).viable [.name fresh] hplausible
    (List.nodup_reverse.2 (List.nodup_cons.2 ⟨hnew, hnodup⟩))

end Grammar

namespace Parser

open Grammar

theorem PromptFrom.refuse_taken {α : Type} {token : Token} {lexeme : Lexeme}
    {good : ParseError → List Lexeme → Prop} (expected : Expectation)
    (hlexeme : token.lexeme = lexeme) (hend : lexeme ≠ .endOfInput)
    (hstart : ∀ error, good error []) (hscan : ∀ error, good (.scan error) [lexeme]) :
    PromptFrom token (advance >>= fun _ => (throw (.unexpected token expected) : Parser α))
      good := by
  subst hlexeme
  refine ⟨hstart, fun {feed error} hproper hcurrent hread => ?_⟩
  rw [advance_bind_of_ok hcurrent] at hread
  split at hread
  · cases hread
    exact ⟨[], ⟨feed, rfl, hcurrent⟩, hstart _⟩
  · rename_i hunreadable
    cases hread
    exact ⟨[token], hproper.stopsBehind_of_scan hcurrent hend hunreadable, hscan _⟩

theorem prompt_parameterNames (name : String) {ts : List Lexeme} {seen : List String}
    (hseen : NamesSoFar ts seen) (hnodup : seen.Nodup) (rounds : Nat) :
    Prompt (parameterNames rounds seen) fun error us =>
      Viable Statement error (declaring name (ts ++ us)) := by
  induction rounds generalizing ts seen with
  | zero =>
    refine fun _ => .refuse _ fun _ => ?_
    simpa using hseen.viable hnodup
  | succ rounds ih =>
    have hstart : ∀ error, Viable Statement error (declaring name (ts ++ [])) := fun error => by
      simpa using hseen.viable hnodup
    intro token
    rw [parameterNames]
    refine .current ?_
    simp only [expectName, bind_assoc]
    refine .current ?_
    cases hlexeme : token.lexeme with
    | name parameter =>
      simp only [bind_assoc, pure_bind]
      by_cases hrepeats : parameter ∈ seen
      · -- The repeated name is already taken when it is refused, so the characters behind it come
        -- first.
        simp only [hrepeats, if_true]
        refine .refuse_taken .uniqueParameter hlexeme (by simp) hstart fun error =>
          .inr ⟨⟨error, rfl⟩, ?_⟩
        obtain ⟨us, names, rfl, hnames, hmem⟩ := hseen.exists_names hrepeats
        exact ⟨[], name, us, names, parameter, by simp [declaring], hnames, hmem⟩
      · simp only [hrepeats, if_false]
        have hmore : (parameter :: seen).Nodup := List.nodup_cons.2 ⟨hrepeats, hnodup⟩
        have hnames :
            ∀ error, Viable Statement error (declaring name (ts ++ [.name parameter])) := by
          intro error
          have hall := hseen.last parameter
          rw [← List.append_nil (ts ++ _)] at hall
          exact hall.viable [] (by simp) (List.nodup_reverse.2 hmore)
        refine .take hlexeme (by simp) hstart fun behind => .ifSees _ (fun hcomma => ?_) fun _ =>
          .pure hnames
        refine .take hcomma (by simp) hnames (Prompt.map ?_)
        simpa using ih (hseen.more parameter) hmore
    | _ =>
      simp only [refuse_bind]
      exact .refuse .parameterName hstart

theorem prompt_parameters (name : String) :
    Prompt parameters fun error us =>
      Viable Statement error (.keyword .function :: .name name :: us) := by
  have hempty := Statement.declare name .none List.nodup_nil (.block (.empty .done))
  have hstart : ∀ error, Viable Statement error [.keyword .function, .name name] := fun error =>
    .completed [.mark .parenOpen, .mark .parenClose, .keyword .blockOpen, .keyword .blockClose]
      (by simp [Lexeme.Plausible]) hempty
  have hopen : ∀ error, Viable Statement error [.keyword .function, .name name, .mark .parenOpen] :=
    fun error => .completed [.mark .parenClose, .keyword .blockOpen, .keyword .blockClose]
      (by simp [Lexeme.Plausible]) hempty
  refine .expect _ (by simp) hstart fun token => .ifSees _ (fun hclose => ?_) fun _ => ?_
  · refine .take hclose (by simp) hopen fun _ => .pure fun _ => ?_
    exact .completed [.keyword .blockOpen, .keyword .blockClose] (by simp [Lexeme.Plausible]) hempty
  · have hnames : Prompt (bounded fun rounds => parameterNames rounds []) fun error us =>
        Viable Statement error (.keyword .function :: .name name :: .mark .parenOpen :: us) :=
      .bounded fun rounds => prompt_parameterNames name .none List.nodup_nil rounds
    have hsound : Sound (bounded fun rounds => parameterNames rounds []) fun ts names =>
        Names ts names ∧ names.Nodup := by
      intro feed rest names hproper hread
      obtain ⟨ts, htakes, hspells, hnodup, _⟩ := parameterNames_sound hproper hread
      exact ⟨ts, htakes, hspells, hnodup⟩
    have hrelays : Relays (bounded fun rounds => parameterNames rounds []) :=
      .bounded fun rounds => .parameterNames rounds []
    refine hnames.bind hsound hrelays (fun {ts names} hspells => ?_) token
    have hclosed := Statement.declare name (.some hspells.1) hspells.2 (.block (.empty .done))
    refine .expect _ (by simp) (fun _ => ?_) fun _ => .pure fun _ => ?_
    · exact .completed [.mark .parenClose, .keyword .blockOpen, .keyword .blockClose]
        (by simp [Lexeme.Plausible]) (by simpa using hclosed)
    · exact .completed [.keyword .blockOpen, .keyword .blockClose] (by simp [Lexeme.Plausible])
        (by simpa using hclosed)

theorem SpellsStatement.following {ts : List Lexeme} {found : Option Node}
    (hspells : SpellsStatement ts found) : ∃ nodes, Following (.mark .lineBreak :: ts) nodes := by
  cases found with
  | none =>
    obtain rfl : ts = [] := hspells
    exact ⟨_, .lineBreak⟩
  | some node =>
    have hmore := Following.more hspells .done
    rw [List.append_nil] at hmore
    exact ⟨_, hmore⟩

theorem SpellsStatement.statements {ts us : List Lexeme} {found : Option Node} {nodes : List Node}
    (hspells : SpellsStatement ts found) (hothers : Following us nodes) :
    ∃ nodes, Statements (ts ++ us) nodes := by
  cases found with
  | none =>
    obtain rfl : ts = [] := hspells
    exact ⟨_, .empty hothers⟩
  | some node => exact ⟨_, .first hspells hothers⟩

namespace Reads

variable {statement : Parser (Option Node)}

theorem moreStatements (hstatement : Reads statement SpellsStatement) (rounds : Nat) :
    Reads (Parser.moreStatements statement rounds) Following := by
  refine ⟨moreStatements_sound hstatement.sound rounds, hstatement.relays.moreStatements rounds, ?_⟩
  have hstart : ∀ error, Viable Following error [] := fun _ => .of_spells .done
  induction rounds with
  | zero => exact fun _ => .pure hstart
  | succ rounds ih =>
    refine fun token => .ifSees _ (fun hbreak => ?_) fun _ => .pure hstart
    refine .take hbreak (by simp) hstart
      (hstatement.bind (fun hviable => ?_) fun {ts found} hspells => ?_)
    · exact hviable.within [_] [] (by simp) fun hspells => by simpa using hspells.following
    · cases found with
      | none =>
        obtain rfl : ts = [] := hspells
        exact fun _ => .pure fun _ => .of_spells .lineBreak
      | some node =>
        refine (ih.mono fun hviable => ?_).map
        exact hviable.within (.mark .lineBreak :: ts) [] (by simp) fun hothers =>
          ⟨_, by simpa using Following.more hspells hothers⟩

theorem statements (hstatement : Reads statement SpellsStatement) :
    Reads (Parser.statements statement) Statements where
  sound := statements_sound hstatement.sound
  relays := hstatement.relays.statements
  prompt := by
    refine hstatement.bind (fun hviable => ?_) fun {ts found} hspells => Prompt.map ?_
    · exact hviable.within [] [] (by simp) fun hspells => hspells.statements .done
    · refine .bounded fun rounds => (hstatement.moreStatements rounds).prompt.mono fun hviable => ?_
      exact hviable.within ts [] (by simp) fun hothers => by simpa using hspells.statements hothers

theorem block (hstatement : Reads statement SpellsStatement) :
    Reads (Parser.block statement) Block where
  sound := block_sound hstatement.sound
  relays := hstatement.relays.block
  prompt := by
    refine .expect _ (by simp) (fun _ => ?_)
      (hstatement.statements.bind (fun hviable => ?_) fun hnodes => ?_)
    · exact .completed [.keyword .blockOpen, .keyword .blockClose] (by simp [Lexeme.Plausible])
        (.block (.empty .done))
    · exact hviable.within [_] [.keyword .blockClose] (by simp [Lexeme.Plausible]) fun hnodes =>
        ⟨_, .block hnodes⟩
    · refine .expect _ (by simp) (fun _ => ?_) fun _ => .pure fun _ => .of_spells (.block hnodes)
      exact .completed [.keyword .blockClose] (by simp [Lexeme.Plausible])
        (by simpa using Block.block hnodes)

end Reads

/-- A condition and a block, as branches and loops have them. -/
theorem prompt_guarded {statement : Parser (Option Node)} {build : Node → Node → Node} {l : Lexeme}
    (hstatement : Reads statement SpellsStatement)
    (hbuild : ∀ {ts us test body}, Expression ts test → Block us body →
      Statement (l :: (ts ++ us)) (build test body)) :
    Prompt (do
      let condition ← expression
      let body ← block statement
      return some (build condition body) : Parser (Option Node))
      fun error us => Viable Statement error (l :: us) := by
  refine reads_expression.bind (fun hviable => ?_) fun {ts test} htest => ?_
  · exact hviable.within [l] [.keyword .blockOpen, .keyword .blockClose]
      (by simp [Lexeme.Plausible])
      fun htest => ⟨_, by simpa using hbuild htest (.block (.empty .done))⟩
  · refine (hstatement.block.prompt.mono fun hviable => ?_).map
    exact hviable.within (l :: ts) [] (by simp) fun hbody => ⟨_, by simpa using hbuild htest hbody⟩

theorem reads_statement (depth : Nat) : Reads (statement depth) SpellsStatement := by
  refine ⟨statement_sound depth, .statement depth, ?_⟩
  have hstart : ∀ error, Viable SpellsStatement error [] := fun _ => .of_spells (a := none) rfl
  have hsome : ∀ {error ts}, Viable Statement error ts → Viable SpellsStatement error ts :=
    fun hviable => hviable.within [] [] (by simp) fun {ts node} hstatement =>
      ⟨some node, (List.append_nil ts).symm ▸ hstatement⟩
  induction depth with
  | zero => exact fun _ => .pure hstart
  | succ depth ih =>
    have hstatement : Reads (statement depth) SpellsStatement :=
      ⟨statement_sound depth, .statement depth, ih⟩
    have hzero : Expression [.integer 0] _ := .term (.product (.factor (.literal (.integer 0))))
    intro token
    rw [statement]
    refine .current ?_
    cases hlexeme : token.lexeme with
    | name name =>
      have hassign : ∀ {error us}, Viable Expression error us →
          Viable Statement error (.name name :: .mark .assign :: us) := fun hviable =>
        hviable.within [_, _] [] (by simp) fun hvalue =>
          ⟨_, by simpa using Statement.assign name hvalue⟩
      have hnamed : ∀ error, Viable Statement error [.name name] := fun error =>
        .completed [.mark .assign, .integer 0] (by simp [Lexeme.Plausible, Decimal.bound_pos])
          (.assign name hzero)
      refine .take hlexeme (by simp) hstart fun behind => .ifSees _ (fun hsign => ?_) fun _ =>
        .ifSees _ (fun _ => ?_) fun _ => .refuse _ fun error => hsome (hnamed error)
      · refine .take hsign (by simp) (fun error => hsome (hnamed error)) ?_
        exact (reads_expression.prompt.mono fun hviable => hsome (hassign hviable)).map
      · refine (reads_expression.arguments.prompt.mono fun hviable => hsome ?_).map behind
        exact hviable.within [_] [] (by simp) fun hargs =>
          ⟨_, by simpa using Statement.call name hargs⟩
    | keyword keyword =>
      cases keyword with
      | branch =>
        exact .take hlexeme (by simp) hstart ((prompt_guarded hstatement .branch).mono hsome)
      | loop =>
        exact .take hlexeme (by simp) hstart ((prompt_guarded hstatement .loop).mono hsome)
      | function =>
        obtain ⟨fresh, hfresh, _⟩ := exists_isName []
        refine .take hlexeme (by simp) hstart (.expectName _ (fun error => hsome ?_) fun name => ?_)
        · refine .completed [.name fresh, .mark .parenOpen, .mark .parenClose, .keyword .blockOpen,
            .keyword .blockClose] ?_ (.declare fresh .none List.nodup_nil (.block (.empty .done)))
          simp [Lexeme.Plausible, hfresh]
        · refine ((prompt_parameters name).mono hsome).bind parameters_sound .parameters
            fun {ts params} hparams => (hstatement.block.prompt.mono fun hviable => hsome ?_).map
          exact hviable.within (_ :: _ :: ts) [] (by simp) fun hbody =>
            ⟨_, by simpa using Statement.declare name hparams.1 hparams.2 hbody⟩
      | assignTarget =>
        obtain ⟨fresh, hfresh, _⟩ := exists_isName []
        refine .take hlexeme (by simp) hstart (.expectName _ (fun error => hsome ?_) fun name => ?_)
        · refine .completed [.name fresh, .keyword .assignValue, .integer 0] ?_
            (.assignTo fresh hzero)
          simp [Lexeme.Plausible, hfresh, Decimal.bound_pos]
        · refine .expect _ (by simp) (fun error => hsome ?_)
            (reads_expression.prompt.mono fun hviable => hsome ?_).map
          · exact .completed [.keyword .assignValue, .integer 0]
              (by simp [Lexeme.Plausible, Decimal.bound_pos]) (.assignTo name hzero)
          · exact hviable.within [_, _, _] [] (by simp) fun hvalue =>
              ⟨_, by simpa using Statement.assignTo name hvalue⟩
      | giveBack =>
        refine .take hlexeme (by simp) hstart
          (reads_expression.prompt.mono fun hviable => hsome ?_).map
        exact hviable.within [_] [] (by simp) fun hvalue =>
          ⟨_, by simpa using Statement.giveBack hvalue⟩
      | greeting | farewell | blockOpen | blockClose | assignValue | equals | less | greater =>
        exact .pure hstart
    | integer | text | boolean | mark | endOfInput => exact .pure hstart

/-- Where the reader of programs gives up, what it has taken begins a program. -/
theorem prompt_program : Prompt program (Viable Program) := by
  have hempty :
      Program [.keyword .greeting, .mark .lineBreak, .keyword .farewell, .endOfInput] [] :=
    .program (.empty .done)
  have hnodes : ∀ {error us}, Viable Statements error us →
      Viable Program error (.keyword .greeting :: .mark .lineBreak :: us) := fun hviable =>
    hviable.within [_, _] [.keyword .farewell, .endOfInput]
        (by simp [Lexeme.Plausible]) fun hnodes =>
      ⟨_, .program hnodes⟩
  refine .expect _ (by simp) (fun _ => ?_) (.expect _ (by simp) (fun _ => ?_) ?_)
  · exact .completed _ (by simp [Lexeme.Plausible]) hempty
  · exact .completed [.mark .lineBreak, .keyword .farewell, .endOfInput]
      (by simp [Lexeme.Plausible]) hempty
  · have hbody : Reads (bounded fun depth => statements (statement depth)) Statements :=
      .bounded fun depth => (reads_statement depth).statements
    refine hbody.bind hnodes fun hspells => ?_
    have hprogram := Program.program hspells
    refine .expect _ (by simp) (fun _ => ?_) (.expectEnd _ fun _ => ?_)
    · exact .completed [.keyword .farewell, .endOfInput] (by simp [Lexeme.Plausible])
        (by simpa using hprogram)
    · exact .completed [.endOfInput] (by simp [Lexeme.Plausible]) (by simpa using hprogram)

end Parser

end Hallo
