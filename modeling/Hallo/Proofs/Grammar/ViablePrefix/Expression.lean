import Hallo.Proofs.Grammar.Soundness.Expression
import Hallo.Proofs.Parser.Lookahead
import Hallo.Proofs.Token.Spelling

/-!
What stands before the point where a reader gives up can be completed. A reader complains about a
token as soon as nothing of the grammar goes on with it, and about characters as soon as they come
next, so the lexemes before that point begin something that the grammar derives.
-/
namespace Hallo

namespace Grammar

/-- A declaration broken off behind a parameter that has the name of an earlier one. -/
def RepeatsParameter (ls : List Lexeme) : Prop :=
  ∃ front name ts names repeated,
    ls = front ++ .keyword .function :: .name name :: .mark .parenOpen ::
        (ts ++ [.mark .comma, .name repeated]) ∧
      Names ts names ∧ repeated ∈ names

/-- Lexemes that can be completed, by lexemes that can be found in a text, to some that spell
    something. -/
def Begins {α : Type} (spells : List Lexeme → α → Prop) (ts : List Lexeme) : Prop :=
  ∃ more a, (∀ l ∈ more, l.Plausible) ∧ spells (ts ++ more) a

/-- Lexemes before an error that can be completed. Where the characters behind a repeated parameter
    cannot be read, they are complained about before the repetition is. -/
def Viable {α : Type} (spells : List Lexeme → α → Prop) (error : ParseError) (ts : List Lexeme) :
    Prop :=
  Begins spells ts ∨ (∃ scanError, error = .scan scanError) ∧ RepeatsParameter ts

variable {α β : Type} {spells : List Lexeme → α → Prop} {others : List Lexeme → β → Prop}
  {error : ParseError} {ts us : List Lexeme}

theorem RepeatsParameter.append (hrepeats : RepeatsParameter us) (ts : List Lexeme) :
    RepeatsParameter (ts ++ us) := by
  obtain ⟨front, name, inner, names, repeated, rfl, hnames, hmem⟩ := hrepeats
  exact ⟨ts ++ front, name, inner, names, repeated, by simp, hnames, hmem⟩

theorem Viable.completed {a : α} (more : List Lexeme) (hmore : ∀ l ∈ more, l.Plausible)
    (hspells : spells (ts ++ more) a) : Viable spells error ts :=
  .inl ⟨more, a, hmore, hspells⟩

theorem Viable.of_spells {a : α} (hspells : spells ts a) : Viable spells error ts :=
  .completed [] (by simp) (by simpa using hspells)

/-- A part that can be completed, between other lexemes that make a whole of it. -/
theorem Viable.within (hviable : Viable spells error us) (before after : List Lexeme)
    (hafter : ∀ l ∈ after, l.Plausible)
    (hwhole : ∀ {ws a}, spells ws a → ∃ b, others (before ++ (ws ++ after)) b) :
    Viable others error (before ++ us) := by
  rcases hviable with ⟨more, a, hmore, hspells⟩ | ⟨hscan, hrepeats⟩
  · obtain ⟨b, hothers⟩ := hwhole hspells
    refine .completed (more ++ after) ?_ (by simpa using hothers)
    intro l hmem
    rcases List.mem_append.1 hmem with hmem | hmem
    · exact hmore l hmem
    · exact hafter l hmem
  · exact .inr ⟨hscan, hrepeats.append before⟩

end Grammar

namespace Feed

/-- The tokens before the token that an error is about, or before the characters that it is about:
    those are reached only behind the last token. -/
def StopsBehind (feed : Feed) : ParseError → List Token → Prop
  | .unexpected found _, before =>
    ∃ rest : Feed, feed = rest.behind before ∧ rest.current = .ok found
  | .scan error, before => feed = ⟨before, .error error⟩

theorem StopsBehind.behind {feed : Feed} {error : ParseError} {before : List Token}
    (hstops : feed.StopsBehind error before) (taken : List Token) :
    (feed.behind taken).StopsBehind error (taken ++ before) := by
  cases error with
  | unexpected found expected =>
    obtain ⟨rest, rfl, hfound⟩ := hstops
    exact ⟨rest, (behind_append rest taken before).symm, hfound⟩
  | scan error =>
    obtain rfl : feed = ⟨before, .error error⟩ := hstops
    rfl

theorem Proper.stopsBehind_of_scan {feed : Feed} {token : Token} {error : ScanError}
    (hproper : feed.Proper) (hcurrent : feed.current = .ok token)
    (hend : token.lexeme ≠ .endOfInput) (hscan : feed.rest.current = .error error) :
    feed.StopsBehind (.scan error) [token] := by
  rcases feed with ⟨_ | ⟨first, _ | ⟨second, others⟩⟩, ending⟩
  · exact absurd (hproper.lexeme_ending token hcurrent) hend
  · cases hcurrent
    cases hscan
    rfl
  · cases hscan

end Feed

namespace Parser

open Grammar

/-- A reader that, on feeds that begin with a certain token, gives up behind good lexemes only. It
    may as well give up before it has taken any. -/
structure PromptFrom {α : Type} (token : Token) (reader : Parser α)
    (good : ParseError → List Lexeme → Prop) : Prop where
  start (error : ParseError) : good error []
  stop {feed : Feed} {error : ParseError} : feed.Proper → feed.current = .ok token →
    reader feed = .error error →
      ∃ before, feed.StopsBehind error before ∧ good error (before.map Token.lexeme)

/-- The same, whatever token comes next. -/
def Prompt {α : Type} (reader : Parser α) (good : ParseError → List Lexeme → Prop) : Prop :=
  ∀ token, PromptFrom token reader good

/-- A reader of a language: what it takes spells what it returns, and where it gives up, what it has
    taken can be completed. -/
structure Reads {α : Type} (reader : Parser α) (spells : List Lexeme → α → Prop) : Prop where
  sound : Sound reader spells
  relays : Relays reader
  prompt : Prompt reader (Viable spells)

section Combinators

variable {α β : Type} {token : Token} {reader : Parser α} {next : α → Parser β}
  {good better : ParseError → List Lexeme → Prop} {spells : List Lexeme → α → Prop}

theorem PromptFrom.mono (hprompt : PromptFrom token reader better)
    (hgood : ∀ {error ts}, better error ts → good error ts) : PromptFrom token reader good where
  start error := hgood (hprompt.start error)
  stop hproper hcurrent hread := by
    obtain ⟨before, hstops, hbetter⟩ := hprompt.stop hproper hcurrent hread
    exact ⟨before, hstops, hgood hbetter⟩

theorem Prompt.mono (hprompt : Prompt reader better)
    (hgood : ∀ {error ts}, better error ts → good error ts) : Prompt reader good :=
  fun token => (hprompt token).mono hgood

theorem PromptFrom.pure {a : α} (hstart : ∀ error, good error []) :
    PromptFrom token (Pure.pure a) good where
  start := hstart
  stop _ _ hread := nomatch hread

theorem PromptFrom.refuse (expected : Expectation) (hstart : ∀ error, good error []) :
    PromptFrom token (Parser.refuse expected : Parser α) good where
  start := hstart
  stop {feed _} _ hcurrent hread := by
    rw [refuse_of_ok hcurrent] at hread
    cases hread
    exact ⟨[], ⟨feed, rfl, hcurrent⟩, hstart _⟩

/-- What a sound reader leaves when it succeeds. -/
theorem Sound.exists_taken {feed rest : Feed} {a : α} (hsound : Sound reader spells)
    (hrelays : Relays reader) (hproper : feed.Proper) (hcurrent : feed.current = .ok token)
    (hread : reader feed = .ok (a, rest)) :
    ∃ taken next, feed = rest.behind taken ∧ rest.Proper ∧ rest.current = .ok next ∧
      spells (taken.map Token.lexeme) a := by
  obtain ⟨ts, htakes, hspells⟩ := hsound hproper hread
  obtain ⟨taken, hqueue⟩ := hrelays.suffix hread
  obtain ⟨next, hnext⟩ := hrelays.exists_current hread ⟨token, hcurrent⟩
  have hlexemes : taken.map Token.lexeme = ts := by
    have hall := htakes.lexemes_eq
    rw [Feed.lexemes, ← hqueue, List.map_append] at hall
    exact List.append_cancel_right hall
  refine ⟨taken, next, ?_, htakes.proper hproper, hnext, hlexemes ▸ hspells⟩
  rw [Feed.behind, hqueue, htakes.ending_eq]

theorem Prompt.bind (hprompt : Prompt reader good) (hsound : Sound reader spells)
    (hrelays : Relays reader)
    (hnext : ∀ {ts a}, spells ts a → Prompt (next a) fun error us => good error (ts ++ us)) :
    Prompt (reader >>= next) good := by
  refine fun token => ⟨(hprompt token).start, fun hproper hcurrent hread => ?_⟩
  rcases bind_eq_error_iff.1 hread with hfirst | ⟨a, middle, hfirst, hsecond⟩
  · exact (hprompt token).stop hproper hcurrent hfirst
  · obtain ⟨taken, next, rfl, hmiddle, hbehind, hspells⟩ :=
      hsound.exists_taken hrelays hproper hcurrent hfirst
    obtain ⟨before, hstops, hgood⟩ := (hnext hspells next).stop hmiddle hbehind hsecond
    refine ⟨taken ++ before, hstops.behind taken, ?_⟩
    rw [List.map_append]
    exact hgood

theorem Reads.bind (hreads : Reads reader spells)
    (hgood : ∀ {error ts}, Viable spells error ts → good error ts)
    (hnext : ∀ {ts a}, spells ts a → Prompt (next a) fun error us => good error (ts ++ us)) :
    Prompt (reader >>= next) good :=
  (hreads.prompt.mono hgood).bind hreads.sound hreads.relays hnext

theorem Prompt.map {f : α → β} (hprompt : Prompt reader good) :
    Prompt (reader >>= fun a => Pure.pure (f a)) good := by
  refine fun token => ⟨(hprompt token).start, fun hproper hcurrent hread => ?_⟩
  rcases bind_eq_error_iff.1 hread with hfirst | ⟨_, _, _, hpure⟩
  · exact (hprompt token).stop hproper hcurrent hfirst
  · cases hpure

theorem PromptFrom.congr {other : Parser α}
    (hother : ∀ {feed : Feed}, feed.current = .ok token → reader feed = other feed)
    (hprompt : PromptFrom token other good) : PromptFrom token reader good where
  start := hprompt.start
  stop hproper hcurrent hread := hprompt.stop hproper hcurrent (hother hcurrent ▸ hread)

theorem PromptFrom.current {next : Token → Parser β} (hnext : PromptFrom token (next token) good) :
    PromptFrom token (Parser.current >>= next) good :=
  .congr (fun hcurrent => bind_of_ok (current_of_ok hcurrent)) hnext

theorem PromptFrom.sees {next : Bool → Parser β} (lexeme : Lexeme)
    (hnext : PromptFrom token (next (token.lexeme == lexeme)) good) :
    PromptFrom token (Parser.sees lexeme >>= next) good :=
  .congr (fun hcurrent => bind_of_ok (sees_of_ok hcurrent lexeme)) hnext

theorem PromptFrom.ifSees {yes no : Parser α} (lexeme : Lexeme)
    (hyes : token.lexeme = lexeme → PromptFrom token yes good)
    (hno : token.lexeme ≠ lexeme → PromptFrom token no good) :
    PromptFrom token (do if ← Parser.sees lexeme then yes else no) good := by
  refine sees lexeme ?_
  by_cases hlexeme : token.lexeme = lexeme
  · simpa only [hlexeme, BEq.rfl, if_true] using hyes hlexeme
  · simpa only [beq_eq_false_iff_ne.2 hlexeme, Bool.false_eq_true, if_false] using hno hlexeme

/-- Taking a token fails if the characters behind it cannot be read. -/
theorem PromptFrom.take {lexeme : Lexeme} (hlexeme : token.lexeme = lexeme)
    (hend : lexeme ≠ .endOfInput) (hstart : ∀ error, good error [])
    (hreader : Prompt reader fun error us => good error (lexeme :: us)) :
    PromptFrom token (advance >>= fun _ => reader) good := by
  subst hlexeme
  refine ⟨hstart, fun {feed error} hproper hcurrent hread => ?_⟩
  have hfeed := hproper.eq_behind hcurrent hend
  rw [advance_bind_of_ok hcurrent] at hread
  split at hread
  · rename_i next hnext
    have hrest := (hproper.takes_rest hcurrent hend).proper hproper
    obtain ⟨before, hstops, hgood⟩ := (hreader next).stop hrest hnext hread
    exact ⟨token :: before, hfeed ▸ hstops.behind [token], hgood⟩
  · rename_i hscan
    cases hread
    exact ⟨[token], hproper.stopsBehind_of_scan hcurrent hend hscan, (hreader token).start _⟩

theorem Prompt.expect {lexeme : Lexeme} (expected : Expectation) (hend : lexeme ≠ .endOfInput)
    (hstart : ∀ error, good error [])
    (hreader : Prompt reader fun error us => good error (lexeme :: us)) :
    Prompt (Parser.expect lexeme expected >>= fun _ => reader) good := by
  intro token
  rw [Parser.expect, bind_assoc]
  refine .sees lexeme ?_
  by_cases hlexeme : token.lexeme = lexeme
  · simp only [hlexeme, BEq.rfl, if_true]
    exact .take hlexeme hend hstart hreader
  · simp only [beq_eq_false_iff_ne.2 hlexeme, Bool.false_eq_true, if_false, refuse_bind]
    exact .refuse expected hstart

theorem Prompt.expectEnd {a : α} (expected : Expectation) (hstart : ∀ error, good error []) :
    Prompt (Parser.expect .endOfInput expected >>= fun _ => Pure.pure a) good := by
  intro token
  rw [Parser.expect, bind_assoc]
  refine .sees .endOfInput ?_
  by_cases hend : token.lexeme = .endOfInput
  · simp only [hend, BEq.rfl, if_true]
    refine ⟨hstart, fun hproper hcurrent hread => ?_⟩
    rw [advance_bind_of_ok hcurrent, hproper.rest_eq hcurrent hend, hcurrent] at hread
    cases hread
  · simp only [beq_eq_false_iff_ne.2 hend, Bool.false_eq_true, if_false, refuse_bind]
    exact .refuse expected hstart

theorem Prompt.expectName {next : String → Parser β} (expected : Expectation)
    (hstart : ∀ error, good error [])
    (hnext : ∀ name, Prompt (next name) fun error us => good error (.name name :: us)) :
    Prompt (Parser.expectName expected >>= next) good := by
  intro token
  rw [Parser.expectName, bind_assoc]
  refine .current ?_
  cases hlexeme : token.lexeme with
  | name name =>
    simp only [bind_assoc, pure_bind]
    exact .take hlexeme (by simp) hstart (hnext name)
  | _ =>
    simp only [refuse_bind]
    exact .refuse expected hstart

theorem Prompt.bounded {rounds : Nat → Parser α} (hrounds : ∀ i, Prompt (rounds i) good) :
    Prompt (Parser.bounded rounds) good :=
  fun token => ⟨(hrounds 0 token).start, fun hproper hcurrent hread =>
    (hrounds _ token).stop hproper hcurrent hread⟩

theorem Reads.bounded {rounds : Nat → Parser α} (hrounds : ∀ i, Reads (rounds i) spells) :
    Reads (Parser.bounded rounds) spells where
  sound hproper hread := (hrounds _).sound hproper hread
  relays := .bounded fun i => (hrounds i).relays
  prompt := .bounded fun i => (hrounds i).prompt

end Combinators

namespace Reads

variable {operand : Parser Node} {spells chained : List Lexeme → Node → Prop}

theorem promptChainFrom {operator? : Lexeme → Option String} (hend : operator? .endOfInput = none)
    (hoperand : Reads operand spells)
    (hjoin : ∀ {ts us a b l operator}, chained ts a → operator? l = some operator → spells us b →
      chained (ts ++ l :: us) (.binary a operator b))
    {ts : List Lexeme} {left : Node} (hleft : chained ts left) (rounds : Nat) :
    Prompt (chainFrom operator? operand rounds left) fun error us =>
      Viable chained error (ts ++ us) := by
  -- What was read so far is a chain by itself, so the reader may give up behind each operand.
  have hstart : ∀ {ts left}, chained ts left → ∀ error, Viable chained error (ts ++ []) := by
    intro ts left hleft error
    rw [List.append_nil]
    exact .of_spells hleft
  induction rounds generalizing ts left with
  | zero => exact fun _ => .pure (hstart hleft)
  | succ rounds ih =>
    intro token
    rw [chainFrom]
    refine .current ?_
    cases hoperator : operator? token.lexeme with
    | none => exact .pure (hstart hleft)
    | some operator =>
      have htoken :
        token.lexeme ≠ .endOfInput := fun hlexeme => by simp [hlexeme, hend] at hoperator
      refine .take rfl htoken (hstart hleft) (hoperand.bind (fun hviable => ?_) fun hspells => ?_)
      · have hjoined : Viable chained _ (ts ++ [token.lexeme] ++ _) :=
          hviable.within _ [] (by simp) fun hright =>
            ⟨_, by simpa using hjoin hleft hoperator hright⟩
        simpa using hjoined
      · simpa using ih (hjoin hleft hoperator hspells)

theorem chain {operator? : Lexeme → Option String} (hend : operator? .endOfInput = none)
    (hoperand : Reads operand spells) (hsingle : ∀ {ts a}, spells ts a → chained ts a)
    (hjoin : ∀ {ts us a b l operator}, chained ts a → operator? l = some operator → spells us b →
      chained (ts ++ l :: us) (.binary a operator b)) :
    Reads (Parser.chain operator? operand) chained where
  sound := chain_sound hend hoperand.sound hsingle hjoin
  relays := hoperand.relays.chain operator?
  prompt := by
    refine hoperand.bind (fun hviable => ?_) fun hspells => .bounded fun rounds => ?_
    · exact hviable.within [] [] (by simp) fun hoperand => ⟨_, by simpa using hsingle hoperand⟩
    · exact hoperand.promptChainFrom hend hjoin (hsingle hspells) rounds

theorem product (hfactor : Reads operand Factor) :
    Reads (Parser.chain multiplicative? operand) Product :=
  hfactor.chain rfl .factor fun hleft hsign hright =>
    .join hleft (multiplicative?_eq_some_iff.1 hsign) hright

theorem term (hfactor : Reads operand Factor) : Reads (Parser.term operand) Term where
  sound := term_sound hfactor.sound
  relays := hfactor.relays.term
  prompt := by
    refine hfactor.product.bind (fun hviable => ?_) fun {ts left} hleft token => .current ?_
    · exact hviable.within [] [] (by simp) fun hproduct => ⟨_, by simpa using Term.product hproduct⟩
    · have hstart : ∀ error, Viable Term error (ts ++ []) := fun error => by
        rw [List.append_nil]
        exact .of_spells (.product hleft)
      cases hcomparison : comparison? token.lexeme with
      | none => exact .pure hstart
      | some comparison =>
        have hkeyword := comparison?_eq_some_iff.1 hcomparison
        have htoken : token.lexeme ≠ .endOfInput := fun hlexeme => by
          rw [hlexeme] at hkeyword
          cases hkeyword
        refine .take rfl htoken hstart (hfactor.product.prompt.mono fun hviable => ?_).map
        have hcompared : Viable Term _ (ts ++ [token.lexeme] ++ _) :=
          hviable.within _ [] (by simp) fun hright =>
            ⟨_, by simpa using Term.compare hleft hkeyword hright⟩
        simpa using hcompared

theorem sum (hfactor : Reads operand Factor) : Reads (Parser.sum operand) Expression :=
  hfactor.term.chain rfl .term fun hleft hsign hright =>
    .join hleft (additive?_eq_some_iff.1 hsign) hright

theorem promptMoreArguments (hexpression : Reads operand Expression) {ts : List Lexeme}
    {first : Node} (hfirst : Expression ts first) (rounds : Nat) :
    Prompt (moreArguments operand rounds) fun error us => Viable Expressions error (ts ++ us) := by
  have hstart : ∀ {ts first}, Expression ts first → ∀ error,
      Viable Expressions error (ts ++ []) := by
    intro ts first hfirst error
    rw [List.append_nil]
    exact .of_spells (.last hfirst)
  induction rounds generalizing ts first with
  | zero => exact fun _ => .pure (hstart hfirst)
  | succ rounds ih =>
    refine fun token => .ifSees _ (fun hcomma => ?_) fun _ => .pure (hstart hfirst)
    have hmore : ∀ {error us}, Viable Expressions error us →
        Viable Expressions error (ts ++ .mark .comma :: us) := by
      intro error us hviable
      have hwhole : Viable Expressions error (ts ++ [.mark .comma] ++ us) :=
        hviable.within _ [] (by simp) fun hothers =>
          ⟨_, by simpa using Expressions.more hfirst hothers⟩
      simpa using hwhole
    refine .take hcomma (by simp) (hstart hfirst)
      (hexpression.bind (fun hviable => ?_) fun hargument => ?_)
    · exact hmore (hviable.within [] [] (by simp) fun hargument =>
        ⟨_, by simpa using Expressions.last hargument⟩)
    · exact ((ih hargument).mono hmore).map

theorem arguments (hexpression : Reads operand Expression) :
    Reads (Parser.arguments operand) Arguments where
  sound := arguments_sound hexpression.sound
  relays := hexpression.relays.arguments
  prompt := by
    have hopen : ∀ error, Viable Arguments error [.mark .parenOpen] := fun error =>
      .completed [.mark .parenClose] (by simp [Lexeme.Plausible]) .none
    have hinner : ∀ {error us}, Viable Expressions error us →
        Viable Arguments error (.mark .parenOpen :: us) := fun hviable =>
      hviable.within [.mark .parenOpen] [.mark .parenClose]
          (by simp [Lexeme.Plausible]) fun hargs =>
        ⟨_, .some hargs⟩
    have hclosed : ∀ error, Viable Arguments error [] := fun error =>
      .completed [.mark .parenOpen, .mark .parenClose] (by simp [Lexeme.Plausible]) .none
    refine .expect _ (by simp) hclosed fun token => .ifSees _ (fun hclose => ?_) fun _ => ?_
    · exact .take hclose (by simp) hopen fun _ => .pure fun _ => .of_spells .none
    · refine hexpression.bind (fun hviable => ?_) (fun {ts first} hfirst => ?_) token
      · exact hinner (hviable.within [] [] (by simp) fun hfirst =>
          ⟨_, by simpa using Expressions.last hfirst⟩)
      · have hmore : Sound (Parser.bounded (moreArguments operand)) fun us others =>
            Expressions (ts ++ us) (first :: others) :=
          fun hproper hread => moreArguments_sound hexpression.sound hproper hfirst hread
        refine ((Prompt.bounded (hexpression.promptMoreArguments hfirst)).mono hinner).bind hmore
          (.bounded hexpression.relays.moreArguments) fun {us others} hargs => ?_
        refine .expect _ (by simp) (fun _ => ?_) fun _ => .pure fun _ => ?_
        · exact .completed [.mark .parenClose] (by simp [Lexeme.Plausible])
            (by simpa using Arguments.some hargs)
        · exact .of_spells (by simpa using Arguments.some hargs)

end Reads

theorem reads_factor (depth : Nat) : Reads (factor depth) Factor := by
  refine ⟨factor_sound depth, .factor depth, ?_⟩
  -- Wherever an operand is missing, a zero would do.
  have hstart : ∀ error, Viable Factor error [] := fun error =>
    .completed [.integer 0] (by simp [Lexeme.Plausible, Decimal.bound_pos]) (.literal (.integer 0))
  induction depth with
  | zero => exact fun _ => .refuse _ hstart
  | succ depth ih =>
    have hfactor : Reads (factor depth) Factor := ⟨factor_sound depth, .factor depth, ih⟩
    have hsign : ∀ {l operator error us}, Additive l operator → Viable Factor error us →
        Viable Factor error (l :: us) := fun hsign hviable =>
      hviable.within [_] [] (by simp) fun hoperand =>
        ⟨_, by simpa using Factor.signed hsign hoperand⟩
    intro token
    rw [factor]
    refine .current ?_
    cases hlexeme : token.lexeme with
    | integer n =>
      exact .take hlexeme (by simp) hstart fun _ => .pure fun _ =>
        .of_spells (.literal (.integer n))
    | text s =>
      exact .take hlexeme (by simp) hstart fun _ => .pure fun _ => .of_spells (.literal (.text s))
    | boolean b =>
      exact .take hlexeme (by simp) hstart fun _ => .pure fun _ =>
        .of_spells (.literal (.boolean b))
    | name name =>
      refine .take hlexeme (by simp) hstart fun behind => .ifSees _ (fun _ => ?_) fun _ =>
        .pure fun _ => .of_spells (.var name)
      refine (hfactor.sum.arguments.prompt.mono fun hviable => ?_).map behind
      exact hviable.within [_] [] (by simp) fun hargs => ⟨_, by simpa using Factor.call name hargs⟩
    | mark m =>
      cases m with
      | plus => exact .take hlexeme (by simp) hstart (ih.mono (hsign .plus)).map
      | minus => exact .take hlexeme (by simp) hstart (ih.mono (hsign .minus)).map
      | parenOpen =>
        refine .take hlexeme (by simp) hstart
          (hfactor.sum.bind (fun hviable => ?_) fun hinner => ?_)
        · exact hviable.within [_] [.mark .parenClose] (by simp [Lexeme.Plausible]) fun hinner =>
            ⟨_, .group hinner⟩
        · refine .expect _ (by simp) (fun _ => ?_) fun _ => .pure fun _ => ?_
          · exact .completed [.mark .parenClose] (by simp [Lexeme.Plausible])
              (by simpa using Factor.group hinner)
          · exact .of_spells (.group hinner)
      | star | slash | parenClose | comma | assign | lineBreak => exact .refuse _ hstart
    | keyword | endOfInput => exact .refuse _ hstart

theorem reads_expression : Reads expression Expression :=
  .bounded fun depth => (reads_factor depth).sum

end Parser

end Hallo
