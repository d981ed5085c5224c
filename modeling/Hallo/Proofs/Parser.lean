import Hallo.Parser

/-!
What readers of tokens do to a feed. A reader that succeeds has taken some lexemes from the
front; on a feed without an unreadable part it looks at nothing but the lexemes.
-/
namespace Hallo

namespace Feed

/-- The lexemes still to be read, the end of input not among them. -/
def lexemes (feed : Feed) : List Lexeme :=
  feed.queue.map Token.lexeme

/-- In the feed of a scan the end of input stands at the end and nowhere else. -/
structure Proper (feed : Feed) : Prop where
  endOfInput_not_mem : Lexeme.endOfInput ∉ feed.lexemes
  lexeme_ending : ∀ token, feed.ending = .ok token → token.lexeme = .endOfInput

/-- The feed that remains when some lexemes are taken from the front of another. -/
structure Takes (feed : Feed) (ts : List Lexeme) (rest : Feed) : Prop where
  lexemes_eq : feed.lexemes = ts ++ rest.lexemes
  ending_eq : rest.ending = feed.ending

theorem Takes.refl (feed : Feed) : feed.Takes [] feed :=
  ⟨rfl, rfl⟩

theorem Takes.trans {feed middle rest : Feed} {ts us : List Lexeme} (hfirst : feed.Takes ts middle)
    (hsecond : middle.Takes us rest) : feed.Takes (ts ++ us) rest := by
  constructor
  · rw [hfirst.lexemes_eq, hsecond.lexemes_eq, List.append_assoc]
  · rw [hsecond.ending_eq, hfirst.ending_eq]

theorem Takes.proper {feed rest : Feed} {ts : List Lexeme} (htakes : feed.Takes ts rest)
    (hproper : feed.Proper) : rest.Proper := by
  constructor
  · intro hmem
    apply hproper.endOfInput_not_mem
    rw [htakes.lexemes_eq]
    exact List.mem_append_right ts hmem
  · intro token hending
    exact hproper.lexeme_ending token (htakes.ending_eq ▸ hending)

/-- Taking a token other than the end of input takes the first lexeme. -/
theorem Proper.takes_rest {feed : Feed} {token : Token} (hproper : feed.Proper)
    (hcurrent : feed.current = .ok token) (hend : token.lexeme ≠ .endOfInput) :
    feed.Takes [token.lexeme] feed.rest := by
  rcases feed with ⟨_ | ⟨first, others⟩, ending⟩
  · exact absurd (hproper.lexeme_ending token hcurrent) hend
  · cases hcurrent
    exact ⟨rfl, rfl⟩

/-- At the end of input nothing is left. -/
theorem Proper.ending_of_endOfInput {feed : Feed} {token : Token} (hproper : feed.Proper)
    (hcurrent : feed.current = .ok token) (hend : token.lexeme = .endOfInput) :
    feed.lexemes = [] ∧ feed.ending = .ok token := by
  rcases feed with ⟨_ | ⟨first, others⟩, ending⟩
  · exact ⟨rfl, hcurrent⟩
  · cases hcurrent
    exact absurd (by simp [lexemes, hend]) hproper.endOfInput_not_mem

end Feed

namespace Parser

variable {α β : Type} {feed rest : Feed}

theorem bind_eq_ok_iff {reader : Parser α} {next : α → Parser β} {result : β × Feed} :
    (reader >>= next) feed = .ok result ↔
      ∃ a middle, reader feed = .ok (a, middle) ∧ next a middle = .ok result := by
  change (reader feed >>= fun read => next read.1 read.2) = .ok result ↔ _
  rcases hread : reader feed with error | ⟨a, middle⟩
  · simp [bind, Except.bind]
  · constructor
    · intro hnext
      exact ⟨a, middle, rfl, hnext⟩
    · rintro ⟨_, _, heq, hnext⟩
      cases heq
      exact hnext

theorem pure_eq_ok_iff {a b : α} :
    (pure a : Parser α) feed = .ok (b, rest) ↔ a = b ∧ feed = rest := by
  change Except.ok (a, feed) = .ok (b, rest) ↔ _
  simp

theorem current_eq_ok_iff {token : Token} :
    current feed = .ok (token, rest) ↔ feed.current = .ok token ∧ feed = rest := by
  unfold current
  cases feed.current <;> simp

theorem rest_of_advance {u : Unit} (hadvance : advance feed = .ok (u, rest)) :
    rest = feed.rest := by
  unfold advance at hadvance
  rw [bind_eq_ok_iff] at hadvance
  obtain ⟨_, _, hcurrent, hadvance⟩ := hadvance
  obtain ⟨_, rfl⟩ := current_eq_ok_iff.1 hcurrent
  rw [bind_eq_ok_iff] at hadvance
  obtain ⟨_, middle, hmodify, hadvance⟩ := hadvance
  have hmiddle : feed.rest = middle := by
    injection hmodify with hpair
    exact congrArg Prod.snd hpair
  rw [bind_eq_ok_iff] at hadvance
  obtain ⟨_, _, hnext, hpure⟩ := hadvance
  obtain ⟨_, rfl⟩ := current_eq_ok_iff.1 hnext
  obtain ⟨_, rfl⟩ := pure_eq_ok_iff.1 hpure
  exact hmiddle.symm

theorem refuse_ne_ok {expected : Expectation} {result : α × Feed} :
    refuse expected feed ≠ .ok result := by
  unfold refuse
  rw [Ne, bind_eq_ok_iff]
  rintro ⟨_, _, _, hthrow⟩
  cases hthrow

theorem sees_eq_ok_iff {lexeme : Lexeme} {b : Bool} :
    sees lexeme feed = .ok (b, rest) ↔
      ∃ token, feed.current = .ok token ∧ (token.lexeme == lexeme) = b ∧ feed = rest := by
  unfold sees
  rw [bind_eq_ok_iff]
  constructor
  · rintro ⟨token, middle, hcurrent, hpure⟩
    obtain ⟨htoken, rfl⟩ := current_eq_ok_iff.1 hcurrent
    exact ⟨token, htoken, pure_eq_ok_iff.1 hpure⟩
  · rintro ⟨token, htoken, hsame⟩
    exact ⟨token, feed, current_eq_ok_iff.2 ⟨htoken, rfl⟩, pure_eq_ok_iff.2 hsame⟩

/-- Taking the lexeme that was seen. -/
theorem takes_of_sees {lexeme : Lexeme} {middle : Feed} {u : Unit} (hproper : feed.Proper)
    (hend : lexeme ≠ .endOfInput) (hsees : sees lexeme feed = .ok (true, middle))
    (hadvance : advance middle = .ok (u, rest)) : feed.Takes [lexeme] rest := by
  obtain ⟨token, htoken, hsame, rfl⟩ := sees_eq_ok_iff.1 hsees
  have hlexeme : token.lexeme = lexeme := by simpa using hsame
  rw [rest_of_advance hadvance, ← hlexeme]
  exact hproper.takes_rest htoken (hlexeme ▸ hend)

theorem expect_eq_ok {lexeme : Lexeme} {expected : Expectation} {u : Unit}
    (hexpect : expect lexeme expected feed = .ok (u, rest)) :
    sees lexeme feed = .ok (true, feed) ∧ advance feed = .ok (u, rest) := by
  unfold expect at hexpect
  rw [bind_eq_ok_iff] at hexpect
  obtain ⟨seen, middle, hsees, hexpect⟩ := hexpect
  obtain ⟨_, _, _, rfl⟩ := sees_eq_ok_iff.1 hsees
  cases seen with
  | false => exact absurd hexpect refuse_ne_ok
  | true => exact ⟨hsees, hexpect⟩

theorem takes_of_expect {lexeme : Lexeme} {expected : Expectation} {u : Unit}
    (hproper : feed.Proper) (hend : lexeme ≠ .endOfInput)
    (hexpect : expect lexeme expected feed = .ok (u, rest)) : feed.Takes [lexeme] rest := by
  obtain ⟨hsees, hadvance⟩ := expect_eq_ok hexpect
  exact takes_of_sees hproper hend hsees hadvance

theorem takes_of_expectName {name : String} {expected : Expectation} (hproper : feed.Proper)
    (hexpect : expectName expected feed = .ok (name, rest)) : feed.Takes [.name name] rest := by
  unfold expectName at hexpect
  rw [bind_eq_ok_iff] at hexpect
  obtain ⟨token, middle, hcurrent, hexpect⟩ := hexpect
  obtain ⟨htoken, rfl⟩ := current_eq_ok_iff.1 hcurrent
  cases hfound : token.lexeme with
  | name found =>
    simp only [hfound] at hexpect
    rw [bind_eq_ok_iff] at hexpect
    obtain ⟨_, middle, hadvance, hpure⟩ := hexpect
    obtain ⟨rfl, rfl⟩ := pure_eq_ok_iff.1 hpure
    rw [rest_of_advance hadvance, ← hfound]
    exact hproper.takes_rest htoken (by simp [hfound])
  | _ =>
    simp only [hfound] at hexpect
    exact absurd hexpect refuse_ne_ok

/-- The lexeme that comes next on a feed without an unreadable part. -/
def nextLexeme : List Token → Lexeme
  | [] => .endOfInput
  | token :: _ => token.lexeme

variable {tokens : List Token} {token finish : Token}

/-- Tokens that spell something between two lexemes. -/
theorem exists_enclosed {l r : Lexeme} {ts : List Lexeme}
    (htokens : tokens.map Token.lexeme = l :: (ts ++ [r])) :
    ∃ opening inner closing, tokens = opening :: (inner ++ [closing]) ∧ opening.lexeme = l ∧
      inner.map Token.lexeme = ts ∧ closing.lexeme = r := by
  obtain ⟨opening, others, rfl, hopening, hothers⟩ := List.map_eq_cons_iff.1 htokens
  obtain ⟨inner, ending, rfl, hinner, hending⟩ := List.map_eq_append_iff.1 hothers
  obtain ⟨closing, none, rfl, hclosing, hnone⟩ := List.map_eq_cons_iff.1 hending
  obtain rfl := List.map_eq_nil_iff.1 hnone
  exact ⟨opening, inner, closing, rfl, hopening, hinner, hclosing⟩

theorem bind_of_ok {reader : Parser α} {next : α → Parser β} {a : α}
    (hread : reader feed = .ok (a, rest)) : (reader >>= next) feed = next a rest := by
  change (reader feed >>= fun read => next read.1 read.2) = _
  rw [hread]
  rfl

theorem current_cons (token : Token) (tokens : List Token) (finish : Token) :
    current ⟨token :: tokens, .ok finish⟩ = .ok (token, ⟨token :: tokens, .ok finish⟩) :=
  rfl

theorem current_of_nextLexeme (tokens : List Token) (hfinish : finish.lexeme = .endOfInput) :
    ∃ token, current ⟨tokens, .ok finish⟩ = .ok (token, ⟨tokens, .ok finish⟩) ∧
      token.lexeme = nextLexeme tokens := by
  cases tokens with
  | nil => exact ⟨finish, rfl, hfinish⟩
  | cons token tokens => exact ⟨token, rfl, rfl⟩

theorem advance_cons (token : Token) (tokens : List Token) (finish : Token) :
    advance ⟨token :: tokens, .ok finish⟩ = .ok ((), ⟨tokens, .ok finish⟩) := by
  cases tokens <;> rfl

theorem sees_eq (lexeme : Lexeme) (tokens : List Token) (hfinish : finish.lexeme = .endOfInput) :
    sees lexeme ⟨tokens, .ok finish⟩ =
      .ok (nextLexeme tokens == lexeme, ⟨tokens, .ok finish⟩) := by
  obtain ⟨token, hcurrent, hlexeme⟩ := current_of_nextLexeme tokens hfinish
  rw [sees, bind_of_ok hcurrent, hlexeme]
  rfl

theorem expect_cons {lexeme : Lexeme} {expected : Expectation} (htoken : token.lexeme = lexeme)
    (tokens : List Token) (finish : Token) :
    expect lexeme expected ⟨token :: tokens, .ok finish⟩ = .ok ((), ⟨tokens, .ok finish⟩) := by
  have hsees : sees lexeme ⟨token :: tokens, .ok finish⟩ =
      .ok (true, ⟨token :: tokens, .ok finish⟩) :=
    sees_eq_ok_iff.2 ⟨token, rfl, by simpa using htoken, rfl⟩
  rw [expect, bind_of_ok hsees]
  exact advance_cons token tokens finish

theorem expectName_cons {name : String} {expected : Expectation}
    (htoken : token.lexeme = .name name) (tokens : List Token) (finish : Token) :
    expectName expected ⟨token :: tokens, .ok finish⟩ = .ok (name, ⟨tokens, .ok finish⟩) := by
  rw [expectName, bind_of_ok (current_cons token tokens finish)]
  simp only [htoken]
  rw [bind_of_ok (advance_cons token tokens finish)]
  rfl

end Parser

end Hallo
