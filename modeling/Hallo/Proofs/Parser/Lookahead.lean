import Hallo.Proofs.Parser.Complaints
import Mathlib.Data.List.Basic

/-!
How far readers look. What a reader does to a feed is settled by the tokens it takes and by the one
that comes next, so where it refuses a token, it refuses this token whatever stands behind it. Two
feeds that begin alike may differ in length, so their readers are given different rounds.
-/
namespace Hallo

namespace Feed

variable {feed rest other : Feed} {taken : List Token} {token : Token}

/-- The feed with some tokens put back in front of it. -/
def behind (feed : Feed) (tokens : List Token) : Feed :=
  ⟨tokens ++ feed.queue, feed.ending⟩

theorem behind_append (feed : Feed) (front back : List Token) :
    feed.behind (front ++ back) = (feed.behind back).behind front := by
  simp [behind]

theorem length_behind (feed : Feed) (tokens : List Token) :
    (feed.behind tokens).queue.length = tokens.length + feed.queue.length :=
  List.length_append

theorem current_behind (hsame : other.current = rest.current) (tokens : List Token) :
    (other.behind tokens).current = (rest.behind tokens).current := by
  cases tokens with
  | nil => exact hsame
  | cons token tokens => rfl

theorem Proper.behind (hproper : (rest.behind taken).Proper) (hother : other.Proper) :
    (other.behind taken).Proper := by
  constructor
  · intro hmem
    rw [lexemes, Feed.behind, List.map_append, List.mem_append] at hmem
    rcases hmem with hmem | hmem
    · apply hproper.endOfInput_not_mem
      rw [lexemes, Feed.behind, List.map_append]
      exact List.mem_append_left _ hmem
    · exact hother.endOfInput_not_mem hmem
  · exact hother.lexeme_ending

/-- A proper feed in which no token stands twice. -/
structure Orderly (feed : Feed) : Prop where
  proper : feed.Proper
  nodup : feed.queue.Nodup

theorem Orderly.of_behind (horderly : (rest.behind taken).Orderly) : rest.Orderly := by
  constructor
  · constructor
    · intro hmem
      apply horderly.proper.endOfInput_not_mem
      rw [lexemes, behind, List.map_append]
      exact List.mem_append_right _ hmem
    · exact horderly.proper.lexeme_ending
  · exact (List.nodup_append.1 horderly.nodup).2.1

/-- A token other than the end of input is the first of the queue. -/
theorem Proper.eq_behind (hproper : feed.Proper) (hcurrent : feed.current = .ok token)
    (hend : token.lexeme ≠ .endOfInput) : feed = feed.rest.behind [token] := by
  rcases feed with ⟨_ | ⟨first, others⟩, ending⟩
  · exact absurd (hproper.lexeme_ending token hcurrent) hend
  · cases hcurrent
    rfl

/-- At the end of input the queue is empty. -/
theorem Proper.queue_eq_nil (hproper : feed.Proper) (hcurrent : feed.current = .ok token)
    (hend : token.lexeme = .endOfInput) : feed.queue = [] :=
  List.map_eq_nil_iff.1 (hproper.ending_of_endOfInput hcurrent hend).1

theorem Proper.rest_eq (hproper : feed.Proper) (hcurrent : feed.current = .ok token)
    (hend : token.lexeme = .endOfInput) : feed.rest = feed := by
  rcases feed with ⟨queue, ending⟩
  obtain rfl : queue = [] := hproper.queue_eq_nil hcurrent hend
  rfl

/-- A token stands at one place of an orderly feed only. -/
theorem Orderly.taken_unique {other : Feed} {front : List Token} (horderly : feed.Orderly)
    (hrest : feed = rest.behind taken) (hother : feed = other.behind front)
    (hcurrent : rest.current = .ok token) (hagain : other.current = .ok token) : taken = front := by
  have hproper : rest.Proper := (hrest ▸ horderly).of_behind.proper
  have hsecond : other.Proper := (hother ▸ horderly).of_behind.proper
  have hqueue : taken ++ rest.queue = front ++ other.queue :=
    (congrArg queue hrest).symm.trans (congrArg queue hother)
  by_cases hend : token.lexeme = .endOfInput
  · rw [hproper.queue_eq_nil hcurrent hend, hsecond.queue_eq_nil hagain hend] at hqueue
    simpa using hqueue
  · have hsplit : taken ++ token :: rest.rest.queue = front ++ token :: other.rest.queue := by
      rw [hproper.eq_behind hcurrent hend, hsecond.eq_behind hagain hend] at hqueue
      exact hqueue
    have hnodup : (taken ++ token :: rest.rest.queue).Nodup := by
      have hall := horderly.nodup
      rw [hrest, hproper.eq_behind hcurrent hend] at hall
      exact hall
    obtain ⟨_, hback, hdisjoint⟩ := List.nodup_append.1 hnodup
    have hfront : token ∉ taken := fun hmem => hdisjoint token hmem token List.mem_cons_self rfl
    exact ((List.append_cons_inj_of_notMem hfront (List.nodup_cons.1 hback).1).1 hsplit).1

/-- A proper feed without an unreadable part. -/
structure Readable (feed : Feed) : Prop where
  proper : feed.Proper
  ending_ok : ∃ finish, feed.ending = .ok finish

theorem Readable.behind (hreadable : other.Readable) (hproper : (rest.behind taken).Proper) :
    (other.behind taken).Readable :=
  ⟨hproper.behind hreadable.proper, hreadable.ending_ok⟩

theorem exists_current (hending : ∃ finish, feed.ending = .ok finish) :
    ∃ token, feed.current = .ok token := by
  obtain ⟨finish, hending⟩ := hending
  rcases feed with ⟨_ | ⟨token, others⟩, ending⟩
  · exact ⟨finish, hending⟩
  · exact ⟨token, rfl⟩

end Feed

namespace Parser

variable {α β : Type} {feed rest ahead : Feed} {token : Token}

theorem current_of_ok (hcurrent : feed.current = .ok token) : current feed = .ok (token, feed) :=
  current_eq_ok_iff.2 ⟨hcurrent, rfl⟩

theorem sees_of_ok (hcurrent : feed.current = .ok token) (lexeme : Lexeme) :
    sees lexeme feed = .ok (token.lexeme == lexeme, feed) :=
  sees_eq_ok_iff.2 ⟨token, hcurrent, rfl, rfl⟩

theorem refuse_of_ok (hcurrent : feed.current = .ok token) (expected : Expectation) :
    (refuse expected : Parser α) feed = .error (.unexpected token expected) := by
  rw [refuse, bind_of_ok (current_of_ok hcurrent)]
  rfl

theorem refuse_bind (expected : Expectation) (next : α → Parser β) :
    (refuse expected >>= next) = refuse expected := by
  rw [refuse, bind_assoc]
  rfl

/-- A token is taken only if the one behind it can be read. -/
theorem advance_of_ok (hcurrent : feed.current = .ok token) :
    advance feed =
      match feed.rest.current with
      | .ok _ => .ok ((), feed.rest)
      | .error error => .error (.scan error) := by
  have hadvance : advance feed = (current >>= fun _ => pure ()) feed.rest := by
    rw [advance, bind_of_ok (current_of_ok hcurrent)]
    rfl
  rw [hadvance]
  cases hrest : feed.rest.current with
  | ok next =>
    rw [bind_of_ok (current_of_ok hrest)]
    rfl
  | error error =>
    refine bind_eq_error_iff.2 (.inl ?_)
    rw [current, hrest]

theorem advance_bind_of_ok (hcurrent : feed.current = .ok token) (next : Parser α) :
    (advance >>= fun _ => next) feed =
      match feed.rest.current with
      | .ok _ => next feed.rest
      | .error error => .error (.scan error) := by
  have hadvance := advance_of_ok hcurrent
  cases hrest : feed.rest.current with
  | ok behind =>
    rw [hrest] at hadvance
    exact bind_of_ok hadvance
  | error error =>
    rw [hrest] at hadvance
    exact bind_eq_error_iff.2 (.inl hadvance)

/-- A reader that was stopped by a token: on readable feeds of fewer than `m` tokens that begin with
    the same tokens up to this one, it gives that result. -/
def Echoes (reader : Parser α) (m : Nat) (feed rest : Feed) (next : Token)
    (result : Feed → Except ParseError (α × Feed)) : Prop :=
  ∃ taken, feed = rest.behind taken ∧ rest.current = .ok next ∧
    ∀ ahead : Feed, ahead.Readable → ahead.current = .ok next →
      (ahead.behind taken).queue.length < m → reader (ahead.behind taken) = result ahead

/-- Two versions of a reader that do the same as far as they look. The first is given an orderly
    feed of fewer than `n` tokens that begins with a certain one, the second a readable feed of
    fewer than `m` tokens that begins like it. -/
structure FollowsFrom (token : Token) (n m : Nat) (reader follower : Parser α) : Prop where
  ok {feed rest : Feed} {a : α} : feed.Orderly → feed.current = .ok token → feed.queue.length < n →
    reader feed = .ok (a, rest) →
      ∃ next, Echoes follower m feed rest next fun ahead => .ok (a, ahead)
  unexpected {feed : Feed} {found : Token} {expected : Expectation} : feed.Orderly →
    feed.current = .ok token → feed.queue.length < n →
    reader feed = .error (.unexpected found expected) →
      ∃ rest, Echoes follower m feed rest found fun _ => .error (.unexpected found expected)

/-- The same, whatever token comes next. -/
def Follows (n m : Nat) (reader follower : Parser α) : Prop :=
  ∀ token, FollowsFrom token n m reader follower

section Combinators

variable {n m k l : Nat} {reader follower : Parser α} {next after : α → Parser β}

theorem Echoes.mono {result : Feed → Except ParseError (α × Feed)}
    (hechoes : Echoes reader m feed rest token result) (hl : l ≤ m) :
    Echoes reader l feed rest token result := by
  obtain ⟨taken, hfeed, htoken, hsame⟩ := hechoes
  refine ⟨taken, hfeed, htoken, fun ahead hreadable hahead hlength => ?_⟩
  exact hsame ahead hreadable hahead (Nat.lt_of_lt_of_le hlength hl)

/-- What is behind the tokens that the first reader takes is left to the second. -/
theorem Echoes.bind {middle : Feed} {behind : Token} {a : α}
    {result : Feed → Except ParseError (β × Feed)} (hproper : middle.Proper)
    (hfirst : Echoes reader m feed middle behind fun ahead => .ok (a, ahead))
    (hsecond : Echoes (next a) m middle rest token result) :
    Echoes (reader >>= next) m feed rest token result := by
  obtain ⟨front, rfl, hbehind, hsame⟩ := hfirst
  obtain ⟨back, rfl, htoken, hagain⟩ := hsecond
  refine ⟨front ++ back, (Feed.behind_append rest front back).symm, htoken, ?_⟩
  intro ahead hreadable hahead hlength
  have hcurrent : (ahead.behind back).current = .ok behind := by
    rw [Feed.current_behind (hahead.trans htoken.symm), hbehind]
  rw [Feed.behind_append] at hlength ⊢
  rw [bind_of_ok (hsame (ahead.behind back) (hreadable.behind hproper) hcurrent hlength)]
  rw [Feed.length_behind] at hlength
  exact hagain ahead hreadable hahead (by omega)

theorem FollowsFrom.mono (hfollows : FollowsFrom token n m reader follower) (hk : k ≤ n)
    (hl : l ≤ m) : FollowsFrom token k l reader follower where
  ok horderly hcurrent hlength hread := by
    obtain ⟨next, hechoes⟩ :=
      hfollows.ok horderly hcurrent (Nat.lt_of_lt_of_le hlength hk) hread
    exact ⟨next, hechoes.mono hl⟩
  unexpected horderly hcurrent hlength hread := by
    obtain ⟨rest, hechoes⟩ :=
      hfollows.unexpected horderly hcurrent (Nat.lt_of_lt_of_le hlength hk) hread
    exact ⟨rest, hechoes.mono hl⟩

theorem Follows.mono (hfollows : Follows n m reader follower) (hk : k ≤ n) (hl : l ≤ m) :
    Follows k l reader follower :=
  fun token => (hfollows token).mono hk hl

theorem FollowsFrom.pure (a : α) : FollowsFrom token n m (Pure.pure a) (Pure.pure a) where
  ok _ hcurrent _ hread := by
    obtain ⟨rfl, rfl⟩ := pure_eq_ok_iff.1 hread
    exact ⟨token, [], rfl, hcurrent, fun _ _ _ _ => rfl⟩
  unexpected _ _ _ hread := nomatch hread

theorem FollowsFrom.refuse (expected : Expectation) :
    FollowsFrom token n m (Parser.refuse expected : Parser α) (Parser.refuse expected) where
  ok _ _ _ hread := absurd hread refuse_ne_ok
  unexpected {feed _ _} _ hcurrent _ hread := by
    rw [refuse_of_ok hcurrent] at hread
    cases hread
    exact ⟨feed, [], rfl, hcurrent, fun _ _ hahead _ => refuse_of_ok hahead expected⟩

theorem Echoes.orderly {result : Feed → Except ParseError (α × Feed)}
    (hechoes : Echoes reader m feed rest token result) (horderly : feed.Orderly) :
    rest.Orderly ∧ rest.current = .ok token ∧ rest.queue.length ≤ feed.queue.length := by
  obtain ⟨taken, rfl, htoken, _⟩ := hechoes
  refine ⟨horderly.of_behind, htoken, ?_⟩
  rw [Feed.length_behind]
  omega

theorem FollowsFrom.bind (hreader : FollowsFrom token n m reader follower)
    (hnext : ∀ a, Follows n m (next a) (after a)) :
    FollowsFrom token n m (reader >>= next) (follower >>= after) where
  ok horderly hcurrent hlength hread := by
    obtain ⟨a, middle, hfirst, hsecond⟩ := bind_eq_ok_iff.1 hread
    obtain ⟨behind, hechoes⟩ := hreader.ok horderly hcurrent hlength hfirst
    obtain ⟨hmiddle, hbehind, hshort⟩ := hechoes.orderly horderly
    obtain ⟨next, hothers⟩ := (hnext a behind).ok hmiddle hbehind (by omega) hsecond
    exact ⟨next, .bind hmiddle.proper hechoes hothers⟩
  unexpected horderly hcurrent hlength hread := by
    rcases bind_eq_error_iff.1 hread with hfirst | ⟨a, middle, hfirst, hsecond⟩
    · obtain ⟨rest, taken, hfeed, hfound, hsame⟩ :=
        hreader.unexpected horderly hcurrent hlength hfirst
      refine ⟨rest, taken, hfeed, hfound, fun ahead hreadable hahead hshort => ?_⟩
      exact bind_eq_error_iff.2 (.inl (hsame ahead hreadable hahead hshort))
    · obtain ⟨behind, hechoes⟩ := hreader.ok horderly hcurrent hlength hfirst
      obtain ⟨hmiddle, hbehind, hshort⟩ := hechoes.orderly horderly
      obtain ⟨rest, hothers⟩ := (hnext a behind).unexpected hmiddle hbehind (by omega) hsecond
      exact ⟨rest, .bind hmiddle.proper hechoes hothers⟩

theorem Follows.bind (hreader : Follows n m reader follower)
    (hnext : ∀ a, Follows n m (next a) (after a)) :
    Follows n m (reader >>= next) (follower >>= after) :=
  fun token => (hreader token).bind hnext

/-- Readers may be exchanged for others that do the same on the feeds in question. -/
theorem FollowsFrom.congr {other copy : Parser α}
    (hother : ∀ {feed : Feed}, feed.Proper → feed.current = .ok token → feed.queue.length < n →
      reader feed = other feed)
    (hcopy : ∀ {feed : Feed}, feed.Proper → feed.current = .ok token → feed.queue.length < m →
      follower feed = copy feed)
    (hfollows : FollowsFrom token n m other copy) : FollowsFrom token n m reader follower := by
  -- The follower's feed begins with the same token: it is the first one taken, or the one ahead.
  have hbegins : ∀ {feed rest ahead : Feed} {taken : List Token} {stop : Token},
    feed.current = .ok token →
      feed = rest.behind taken → rest.current = .ok stop → ahead.current = .ok stop →
      (ahead.behind taken).current = .ok token := by
    intro feed rest ahead taken stop hcurrent hfeed hstop hahead
    rw [Feed.current_behind (hahead.trans hstop.symm), ← hfeed, hcurrent]
  constructor
  · intro feed rest a horderly hcurrent hlength hread
    rw [hother horderly.proper hcurrent hlength] at hread
    obtain ⟨stop, taken, hfeed, hstop, hsame⟩ := hfollows.ok horderly hcurrent hlength hread
    refine ⟨stop, taken, hfeed, hstop, fun ahead hreadable hahead hshort => ?_⟩
    rw [hcopy (hreadable.behind (hfeed ▸ horderly.proper)).proper
      (hbegins hcurrent hfeed hstop hahead) hshort]
    exact hsame ahead hreadable hahead hshort
  · intro feed found expected horderly hcurrent hlength hread
    rw [hother horderly.proper hcurrent hlength] at hread
    obtain ⟨rest, taken, hfeed, hfound, hsame⟩ :=
      hfollows.unexpected horderly hcurrent hlength hread
    refine ⟨rest, taken, hfeed, hfound, fun ahead hreadable hahead hshort => ?_⟩
    rw [hcopy (hreadable.behind (hfeed ▸ horderly.proper)).proper
      (hbegins hcurrent hfeed hfound hahead) hshort]
    exact hsame ahead hreadable hahead hshort

theorem FollowsFrom.current {next after : Token → Parser β}
    (hnext : FollowsFrom token n m (next token) (after token)) :
    FollowsFrom token n m (Parser.current >>= next) (Parser.current >>= after) :=
  .congr (fun _ hcurrent _ => bind_of_ok (current_of_ok hcurrent))
    (fun _ hcurrent _ => bind_of_ok (current_of_ok hcurrent)) hnext

theorem FollowsFrom.sees {next after : Bool → Parser β} (lexeme : Lexeme)
    (hnext : FollowsFrom token n m (next (token.lexeme == lexeme))
      (after (token.lexeme == lexeme))) :
    FollowsFrom token n m (Parser.sees lexeme >>= next) (Parser.sees lexeme >>= after) :=
  .congr (fun _ hcurrent _ => bind_of_ok (sees_of_ok hcurrent lexeme))
    (fun _ hcurrent _ => bind_of_ok (sees_of_ok hcurrent lexeme)) hnext

/-- Readers that look at the next token first and go on according to whether it is a certain one. -/
theorem FollowsFrom.ifSees {yes no also otherwise : Parser α} (lexeme : Lexeme)
    (hyes : token.lexeme = lexeme → FollowsFrom token n m yes also)
    (hno : token.lexeme ≠ lexeme → FollowsFrom token n m no otherwise) :
    FollowsFrom token n m (do if ← Parser.sees lexeme then yes else no)
      (do if ← Parser.sees lexeme then also else otherwise) := by
  refine sees lexeme ?_
  by_cases hlexeme : token.lexeme = lexeme
  · simpa only [hlexeme, BEq.rfl, if_true] using hyes hlexeme
  · simpa only [beq_eq_false_iff_ne.2 hlexeme, Bool.false_eq_true, if_false] using hno hlexeme

theorem Echoes.take {middle : Feed} {stop : Token} {result : Feed → Except ParseError (α × Feed)}
    (hproper : middle.Proper) (hechoes : Echoes reader m middle rest stop result) :
    Echoes (advance >>= fun _ => reader) (m + 1) (middle.behind [token]) rest stop result := by
  obtain ⟨taken, rfl, hstop, hsame⟩ := hechoes
  refine ⟨token :: taken, rfl, hstop, fun ahead hreadable hahead hlength => ?_⟩
  obtain ⟨next, hnext⟩ := Feed.exists_current (hreadable.behind hproper).ending_ok
  have hcurrent : (ahead.behind (token :: taken)).current = .ok token := rfl
  have hrest : (ahead.behind (token :: taken)).rest = ahead.behind taken := rfl
  rw [advance_bind_of_ok hcurrent, hrest, hnext]
  exact hsame ahead hreadable hahead (Nat.lt_of_succ_lt_succ hlength)

/-- Behind a token that is taken, the feeds have a token less. -/
theorem FollowsFrom.take (hend : token.lexeme ≠ .endOfInput)
    (hreader : Follows n m reader follower) :
    FollowsFrom token (n + 1) (m + 1) (advance >>= fun _ => reader)
      (advance >>= fun _ => follower) := by
  have hbehind : ∀ {feed : Feed}, feed.Orderly → feed.current = .ok token →
    feed.queue.length < n + 1 →
      feed = feed.rest.behind [token] ∧ feed.rest.Orderly ∧ feed.rest.queue.length < n := by
    intro feed horderly hcurrent hlength
    have hfeed := horderly.proper.eq_behind hcurrent hend
    refine ⟨hfeed, (hfeed ▸ horderly).of_behind, ?_⟩
    rw [hfeed, Feed.length_behind, List.length_singleton] at hlength
    omega
  constructor
  · intro feed rest a horderly hcurrent hlength hread
    obtain ⟨hfeed, hmiddle, hless⟩ := hbehind horderly hcurrent hlength
    rw [advance_bind_of_ok hcurrent] at hread
    split at hread
    · rename_i next hnext
      obtain ⟨stop, hechoes⟩ := (hreader next).ok hmiddle hnext hless hread
      exact ⟨stop, hfeed ▸ hechoes.take hmiddle.proper⟩
    · cases hread
  · intro feed found expected horderly hcurrent hlength hread
    obtain ⟨hfeed, hmiddle, hless⟩ := hbehind horderly hcurrent hlength
    rw [advance_bind_of_ok hcurrent] at hread
    split at hread
    · rename_i next hnext
      obtain ⟨rest, hechoes⟩ := (hreader next).unexpected hmiddle hnext hless hread
      exact ⟨rest, hfeed ▸ hechoes.take hmiddle.proper⟩
    · cases hread

/-- The same, for readers that need not know about it. -/
theorem FollowsFrom.advance_bind (hend : token.lexeme ≠ .endOfInput)
    (hreader : Follows n m reader follower) :
    FollowsFrom token n m (advance >>= fun _ => reader) (advance >>= fun _ => follower) :=
  (take hend hreader).mono (Nat.le_succ n) (Nat.le_succ m)

/-- At the end of input, taking it leaves the feed as it is. -/
theorem FollowsFrom.advance : FollowsFrom token n m Parser.advance Parser.advance := by
  by_cases hend : token.lexeme = .endOfInput
  · have hstays : ∀ {feed : Feed}, feed.Proper → feed.current = .ok token →
        Parser.advance feed = .ok ((), feed) := by
      intro feed hproper hcurrent
      rw [advance_of_ok hcurrent, hproper.rest_eq hcurrent hend, hcurrent]
    exact .congr (fun hproper hcurrent _ => hstays hproper hcurrent)
      (fun hproper hcurrent _ => hstays hproper hcurrent) (.pure ())
  · simpa only [bind_pure_unit] using advance_bind hend fun _ => .pure ()

theorem FollowsFrom.expect (lexeme : Lexeme) (expected : Expectation) :
    FollowsFrom token n m (Parser.expect lexeme expected) (Parser.expect lexeme expected) :=
  ifSees lexeme (fun _ => advance) fun _ => refuse expected

theorem FollowsFrom.expectName (expected : Expectation) :
    FollowsFrom token n m (Parser.expectName expected) (Parser.expectName expected) := by
  refine current ?_
  cases hlexeme : token.lexeme with
  | name name => exact advance_bind (by simp [hlexeme]) fun _ => .pure name
  | _ => exact refuse expected

/-- A reader of a feed of so many tokens is followed by a reader with as many rounds as its own feed
    has tokens. In an orderly feed the place where the first one stops does not depend on the
    second. -/
theorem Follows.bounded {rounds others : Nat → Parser α}
    (hrounds : ∀ i j, Follows (min n (i + 1)) (min m (j + 1)) (rounds i) (others j)) :
    Follows n m (Parser.bounded rounds) (Parser.bounded others) := by
  intro token
  constructor
  · intro feed rest a horderly hcurrent hlength hread
    have hok := fun j => (hrounds feed.queue.length j token).ok horderly hcurrent (by omega) hread
    obtain ⟨stop, taken, hfeed, hstop, _⟩ := hok 0
    refine ⟨stop, taken, hfeed, hstop, fun ahead hreadable hahead hshort => ?_⟩
    obtain ⟨next, front, hagain, hnext, hsame⟩ := hok (ahead.behind taken).queue.length
    obtain rfl := horderly.taken_unique hfeed hagain hnext hnext
    obtain rfl : next = stop := by
      rw [hstop] at hnext
      exact (Except.ok.inj hnext).symm
    exact hsame ahead hreadable hahead (by omega)
  · intro feed found expected horderly hcurrent hlength hread
    have herror := fun j =>
      (hrounds feed.queue.length j token).unexpected horderly hcurrent (by omega) hread
    obtain ⟨rest, taken, hfeed, hfound, _⟩ := herror 0
    refine ⟨rest, taken, hfeed, hfound, fun ahead hreadable hahead hshort => ?_⟩
    obtain ⟨other, front, hagain, hother, hsame⟩ := herror (ahead.behind taken).queue.length
    obtain rfl := horderly.taken_unique hfeed hagain hfound hother
    exact hsame ahead hreadable hahead (by omega)

/-- Whether a reader has no round left or one makes no difference at the end of input. -/
def EndsAlike (rounds : Nat → β → Parser α) : Prop :=
  ∀ ⦃feed : Feed⦄ ⦃token : Token⦄, feed.current = .ok token → token.lexeme = .endOfInput →
    ∀ b, rounds 0 b feed = rounds 1 b feed

theorem EndsAlike.eq {rounds : Nat → β → Parser α} (hrounds : EndsAlike rounds) (b : β)
    (hproper : feed.Proper) (hcurrent : feed.current = .ok token)
    (hlength : feed.queue.length < 1) :
    rounds 0 b feed = rounds 1 b feed := by
  refine hrounds hcurrent ?_ b
  have hnil : feed.queue = [] := List.length_eq_zero_iff.1 (Nat.lt_one_iff.1 hlength)
  refine hproper.lexeme_ending token ?_
  rw [← hcurrent, Feed.current, hnil]

theorem Follows.zero : Follows 0 m reader follower := by
  intro token
  constructor
  · intro _ _ _ _ _ hlength
    exact absurd hlength (Nat.not_lt_zero _)
  · intro _ _ _ _ _ hlength
    exact absurd hlength (Nat.not_lt_zero _)

/-- Readers that go on round by round, each round taking a token. Only at the end of input can the
    rounds of one of them be used up, and there one more makes no difference. -/
theorem Follows.rounds {rounds others : Nat → β → Parser α} (hrounds : EndsAlike rounds)
    (hothers : EndsAlike others)
    (hstep : ∀ {i j k l}, k ≤ n → l ≤ m → (∀ b, Follows k l (rounds i b) (others j b)) →
      ∀ b, Follows (k + 1) (l + 1) (rounds (i + 1) b) (others (j + 1) b)) (i j : Nat) (b : β) :
    Follows (min n (i + 1)) (min m (j + 1)) (rounds i b) (others j b) := by
  -- By induction on the rounds of the first reader. A reader without rounds has an empty feed, so
  -- it is exchanged for one with a single round before the step is made.
  induction i generalizing j b with
  | zero =>
    have hzero : ∀ j, Follows 1 (m + 1) (rounds 1 b) (others (j + 1) b) := fun j =>
      hstep (Nat.zero_le n) (Nat.le_refl m) (fun _ => .zero) b
    cases j with
    | zero =>
      refine fun token => .congr (fun hproper hcurrent hlength => ?_)
        (fun hproper hcurrent hlength => ?_) ((hzero 0 token).mono (by omega) (by omega))
      · exact hrounds.eq b hproper hcurrent (by omega)
      · exact hothers.eq b hproper hcurrent (by omega)
    | succ j =>
      refine fun token => .congr (fun hproper hcurrent hlength => ?_) (fun _ _ _ => rfl)
        ((hzero j token).mono (by omega) (by omega))
      exact hrounds.eq b hproper hcurrent (by omega)
  | succ i ih =>
    cases j with
    | zero =>
      have hlast : Follows (min n (i + 1) + 1) 1 (rounds (i + 1) b) (others 1 b) :=
        hstep (Nat.min_le_left n (i + 1)) (Nat.zero_le m)
          (fun b => (ih 0 b).mono (Nat.le_refl _) (Nat.zero_le _)) b
      refine fun token => .congr (fun _ _ _ => rfl) (fun hproper hcurrent hlength => ?_)
        ((hlast token).mono (by omega) (by omega))
      exact hothers.eq b hproper hcurrent (by omega)
    | succ j =>
      have hboth := hstep (Nat.min_le_left n (i + 1)) (Nat.min_le_left m (j + 1)) (ih j) b
      exact hboth.mono (by omega) (by omega)

end Combinators

namespace Follows

variable {n m : Nat} {operand copy : Parser Node}

theorem chainFrom {operator? : Lexeme → Option String} (hend : operator? .endOfInput = none)
    (hoperand : Follows n m operand copy) (i j : Nat) (left : Node) :
    Follows (min n (i + 1)) (min m (j + 1)) (Parser.chainFrom operator? operand i left)
      (Parser.chainFrom operator? copy j left) := by
  have halike : ∀ operand, EndsAlike (Parser.chainFrom operator? operand) := by
    intro operand feed token hcurrent htoken left
    rw [Parser.chainFrom, Parser.chainFrom, bind_of_ok (current_of_ok hcurrent)]
    simp only [htoken, hend]
  refine .rounds (halike operand) (halike copy) ?_ i j left
  intro i j k l hk hl ih left token
  rw [Parser.chainFrom, Parser.chainFrom]
  refine .current ?_
  cases hoperator : operator? token.lexeme with
  | none => exact .pure left
  | some operator =>
    have htoken : token.lexeme ≠ .endOfInput := fun hlexeme => by simp [hlexeme, hend] at hoperator
    exact .take htoken ((hoperand.mono hk hl).bind fun right => ih (.binary left operator right))

theorem chain {operator? : Lexeme → Option String} (hend : operator? .endOfInput = none)
    (hoperand : Follows n m operand copy) :
    Follows n m (Parser.chain operator? operand) (Parser.chain operator? copy) :=
  hoperand.bind fun left => .bounded fun i j => hoperand.chainFrom hend i j left

theorem term (hoperand : Follows n m operand copy) :
    Follows n m (Parser.term operand) (Parser.term copy) := by
  have hproduct : Follows n m (Parser.chain multiplicative? operand)
      (Parser.chain multiplicative? copy) := hoperand.chain rfl
  refine hproduct.bind fun left token => .current ?_
  cases hcomparison : comparison? token.lexeme with
  | none => exact .pure left
  | some comparison =>
    have htoken : token.lexeme ≠ .endOfInput := fun hlexeme => by
      simp [hlexeme, comparison?] at hcomparison
    exact .advance_bind htoken (hproduct.bind fun right _ => .pure _)

theorem sum (hoperand : Follows n m operand copy) :
    Follows n m (Parser.sum operand) (Parser.sum copy) :=
  hoperand.term.chain rfl

theorem moreArguments (hexpression : Follows n m operand copy) (i j : Nat) :
    Follows (min n (i + 1)) (min m (j + 1)) (Parser.moreArguments operand i)
      (Parser.moreArguments copy j) := by
  have halike : ∀ expression, EndsAlike fun i (_ : Unit) => Parser.moreArguments expression i := by
    intro expression feed token hcurrent htoken _
    change Parser.moreArguments expression 0 feed = Parser.moreArguments expression 1 feed
    rw [Parser.moreArguments, Parser.moreArguments, bind_of_ok (sees_of_ok hcurrent _), htoken]
    rfl
  refine .rounds (halike operand) (halike copy) ?_ i j ()
  intro i j k l hk hl ih _ token
  refine .ifSees _ (fun hcomma => ?_) fun _ => .pure []
  exact .take (by simp [hcomma]) ((hexpression.mono hk hl).bind fun _ =>
    (ih ()).bind fun _ _ => .pure _)

theorem arguments (hexpression : Follows n m operand copy) :
    Follows n m (Parser.arguments operand) (Parser.arguments copy) := by
  refine bind (fun _ => .expect _ _) fun _ token => .ifSees _ (fun hclose => ?_) fun _ => ?_
  · exact .advance_bind (by simp [hclose]) fun _ => .pure []
  · exact hexpression.bind (fun _ => (bounded hexpression.moreArguments).bind fun _ =>
      bind (fun _ => .expect _ _) fun _ _ => .pure _) token

theorem factor (i j : Nat) : Follows (i + 1) (j + 1) (Parser.factor i) (Parser.factor j) := by
  have halike : EndsAlike fun i (_ : Unit) => Parser.factor i := by
    intro feed token hcurrent htoken _
    change Parser.factor 0 feed = Parser.factor 1 feed
    rw [Parser.factor, Parser.factor, bind_of_ok (current_of_ok hcurrent)]
    simp only [htoken]
  refine (rounds (n := i + 1) (m := j + 1) halike halike ?_ i j ()).mono (by omega) (by omega)
  intro i j k l _ _ ih _ token
  have hfactor := ih ()
  rw [Parser.factor, Parser.factor]
  refine .current ?_
  cases hlexeme : token.lexeme with
  | integer | text | boolean => exact .take (by simp [hlexeme]) fun _ => .pure _
  | name name =>
    refine .take (by simp [hlexeme]) fun behind => .ifSees _ (fun _ => ?_) fun _ => .pure _
    exact hfactor.sum.arguments.bind (fun _ _ => .pure _) behind
  | mark m =>
    cases m with
    | plus | minus => exact .take (by simp [hlexeme]) (hfactor.bind fun _ _ => .pure _)
    | parenOpen =>
      exact .take (by simp [hlexeme])
        (hfactor.sum.bind fun _ => bind (fun _ => .expect _ _) fun _ _ => .pure _)
    | star | slash | parenClose | comma | assign | lineBreak => exact .refuse _
  | keyword | endOfInput => exact .refuse _

theorem expression : Follows n m Parser.expression Parser.expression :=
  bounded fun i j => (factor i j).sum.mono (by omega) (by omega)

/-- A token that is refused after it was taken is refused for itself, not for what is behind it. -/
theorem refuse_taken {α : Type} {token : Token} (expected : Expectation) :
    FollowsFrom token n m (advance >>= fun _ => (throw (.unexpected token expected) : Parser α))
      (advance >>= fun _ => throw (.unexpected token expected)) where
  ok _ _ _ hread := by
    obtain ⟨_, _, _, hthrow⟩ := bind_eq_ok_iff.1 hread
    cases hthrow
  unexpected {feed _ _} _ hcurrent _ hread := by
    rw [advance_bind_of_ok hcurrent] at hread
    split at hread
    · cases hread
      refine ⟨feed, [], rfl, hcurrent, fun ahead hreadable hahead _ => ?_⟩
      have hending : ∃ finish, ahead.rest.ending = .ok finish := hreadable.ending_ok
      obtain ⟨next, hnext⟩ := Feed.exists_current hending
      change (advance >>= fun _ => throw (.unexpected token expected)) ahead = _
      rw [advance_bind_of_ok hahead, hnext]
      rfl
    · cases hread

theorem parameterNames (i j : Nat) (seen : List String) :
    Follows (i + 1) (j + 1) (Parser.parameterNames i seen) (Parser.parameterNames j seen) := by
  have halike : EndsAlike Parser.parameterNames := by
    intro feed token hcurrent htoken seen
    rw [Parser.parameterNames, Parser.parameterNames, bind_of_ok (current_of_ok hcurrent),
      refuse_of_ok hcurrent]
    refine (bind_eq_error_iff.2 (.inl ?_)).symm
    rw [Parser.expectName, bind_of_ok (current_of_ok hcurrent)]
    simp only [htoken]
    exact refuse_of_ok hcurrent _
  refine (rounds (n := i + 1) (m := j + 1) halike halike ?_ i j seen).mono (by omega) (by omega)
  intro i j k l _ _ ih seen token
  rw [Parser.parameterNames, Parser.parameterNames]
  refine .current ?_
  simp only [Parser.expectName, bind_assoc]
  refine .current ?_
  cases hlexeme : token.lexeme with
  | name name =>
    simp only [bind_assoc, pure_bind]
    by_cases hseen : name ∈ seen
    · simp only [hseen, if_true]
      exact refuse_taken .uniqueParameter
    · simp only [hseen, if_false]
      refine .take (by simp [hlexeme]) fun behind => .ifSees _ (fun hcomma => ?_) fun _ => .pure _
      exact .advance_bind (by simp [hcomma]) ((ih (name :: seen)).bind fun _ _ => .pure _)
  | _ =>
    simp only [refuse_bind]
    exact .refuse .parameterName

theorem parameters : Follows n m Parser.parameters Parser.parameters := by
  refine bind (fun _ => .expect _ _) fun _ token => .ifSees _ (fun hclose => ?_) fun _ => ?_
  · exact .advance_bind (by simp [hclose]) fun _ => .pure []
  · have hnames : Follows n m (Parser.bounded fun rounds => Parser.parameterNames rounds [])
        (Parser.bounded fun rounds => Parser.parameterNames rounds []) :=
      bounded fun i j => (parameterNames i j []).mono (by omega) (by omega)
    exact hnames.bind (fun _ => bind (fun _ => .expect _ _) fun _ _ => .pure _) token

section Statements

variable {statement version : Parser (Option Node)}

theorem moreStatements (hstatement : Follows n m statement version) (i j : Nat) :
    Follows (min n (i + 1)) (min m (j + 1)) (Parser.moreStatements statement i)
      (Parser.moreStatements version j) := by
  have halike : ∀ statement, EndsAlike fun i (_ : Unit) => Parser.moreStatements statement i := by
    intro statement feed token hcurrent htoken _
    change Parser.moreStatements statement 0 feed = Parser.moreStatements statement 1 feed
    rw [Parser.moreStatements, Parser.moreStatements, bind_of_ok (sees_of_ok hcurrent _), htoken]
    rfl
  refine .rounds (halike statement) (halike version) ?_ i j ()
  intro i j k l hk hl ih _ token
  refine .ifSees _ (fun hbreak => ?_) fun _ => .pure []
  refine .take (by simp [hbreak]) ((hstatement.mono hk hl).bind fun found => ?_)
  cases found with
  | none => exact fun _ => .pure []
  | some node => exact (ih ()).bind fun _ _ => .pure _

theorem statements (hstatement : Follows n m statement version) :
    Follows n m (Parser.statements statement) (Parser.statements version) :=
  hstatement.bind fun _ => (bounded hstatement.moreStatements).bind fun _ _ => .pure _

theorem block (hstatement : Follows n m statement version) :
    Follows n m (Parser.block statement) (Parser.block version) :=
  bind (fun _ => .expect _ _) fun _ => hstatement.statements.bind fun _ =>
    bind (fun _ => .expect _ _) fun _ _ => .pure _

end Statements

theorem statement (i j : Nat) :
    Follows (i + 1) (j + 1) (Parser.statement i) (Parser.statement j) := by
  have halike : EndsAlike fun i (_ : Unit) => Parser.statement i := by
    intro feed token hcurrent htoken _
    change Parser.statement 0 feed = Parser.statement 1 feed
    rw [Parser.statement, Parser.statement, bind_of_ok (current_of_ok hcurrent)]
    simp only [htoken]
  refine (rounds (n := i + 1) (m := j + 1) halike halike ?_ i j ()).mono (by omega) (by omega)
  intro i j k l _ _ ih _ token
  have hblock := (ih ()).block
  rw [Parser.statement, Parser.statement]
  refine .current ?_
  cases hlexeme : token.lexeme with
  | name name =>
    refine .take (by simp [hlexeme]) fun behind => .ifSees _ (fun hassign => ?_) fun _ =>
      .ifSees _ (fun _ => ?_) fun _ => .refuse _
    · exact .advance_bind (by simp [hassign]) (expression.bind fun _ _ => .pure _)
    · exact expression.arguments.bind (fun _ _ => .pure _) behind
  | keyword keyword =>
    cases keyword with
    | branch | loop =>
      exact .take (by simp [hlexeme]) (expression.bind fun _ => hblock.bind fun _ _ => .pure _)
    | function =>
      exact .take (by simp [hlexeme]) (bind (fun _ => .expectName _) fun _ =>
          parameters.bind fun _ =>
        hblock.bind fun _ _ => .pure _)
    | assignTarget =>
      exact .take (by simp [hlexeme]) (bind (fun _ => .expectName _) fun _ =>
        bind (fun _ => .expect _ _) fun _ => expression.bind fun _ _ => .pure _)
    | giveBack => exact .take (by simp [hlexeme]) (expression.bind fun _ _ => .pure _)
    | greeting | farewell | blockOpen | blockClose | assignValue | equals | less | greater =>
      exact .pure none
  | integer | text | boolean | mark | endOfInput => exact .pure none

theorem program : Follows n m Parser.program Parser.program := by
  have hnodes : Follows n m (Parser.bounded fun depth => Parser.statements (Parser.statement depth))
      (Parser.bounded fun depth => Parser.statements (Parser.statement depth)) :=
    bounded fun i j => (statement i j).statements.mono (by omega) (by omega)
  exact bind (fun _ => .expect _ _) fun _ => bind (fun _ => .expect _ _) fun _ =>
    hnodes.bind fun _ => bind (fun _ => .expect _ _) fun _ => bind (fun _ => .expect _ _) fun _ _ =>
      .pure _

end Follows

/-- A token that is refused is refused in every readable feed that begins with the same tokens and
    with it. -/
theorem program_refuses_again {before : List Token} {found : Token} {expected : Expectation}
    (horderly : (rest.behind before).Orderly) (hfound : rest.current = .ok found)
    (hread : program (rest.behind before) = .error (.unexpected found expected))
    (hreadable : ahead.Readable) (hahead : ahead.current = .ok found) :
    program (ahead.behind before) = .error (.unexpected found expected) := by
  obtain ⟨token, hcurrent⟩ : ∃ token, (rest.behind before).current = .ok token := by
    cases before with
    | nil => exact ⟨found, hfound⟩
    | cons token before => exact ⟨token, rfl⟩
  obtain ⟨other, taken, hfeed, hother, hsame⟩ :=
    (Follows.program token).unexpected horderly hcurrent (Nat.lt_succ_self _) hread
  obtain rfl := horderly.taken_unique rfl hfeed hfound hother
  exact hsame ahead hreadable hahead (Nat.lt_succ_self _)

end Parser

end Hallo
