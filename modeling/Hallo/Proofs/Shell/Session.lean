import Hallo.Proofs.Evaluator.Answers
import Hallo.Proofs.Evaluator.Balanced
import Hallo.Shell
import Mathlib

/-!
Sessions. Whatever the programs typed in a session do, it goes on to the end of the input and takes
its leave. In a strict session a program that asks nothing prints what it prints on its own, so no
line depends on those before it.
-/
namespace Hallo.Shell

open Run (on)

/-- The source that is typed on a line. -/
def typed (line : String) : String :=
  String.ofList (Text.unescapeBreaks line.toList)

namespace Desk

/-- A line was typed at the prompt, and this is what is left of the input. -/
def heard (desk : Desk) (line : String) (input : List (Option String)) : Desk :=
  { desk with input := input, log := .question .shell prompt (some line) :: desk.log }

/-- From one desk to a later one, the input was taken from the front, line by line, each as the
    answer to a question. -/
def Reads (desk next : Desk) : Prop :=
  ∃ story, next.log = story ++ desk.log ∧ Gives desk.input (replies story) next.input

theorem Reads.refl (desk : Desk) : desk.Reads desk :=
  ⟨[], rfl, .nil desk.input⟩

theorem Reads.trans {desk next last : Desk} (hfirst : desk.Reads next) (hsecond : next.Reads last) :
    desk.Reads last := by
  obtain ⟨first, hlog, hgives⟩ := hfirst
  obtain ⟨second, hlog', hgives'⟩ := hsecond
  refine ⟨second ++ first, ?_, ?_⟩
  · rw [hlog', hlog, List.append_assoc]
  · rw [replies_append]
    exact Gives.append_iff.2 ⟨next.input, hgives, hgives'⟩

theorem reads_heard {desk : Desk} {line : String} {input : List (Option String)}
    (hinput : desk.input = some line :: input) : desk.Reads (desk.heard line input) := by
  refine ⟨[.question .shell prompt (some line)], rfl, ?_⟩
  rw [hinput]
  exact .cons (.nil input)

/-- Where no line is missing, none will be missing later. -/
theorem Reads.exists_others {desk next : Desk} {lines : List String} (hreads : desk.Reads next)
    (hinput : desk.input = lines.map some) :
    ∃ others : List String, next.input = others.map some ∧ others.length ≤ lines.length := by
  obtain ⟨story, _, hgives⟩ := hreads
  rw [hinput] at hgives
  obtain ⟨others, hothers, hlines⟩ := hgives.eq_append_of_map_some
  refine ⟨others, hothers, ?_⟩
  rw [← hlines, List.length_append]
  omega

theorem Reads.input_eq_nil {desk next : Desk} (hreads : desk.Reads next)
    (hinput : desk.input = []) :
    next.input = [] := by
  have hnone : desk.input = ([] : List String).map some := hinput
  obtain ⟨others, hothers, hlength⟩ := hreads.exists_others hnone
  rw [hothers, List.length_eq_zero_iff.1 (Nat.le_zero.1 hlength)]
  rfl

/-- All lines of the input are answers in the end. -/
theorem Reads.answers {desk last : Desk} {lines : List String} (hreads : desk.Reads last)
    (hinput : desk.input = lines.map some) (hlast : last.input = [])
    (hlog : ∀ event ∈ desk.log, event.prompt? = none) :
    last.log.reverse.filterMap Event.answer? = lines := by
  obtain ⟨story, hstory, hgives⟩ := hreads
  rw [hinput, hlast] at hgives
  obtain ⟨others, hothers, hlines⟩ := hgives.eq_append_of_map_some
  rw [List.map_eq_nil_iff.1 hothers.symm, List.append_nil] at hlines
  rw [← filterMap_id_replies, hstory, replies_append, replies_eq_nil hlog, List.nil_append, hlines]

end Desk

namespace World

/-- The desk that the program comes to when it is called. -/
def desk (world : World) : Desk :=
  { dice := world.dice, clock := world.clock, input := world.input.map some }

/-- The desk of a session before its first prompt. -/
def opening (world : World) : Desk :=
  world.desk.print "dmm REPL. Ctrl-D to leave.\n"

end World

/-- A session that has come so far enters a program at a desk, with the next line or later. -/
inductive Enters (limit rounds : Nat) (strict : Bool) : Desk → String → Desk → Prop where
  | now {desk : Desk} {line : String} {input : List (Option String)}
      (hinput : desk.input = some line :: input)
      (hline : Text.isBlankLine line = false) :
      Enters limit rounds strict desk (typed line) (desk.heard line input)
  | behindBlank {desk place : Desk} {line source : String} {input : List (Option String)}
      (hinput : desk.input = some line :: input) (hline : Text.isBlankLine line = true)
      (hlater : Enters limit rounds strict (desk.heard line input) source place) :
      Enters limit rounds strict desk source place
  | behindProgram {desk place : Desk} {line source : String} {input : List (Option String)}
      (hinput : desk.input = some line :: input) (hline : Text.isBlankLine line = false)
      (hlater : Enters limit rounds strict
        (interpret limit rounds strict (typed line) (desk.heard line input)).2 source place) :
      Enters limit rounds strict desk source place

section Enters

variable {limit rounds : Nat} {strict : Bool} {desk place : Desk} {line source : String}
  {input : List (Option String)}

theorem not_enters_of_nil (hinput : desk.input = []) :
    ¬ Enters limit rounds strict desk source place := by
  intro henters
  cases henters with
  | now hinput' | behindBlank hinput' | behindProgram hinput' =>
    rw [hinput] at hinput'
    cases hinput'

theorem enters_cons_iff (hinput : desk.input = some line :: input) :
    Enters limit rounds strict desk source place ↔
      if Text.isBlankLine line then Enters limit rounds strict (desk.heard line input) source place
      else source = typed line ∧ place = desk.heard line input ∨
        Enters limit rounds strict
          (interpret limit rounds strict (typed line) (desk.heard line input)).2 source place := by
  constructor
  · intro henters
    cases henters with
    | now hinput' hline =>
      rw [hinput] at hinput'
      cases hinput'
      simp [hline]
    | behindBlank hinput' hline hlater =>
      rw [hinput] at hinput'
      cases hinput'
      simpa [hline] using hlater
    | behindProgram hinput' hline hlater =>
      rw [hinput] at hinput'
      cases hinput'
      simp [hline, hlater]
  · cases hline : Text.isBlankLine line with
    | true => exact .behindBlank hinput hline
    | false =>
      rintro (⟨rfl, rfl⟩ | hlater)
      · exact .now hinput hline
      · exact .behindProgram hinput hline hlater

end Enters

section Steps

variable {limit rounds count : Nat} {strict : Bool} {desk : Desk} {line : String}
  {input : List (Option String)}

-- Both sides are the same by definition, as long as nobody tries to run the program.
attribute [local irreducible] interpret in
/-- A session asks for a line, and runs it if it is not blank. -/
theorem converse_succ (limit rounds : Nat) (strict : Bool) (count : Nat) (desk : Desk) :
    converse limit rounds strict (count + 1) desk =
      match desk.input with
      | some line :: input =>
        if Text.isBlankLine line then converse limit rounds strict count (desk.heard line input)
        else
          match interpret limit rounds strict (typed line) (desk.heard line input) with
          | (some _, next) => converse limit rounds strict count next
          | (none, next) => (.unfinished, next)
      | _ => (.exit 0, farewell desk) := rfl

theorem converse_of_nil (hinput : desk.input = []) (count : Nat) :
    converse limit rounds strict count desk = (.exit 0, farewell desk) := by
  cases count with
  | zero => rfl
  | succ count => rw [converse_succ, hinput]

theorem converse_of_blank (hinput : desk.input = some line :: input)
    (hline : Text.isBlankLine line = true) :
    converse limit rounds strict (count + 1) desk = converse limit rounds strict count
      (desk.heard line input) := by
  rw [converse_succ, hinput]
  exact if_pos hline

theorem converse_of_finished (hinput : desk.input = some line :: input)
    (hline : Text.isBlankLine line = false) {code : Nat} {next : Desk}
    (hfinished : interpret limit rounds strict (typed line) (desk.heard line input) =
      (some code, next)) :
    converse limit rounds strict (count + 1) desk = converse limit rounds strict count next := by
  rw [converse_succ, hinput]
  simp only [hline, hfinished]
  rfl

/-- The exit code for a run that has ended so, and the report on it. -/
def verdict (ending : Except Halt Value) (mood : Mood) : Option Nat × List Event :=
  match ending with
  | .ok _ => (some 0, [])
  | .error .unfinished => (none, [])
  | .error (.fault fault) => (some (report mood fault).2, [.line (report mood fault).1])

theorem replies_verdict (ending : Except Halt Value) (mood : Mood) :
    replies (verdict ending mood).2 = [] := by
  rcases ending with (fault | _) | value <;> rfl

/-- What is left at the desk is what the program's run has left of its machine, with the report on
    top. -/
theorem interpret_of_on {source : String} {ending : Except Halt Value} {after : Machine}
    (desk : Desk)
    (hon : on (Run.sourceWithin limit rounds source)
      (.start strict desk.dice desk.clock desk.input) = (ending, after)) :
    interpret limit rounds strict source desk =
      ((verdict ending after.worker.mood).1,
        { dice := after.dice
          clock := after.clock
          input := after.answers
          log := (verdict ending after.worker.mood).2 ++ (after.log ++ desk.log) }) := by
  rw [on] at hon
  simp only [interpret]
  cases hrun :
    Run.sourceWithin limit rounds source (.start strict desk.dice desk.clock desk.input) with
  | ok value machine =>
    rw [hrun] at hon
    cases hon
    rfl
  | error halt machine =>
    rw [hrun] at hon
    cases hon
    cases halt <;> rfl

/-- A program takes its answers from the front of the input. -/
theorem reads_interpret (limit rounds : Nat) (strict : Bool) (source : String) (desk : Desk) :
    desk.Reads (interpret limit rounds strict source desk).2 := by
  rcases hon : on (Run.sourceWithin limit rounds source)
    (.start strict desk.dice desk.clock desk.input) with ⟨ending, after⟩
  obtain ⟨story, hlog, hgives, _⟩ := Run.heeds_source limit rounds source hon
  have hstory : after.log = story := hlog.trans (List.append_nil story)
  rw [interpret_of_on desk hon]
  refine ⟨(verdict ending after.worker.mood).2 ++ story, ?_, ?_⟩
  · rw [hstory, List.append_assoc]
  · rw [replies_append, replies_verdict, List.append_nil]
    exact hgives

/-- If every program that is entered finishes, the session reads on to the end of the input and
    takes its leave. -/
theorem converse_reads {lines : List String} (hinput : desk.input = lines.map some)
    (hcount : lines.length ≤ count)
    (hfinish : ∀ source place, Enters limit rounds strict desk source place →
      (interpret limit rounds strict source place).1 ≠ none) :
    ∃ last, converse limit rounds strict count desk = (.exit 0, farewell last) ∧ desk.Reads last ∧
      last.input = [] := by
  -- Each round takes a line, and a program only takes more of them, so the rounds do not run out.
  induction count generalizing desk lines with
  | zero =>
    obtain rfl := List.length_eq_zero_iff.1 (Nat.le_zero.1 hcount)
    exact ⟨desk, rfl, .refl desk, hinput⟩
  | succ count ih =>
    cases lines with
    | nil => exact ⟨desk, converse_of_nil hinput _, .refl desk, hinput⟩
    | cons line lines =>
      have hcount' : lines.length ≤ count := Nat.le_of_succ_le_succ hcount
      have hheard : desk.Reads (desk.heard line (lines.map some)) := Desk.reads_heard hinput
      have hrest : (desk.heard line (lines.map some)).input = lines.map some := rfl
      cases hline : Text.isBlankLine line with
      | true =>
        obtain ⟨last, hconverse, hreads, hlast⟩ := ih hrest hcount' fun source place hlater =>
          hfinish source place (.behindBlank hinput hline hlater)
        rw [converse_of_blank hinput hline]
        exact ⟨last, hconverse, hheard.trans hreads, hlast⟩
      | false =>
        have hfirst := hfinish _ _ (.now hinput hline)
        have hprogram := reads_interpret limit rounds strict (typed line)
          (desk.heard line (lines.map some))
        have hlater (source : String) (place : Desk) := fun henters =>
          hfinish source place (.behindProgram hinput hline henters)
        rcases hfinished :
            interpret limit rounds strict (typed line) (desk.heard line (lines.map some)) with
          ⟨_ | code, next⟩
        · exact absurd (congrArg Prod.fst hfinished) hfirst
        rw [hfinished] at hprogram hlater
        obtain ⟨others, hothers, hlength⟩ := hprogram.exists_others hrest
        obtain ⟨last, hconverse, hreads, hlast⟩ := ih hothers (hlength.trans hcount') hlater
        rw [converse_of_finished hinput hline hfinished]
        exact ⟨last, hconverse, (hheard.trans hprogram).trans hreads, hlast⟩

end Steps

theorem quiet_start (dice : Dice) (clock : Clock) (answers : List (Option String)) :
    (Machine.start true dice clock answers).Quiet :=
  ⟨rfl, rfl⟩

/-- A strict program that asks nothing does the same at every desk, and leaves the input alone. -/
theorem interpret_of_unasked {limit rounds : Nat} {source : String} {code : Option Nat}
    {first next : Desk} (hrun : interpret limit rounds true source first = (code, next))
    (hfirst : first.log = []) (hasked : replies next.log = []) (desk : Desk) :
    ∃ last, interpret limit rounds true source desk = (code, last) ∧ last.input = desk.input ∧
      last.log = next.log ++ desk.log := by
  rcases hon : on (Run.sourceWithin limit rounds source)
    (.start true first.dice first.clock first.input) with ⟨ending, after⟩
  rw [interpret_of_on first hon, hfirst, List.append_nil] at hrun
  cases hrun
  have hstory : replies after.log = [] := by
    simpa only [replies_append, replies_verdict, List.append_nil] using hasked
  have hsame (dice : Dice) (clock : Clock) (answers : List (Option String)) :
      on (Run.sourceWithin limit rounds source) (.start true dice clock answers) =
        (ending, { Machine.start true dice clock answers with
          stack := after.stack, log := after.log ++ [] }) :=
    Run.on_source_of_unasked (quiet_start first.dice first.clock first.input)
      (quiet_start dice clock answers) rfl hon (List.append_nil after.log).symm hstory
  have hmood :
      after.worker.mood = (Machine.start true desk.dice desk.clock desk.input).worker.mood := by
    have hafter := (Prod.mk.inj (hon.symm.trans (hsame first.dice first.clock first.input))).2
    rw [congrArg Machine.worker hafter]
    rfl
  rw [interpret_of_on desk (hsame desk.dice desk.clock desk.input), hmood]
  refine ⟨_, rfl, rfl, ?_⟩
  simp only [List.append_nil, List.append_assoc]

/-- What is printed by events of which the latest comes first. -/
def printed (log : List Event) : String :=
  String.join (log.reverse.map Event.printed)

theorem printed_append (later earlier : List Event) :
    printed (later ++ earlier) = printed earlier ++ printed later := by
  simp [printed, String.join_append]

theorem printed_cons (event : Event) (log : List Event) :
    printed (event :: log) = printed log ++ event.printed := by
  simp [printed, String.join_append, String.join_cons]

/-- What a line prints as a program of its own, at a desk where nothing has happened yet. A blank
    line is no program. -/
def printedAlone (limit rounds : Nat) (fresh : Desk) (line : String) : String :=
  if Text.isBlankLine line then "" else
    printed (interpret limit rounds true (typed line) fresh).2.log

/-- A program on its own finishes, and asks nothing. -/
structure Undemanding (limit rounds : Nat) (fresh : Desk) (source : String) : Prop where
  finishes : (interpret limit rounds true source fresh).1 ≠ none
  unasked : ∀ event ∈ (interpret limit rounds true source fresh).2.log, event.prompt? = none

/-- In a strict session, a program that asks nothing prints what it prints on its own. -/
theorem converse_printed {limit rounds count : Nat} {fresh desk : Desk} {lines : List String}
    (hfresh : fresh.log = []) (hinput : desk.input = lines.map some) (hcount : lines.length ≤ count)
    (halone : ∀ line ∈ lines, Text.isBlankLine line = false →
      Undemanding limit rounds fresh (typed line)) :
    ∃ last, converse limit rounds true count desk = (.exit 0, farewell last) ∧
      printed last.log =
        printed desk.log ++ String.join (lines.map fun line =>
          prompt ++ printedAlone limit rounds fresh line) := by
  induction lines generalizing desk count with
  | nil => exact ⟨desk, converse_of_nil hinput _, by simp⟩
  | cons line lines ih =>
    rw [List.length_cons] at hcount
    obtain ⟨count, rfl⟩ : ∃ others, count = others + 1 := ⟨count - 1, by omega⟩
    have hcount' : lines.length ≤ count := by omega
    obtain ⟨hfirst, hothers⟩ := List.forall_mem_cons.1 halone
    cases hline : Text.isBlankLine line with
    | true =>
      have hrest : (desk.heard line (lines.map some)).input = lines.map some := rfl
      obtain ⟨last, hconverse, hprinted⟩ := ih hrest hcount' hothers
      refine ⟨last, ?_, ?_⟩
      · rw [converse_of_blank hinput hline, hconverse]
      · rw [hprinted, Desk.heard, printed_cons, List.map_cons, String.join_cons,
          printedAlone, if_pos hline]
        simp only [Event.printed, String.append_assoc, String.append_empty]
    | false =>
      obtain ⟨hfinishes, hunasked⟩ := hfirst hline
      rcases hrun : interpret limit rounds true (typed line) fresh with ⟨_ | code, next⟩
      · exact absurd (by rw [hrun]) hfinishes
      rw [hrun] at hunasked
      obtain ⟨after, hfinished, hrest, hlog⟩ :=
        interpret_of_unasked hrun hfresh (replies_eq_nil hunasked)
          (desk.heard line (lines.map some))
      obtain ⟨last, hconverse, hprinted⟩ := ih hrest hcount' hothers
      refine ⟨last, ?_, ?_⟩
      · rw [converse_of_finished hinput hline hfinished, hconverse]
      · rw [hprinted, hlog, printed_append, Desk.heard, printed_cons, List.map_cons,
          String.join_cons, printedAlone, if_neg (by simp [hline]), hrun]
        simp only [Event.printed, String.append_assoc]

theorem printed_farewell (desk : Desk) :
    printed (farewell desk).log = printed desk.log ++ (prompt ++ "\n[dmm] Tschüss.\n") := by
  rw [farewell, Desk.print, printed_cons, printed_cons, String.append_assoc]
  rfl

theorem printed_events (ending : Ending) (desk : Desk) (dice : Dice) (clock : Clock) :
    Performance.printed ⟨ending, desk.log.reverse, dice, clock⟩ = printed desk.log := rfl

section Performance

variable {limit rounds : Nat} {arguments : List String} {world : World} {strict : Bool}

theorem performWithin_of_session {ending : Ending} {last : Desk}
    (hrequest : Request.ofArguments arguments = .session strict)
    (hconverse : converse limit rounds (strict || !world.humanoids) world.input.length
      world.opening = (ending, last)) :
    performWithin limit rounds arguments world =
      { ending := ending, events := last.log.reverse, dice := last.dice, clock := last.clock } := by
  rw [World.opening, World.desk] at hconverse
  simp only [performWithin, hrequest, fulfil, session, List.length_map, hconverse]

/-- A strict session with programs that ask nothing prints what they print on their own, each behind
    a prompt. -/
theorem printed_of_undemanding {fresh : Desk}
    (hrequest : Request.ofArguments arguments = .session strict)
    (hstrict : (strict || !world.humanoids) = true) (hfresh : fresh.log = [])
    (halone : ∀ line ∈ world.input, Text.isBlankLine line = false →
      Undemanding limit rounds fresh (typed line)) :
    (performWithin limit rounds arguments world).ending = .exit 0 ∧
      (performWithin limit rounds arguments world).printed =
        "dmm REPL. Ctrl-D to leave.\n\n" ++
          (String.join (world.input.map fun line =>
            prompt ++ printedAlone limit rounds fresh line) ++
            (prompt ++ "\n[dmm] Tschüss.\n")) := by
  have hinput : world.opening.input = world.input.map some := rfl
  obtain ⟨last, hconverse, hprinted⟩ := converse_printed hfresh hinput (Nat.le_refl _) halone
  rw [performWithin_of_session hrequest (by rw [hstrict, hconverse])]
  refine ⟨rfl, ?_⟩
  rw [printed_events, printed_farewell, hprinted, String.append_assoc]
  rfl

end Performance

/-- A session outlasts every program. If each program that is entered finishes, whatever it does and
    however it fails, the session reads the input to its end, takes its leave last of all, and ends
    with code 0. In a strict session, where the programs ask nothing, what is printed between two
    prompts is what the line prints as a program of its own, whatever was done before. -/
theorem session_outlasts_programs :
    (∀ (limit rounds : Nat) (arguments : List String) (world : World) (strict : Bool),
      Request.ofArguments arguments = .session strict →
      (∀ source place, Enters limit rounds (strict || !world.humanoids) world.opening source place →
        (interpret limit rounds (strict || !world.humanoids) source place).1 ≠ none) →
      (performWithin limit rounds arguments world).ending = .exit 0 ∧
      ∃ earlier, (performWithin limit rounds arguments world).events =
          earlier ++ [.question .shell prompt none, .line "\n[dmm] Tschüss."] ∧
        earlier.filterMap Event.answer? = world.input) ∧
    (∀ (limit rounds : Nat) (arguments : List String) (world : World) (strict : Bool)
        (fresh : Desk),
      Request.ofArguments arguments = .session strict → (strict || !world.humanoids) = true →
      fresh.log = [] →
      (∀ line ∈ world.input, Text.isBlankLine line = false →
        Undemanding limit rounds fresh (typed line)) →
      (performWithin limit rounds arguments world).ending = .exit 0 ∧
      (performWithin limit rounds arguments world).printed =
        "dmm REPL. Ctrl-D to leave.\n\n" ++
          (String.join (world.input.map fun line =>
            prompt ++ printedAlone limit rounds fresh line) ++
            (prompt ++ "\n[dmm] Tschüss.\n"))) := by
  constructor
  · intro limit rounds arguments world strict hrequest hfinish
    have hinput : world.opening.input = world.input.map some := rfl
    obtain ⟨last, hconverse, hreads, hlast⟩ := converse_reads hinput (Nat.le_refl _) hfinish
    rw [performWithin_of_session hrequest hconverse]
    refine ⟨rfl, last.log.reverse, ?_, hreads.answers hinput hlast ?_⟩
    · simp [farewell, Desk.print]
    · simp [World.opening, World.desk, Desk.print, Event.prompt?]
  · intro limit rounds arguments world strict fresh hrequest hstrict hfresh halone
    exact printed_of_undemanding hrequest hstrict hfresh halone

/-- A session in which the input ends while a program waits for an answer, and a strict session with
    a program that fails twice. -/
theorem session_outlasts_programs_asking :
    (∃ world : World, world.input = [" ", "hallo\\nx = frag()\\nreicht dann auch mal"] ∧
      (performWithin 1 0 [] world).ending = .exit 0 ∧
      ∃ earlier, (performWithin 1 0 [] world).events =
          earlier ++ [.question .shell prompt none, .line "\n[dmm] Tschüss."] ∧
        earlier.filterMap Event.answer? = world.input) ∧
    (∃ (world : World) (line : String),
      line = "hallo\\n:O__(<hi>)\\nx = 1 / 0\\nreicht dann auch mal" ∧
      world.input = [line, " ", line] ∧
      (performWithin 1 0 ["--strict"] world).printed =
        "dmm REPL. Ctrl-D to leave.\n\n" ++
          ("dmm> hi\n\n[dmm] Runtime Error: Division by zero\ndmm> " ++
            "dmm> hi\n\n[dmm] Runtime Error: Division by zero\ndmm> \n[dmm] Tschüss.\n")) := by
  have hblank : Text.isBlankLine " " = true := by cbv
  constructor
  · have hparse : Node.parse "hallo\nx = frag()\nreicht dann auch mal" =
        .ok [.assign "x" (.call "frag" [])] := by
      cbv
    have htyped : typed "hallo\\nx = frag()\\nreicht dann auch mal" =
        "hallo\nx = frag()\nreicht dann auch mal" := by
      cbv
    have hline : Text.isBlankLine "hallo\\nx = frag()\\nreicht dann auch mal" = false := by cbv
    obtain ⟨error, after, hon⟩ : ∃ error after,
        on (Run.sourceWithin 1 0 "hallo\nx = frag()\nreicht dann auch mal")
          (.start false (Dice.cycling []) (Clock.ticking 0 1) []) =
            (.error (.fault (.parse error)), after) := by
      rw [Run.on_source_of_ok hparse rfl, Node.evaluateWithin, Node.visitWithin]
      generalize Node.visitWithin 0 0 = body
      exact ⟨_, _, by cbv⟩
    have hfinishes (place : Desk) (hdice : place.dice = Dice.cycling [])
        (hclock : place.clock = Clock.ticking 0 1) (hinput : place.input = []) :
        (interpret 1 0 false "hallo\nx = frag()\nreicht dann auch mal" place).1 ≠ none := by
      rw [← hdice, ← hclock, ← hinput] at hon
      rw [interpret_of_on place hon]
      exact Option.some_ne_none _
    refine ⟨⟨true, fun _ => .error .missing, _, Dice.cycling [], Clock.ticking 0 1⟩, rfl, ?_⟩
    refine session_outlasts_programs.1 1 0 [] _ false (by cbv) ?_
    intro source place henters
    rw [enters_cons_iff rfl, if_pos hblank, enters_cons_iff rfl, if_neg (by simp [hline]),
      htyped] at henters
    rcases henters with ⟨rfl, rfl⟩ | hlater
    · exact hfinishes _ rfl rfl rfl
    · exact absurd hlater (not_enters_of_nil ((reads_interpret _ _ _ _ _).input_eq_nil rfl))
  · have hparse : Node.parse "hallo\n:O__(<hi>)\nx = 1 / 0\nreicht dann auch mal" =
        .ok [.call ":O__" [.literal (.text "hi")],
          .assign "x" (.binary (.literal (.integer 1)) "/" (.literal (.integer 0)))] := by
      cbv
    have htyped : typed "hallo\\n:O__(<hi>)\\nx = 1 / 0\\nreicht dann auch mal" =
        "hallo\n:O__(<hi>)\nx = 1 / 0\nreicht dann auch mal" := by
      cbv
    have hline : Text.isBlankLine "hallo\\n:O__(<hi>)\\nx = 1 / 0\\nreicht dann auch mal" =
      false := by cbv
    have hon (dice : Dice) (clock : Clock) (answers : List (Option String)) :
        on (Run.sourceWithin 1 0 "hallo\n:O__(<hi>)\nx = 1 / 0\nreicht dann auch mal")
          (.start true dice clock answers) =
          (.error (.fault (.violation .divisionByZero)),
            { Machine.start true dice clock answers with log := [.shout 1 "hi" "hi"] }) := by
      rw [Run.on_source_of_ok hparse rfl, Node.evaluateWithin, Node.visitWithin]
      generalize Node.visitWithin 0 0 = body
      cbv
    obtain ⟨world, hinput⟩ : ∃ world : World, world.input =
        ["hallo\\n:O__(<hi>)\\nx = 1 / 0\\nreicht dann auch mal", " ",
          "hallo\\n:O__(<hi>)\\nx = 1 / 0\\nreicht dann auch mal"] :=
      ⟨{ input := _, dice := Dice.cycling [], clock := Clock.ticking 0 1 }, rfl⟩
    obtain ⟨fresh, hfresh⟩ : ∃ fresh : Desk, fresh.log = [] := ⟨world.desk, rfl⟩
    obtain ⟨next, hrun, hlog⟩ : ∃ next,
        interpret 1 0 true (typed "hallo\\n:O__(<hi>)\\nx = 1 / 0\\nreicht dann auch mal") fresh =
          (some 1, next) ∧
          next.log = [.line "\n[dmm] Runtime Error: Division by zero", .shout 1 "hi" "hi"] := by
      rw [htyped, interpret_of_on fresh (hon _ _ _), hfresh]
      exact ⟨_, rfl, rfl⟩
    have halone :
        Undemanding 1 0 fresh (typed "hallo\\n:O__(<hi>)\\nx = 1 / 0\\nreicht dann auch mal") := by
      refine ⟨?_, ?_⟩
      · simp [hrun]
      · simp [hrun, hlog, Event.prompt?]
    obtain ⟨_, hprinted⟩ := session_outlasts_programs.2 1 0 ["--strict"] world true fresh
      (by cbv) rfl hfresh (by simp [hinput, hblank, halone])
    refine ⟨world, _, rfl, hinput, ?_⟩
    rw [hprinted, hinput]
    simp only [List.map_cons, List.map_nil, printedAlone, hblank, hline, hrun, hlog]
    rfl

end Hallo.Shell
