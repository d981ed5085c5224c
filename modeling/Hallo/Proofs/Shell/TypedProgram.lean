import Hallo.Proofs.Shell.Session
import Hallo.Proofs.Text.Lines
import Mathlib

/-!
Programs in files and programs typed on one line. A program that asks nothing prints the same either
way, between the prompts of a session in the second case.
-/
namespace Hallo.Shell

open Run (on)

/-- A program with its line breaks written so that it fits on one line. -/
def oneLine (text : String) : String :=
  String.ofList (Text.escapeBreaks text.toList)

section Typable

variable {text : String} (htext : Text.Typable text.toList)

include htext

theorem isBlankLine_oneLine : Text.isBlankLine (oneLine text) = false := by
  obtain ⟨c, hmem, hc⟩ := htext.exists_mem_escapeBreaks
  rw [Text.isBlankLine, oneLine, String.toList_ofList, List.all_eq_false]
  exact ⟨c, hmem, by simp [hc]⟩

theorem typed_oneLine : typed (oneLine text) = text := by
  rw [typed, oneLine, String.toList_ofList, Text.unescapeBreaks_escapeBreaks htext.plain,
    String.ofList_toList]

/-- What is written on one line is one line of input. -/
theorem lines_oneLine : Text.lines (oneLine text) = [oneLine text] := by
  obtain ⟨c, hmem, _⟩ := htext.exists_mem_escapeBreaks
  rw [Text.lines, oneLine, String.toList_ofList,
    Text.linesOf_eq_singleton (List.ne_nil_of_mem hmem) (Text.notMem_escapeBreaks _)]
  rfl

theorem sourceOf_toUTF8 : sourceOf text.toUTF8 = .ok text := by
  have hread : String.fromUTF8? text.toUTF8 = some text := dif_pos text.isValidUTF8
  rw [sourceOf, hread]
  simp only [Text.unifyBreaks_eq_self htext.noReturn,
    Text.dropFinalBreaks_eq_self htext.noFinalBreak, String.ofList_toList]

end Typable

/-- A file that is to be run is one program. -/
theorem performWithin_of_file {limit rounds : Nat} {arguments : List String} {world : World}
    {path source : String} {strict : Bool} {code : Option Nat} {last : Desk}
    (hrequest : Request.ofArguments arguments = .file path .run strict)
    (hsource : world.files path >>= sourceOf = .ok source)
    (hrun : interpret limit rounds (strict || !world.humanoids) source world.desk = (code, last)) :
    performWithin limit rounds arguments world =
      { ending := code.elim .unfinished .exit
        events := last.log.reverse
        dice := last.dice
        clock := last.clock } := by
  rw [World.desk] at hrun
  simp only [performWithin, hrequest, fulfil, hsource, onSource, hrun]
  cases code <;> rfl

/-- Files and lines agree. What a strict run of a file prints, if it comes to an end and asks
    nothing, is what a strict session prints between two prompts whose only line is the text of the
    file on one line. The two have nothing else in common: neither the input, nor chance, nor
    time. -/
theorem files_and_lines_agree {limit rounds : Nat} {text path : String}
    {fileArguments lineArguments : List String} {fileWorld lineWorld : World}
    {fileStrict lineStrict : Bool} (htext : Text.Typable text.toList)
    (hfile : Request.ofArguments fileArguments = .file path .run fileStrict)
    (hfileStrict : (fileStrict || !fileWorld.humanoids) = true)
    (hcontent : fileWorld.files path = .ok text.toUTF8)
    (hline : Request.ofArguments lineArguments = .session lineStrict)
    (hlineStrict : (lineStrict || !lineWorld.humanoids) = true)
    (hinput : lineWorld.input = Text.lines (oneLine text))
    (hfinishes : (performWithin limit rounds fileArguments fileWorld).ending ≠ .unfinished)
    (hunasked : ∀ event ∈ (performWithin limit rounds fileArguments fileWorld).events,
      event.prompt? = none) :
    (∃ code, (performWithin limit rounds fileArguments fileWorld).ending = .exit code) ∧
      lineWorld.input = [oneLine text] ∧
        (performWithin limit rounds lineArguments lineWorld).ending = .exit 0 ∧
      (performWithin limit rounds lineArguments lineWorld).printed =
        "dmm REPL. Ctrl-D to leave.\n\n" ++
          (prompt ++ ((performWithin limit rounds fileArguments fileWorld).printed ++
            (prompt ++ "\n[dmm] Tschüss.\n"))) := by
  have hsource : fileWorld.files path >>= sourceOf = .ok text := by
    rw [hcontent]
    exact sourceOf_toUTF8 htext
  rcases hrun : interpret limit rounds (fileStrict || !fileWorld.humanoids) text
    fileWorld.desk with ⟨code, last⟩
  rw [performWithin_of_file hfile hsource hrun] at hfinishes hunasked ⊢
  rw [hfileStrict] at hrun
  rw [lines_oneLine htext] at hinput
  have halone : ∀ line ∈ lineWorld.input, Text.isBlankLine line = false →
      Undemanding limit rounds fileWorld.desk (typed line) := by
    rw [hinput]
    intro line hmem _
    rw [List.mem_singleton.1 hmem, typed_oneLine htext]
    constructor
    · rw [hrun]
      rintro rfl
      exact hfinishes rfl
    · rw [hrun]
      exact fun event hevent => hunasked event (List.mem_reverse.2 hevent)
  obtain ⟨hending, hprinted⟩ := printed_of_undemanding hline hlineStrict rfl halone
  have hprints : printedAlone limit rounds fileWorld.desk (oneLine text) = printed last.log := by
    rw [printedAlone, if_neg (by simp [isBlankLine_oneLine htext]), typed_oneLine htext, hrun]
  refine ⟨?_, hinput, hending, ?_⟩
  · cases code with
    | none => exact absurd rfl hfinishes
    | some code => exact ⟨code, rfl⟩
  · rw [hprinted, hinput, List.map_singleton, String.join_cons, String.join_nil,
      String.append_empty, hprints, printed_events]
    simp only [String.append_assoc]

/-- A program that says a text with a line break in it, directly behind a backslash. -/
theorem files_and_lines_agree_backslash :
    ∃ (text : String) (fileWorld lineWorld : World), text =
      "hallo\n:O__(<a\\\nb>)\nreicht dann auch mal" ∧
      fileWorld.files "a.dmm" = .ok text.toUTF8 ∧ lineWorld.input = [oneLine text] ∧
      (performWithin 1 0 ["--strict", "a.dmm"] fileWorld).printed = "a\\\nb\n" ∧
      (performWithin 1 0 ["--strict"] lineWorld).printed =
        "dmm REPL. Ctrl-D to leave.\n\n" ++
          (prompt ++ ("a\\\nb\n" ++ (prompt ++ "\n[dmm] Tschüss.\n"))) := by
  have hparse : Node.parse "hallo\n:O__(<a\\\nb>)\nreicht dann auch mal" =
      .ok [.call ":O__" [.literal (.text "a\\\nb")]] := by
    cbv
  have hon (dice : Dice) (clock : Clock) (answers : List (Option String)) :
      on (Run.sourceWithin 1 0 "hallo\n:O__(<a\\\nb>)\nreicht dann auch mal")
        (.start true dice clock answers) =
        (.ok .nothing,
          { Machine.start true dice clock answers with log := [.shout 1 "a\\\nb" "a\\\nb"] }) := by
    rw [Run.on_source_of_ok hparse rfl, Node.evaluateWithin, Node.visitWithin]
    generalize Node.visitWithin 0 0 = body
    cbv
  have htext : Text.Typable "hallo\n:O__(<a\\\nb>)\nreicht dann auch mal".toList :=
    ⟨⟨'h', by decide +kernel⟩, by decide +kernel, by decide +kernel, by decide +kernel⟩
  have hfile : Request.ofArguments ["--strict", "a.dmm"] = .file "a.dmm" .run true := by cbv
  have hline : Request.ofArguments ["--strict"] = .session true := by cbv
  obtain ⟨fileWorld, hcontent⟩ : ∃ world : World, world.files "a.dmm" =
      .ok "hallo\n:O__(<a\\\nb>)\nreicht dann auch mal".toUTF8 :=
    ⟨{ files := fun _ => .ok "hallo\n:O__(<a\\\nb>)\nreicht dann auch mal".toUTF8
       dice := Dice.cycling [7]
       clock := Clock.ticking 5 1 }, rfl⟩
  obtain ⟨lineWorld, hinput⟩ : ∃ world : World, world.input =
      Text.lines (oneLine "hallo\n:O__(<a\\\nb>)\nreicht dann auch mal") :=
    ⟨{ input := _, dice := Dice.cycling [], clock := Clock.ticking 0 1 }, rfl⟩
  have hsource : fileWorld.files "a.dmm" >>= sourceOf =
      .ok "hallo\n:O__(<a\\\nb>)\nreicht dann auch mal" := by
    rw [hcontent]
    exact sourceOf_toUTF8 htext
  obtain ⟨hending, hevents⟩ : (performWithin 1 0 ["--strict", "a.dmm"] fileWorld).ending = .exit 0 ∧
      (performWithin 1 0 ["--strict", "a.dmm"] fileWorld).events =
        [.shout 1 "a\\\nb" "a\\\nb"] := by
    rw [performWithin_of_file hfile hsource (interpret_of_on fileWorld.desk (hon _ _ _))]
    exact ⟨rfl, rfl⟩
  have hprinted : (performWithin 1 0 ["--strict", "a.dmm"] fileWorld).printed = "a\\\nb\n" := by
    rw [Performance.printed, hevents]
    rfl
  have hfinishes : (performWithin 1 0 ["--strict", "a.dmm"] fileWorld).ending ≠ .unfinished := by
    simp [hending]
  have hunasked : ∀ event ∈ (performWithin 1 0 ["--strict", "a.dmm"] fileWorld).events,
      event.prompt? = none := by
    simp [hevents, Event.prompt?]
  obtain ⟨_, honly, _, hagree⟩ :=
    files_and_lines_agree htext hfile rfl hcontent hline rfl hinput hfinishes hunasked
  rw [hprinted] at hagree
  exact ⟨_, fileWorld, lineWorld, rfl, hcontent, honly, hprinted, hagree⟩

end Hallo.Shell
