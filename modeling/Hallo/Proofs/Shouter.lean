import Hallo.Shouter
import Mathlib.Data.List.Forall2
import Mathlib.Data.List.GetD

/-!
What a shouter with a voice makes of a text, and what one without. A character takes one draw and
comes out as it is or as a capital; a cough takes one draw, whatever was to be said.
-/
namespace Hallo.Shouter

/-- What comes out of a text that is shouted with an intensity: each character as it is or as a
    capital, all as they are in a whisper, and all as capitals from intensity 11 on. -/
def Voices (intensity : Int) (text heard : String) : Prop :=
  ∃ pieces : List (List Char), heard = String.ofList pieces.flatten ∧
    List.Forall₂ (fun c piece => piece = [c] ∨ piece = Text.uppercase c) text.toList pieces ∧
    (intensity = 1 → pieces = text.toList.map fun c => [c]) ∧
    (11 ≤ intensity → pieces = text.toList.map Text.uppercase)

theorem below_lt (dice : Dice) (count : Nat) (hcount : 0 < count) : (dice.below count).1 < count :=
  Nat.mod_lt _ hcount

theorem shoutAll_cons (chance : Int) (c : Char) (text : List Char) (dice : Dice) :
    shoutAll chance (c :: text) dice =
      ((if ((dice.below 100).1 : Int) < chance then Text.uppercase c else [c]) ++
        (shoutAll chance text (dice.below 100).2).1, (shoutAll chance text (dice.below 100).2).2) :=
  rfl

/-- Shouted characters take a draw each. No roll lies below a chance of nought, and all lie below a
    hundred. -/
theorem shoutAll_pieces (chance : Int) (text : List Char) (dice : Dice) :
    ∃ pieces : List (List Char),
      shoutAll chance text dice =
        (pieces.flatten, { dice with drawn := dice.drawn + text.length }) ∧
      List.Forall₂ (fun c piece => piece = [c] ∨ piece = Text.uppercase c) text pieces ∧
      (chance ≤ 0 → pieces = text.map fun c => [c]) ∧
        (100 ≤ chance → pieces = text.map Text.uppercase) := by
  induction text generalizing dice with
  | nil => exact ⟨[], rfl, .nil, fun _ => rfl, fun _ => rfl⟩
  | cons c text ih =>
    obtain ⟨pieces, hothers, hpieces, hwhisper, hloud⟩ := ih (dice.below 100).2
    have hroll := below_lt dice 100 (by decide)
    let piece := if ((dice.below 100).1 : Int) < chance then Text.uppercase c else [c]
    refine ⟨piece :: pieces, ?_, .cons ?_ hpieces, fun hchance => ?_, fun hchance => ?_⟩
    · rw [shoutAll_cons, hothers, List.flatten_cons, List.length_cons, Nat.add_comm text.length 1,
        ← Nat.add_assoc]
      rfl
    · by_cases hcapital : ((dice.below 100).1 : Int) < chance
      · exact .inr (if_pos hcapital)
      · exact .inl (if_neg hcapital)
    · have hplain : piece = [c] := if_neg (by omega)
      rw [hplain, hwhisper hchance, List.map_cons]
    · have hcapital : piece = Text.uppercase c := if_pos (by omega)
      rw [hcapital, hloud hchance, List.map_cons]

variable {shouter : Shouter}

/-- A voice that is not lost says the text after a nap, and suffers. -/
theorem emit_of_voice (hrobot : shouter.robot = false) (hvoice : shouter.voiceDamage ≤ voiceLimit)
    (intensity : Int) (text : String) (dice : Dice) :
    ∃ heard, Voices intensity text heard ∧
      shouter.emit intensity text dice =
        ({ line := heard, nap := some (shouter.delay * intensity) },
          { shouter with voiceDamage := shouter.voiceDamage + intensity },
          { dice with drawn := dice.drawn + text.length }) := by
  obtain ⟨pieces, hshout, hpieces, hwhisper, hloud⟩ :=
    shoutAll_pieces ((intensity - 1) * 10) text.toList dice
  refine ⟨String.ofList pieces.flatten, ⟨pieces, rfl, hpieces, ?_, ?_⟩, ?_⟩
  · rintro rfl
    exact hwhisper (by decide)
  · exact fun hintensity => hloud (by omega)
  · rw [emit, hrobot, if_neg Bool.false_ne_true, if_neg (Int.not_lt.2 hvoice), hshout,
      String.length_toList]

/-- A voice that is lost coughs at once, and suffers no more. -/
theorem emit_of_hoarse (hrobot : shouter.robot = false) (hhoarse : voiceLimit < shouter.voiceDamage)
    (intensity : Int) (text : String) (dice : Dice) :
    ∃ cough ∈ coughs,
      shouter.emit intensity text dice =
        ({ line := shouter.mood.glyph ++ " " ++ cough }, shouter,
          { dice with drawn := dice.drawn + 1 }) := by
  have hchoice := below_lt dice coughs.length (by decide)
  refine ⟨coughs.getD (dice.below coughs.length).1 "", ?_, ?_⟩
  · rw [List.getD_eq_getElem _ _ hchoice]
    exact List.getElem_mem hchoice
  · rw [emit, hrobot, if_neg Bool.false_ne_true, if_pos hhoarse]
    rfl

/-- Whatever a shouter does with the dice, they stay the same dice. -/
theorem faces_emit (shouter : Shouter) (intensity : Int) (text : String) (dice : Dice) :
    (shouter.emit intensity text dice).2.2.faces = dice.faces := by
  unfold emit
  split
  · rfl
  · split
    · rfl
    · obtain ⟨_, hshout, _⟩ := shoutAll_pieces ((intensity - 1) * 10) text.toList dice
      rw [hshout]

end Hallo.Shouter
