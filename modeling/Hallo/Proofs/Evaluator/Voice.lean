import Hallo.Proofs.Evaluator.Kept
import Hallo.Proofs.Shouter
import Hallo.Proofs.Worker
import Mathlib

/-!
The voice is lost once and for good. A run is a sequence of emissions with silence between them, in
which others may use the dice but nobody uses the voice; so the damage at any moment is what the
emissions before it have done, and from the first one that finds too much of it on, there are only
coughs.
-/
namespace Hallo

/-- What the program wanted to say and how loud, if the event is an attempt to do so. -/
def Event.said? : Event → Option (Int × String)
  | .shout intensity text _ => some (intensity, text)
  | _ => none

/-- The program is silent between two moments: its voice is left alone, nothing is said and nobody
    naps. The dice may be thrown by others. -/
structure Machine.Silent (m after : Machine) : Prop where
  shouter_eq : after.shouter = m.shouter
  faces_eq : after.dice.faces = m.dice.faces
  drawn_le : m.dice.drawn ≤ after.dice.drawn
  log_eq : ∃ events, after.log = events ++ m.log ∧
    ∀ event ∈ events, event.said? = none ∧ event.nap? = none

namespace Machine.Silent

variable {m middle after : Machine}

theorem of_log (events : List Event) (hshouter : after.shouter = m.shouter)
    (hdice : after.dice = m.dice) (hlog : after.log = events ++ m.log)
    (hevents : ∀ event ∈ events, event.said? = none ∧ event.nap? = none) :
    m.Silent after :=
  ⟨hshouter, by rw [hdice], by rw [hdice], events, hlog, hevents⟩

theorem refl (m : Machine) : m.Silent m :=
  .of_log [] rfl rfl rfl (by simp)

theorem trans (hfirst : m.Silent middle) (hsecond : middle.Silent after) : m.Silent after := by
  obtain ⟨first, hlog, hevents⟩ := hfirst.log_eq
  obtain ⟨second, hlog', hevents'⟩ := hsecond.log_eq
  refine ⟨hsecond.shouter_eq.trans hfirst.shouter_eq, hsecond.faces_eq.trans hfirst.faces_eq,
    hfirst.drawn_le.trans hsecond.drawn_le, second ++ first, ?_, ?_⟩
  · rw [hlog', hlog, List.append_assoc]
  · exact List.forall_mem_append.2 ⟨hevents', hevents⟩

end Machine.Silent

namespace Run

variable {m : Machine}

/-- What is silent wherever it begins, goes on with a silence. -/
theorem Keeps.of_silent {α : Type} {x : Run α} {ending : Machine → Except Halt α}
    {next : Machine → Machine} (hx : ∀ m, on x m = (ending m, next m))
    (hnext : ∀ m : Machine, m.Silent (next m)) : Keeps m.Silent x :=
  .of_on hx fun middle hmiddle => hmiddle.trans (hnext middle)

theorem keeps_silent_write (text : String) : Keeps m.Silent (write text) :=
  .of_silent (on_write text) fun _ =>
    .of_log [.line text] rfl rfl rfl (by simp [Event.said?, Event.nap?])

theorem keeps_silent_ask (asker : Asker) (prompt : String) : Keeps m.Silent (ask asker prompt) :=
  .of_silent (on_ask asker prompt)
    fun _ => .of_log [.question asker prompt _] rfl rfl rfl (by simp [Event.said?, Event.nap?])

theorem keeps_silent_tire : Keeps m.Silent tire := by
  refine .of_silent on_tire fun m => ?_
  have hlines (changed : Bool) (text : String) :
    ∀ event ∈ if changed then [Event.line text] else [],
      event.said? = none ∧ event.nap? = none := by
    cases changed <;> simp [Event.said?, Event.nap?]
  exact ⟨rfl, m.worker.faces_call m.dice, m.worker.drawn_le_call m.dice, _, rfl, hlines _ _⟩

theorem keeps_silent_wantsCheck (node : Node) : Keeps m.Silent (wantsCheck node) :=
  .of_silent (on_wantsCheck node) fun _ => .of_log [] rfl rfl rfl (by simp)

theorem keeps_silent_rest : Keeps m.Silent rest :=
  .of_silent (fun _ => rfl) fun _ => ⟨rfl, rfl, Nat.le_succ _, [], rfl, by simp⟩

/-- The worker has its own lines and questions, and throws the dice; it does not use the voice. -/
theorem keeps_silent_consult (node : Node) (value : Value) :
    Keeps m.Silent (consult node value) := by
  refine keeps_silent_tire.bind fun _ => (keeps_silent_wantsCheck node).bind fun wants => ?_
  cases wants with
  | false => exact .pure ()
  | true =>
    intro middle ending after hmiddle hon
    simp only [if_true] at hon
    rw [on_checkIn] at hon
    exact Keeps.inquire keeps_silent_write (keeps_silent_ask _ _) keeps_silent_rest _ _ hmiddle
      hon

end Run

/-- One attempt to say something, with the machine before and after it. -/
structure Emission where
  intensity : Int
  text : String
  before : Machine
  after : Machine

namespace Emission

/-- The text came out: after one nap there is one line with its characters, for each of which the
    dice were thrown. -/
structure Shouted (delay : Int) (e : Emission) : Prop where
  log_eq : ∃ heard, Shouter.Voices e.intensity e.text heard ∧
    e.after.log = .shout e.intensity e.text heard :: .nap (delay * e.intensity) :: e.before.log
  dice_eq : e.after.dice = { e.before.dice with drawn := e.before.dice.drawn + e.text.length }

/-- The text did not come out: without a nap there is one line with a face and a cough, which the
    dice have chosen. -/
structure Coughed (e : Emission) : Prop where
  log_eq : ∃ cough ∈ Shouter.coughs, e.after.log =
    .shout e.intensity e.text (e.before.shouter.mood.glyph ++ " " ++ cough) :: e.before.log
  dice_eq : e.after.dice = { e.before.dice with drawn := e.before.dice.drawn + 1 }

/-- One line was written, whatever stands in it. -/
def WritesLine (e : Emission) : Prop :=
  ∃ line, e.after.events.filterMap Event.line? = e.before.events.filterMap Event.line? ++ [line]

theorem Shouted.writesLine {delay : Int} {e : Emission} (he : e.Shouted delay) : e.WritesLine := by
  obtain ⟨heard, _, hlog⟩ := he.log_eq
  refine ⟨heard, ?_⟩
  simp only [Machine.events, hlog, List.reverse_cons, List.append_assoc, List.filterMap_append]
  rfl

theorem Coughed.writesLine {e : Emission} (he : e.Coughed) : e.WritesLine := by
  obtain ⟨cough, _, hlog⟩ := he.log_eq
  refine ⟨e.before.shouter.mood.glyph ++ " " ++ cough, ?_⟩
  rw [Machine.events, hlog, List.reverse_cons, List.filterMap_append]
  rfl

/-- The intensities of some emissions, put together. -/
def strain (emissions : List Emission) : Int :=
  (emissions.map intensity).sum

theorem strain_append (emissions others : List Emission) :
    strain (emissions ++ others) = strain emissions + strain others := by
  simp [strain]

theorem strain_singleton (e : Emission) : strain [e] = e.intensity := by
  simp [strain]

theorem strain_nonneg {emissions : List Emission} (hloud : ∀ e ∈ emissions, 1 ≤ e.intensity) :
    0 ≤ strain emissions := by
  induction emissions with
  | nil => exact Int.le_refl 0
  | cons e emissions ih =>
    obtain ⟨he, hothers⟩ := List.forall_mem_cons.1 hloud
    have hrest := ih hothers
    rw [← List.singleton_append, strain_append, strain_singleton]
    omega

/-- More emissions strain a voice no less. -/
theorem strain_take_mono {emissions : List Emission} (hloud : ∀ e ∈ emissions, 1 ≤ e.intensity) :
    Monotone fun n => strain (emissions.take n) := by
  intro i j hij
  obtain ⟨rest, rfl⟩ := Nat.exists_eq_add_of_le hij
  have hrest : 0 ≤ strain ((emissions.drop i).take rest) :=
    strain_nonneg fun e hmem => hloud e (List.mem_of_mem_drop (List.mem_of_mem_take hmem))
  change strain (emissions.take i) ≤ strain (emissions.take (i + rest))
  rw [List.take_add, strain_append]
  omega

/-- The number of emissions for which a voice lasts that was whole at first: the least with which it
    suffers beyond the limit, or that of all emissions if they are not enough. -/
def VoiceLasts (emissions : List Emission) (count : Nat) : Prop :=
  IsLeast { n | 1000 < strain (emissions.take n) } count ∨
    (∀ n, strain (emissions.take n) ≤ 1000) ∧ count = emissions.length

end Emission

namespace Run

variable {m after : Machine} {intensity : Int} {text : String} {ending : Except Halt Unit}

/-- As long as there is a voice, a text comes out. -/
theorem shout_of_voice (hrobot : m.shouter.robot = false)
    (hvoice : m.shouter.voiceDamage ≤ Shouter.voiceLimit)
    (hon : on (shout intensity text) m = (ending, after)) :
    Emission.Shouted m.shouter.delay ⟨intensity, text, m, after⟩ ∧
      after.shouter = { m.shouter with voiceDamage := m.shouter.voiceDamage + intensity } := by
  obtain ⟨heard, hheard, hemit⟩ := Shouter.emit_of_voice hrobot hvoice intensity text m.dice
  rw [on_shout, hemit] at hon
  cases hon
  exact ⟨⟨⟨heard, hheard, rfl⟩, rfl⟩, rfl⟩

/-- Without a voice there is a cough, and nothing is left to suffer. -/
theorem shout_of_hoarse (hrobot : m.shouter.robot = false)
    (hhoarse : Shouter.voiceLimit < m.shouter.voiceDamage)
    (hon : on (shout intensity text) m = (ending, after)) :
    Emission.Coughed ⟨intensity, text, m, after⟩ ∧ after.shouter = m.shouter := by
  obtain ⟨cough, hcough, hemit⟩ := Shouter.emit_of_hoarse hrobot hhoarse intensity text m.dice
  rw [on_shout, hemit] at hon
  cases hon
  exact ⟨⟨⟨cough, hcough, rfl⟩, rfl⟩, rfl⟩

theorem on_shout_fst (intensity : Int) (text : String) (m : Machine) :
    (on (shout intensity text) m).1 = .ok () := by
  rw [on_shout]

end Run

namespace Machine

open Run

/-- From a machine on there were just these emissions, with silence before, between and after
    them. -/
inductive Speaks (start : Machine) : List Emission → Machine → Prop where
  | start : Speaks start [] start
  | silence {emissions : List Emission} {m after : Machine} (hm : Speaks start emissions m)
      (hsilent : m.Silent after) : Speaks start emissions after
  | emission {emissions : List Emission} {m after : Machine} {intensity : Int} {text : String}
      (hm : Speaks start emissions m) (hloud : 1 ≤ intensity)
      (hon : on (shout intensity text) m = (.ok (), after)) :
      Speaks start (emissions ++ [⟨intensity, text, m, after⟩]) after

theorem keeps_speaks {α : Type} {x : Run α} (start : Machine)
    (hx : ∀ m : Machine, Keeps m.Silent x) :
    Keeps (fun m => ∃ emissions, start.Speaks emissions m) x := by
  rintro m ending after ⟨emissions, hm⟩ hon
  exact ⟨emissions, hm.silence (hx m (.refl m) hon)⟩

/-- Whatever is done to a machine is an emission or a silence. -/
theorem invariant_speaks (start : Machine) :
    Invariant fun m => ∃ emissions, start.Speaks emissions m where
  stack stack := by
    rintro ⟨emissions, hm⟩
    exact ⟨emissions, hm.silence (.of_log [] rfl rfl rfl (by simp))⟩
  write text := keeps_speaks start fun _ => keeps_silent_write text
  shout intensity text hloud := by
    rintro m ending after ⟨emissions, hm⟩ hon
    obtain rfl : .ok () = ending := by rw [← on_shout_fst intensity text m, hon]
    exact ⟨_, hm.emission hloud hon⟩
  ask prompt := keeps_speaks start fun _ => keeps_silent_ask .program prompt
  consult node value := keeps_speaks start fun _ => keeps_silent_consult node value

namespace Speaks

variable {start m after : Machine} {emissions : List Emission}

theorem loud (hspeaks : start.Speaks emissions m) : ∀ e ∈ emissions, 1 ≤ e.intensity := by
  induction hspeaks with
  | start => simp
  | silence _ _ ih => exact ih
  | emission _ hloud _ ih => exact List.forall_mem_append.2 ⟨ih, by simpa using hloud⟩

/-- The emissions are those that the log tells of. -/
theorem said_eq (hspeaks : start.Speaks emissions m) :
    m.events.filterMap Event.said? =
      start.events.filterMap Event.said? ++ emissions.map fun e => (e.intensity, e.text) := by
  induction hspeaks with
  | start => simp
  | silence _ hsilent ih =>
    obtain ⟨events, hlog, hevents⟩ := hsilent.log_eq
    have hnone : events.reverse.filterMap Event.said? = [] := by
      rw [List.filterMap_eq_nil_iff]
      exact fun event hmem => (hevents event (List.mem_reverse.1 hmem)).1
    rw [Machine.events, hlog, List.reverse_append, List.filterMap_append, hnone, List.append_nil]
    exact ih
  | @emission _ m _ intensity text _ _ hon ih =>
    rw [on_shout] at hon
    cases hon
    rw [List.map_append, ← List.append_assoc, ← ih]
    cases (m.shouter.emit intensity text m.dice).1.nap <;> simp [Machine.events, Event.said?]

end Speaks

theorem getElem?_concat_cases {α : Type} {l : List α} {a b : α} {n : Nat}
    (hmem : (l ++ [a])[n]? = some b) :
    (n < l.length ∧ l[n]? = some b) ∨ (n = l.length ∧ a = b) := by
  rcases Nat.lt_trichotomy n l.length with hlt | rfl | hgt
  · rw [List.getElem?_append_left hlt] at hmem
    exact .inl ⟨hlt, hmem⟩
  · rw [List.getElem?_concat_length] at hmem
    exact .inr ⟨rfl, Option.some.inj hmem⟩
  · rw [List.getElem?_eq_none (by simpa using Nat.succ_le_of_lt hgt)] at hmem
    cases hmem

/-- The state of a voice that was whole at first: all but the first `count` emissions were coughed,
    since these are the last that found any voice. -/
structure Voiced (start : Machine) (emissions : List Emission) (count : Nat)
    (m : Machine) : Prop where
  shouter_eq :
    m.shouter = { start.shouter with voiceDamage := Emission.strain (emissions.take count) }
  count_le : count ≤ emissions.length
  lasts : ∀ j < count, Emission.strain (emissions.take j) ≤ Shouter.voiceLimit
  lost : count < emissions.length → Shouter.voiceLimit < Emission.strain (emissions.take count)
  shouted : ∀ e ∈ emissions.take count, e.Shouted start.shouter.delay
  coughed : ∀ e ∈ emissions.drop count, e.Coughed
  damage {n : Nat} {e : Emission} : emissions[n]? = some e →
    e.before.shouter.voiceDamage = Emission.strain (emissions.take (min n count)) ∧
      e.after.shouter.voiceDamage = Emission.strain (emissions.take (min (n + 1) count))

namespace Voiced

variable {start m after : Machine} {emissions : List Emission} {count : Nat} {intensity : Int}
  {text : String}

theorem of_fresh (hfresh : start.shouter.voiceDamage = 0) : Voiced start [] 0 start where
  shouter_eq := by
    change start.shouter = { start.shouter with voiceDamage := 0 }
    rw [← hfresh]
  count_le := Nat.le_refl 0
  lasts j hj := absurd hj (Nat.not_lt_zero j)
  lost hlt := absurd hlt (Nat.lt_irrefl 0)
  shouted := by simp
  coughed := by simp
  damage := by simp

theorem silence (hm : Voiced start emissions count m) (hsilent : m.Silent after) :
    Voiced start emissions count after :=
  { hm with shouter_eq := hsilent.shouter_eq.trans hm.shouter_eq }

/-- As long as there is a voice, every emission came out. -/
theorem count_eq (hm : Voiced start emissions count m)
    (hvoice : Emission.strain (emissions.take count) ≤ Shouter.voiceLimit) :
    count = emissions.length :=
  hm.count_le.antisymm (not_lt.1 fun hlt => absurd (hm.lost hlt) (not_lt.2 hvoice))

/-- A text that comes out is added to those that did, also if it takes the voice away. -/
theorem shout (hm : Voiced start emissions count m) (hrobot : start.shouter.robot = false)
    (hvoice : Emission.strain (emissions.take count) ≤ Shouter.voiceLimit)
    (hon : on (Run.shout intensity text) m = (.ok (), after)) :
    Voiced start (emissions ++ [⟨intensity, text, m, after⟩]) (count + 1) after := by
  obtain rfl := hm.count_eq hvoice
  have hshouter := hm.shouter_eq
  rw [List.take_length] at hvoice hshouter
  obtain ⟨hshouted, hafter⟩ :=
    shout_of_voice (by rw [hshouter, hrobot]) (by rw [hshouter]; exact hvoice) hon
  rw [hshouter] at hshouted hafter
  have hwhole (e : Emission) : (emissions ++ [e]).take (emissions.length + 1) = emissions ++ [e] :=
    List.take_of_length_le (by simp)
  constructor
  case shouter_eq => rw [hafter, hwhole, Emission.strain_append, Emission.strain_singleton]
  case count_le => simp
  case lasts =>
    intro j hj
    rw [List.take_append_of_le_length (Nat.le_of_lt_succ hj)]
    rcases Nat.lt_or_eq_of_le (Nat.le_of_lt_succ hj) with hlt | rfl
    · exact hm.lasts j hlt
    · rwa [List.take_length]
  case lost => simp
  case shouted =>
    rw [hwhole]
    refine List.forall_mem_append.2 ⟨?_, by simpa using hshouted⟩
    simpa using hm.shouted
  case coughed => simp
  case damage =>
    intro n e hmem
    rcases getElem?_concat_cases hmem with ⟨hlt, hmem⟩ | ⟨rfl, rfl⟩
    · obtain ⟨hbefore, hlater⟩ := hm.damage hmem
      rw [Nat.min_eq_left (by omega)] at hbefore hlater
      rw [Nat.min_eq_left (by omega), Nat.min_eq_left (by omega),
        List.take_append_of_le_length (by omega), List.take_append_of_le_length (by omega)]
      exact ⟨hbefore, hlater⟩
    · rw [Nat.min_eq_left (by omega), Nat.min_eq_left (by omega), hwhole, hafter, hshouter,
        List.take_append_of_le_length (Nat.le_refl _), List.take_length, Emission.strain_append,
        Emission.strain_singleton]
      exact ⟨rfl, rfl⟩

/-- A voice that is lost stays lost. -/
theorem cough (hm : Voiced start emissions count m) (hrobot : start.shouter.robot = false)
    (hhoarse : Shouter.voiceLimit < Emission.strain (emissions.take count))
    (hon : on (Run.shout intensity text) m = (.ok (), after)) :
    Voiced start (emissions ++ [⟨intensity, text, m, after⟩]) count after := by
  have hshouter := hm.shouter_eq
  obtain ⟨hcoughed, hafter⟩ :=
    shout_of_hoarse (by rw [hshouter, hrobot]) (by rw [hshouter]; exact hhoarse) hon
  have hfront {j : Nat} (hj : j ≤ count) (e : Emission) : (emissions ++ [e]).take j =
      emissions.take j :=
    List.take_append_of_le_length (hj.trans hm.count_le)
  constructor
  case shouter_eq => rw [hafter, hfront (Nat.le_refl count), hshouter]
  case count_le => simpa using hm.count_le.trans (Nat.le_succ _)
  case lasts =>
    intro j hj
    rw [hfront hj.le]
    exact hm.lasts j hj
  case lost =>
    intro _
    rwa [hfront (Nat.le_refl count)]
  case shouted =>
    rw [hfront (Nat.le_refl count)]
    exact hm.shouted
  case coughed =>
    rw [List.drop_append_of_le_length hm.count_le]
    exact List.forall_mem_append.2 ⟨hm.coughed, by simpa using hcoughed⟩
  case damage =>
    intro n e hmem
    rw [hfront (Nat.min_le_right _ _), hfront (Nat.min_le_right _ _)]
    rcases getElem?_concat_cases hmem with ⟨_, hmem⟩ | ⟨rfl, rfl⟩
    · exact hm.damage hmem
    · have hcount := hm.count_le
      rw [Nat.min_eq_right (by omega), Nat.min_eq_right (by omega), hafter, hshouter]
      exact ⟨rfl, rfl⟩

theorem writesLine (hm : Voiced start emissions count m) : ∀ e ∈ emissions, e.WritesLine := by
  rw [← List.take_append_drop count emissions, List.forall_mem_append]
  exact ⟨fun e hmem => (hm.shouted e hmem).writesLine, fun e hmem => (hm.coughed e hmem).writesLine⟩

theorem voiceLasts (hm : Voiced start emissions count m) : Emission.VoiceLasts emissions count := by
  rcases lt_or_ge Shouter.voiceLimit (Emission.strain (emissions.take count)) with hhoarse | hvoice
  · refine .inl ⟨hhoarse, fun n hn => not_lt.1 fun hlt => ?_⟩
    exact absurd (hm.lasts n hlt) (not_le.2 hn)
  · have hcount := hm.count_eq hvoice
    refine .inr ⟨fun n => ?_, hcount⟩
    rcases lt_or_ge n count with hlt | hge
    · exact hm.lasts n hlt
    · rw [hcount] at hvoice hge
      rw [List.take_of_length_le hge]
      rwa [List.take_length] at hvoice

end Voiced

/-- However a machine came to speak, its voice lasted for some emissions and not for the others. -/
theorem Speaks.voiced {start m : Machine} {emissions : List Emission}
    (hspeaks : start.Speaks emissions m) (hrobot : start.shouter.robot = false)
    (hfresh : start.shouter.voiceDamage = 0) :
    ∃ count, Voiced start emissions count m := by
  induction hspeaks with
  | start => exact ⟨0, .of_fresh hfresh⟩
  | silence _ hsilent ih =>
    obtain ⟨count, hm⟩ := ih
    exact ⟨count, hm.silence hsilent⟩
  | @emission emissions _ _ _ _ _ _ hon ih =>
    obtain ⟨count, hm⟩ := ih
    rcases lt_or_ge Shouter.voiceLimit (Emission.strain (emissions.take count)) with
      hhoarse | hvoice
    · exact ⟨count, hm.cough hrobot hhoarse hon⟩
    · exact ⟨count + 1, hm.shout hrobot hvoice hon⟩

end Machine

namespace Run

/-- The voice is lost once and for good. Whatever is run on a machine whose shouter is no robot and
    has its voice still whole, everything that is said is an emission of intensity 1 at least, which
    writes one line. As long as the emissions before it did not strain the voice beyond the limit,
    an emission comes out: after one nap, each of its characters for one throw of the dice. All that
    follow are coughs, for one throw each and without a nap. The damage grows with the emissions
    that came out and with nothing else. -/
theorem voice_lost_for_good {limit rounds : Nat} {jobs : List Job} {start after : Machine}
    {endings : List (Except Halt Value)} (hrobot : start.shouter.robot = false)
    (hfresh : start.shouter.voiceDamage = 0)
    (hperform : start.perform limit rounds jobs = (endings, after)) :
    ∃ emissions count, start.Speaks emissions after ∧
      after.events.filterMap Event.said? =
        start.events.filterMap Event.said? ++ emissions.map (fun e => (e.intensity, e.text)) ∧
      (∀ e ∈ emissions, 1 ≤ e.intensity ∧ e.WritesLine) ∧
      Emission.VoiceLasts emissions count ∧
      (∀ e ∈ emissions.take count, e.Shouted start.shouter.delay) ∧
      (∀ e ∈ emissions.drop count, e.Coughed) ∧
      (∀ n e, emissions[n]? = some e →
        e.before.shouter.voiceDamage = Emission.strain (emissions.take (min n count)) ∧
          e.after.shouter.voiceDamage = Emission.strain (emissions.take (min (n + 1) count))) ∧
      after.shouter.voiceDamage = Emission.strain (emissions.take (min emissions.length count)) ∧
      Monotone fun n => Emission.strain (emissions.take (min n count)) := by
  obtain ⟨emissions, hspeaks⟩ := (Machine.invariant_speaks start).perform ⟨[], .start⟩ hperform
  obtain ⟨count, hvoiced⟩ := hspeaks.voiced hrobot hfresh
  refine ⟨emissions, count, hspeaks, hspeaks.said_eq,
    fun e hmem => ⟨hspeaks.loud e hmem, hvoiced.writesLine e hmem⟩, hvoiced.voiceLasts,
    hvoiced.shouted, hvoiced.coughed, fun _ _ => hvoiced.damage, ?_, ?_⟩
  · rw [Nat.min_eq_right hvoiced.count_le, hvoiced.shouter_eq]
  · exact fun i j hij => Emission.strain_take_mono hspeaks.loud (by omega)

/-- Each character behind the stem makes an output form louder by one. -/
theorem intensity?_stem_append (louder : List Char) :
    intensity? (":O__" ++ String.ofList louder) = some (louder.length + 1) := by
  have hstem : outputStem.isPrefixOf (":O__" ++ String.ofList louder).toList = true := by
    rw [String.toList_append]
    exact List.isPrefixOf_iff_prefix.2 (List.prefix_append _ _)
  have hlength : (":O__" ++ String.ofList louder).length = 4 + louder.length := by
    have hlouder : (String.ofList louder).length = louder.length := String.length_ofList
    rw [String.length_append, hlouder]
    rfl
  have hfour : outputStem.length = 4 := rfl
  rw [intensity?, if_pos hstem, hlength, hfour]
  congr 1
  omega

/-- After a shout of intensity 1001, which still comes out, a whisper is a cough. -/
theorem voice_lost_for_good_cough :
    let start := Machine.start false (Dice.cycling [0]) (Clock.ticking 0 1) []
    let callee := ":O__" ++ String.ofList (List.replicate 1000 '_')
    let loud : Node := .call callee [.literal (.text "a")]
    let whisper : Node := .call ":O__" [.literal (.text "b")]
    ∃ after first second, start.perform 1 0 [.tree loud, .tree whisper] =
      ([.ok .nothing, .ok .nothing], after) ∧
      start.Speaks [first, second] after ∧ first.Shouted 50 ∧ second.Coughed ∧
      after.shouter.voiceDamage = 1001 := by
  intro start callee loud whisper
  have hcallee : intensity? callee = some 1001 := by
    rw [intensity?_stem_append, List.length_replicate]
    rfl
  clear_value callee
  obtain ⟨middle, after, hloud, hwhisper, hsaid⟩ : ∃ middle after,
      on ((Job.tree loud).run 1 0) start = (.ok .nothing, middle) ∧
      on ((Job.tree whisper).run 1 0) middle = (.ok .nothing, after) ∧
      after.events.filterMap Event.said? = [(1001, "a"), (1, "b")] := by
    rw [Job.run, Node.evaluateWithin, Node.visitWithin, Node.visit]
    simp only [hcallee]
    rw [Job.run, Node.evaluateWithin, Node.visitWithin]
    generalize Node.visitWithin 0 0 = body
    exact ⟨_, _, by cbv, by cbv, by cbv⟩
  have hperform :=
    Machine.perform_cons hloud (Machine.perform_cons hwhisper (Machine.perform_nil 1 0 after))
  have hrobot : start.shouter.robot = false := rfl
  obtain ⟨emissions, count, hspeaks, hemissions, _, hlasts, hshouted, hcoughed, _, hdamage, _⟩ :=
    voice_lost_for_good hrobot rfl hperform
  rw [hsaid] at hemissions
  obtain ⟨first, rest, rfl, hfirst, hrest⟩ := List.map_eq_cons_iff.1 hemissions.symm
  obtain ⟨second, others, rfl, hsecond, hothers⟩ := List.map_eq_cons_iff.1 hrest
  obtain rfl := List.map_eq_nil_iff.1 hothers
  have hstrain : Emission.strain [first] = 1001 := by
    rw [Emission.strain_singleton]
    exact congrArg Prod.fst hfirst
  obtain rfl : count = 1 := by
    rcases hlasts with ⟨hlost, hleast⟩ | ⟨hlasts, _⟩
    · have hle : count ≤ 1 := hleast (show 1000 < Emission.strain [first] by omega)
      have hne : count ≠ 0 := by
        rintro rfl
        exact absurd (show (1000 : Int) < 0 from hlost) (by decide)
      omega
    · have hone : Emission.strain [first] ≤ 1000 := hlasts 1
      omega
  exact ⟨after, first, second, hperform, hspeaks, hshouted first (by simp),
    hcoughed second (by simp), hdamage.trans hstrain⟩

end Run

end Hallo
