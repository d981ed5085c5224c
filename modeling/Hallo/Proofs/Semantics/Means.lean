import Hallo.Proofs.Semantics.Meaning

/-!
Actions with a meaning. Where actions are put together, so are their meanings.
-/
namespace Hallo

namespace Machine

/-- What a program can read and change of a machine. -/
def scene (m : Machine) : Scene := ⟨m.stack.top, m.answers⟩

/-- The machine in another scene, after certain events. -/
def moved (m : Machine) (s : Scene) (story : List Event) : Machine :=
  { m with
    stack := m.stack.setTop s.frame
    answers := s.answers
    log := story.reverse ++ m.log }

variable {m : Machine} {s s' : Scene} {story story' : List Event}

@[simp] theorem scene_moved : (m.moved s story).scene = s := by
  simp [scene, moved, CallStack.top_setTop]

@[simp] theorem moved_moved : (m.moved s story).moved s' story' = m.moved s' (story ++ story') := by
  simp [moved, CallStack.setTop_setTop]

@[simp] theorem moved_scene : m.moved m.scene [] = m := by
  simp [scene, moved, CallStack.setTop_top]

theorem Quiet.moved (hm : m.Quiet) : (m.moved s story).Quiet :=
  ⟨hm.strict, hm.robot⟩

end Machine

/-- Reasons to stop that belong to the language: neither loops nor calls that went on for too long,
    nor a call stack that lost a frame. -/
def Halt.Settled (halt : Halt) : Prop :=
  halt ≠ .unfinished ∧ halt ≠ .fault (.violation .stackOverflow) ∧ halt ≠ .fault .emptyCallStack

namespace Run

open Meaning

variable {α β : Type}

/-- Endings in a value or for a reason that belongs to the language. -/
def Settled (ending : Except Halt α) : Prop :=
  ∀ halt, ending = .error halt → halt.Settled

/-- A result of the rules as the ending of a run. -/
def toEnding : Except Fault α → Except Halt α
  | .ok a => .ok a
  | .error fault => .error (.fault fault)

theorem toEnding_eq_ok {r : Except Fault α} {a : α} (hr : .ok a = toEnding r) : r = .ok a := by
  cases r with
  | ok b =>
    cases hr
    rfl
  | error fault => cases hr

/-- An action, which may depend on the rounds granted to loops, comes to exactly what a meaning
    relates, if the rounds suffice. -/
structure Means (x : Nat → Run α) (R : Meaning α) : Prop where
  sound : ∀ {rounds : Nat} {m : Machine} {ending : Except Halt α} {after : Machine}, m.Quiet →
    on (x rounds) m = (ending, after) → Settled ending →
      ∃ r story s, ending = toEnding r ∧ after = m.moved s story ∧ R m.scene r story s
  complete : ∀ {m : Machine} {r : Except Fault α} {story : List Event} {s : Scene}, m.Quiet →
    R m.scene r story s →
      ∃ enough, ∀ rounds, enough ≤ rounds → on (x rounds) m = (toEnding r, m.moved s story)

namespace Means

variable {x : Nat → Run α} {R : Meaning α}

theorem congr {R' : Meaning α} (hx : Means x R)
    (hiff : ∀ {s r story s'}, R' s r story s' ↔ R s r story s') : Means x R' := by
  refine ⟨fun hm hon hsettled => ?_, fun hm hR => hx.complete hm (hiff.1 hR)⟩
  obtain ⟨r, story, s, hending, hafter, hR⟩ := hx.sound hm hon hsettled
  exact ⟨r, story, s, hending, hafter, hiff.2 hR⟩

/-- Actions in a row mean one meaning after another. -/
theorem bind {f : Nat → α → Run β} {F : α → Meaning β} (hx : Means x R)
    (hf : ∀ a, Means (fun rounds => f rounds a) (F a)) :
    Means (fun rounds => x rounds >>= f rounds) (R.andThen F) := by
  refine ⟨fun {rounds m ending after} hm hon hsettled => ?_, fun {m r story s} hm hR => ?_⟩
  · rcases on_bind_eq_iff.1 hon with ⟨a, middle, hfirst, hsecond⟩ | ⟨halt, hfirst, rfl⟩
    · obtain ⟨r, first, s, hr, rfl, hR⟩ := hx.sound hm hfirst fun _ hok => nomatch hok
      obtain rfl := toEnding_eq_ok hr
      obtain ⟨r', second, s', rfl, rfl, hF⟩ := (hf a).sound hm.moved hsecond hsettled
      rw [Machine.scene_moved] at hF
      refine ⟨r', first ++ second, s', rfl, Machine.moved_moved, ?_⟩
      exact .inl ⟨a, s, first, second, hR, hF, rfl⟩
    · obtain ⟨r, first, s, hr, rfl, hR⟩ :=
        hx.sound hm hfirst fun other hother => hsettled other (by cases hother; rfl)
      cases r with
      | ok a => cases hr
      | error fault =>
        cases hr
        exact ⟨.error fault, first, s, rfl, rfl, .inr ⟨fault, hR, rfl⟩⟩
  · rcases hR with ⟨a, middle, first, second, hfirst, hsecond, rfl⟩ | ⟨fault, hfirst, rfl⟩
    · obtain ⟨enough, hon⟩ := hx.complete hm hfirst
      have hmoved : F a (m.moved middle first).scene r second s := by
        rw [Machine.scene_moved]
        exact hsecond
      obtain ⟨enough', hon'⟩ := (hf a).complete hm.moved hmoved
      refine ⟨max enough enough', fun rounds hrounds => ?_⟩
      rw [on_bind_of_ok (hon rounds (by omega)), hon' rounds (by omega), Machine.moved_moved]
    · obtain ⟨enough, hon⟩ := hx.complete hm hfirst
      exact ⟨enough, fun rounds hrounds => on_bind_of_error (hon rounds hrounds)⟩

/-- Actions that are done in one step mean what they do. -/
theorem acts {x : Run α} {f : Scene → Except Fault α × List Event × Scene}
    (hx : ∀ m : Machine, m.Quiet →
      on x m = (toEnding (f m.scene).1, m.moved (f m.scene).2.2 (f m.scene).2.1)) :
    Means (fun _ => x) (Meaning.acts f) := by
  refine ⟨fun {_ m ending after} hm hon _ => ?_, fun {m r story s} hm hR => ⟨0, fun _ _ => ?_⟩⟩
  · rw [hx m hm] at hon
    cases hon
    exact ⟨_, _, _, rfl, rfl, rfl⟩
  · rw [hx m hm, hR]

theorem looks {x : Run α} {f : Frame → Except Fault α}
    (hx : ∀ m, on x m = (toEnding (f m.stack.top), m)) : Means (fun _ => x) (Meaning.looks f) := by
  refine acts fun m _ => ?_
  rw [hx m, Machine.moved_scene]
  rfl

/-- Actions that only give a result mean every result that is allowed, if that is what they give. -/
theorem results {x : Run α} {P : Except Fault α → Prop} (hresult : ∃ r, P r)
    (hx : ∀ {r}, P r → ∀ m, on x m = (toEnding r, m)) : Means (fun _ => x) (Meaning.results P) := by
  refine ⟨fun {_ m ending after} _ hon _ => ?_, fun {m r story s} _ hR => ⟨0, fun _ _ => ?_⟩⟩
  · obtain ⟨r, hr⟩ := hresult
    rw [hx hr] at hon
    cases hon
    exact ⟨r, [], m.scene, rfl, Machine.moved_scene.symm, hr, rfl, rfl⟩
  · obtain ⟨hr, rfl, rfl⟩ := hR
    rw [hx hr, Machine.moved_scene]

theorem exactly {x : Run α} {r : Except Fault α} (hx : ∀ m, on x m = (toEnding r, m)) :
    Means (fun _ => x) (Meaning.exactly r) := by
  refine results ⟨r, rfl⟩ fun hr => ?_
  subst hr
  exact hx

theorem pure (a : α) : Means (fun _ => Pure.pure a) (Meaning.exactly (.ok a)) :=
  exactly fun _ => rfl

theorem map (g : α → β) (hx : Means x R) :
    Means (fun rounds => x rounds >>= fun a => Pure.pure (g a)) (R.map g) := by
  refine (hx.bind fun a => pure (g a)).congr fun {s r story s'} => ?_
  constructor
  · rintro ⟨found, hR, rfl⟩
    cases found with
    | ok a => exact .inl ⟨a, s', story, [], hR, ⟨rfl, rfl, rfl⟩, (List.append_nil story).symm⟩
    | error fault => exact .inr ⟨fault, hR, rfl⟩
  · rintro (⟨a, middle, first, second, hR, ⟨rfl, rfl, rfl⟩, rfl⟩ | ⟨fault, hR, rfl⟩)
    · rw [List.append_nil]
      exact ⟨.ok a, hR, rfl⟩
    · exact ⟨.error fault, hR, rfl⟩

theorem ite {y : Nat → Run α} {R' : Meaning α} (hx : Means x R) (hy : Means y R') (holds : Bool) :
    Means (fun rounds => if holds then x rounds else y rounds) (if holds then R else R') := by
  cases holds with
  | true => exact hx
  | false => exact hy

/-- A strict worker adds nothing to a meaning. -/
theorem watched {x : Nat → Run Outcome} {R : Meaning Outcome} (node : Node) (hx : Means x R) :
    Means (fun rounds => Run.watched node (x rounds)) R := by
  refine ⟨fun {rounds m ending after} hm hon hsettled => ?_, fun {m r story s} hm hR => ?_⟩
  · rw [watched_eq] at hon
    rcases on_bind_eq_iff.1 hon with ⟨a, middle, hfirst, hsecond⟩ | ⟨halt, hfirst, rfl⟩
    · obtain ⟨r, story, s, hr, rfl, hR⟩ := hx.sound hm hfirst fun _ hok => nomatch hok
      rw [on_bind_of_ok (on_consult_of_quiet hm.moved node a.get)] at hsecond
      cases hsecond
      exact ⟨r, story, s, hr, rfl, hR⟩
    · exact hx.sound hm hfirst hsettled
  · obtain ⟨enough, hon⟩ := hx.complete hm hR
    refine ⟨enough, fun rounds hrounds => ?_⟩
    rw [on_watched_of_quiet, hon rounds hrounds]
    intro ending after hafter
    rw [hon rounds hrounds] at hafter
    cases hafter
    exact hm.moved

/-- A call leaves the caller's frame as it was. -/
theorem on_inCall_of_moved {x : Run α} {frame : Frame} {m : Machine} {ending : Except Halt α}
    {s : Scene} {story : List Event}
    (hx : on x { m with stack := m.stack.push frame } =
      (ending, ({ m with stack := m.stack.push frame } : Machine).moved s story)) :
    on (Run.inCall frame x) m = (ending, m.moved ⟨m.scene.frame, s.answers⟩ story) := by
  have hpop : ((m.stack.push frame).setTop s.frame).pop? = some (s.frame, m.stack) := rfl
  rw [on_inCall, hx]
  simp only [Machine.moved, hpop, Machine.scene, CallStack.setTop_top]

theorem inCall {x : Nat → Run Outcome} {R : Meaning Outcome} (frame : Frame) (hx : Means x R) :
    Means (fun rounds => Run.inCall frame (x rounds)) (called frame R) := by
  refine ⟨fun {rounds m ending after} hm hon hsettled => ?_, fun {m r story s} hm hR => ?_⟩
  · have hpushed : ({ m with stack := m.stack.push frame } : Machine).Quiet := ⟨hm.strict, hm.robot⟩
    rcases hrun : on (x rounds) { m with stack := m.stack.push frame } with ⟨ending', middle⟩
    have hending : ending = ending' := by
      rw [on_inCall, hrun] at hon
      cases hpop : middle.stack.pop? with
      | none =>
        simp only [hpop] at hon
        cases hon
        exact absurd rfl (hsettled _ rfl).2.2
      | some popped =>
        simp only [hpop] at hon
        cases hon
        rfl
    subst hending
    obtain ⟨r, story, s, rfl, rfl, hR⟩ := hx.sound hpushed hrun hsettled
    rw [on_inCall_of_moved hrun] at hon
    cases hon
    exact ⟨r, story, _, rfl, rfl, s, hR, rfl⟩
  · obtain ⟨inner, hR, rfl⟩ := hR
    have hpushed : ({ m with stack := m.stack.push frame } : Machine).Quiet := ⟨hm.strict, hm.robot⟩
    obtain ⟨enough, hon⟩ := hx.complete hpushed hR
    exact ⟨enough, fun rounds hrounds => on_inCall_of_moved (hon rounds hrounds)⟩

section repeatWhile

variable {test : Nat → Run Bool} {body : Nat → Run Outcome} {T : Meaning Bool} {R : Meaning Outcome}
  (htest : Means test T) (hbody : Means body R)

include htest hbody

/-- Each round of a loop that was run is a round of its meaning. -/
theorem repeatWhile_sound {rounds k : Nat} {m : Machine} {ending : Except Halt Outcome}
    {after : Machine} (hm : m.Quiet)
    (hon : on (Run.repeatWhile (test rounds) (body rounds) k) m = (ending, after))
    (hsettled : Settled ending) :
    ∃ r story s, ending = toEnding r ∧ after = m.moved s story ∧ Loop T R m.scene r story s := by
  induction k generalizing m with
  | zero =>
    cases hon
    exact absurd rfl (hsettled _ rfl).1
  | succ k ih =>
    rcases on_bind_eq_iff.1 hon with ⟨holds, middle, hfirst, hsecond⟩ | ⟨halt, hfirst, rfl⟩
    · obtain ⟨r, first, s, hr, rfl, hT⟩ := htest.sound hm hfirst fun _ hok => nomatch hok
      obtain rfl := toEnding_eq_ok hr
      cases holds with
      | false =>
        cases hsecond
        exact ⟨.ok (.value .nothing), first, s, rfl, rfl, .done hT⟩
      | true =>
        rcases on_bind_eq_iff.1 hsecond with ⟨outcome, later, hrun, hrest⟩ | ⟨halt, hrun, rfl⟩
        · obtain ⟨r, second, s', hr, rfl, hR⟩ := hbody.sound hm.moved hrun fun _ hok => nomatch hok
          obtain rfl := toEnding_eq_ok hr
          rw [Machine.scene_moved] at hR
          cases outcome with
          | returning v =>
            cases hrest
            exact ⟨.ok (.returning v), _, s', rfl, Machine.moved_moved, .left hT hR (.returning v)⟩
          | value v =>
            obtain ⟨r, third, last, rfl, rfl, hagain⟩ := ih hm.moved.moved hrest
            rw [Machine.scene_moved] at hagain
            refine ⟨r, _, last, rfl, ?_, .again hT hR hagain⟩
            rw [Machine.moved_moved, Machine.moved_moved]
        · obtain ⟨r, second, s', hr, rfl, hR⟩ := hbody.sound hm.moved hrun hsettled
          rw [Machine.scene_moved] at hR
          cases r with
          | ok outcome => cases hr
          | error fault =>
            exact ⟨.error fault, _, s', hr, Machine.moved_moved, .left hT hR (.failed fault)⟩
    · obtain ⟨r, first, s, hr, rfl, hT⟩ :=
        htest.sound hm hfirst fun other hother => hsettled other (by cases hother; rfl)
      cases r with
      | ok holds => cases hr
      | error fault =>
        cases hr
        exact ⟨.error fault, first, s, rfl, rfl, .failed hT⟩

/-- The rounds of a meaning are run one by one, if enough of them are granted. -/
theorem repeatWhile_complete {s last : Scene} {r : Except Fault Outcome} {story : List Event}
    (hloop : Loop T R s r story last) {m : Machine} (hm : m.Quiet) (hscene : m.scene = s) :
    ∃ enough, ∀ rounds k, enough ≤ rounds → enough ≤ k →
      on (Run.repeatWhile (test rounds) (body rounds) k) m = (toEnding r, m.moved last story) := by
  induction hloop generalizing m with
  | @again _ s' s'' _ v r story story' story'' hT hR _ ih =>
    subst hscene
    obtain ⟨enough, hon⟩ := htest.complete hm hT
    obtain ⟨enough', hon'⟩ := hbody.complete (m := m.moved s' story) hm.moved
      (by rw [Machine.scene_moved]; exact hR)
    obtain ⟨enough'', hon''⟩ := ih (m := m.moved s'' (story ++ story')) hm.moved Machine.scene_moved
    refine ⟨max enough (max enough' enough'') + 1, fun rounds k hrounds hk => ?_⟩
    obtain ⟨k, rfl⟩ : ∃ j, k = j + 1 := ⟨k - 1, by omega⟩
    rw [Run.repeatWhile, on_bind_of_ok (hon rounds (by omega)), if_pos rfl,
      on_bind_of_ok (hon' rounds (by omega)), Machine.moved_moved]
    dsimp only
    rw [hon'' rounds k (by omega) (by omega), Machine.moved_moved, List.append_assoc]
  | @left _ s' s'' r story story' hT hR hleaves =>
    subst hscene
    obtain ⟨enough, hon⟩ := htest.complete hm hT
    obtain ⟨enough', hon'⟩ := hbody.complete (m := m.moved s' story) hm.moved
      (by rw [Machine.scene_moved]; exact hR)
    refine ⟨max enough enough' + 1, fun rounds k hrounds hk => ?_⟩
    obtain ⟨k, rfl⟩ : ∃ j, k = j + 1 := ⟨k - 1, by omega⟩
    rw [Run.repeatWhile, on_bind_of_ok (hon rounds (by omega)), if_pos rfl]
    cases hleaves with
    | returning v =>
      rw [on_bind_of_ok (hon' rounds (by omega)), Machine.moved_moved]
      rfl
    | failed fault => rw [on_bind_of_error (hon' rounds (by omega)), Machine.moved_moved]; rfl
  | @done _ s' story hT =>
    subst hscene
    obtain ⟨enough, hon⟩ := htest.complete hm hT
    refine ⟨enough + 1, fun rounds k hrounds hk => ?_⟩
    obtain ⟨k, rfl⟩ : ∃ j, k = j + 1 := ⟨k - 1, by omega⟩
    rw [Run.repeatWhile, on_bind_of_ok (hon rounds (by omega))]
    rfl
  | @failed _ s' fault story hT =>
    subst hscene
    obtain ⟨enough, hon⟩ := htest.complete hm hT
    refine ⟨enough + 1, fun rounds k hrounds hk => ?_⟩
    obtain ⟨k, rfl⟩ : ∃ j, k = j + 1 := ⟨k - 1, by omega⟩
    rw [Run.repeatWhile, on_bind_of_error (hon rounds (by omega))]
    rfl

/-- A loop means its test and its body again and again. -/
theorem repeatWhile :
    Means (fun rounds => Run.repeatWhile (test rounds) (body rounds) rounds) (Loop T R) := by
  refine ⟨fun hm hon hsettled => repeatWhile_sound htest hbody hm hon hsettled, fun hm hR => ?_⟩
  obtain ⟨enough, hon⟩ := repeatWhile_complete htest hbody hR hm rfl
  exact ⟨enough, fun rounds hrounds => hon rounds rounds hrounds hrounds⟩

end repeatWhile

end Means

end Run

end Hallo
