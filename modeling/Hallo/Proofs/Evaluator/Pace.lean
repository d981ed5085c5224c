import Hallo.Proofs.Evaluator.Balanced
import Hallo.Proofs.Evaluator.Consult
import Hallo.Proofs.Evaluator.Kept
import Hallo.Proofs.Shouter
import Hallo.Proofs.Worker
import Mathlib

/-!
The worker's questions are far apart. A run is a sequence of visited nodes, between which the worker
is idle. The nodes are counted from its hiring on, and anew from every question of it that was
answered rightly; then the clock is read and a cooldown is drawn. The worker is always as tired as
the nodes counted so far have made it, and what it remembers of its last rest is what was read and
drawn then. So between two questions there are as many nodes as it takes to bring the worker to its
end, and as much time as the cooldown.
-/
namespace Hallo

open Run

/-- What the worker wanted to know, if the event is a question of it. -/
def Event.inquiry? : Event → Option Inquiry
  | .question (.worker inquiry) _ _ => some inquiry
  | _ => none

/-- The worker has nothing to do between two moments: it stays as it is and asks nothing, and nobody
    reads the clock. The dice may be thrown by others. -/
structure Machine.Idle (m after : Machine) : Prop where
  worker_eq : after.worker = m.worker
  faces_eq : after.dice.faces = m.dice.faces
  clock_eq : after.clock = m.clock
  log_eq : ∃ events, after.log = events ++ m.log ∧ ∀ event ∈ events, event.inquiry? = none

/-- One visited node: what it came to, and the machine before and after the worker had its say. -/
structure Visit where
  node : Node
  value : Value
  before : Machine
  after : Machine

/-- When a worker rested, and for how long it is content after that. -/
structure Rest where
  time : Int
  cooldown : Int

namespace Visit

/-- At the node the worker asked a question, to which there was an answer or none. -/
def Asks (v : Visit) (inquiry : Inquiry) (prompt : String) (answer : Option String) : Prop :=
  ∃ events, v.after.log = events ++ v.before.log ∧
    .question (.worker inquiry) prompt answer ∈ events

/-- At the node the worker asked a question, and was told what the node had come to. -/
def Answered (v : Visit) : Prop :=
  ∃ inquiry prompt answer, v.Asks inquiry prompt answer ∧
    Value.ofAnswer (answer.getD "") = .ok v.value

/-- The rest behind a question that was answered rightly. The clock was read once before the
    question and the dice were thrown once for the node itself, so these are the next reading and
    the next throw. -/
def rest (contract : Contract) (v : Visit) : Rest where
  time := v.before.clock.times (v.before.clock.taken + 1)
  cooldown := (Dice.within ⟨v.before.dice.faces, v.before.dice.drawn + 1⟩ contract.cooldownRange).1

/-- A question at the node came in due time, where the last rest was this one and so many nodes were
    visited since: not about a literal, not before the worker can be at its end, the node itself
    included, and when the reading of the clock that was taken for it lay behind the rest by its
    cooldown. -/
structure Due (contract : Contract) (tolerance : Int) (rest : Rest) (count : Nat) (v : Visit)
    (inquiry : Inquiry) : Prop where
  node_eq : inquiry.node = v.node
  value_eq : inquiry.value = v.value
  not_literal : ∀ value, v.node ≠ .literal value
  tired : inquiry.worker.TiredBy (count + 1)
  ceil_le : ⌈(tolerance / contract.maxGrowth : ℚ)⌉ ≤ count + 1
  time_eq : inquiry.time = v.before.clock.times v.before.clock.taken
  cooled : rest.cooldown ≤ inquiry.time - rest.time

theorem asks_iff {v : Visit} {events : List Event} (hlog : v.after.log = events ++ v.before.log)
    {inquiry : Inquiry} {prompt : String} {answer : Option String} :
    v.Asks inquiry prompt answer ↔ .question (.worker inquiry) prompt answer ∈ events := by
  constructor
  · rintro ⟨events', hlog', hmem⟩
    rwa [List.append_cancel_right (hlog.symm.trans hlog')]
  · exact fun hmem => ⟨events, hlog, hmem⟩

/-- Nothing was asked if no event tells of a question. -/
theorem not_asks {v : Visit} {events : List Event} (hlog : v.after.log = events ++ v.before.log)
    (hevents : ∀ event ∈ events, event.inquiry? = none) (inquiry : Inquiry) (prompt : String)
    (answer : Option String) : ¬ v.Asks inquiry prompt answer := by
  rw [asks_iff hlog]
  intro hmem
  cases hevents _ hmem

end Visit

/-- From a machine on just these nodes were visited. The last rest was this one, which is that of
    the hiring or that behind the last question that was answered rightly, and so many of the nodes
    were visited since. -/
inductive Machine.Works (contract : Contract) (hiring : Rest) (start : Machine) :
    List Visit → Rest → Nat → Machine → Prop where
  | hired : Works contract hiring start [] hiring 0 start
  | idle {visits : List Visit} {rest : Rest} {count : Nat} {m after : Machine}
      (hm : Works contract hiring start visits rest count m) (hidle : m.Idle after) :
      Works contract hiring start visits rest count after
  | visited {visits : List Visit} {rest : Rest} {count : Nat} {m after : Machine} {node : Node}
      {value : Value} {ending : Except Halt Unit}
      (hm : Works contract hiring start visits rest count m)
      (hon : on (consult node value) m = (ending, after))
      (hanswered : ¬ Visit.Answered ⟨node, value, m, after⟩) :
      Works contract hiring start (visits ++ [⟨node, value, m, after⟩]) rest (count + 1) after
  | rested {visits : List Visit} {rest : Rest} {count : Nat} {m after : Machine} {node : Node}
      {value : Value} {ending : Except Halt Unit}
      (hm : Works contract hiring start visits rest count m)
      (hon : on (consult node value) m = (ending, after))
      (hanswered : Visit.Answered ⟨node, value, m, after⟩) :
      Works contract hiring start (visits ++ [⟨node, value, m, after⟩])
        (Visit.rest contract ⟨node, value, m, after⟩) 0 after

/-- The worker is as tired as so many nodes have made it, and remembers this rest as its last. -/
structure Machine.Paced (contract : Contract) (rest : Rest) (count : Nat) (m : Machine) : Prop where
  contract_eq : m.worker.contract = contract
  tired : m.worker.TiredBy count
  lastReset_eq : m.worker.lastReset = rest.time
  cooldown_eq : m.worker.cooldown = rest.cooldown

namespace Machine

variable {contract : Contract} {hiring rest : Rest} {count : Nat} {visits : List Visit}
  {start m after : Machine} {node : Node} {value : Value} {ending : Except Halt Unit}

theorem Idle.of_log (events : List Event) (hworker : after.worker = m.worker)
    (hfaces : after.dice.faces = m.dice.faces) (hclock : after.clock = m.clock)
    (hlog : after.log = events ++ m.log) (hevents : ∀ event ∈ events, event.inquiry? = none) :
    m.Idle after :=
  ⟨hworker, hfaces, hclock, events, hlog, hevents⟩

theorem idle_write (text : String) (m : Machine) : m.Idle (on (write text) m).2 :=
  .of_log [.line text] rfl rfl rfl rfl (by simp [Event.inquiry?])

theorem idle_shout (intensity : Int) (text : String) (m : Machine) :
    m.Idle (on (shout intensity text) m).2 := by
  rw [on_shout]
  let shout := (m.shouter.emit intensity text m.dice).1
  refine .of_log (.shout intensity text shout.line :: shout.nap.toList.map Event.nap) rfl
    (m.shouter.faces_emit intensity text m.dice) rfl rfl ?_
  cases shout.nap <;> simp [Event.inquiry?]

theorem idle_ask (prompt : String) (m : Machine) : m.Idle (on (ask .program prompt) m).2 :=
  .of_log [.question .program prompt m.answers.head?.join] rfl rfl rfl rfl
    (by simp [Event.inquiry?])

namespace Works

/-- A visited node is counted, or the count begins anew behind it. -/
theorem visit (hm : Works contract hiring start visits rest count m)
    (hon : on (consult node value) m = (ending, after)) :
    ∃ rest' count', Works contract hiring start (visits ++ [⟨node, value, m, after⟩]) rest' count'
      after := by
  by_cases hanswered : Visit.Answered ⟨node, value, m, after⟩
  · exact ⟨_, _, hm.rested hon hanswered⟩
  · exact ⟨_, _, hm.visited hon hanswered⟩

/-- Whatever is done to a machine is a visit of a node, or leaves the worker idle. -/
theorem invariant (contract : Contract) (hiring : Rest) (start : Machine) (visits : List Visit) :
    Invariant fun m => ∃ more rest count,
      Works contract hiring start (visits ++ more) rest count m where
  stack stack := by
    rintro ⟨more, rest, count, hm⟩
    exact ⟨more, rest, count, hm.idle (.of_log [] rfl rfl rfl rfl (by simp))⟩
  write text := by
    rintro m _ _ ⟨more, rest, count, hm⟩ ⟨⟩
    exact ⟨more, rest, count, hm.idle (idle_write text m)⟩
  shout intensity text _ := by
    rintro m _ after ⟨more, rest, count, hm⟩ hon
    have hidle := idle_shout intensity text m
    rw [hon] at hidle
    exact ⟨more, rest, count, hm.idle hidle⟩
  ask prompt := by
    rintro m _ _ ⟨more, rest, count, hm⟩ ⟨⟩
    exact ⟨more, rest, count, hm.idle (idle_ask prompt m)⟩
  consult node value := by
    rintro m _ after ⟨more, _, _, hm⟩ hon
    obtain ⟨rest, count, hafter⟩ := hm.visit hon
    rw [List.append_assoc] at hafter
    exact ⟨_, rest, count, hafter⟩

/-- An evaluation visits some nodes; if it comes to something, then the node itself last. -/
theorem visitWithin {rounds depth : Nat} {ending : Except Halt Outcome}
    (hm : Works contract hiring start visits rest count m)
    (hon : on (node.visitWithin rounds depth) m = (ending, after)) :
    ∃ more rest' count', Works contract hiring start (visits ++ more) rest' count' after ∧
      ∀ outcome, ending = .ok outcome →
        ∃ before, more.getLast? = some ⟨node, outcome.get, before, after⟩ := by
  obtain ⟨x, hvisit, hx⟩ :=
    (invariant contract hiring start visits).compositional.exists_watched depth node
  rw [hvisit, watched_eq] at hon
  have hstart : ∃ more rest count, Works contract hiring start (visits ++ more) rest count m :=
    ⟨[], rest, count, by rwa [List.append_nil]⟩
  rcases on_bind_eq_iff.1 hon with ⟨outcome, middle, hfirst, hsecond⟩ | ⟨halt, hfirst, rfl⟩
  · obtain ⟨more, rest', count', hmiddle⟩ := hx hstart hfirst
    have hvisited {ending : Except Halt Unit} {after : Machine}
        (hconsult : on (consult node outcome.get) middle = (ending, after)) :
        ∃ rest count, Works contract hiring start
          (visits ++ (more ++ [⟨node, outcome.get, middle, after⟩])) rest count after := by
      rw [← List.append_assoc]
      exact hmiddle.visit hconsult
    rcases on_bind_eq_iff.1 hsecond with ⟨_, _, hconsult, hpure⟩ | ⟨halt, hconsult, rfl⟩
    · cases hpure
      obtain ⟨rest', count', hafter⟩ := hvisited hconsult
      refine ⟨_, rest', count', hafter, ?_⟩
      rintro _ ⟨⟩
      exact ⟨middle, by simp⟩
    · obtain ⟨rest', count', hafter⟩ := hvisited hconsult
      exact ⟨_, rest', count', hafter, nofun⟩
  · obtain ⟨more, rest', count', hafter⟩ := hx hstart hfirst
    exact ⟨more, rest', count', hafter, nofun⟩

/-- Each question of the worker was asked at one of the visited nodes. -/
theorem exists_asks (hm : Works contract hiring start visits rest count m)
    (hstart : ∀ event ∈ start.log, event.inquiry? = none) {inquiry : Inquiry} {prompt : String}
    {answer : Option String} (hmem : .question (.worker inquiry) prompt answer ∈ m.log) :
    ∃ front v back rest' count' ending, visits = front ++ v :: back ∧
      Works contract hiring start front rest' count' v.before ∧
      on (consult v.node v.value) v.before = (ending, v.after) ∧ v.Asks inquiry prompt answer := by
  induction hm with
  | hired => cases hstart _ hmem
  | idle _ hidle ih =>
    obtain ⟨events, hlog, hevents⟩ := hidle.log_eq
    rw [hlog, List.mem_append] at hmem
    rcases hmem with hmem | hmem
    · cases hevents _ hmem
    · exact ih hmem
  | visited hm hon _ ih | rested hm hon _ ih =>
    obtain ⟨remarks, hlog, _⟩ := (consult_cases hon).1.log_eq
    rw [hlog, List.mem_append] at hmem
    rcases hmem with hmem | hmem
    · exact ⟨_, _, [], _, _, _, rfl, hm, hon, remarks, hlog, hmem⟩
    · obtain ⟨front, v, back, rest', count', ending', rfl, hfront, hon', hasks⟩ := ih hmem
      exact ⟨front, v, back ++ [_], rest', count', ending', List.append_assoc front (v :: back) _,
        hfront, hon', hasks⟩

end Works

end Machine

namespace Run

variable {contract : Contract} {rest : Rest} {count : Nat} {m after : Machine} {node : Node}
  {value : Value} {ending : Except Halt Unit}

/-- Only the right answer lets the worker rest; any other leaves it as it was. -/
theorem judge_rests_iff {answer : String} (hon : on (judge value answer) m = (ending, after)) :
    (Value.ofAnswer answer = .ok value →
      (after.worker, after.dice, after.clock) = m.worker.reset m.dice m.clock) ∧
    (Value.ofAnswer answer ≠ .ok value →
      (after.worker, after.dice, after.clock) = (m.worker, m.dice, m.clock)) := by
  have habort : on (abort value answer) m = (ending, after) → after = m := fun hon =>
    (abort_cases {} .empty hon).1
  cases hanswer : Value.ofAnswer answer with
  | ok guess =>
    simp only [judge, hanswer] at hon
    split at hon
    · rename_i hright
      subst hright
      cases hon
      exact ⟨fun _ => rfl, fun hwrong => absurd rfl hwrong⟩
    · rename_i hwrong
      rw [habort hon]
      exact ⟨fun hright => absurd (Except.ok.inj hright) hwrong, fun _ => rfl⟩
  | error error =>
    constructor
    · intro hright
      cases hright
    · intro _
      simp only [judge, hanswer] at hon
      split at hon
      · cases hon
        rfl
      · rw [habort hon]

/-- Unless the run ends before, the worker asks a single question. Told the value that it asked for,
    it rests; told anything else, it stays as it is. -/
theorem checkIn_asks (hon : on (checkIn node value) m = (ending, after)) :
    m.Idle after ∨ ∃ lines, (∀ event ∈ lines, event.inquiry? = none) ∧
      after.log = .question (.worker ⟨node, value, m.worker, m.clock.last⟩) "[dmm] what is it? "
        m.answers.head?.join :: (lines ++ m.log) ∧
      (Value.ofAnswer (m.answers.head?.join.getD "") = .ok value →
        (after.worker, after.dice, after.clock) = m.worker.reset m.dice m.clock) ∧
      (Value.ofAnswer (m.answers.head?.join.getD "") ≠ .ok value →
        (after.worker, after.dice, after.clock) = (m.worker, m.dice, m.clock)) := by
  rcases checkIn_asked hon with ⟨reason, texts, _, _, rfl⟩ | ⟨scope, source, hjudge⟩
  · exact .inl (.of_log (texts.map .line) rfl rfl rfl rfl (by simp [Event.inquiry?]))
  · obtain ⟨_, hlog, _⟩ := judge_cases {} .empty hjudge
    have hrests := judge_rests_iff hjudge
    exact .inr ⟨[.line _, .line _, .line _], by simp [Event.inquiry?], hlog, hrests⟩

end Run

/-- What a visited node may do where the last rest was this one and so many nodes were visited
    since: the worker is asked in due time only, and it rests behind the right answer only. -/
structure Visit.Orderly (contract : Contract) (tolerance : Int) (rest : Rest) (count : Nat)
    (v : Visit) : Prop where
  visited : ¬ v.Answered → v.after.Paced contract rest (count + 1)
  rested : v.Answered → v.after.Paced contract (v.rest contract) 0
  due {inquiry : Inquiry} {prompt : String} {answer : Option String} :
    v.Asks inquiry prompt answer → v.Due contract tolerance rest count inquiry

/-- Where nothing is asked, the worker is tired by one node more. -/
theorem Visit.Orderly.of_unasked {contract : Contract} {tolerance : Int} {rest : Rest} {count : Nat}
    {v : Visit} (hafter : v.after.Paced contract rest (count + 1)) {events : List Event}
    (hlog : v.after.log = events ++ v.before.log)
    (hevents : ∀ event ∈ events, event.inquiry? = none) :
    v.Orderly contract tolerance rest count where
  visited _ := hafter
  rested := by
    rintro ⟨inquiry, prompt, answer, hasks, _⟩
    exact absurd hasks (Visit.not_asks hlog hevents inquiry prompt answer)
  due hasks := absurd hasks (Visit.not_asks hlog hevents _ _ _)

namespace Machine.Paced

variable {contract : Contract} {tolerance : Int} {rest : Rest} {count : Nat} {m after : Machine}
  {node : Node} {value : Value} {ending : Except Halt Unit}

theorem of_hire {dice : Dice} {clock : Clock}
    (hhire : (m.worker, m.dice, m.clock) = Worker.hire contract dice clock) :
    m.Paced contract ⟨clock.times clock.taken, (dice.within contract.cooldownRange).1⟩ 0 := by
  have hworker : m.worker = (Worker.hire contract dice clock).1 := (Prod.mk.inj hhire).1
  refine ⟨?_, .of_rested ?_, ?_, ?_⟩
  all_goals
    rw [hworker]
    rfl

theorem of_worker_eq (hm : m.Paced contract rest count) (hworker : after.worker = m.worker) :
    after.Paced contract rest count := by
  obtain ⟨hcontract, htired, hlastReset, hcooldown⟩ := hm
  rw [← hworker] at hcontract htired hlastReset hcooldown
  exact ⟨hcontract, htired, hlastReset, hcooldown⟩

theorem tire (hm : m.Paced contract rest count) (hstrict : contract.strict = false)
    (hgrowth : 1 ≤ contract.maxGrowth) :
    ∃ tired lines, on Run.tire m = (.ok (), tired) ∧ tired.Paced contract rest (count + 1) ∧
      tired.dice = { m.dice with drawn := m.dice.drawn + 1 } ∧ tired.clock = m.clock ∧
      tired.log = lines ++ m.log ∧ ∀ event ∈ lines, event.inquiry? = none := by
  have hcontract := hm.contract_eq
  have htired := hm.tired.call (by rw [hcontract, hstrict]) (by rwa [hcontract]) m.dice
  obtain ⟨growth, _, _, hcall⟩ :=
    Worker.call_eq (by rw [hcontract, hstrict]) (by rwa [hcontract]) m.dice
  have hon := on_tire m
  rcases hchanged : m.worker.call m.dice with ⟨changed, worker, dice⟩
  rw [hchanged] at hon htired hcall
  cases hcall
  refine ⟨_, _, hon, ⟨hcontract, htired, hm.lastReset_eq, hm.cooldown_eq⟩, rfl, rfl, rfl, ?_⟩
  cases changed <;> simp [Event.inquiry?]

/-- A worker that is ready to ask at a node does it in due time. Behind the right answer it has
    rested, and behind any other it is as tired as before. -/
theorem checkIn {ready : Machine} (hready : ready.Paced contract rest (count + 1))
    (hgrowth : 1 ≤ contract.maxGrowth) (htolerance : (contract.bounds.take 6).max? = some tolerance)
    (hdice : ready.dice = { m.dice with drawn := m.dice.drawn + 1 })
    (hclock : ready.clock = m.clock.read.2) {lines : List Event} (hlog : ready.log = lines ++ m.log)
    (hlines : ∀ event ∈ lines, event.inquiry? = none) (hnode : ∀ value, node ≠ .literal value)
    (hexhausted : ready.worker.exhausted = true)
    (hcooled : ready.worker.cooldown ≤ m.clock.read.1 - ready.worker.lastReset)
    (hon : on (Run.checkIn node value) ready = (ending, after)) :
    Visit.Orderly contract tolerance rest count ⟨node, value, m, after⟩ := by
  rcases checkIn_asks hon with hidle | ⟨lines', hlines', hlog', hright, hwrong⟩
  · obtain ⟨events, hevents, hnone⟩ := hidle.log_eq
    rw [hlog, ← List.append_assoc] at hevents
    exact .of_unasked (hready.of_worker_eq hidle.worker_eq) hevents
      (List.forall_mem_append.2 ⟨hnone, hlines⟩)
  · generalize hanswer : ready.answers.head?.join = given at hlog' hright hwrong
    rw [hlog, ← List.append_assoc, ← List.cons_append] at hlog'
    -- There is no other question in the log than the one that was just asked.
    have hasks {inquiry : Inquiry} {prompt : String} {answer : Option String}
        (h : Visit.Asks ⟨node, value, m, after⟩ inquiry prompt answer) :
        inquiry = ⟨node, value, ready.worker, ready.clock.last⟩ ∧ answer = given := by
      rcases List.mem_cons.1 ((Visit.asks_iff hlog').1 h) with heq | hmem
      · cases heq
        exact ⟨rfl, rfl⟩
      · cases List.forall_mem_append.2 ⟨hlines', hlines⟩ _ hmem
    refine ⟨fun hunanswered => ?_, ?_, fun h => ?_⟩
    · refine hready.of_worker_eq (Prod.mk.inj (hwrong fun hread => hunanswered ?_)).1
      exact ⟨_, _, _, (Visit.asks_iff hlog').2 List.mem_cons_self, hread⟩
    · rintro ⟨inquiry, prompt, answer, h, hread⟩
      obtain ⟨_, rfl⟩ := hasks h
      have hworker := (Prod.mk.inj (hright hread)).1
      rw [hdice, hclock] at hworker
      refine ⟨?_, .of_rested ?_, ?_, ?_⟩
      · rw [hworker]
        exact hready.contract_eq
      · rw [hworker]
      · rw [hworker]
        rfl
      · rw [hworker, ← hready.contract_eq]
        rfl
    · obtain ⟨rfl, _⟩ := hasks h
      have hceil := hready.tired.ceil_le (by rwa [hready.contract_eq])
        (by rwa [hready.contract_eq]) hexhausted
      rw [hready.contract_eq] at hceil
      have htime : ready.clock.last = m.clock.times m.clock.taken := by
        rw [hclock]
        rfl
      refine ⟨rfl, rfl, hnode, hready.tired, by exact_mod_cast hceil, htime, ?_⟩
      rw [← hready.cooldown_eq, ← hready.lastReset_eq, htime]
      exact hcooled

/-- What a node does to a worker. -/
theorem consult (hm : m.Paced contract rest count) (hstrict : contract.strict = false)
    (hgrowth : 1 ≤ contract.maxGrowth) (htolerance : (contract.bounds.take 6).max? = some tolerance)
    (hon : on (Run.consult node value) m = (ending, after)) :
    Visit.Orderly contract tolerance rest count ⟨node, value, m, after⟩ := by
  obtain ⟨tired, lines, htire, htired, hdice, hclock, hlog, hlines⟩ := hm.tire hstrict hgrowth
  rw [Run.consult, on_bind_of_ok htire, on_bind, on_wantsCheck] at hon
  rcases tired.worker.wantsCheck_cases node tired.clock with hcontent | ⟨wants, hread, hwants⟩
  · simp only [hcontent] at hon
    cases hon
    exact .of_unasked htired hlog hlines
  · simp only [hread] at hon
    cases wants with
    | false =>
      cases hon
      exact .of_unasked (htired.of_worker_eq rfl) hlog hlines
    | true =>
      have hready :
          Machine.Paced contract rest (count + 1) { tired with clock := tired.clock.read.2 } :=
        htired.of_worker_eq rfl
      obtain ⟨hnode, hexhausted, hcooled⟩ := hwants rfl
      rw [hclock] at hcooled
      exact hready.checkIn hgrowth htolerance hdice (by rw [hclock]) hlog hlines hnode hexhausted
        hcooled hon

end Machine.Paced

namespace Machine.Works

variable {contract : Contract} {tolerance : Int} {hiring rest : Rest} {count : Nat}
  {visits : List Visit} {start m : Machine}

/-- At every moment the worker is as tired as the nodes since its last rest have made it. -/
theorem paced (hm : Works contract hiring start visits rest count m)
    (hstart : start.Paced contract hiring 0) (hstrict : contract.strict = false)
    (hgrowth : 1 ≤ contract.maxGrowth)
    (htolerance : (contract.bounds.take 6).max? = some tolerance) :
    m.Paced contract rest count := by
  induction hm with
  | hired => exact hstart
  | idle _ hidle ih => exact ih.of_worker_eq hidle.worker_eq
  | visited _ hon hanswered ih =>
    exact (ih.consult hstrict hgrowth htolerance hon).visited hanswered
  | rested _ hon hanswered ih =>
    exact (ih.consult hstrict hgrowth htolerance hon).rested hanswered

end Machine.Works

namespace Run

/-- The worker's questions are far apart. From the hiring of a worker that is not strict, every
    sequence of runs is a sequence of visited nodes, with idle times between them; and so is every
    evaluation on the way, which visits its own node last.

    At every moment the worker's fatigue lies between the number of nodes since its last rest and so
    many times the greatest growth, what it remembers is the time and the cooldown of that rest, and
    a worker that has seen as many nodes as the greatest bound of its moods is at its end. Each
    question was asked at one of the nodes: not at a literal, after as many nodes since the last
    rest as it takes to get to the end, and at a time that lies behind the rest by its cooldown.
    Under the usual contract there are two thousand nodes before a question. -/
theorem worker_questions_spaced {contract : Contract} {tolerance : Int} {dice : Dice}
    {clock : Clock} {start : Machine} (hstrict : contract.strict = false)
    (hgrowth : 1 ≤ contract.maxGrowth) (htolerance : (contract.bounds.take 6).max? = some tolerance)
    (hhire : (start.worker, start.dice, start.clock) = Worker.hire contract dice clock)
    (hlog : start.log = []) :
    let hiring : Rest := ⟨clock.times clock.taken, (dice.within contract.cooldownRange).1⟩
    (∀ (limit rounds : Nat) (jobs : List Job) (after : Machine)
        (endings : List (Except Halt Value)),
      start.perform limit rounds jobs = (endings, after) →
        ∃ visits rest count, start.Works contract hiring visits rest count after) ∧
    (∀ (visits : List Visit) (rest : Rest) (count : Nat) (m : Machine),
      start.Works contract hiring visits rest count m →
        (∀ (rounds depth : Nat) (node : Node) (after : Machine) (ending : Except Halt Outcome),
          on (node.visitWithin rounds depth) m = (ending, after) →
            ∃ more rest' count', start.Works contract hiring (visits ++ more) rest' count' after ∧
              ∀ outcome, ending = .ok outcome →
                ∃ before, more.getLast? = some ⟨node, outcome.get, before, after⟩) ∧
        (count ≤ m.worker.fatigue ∧ m.worker.fatigue ≤ contract.maxGrowth * count) ∧
        (m.worker.lastReset = rest.time ∧ m.worker.cooldown = rest.cooldown) ∧
        (tolerance ≤ count → m.worker.exhausted = true) ∧
        (∀ inquiry prompt answer, .question (.worker inquiry) prompt answer ∈ m.log →
          ∃ front v back rest' count', visits = front ++ v :: back ∧
            start.Works contract hiring front rest' count' v.before ∧
            v.Asks inquiry prompt answer ∧ v.Due contract tolerance rest' count' inquiry)) ∧
    (contract = {} → ⌈(tolerance / contract.maxGrowth : ℚ)⌉ = 2000) := by
  intro hiring
  have hstart : start.Paced contract hiring 0 := .of_hire hhire
  refine ⟨fun limit rounds jobs after endings hperform => ?_, fun visits rest count m hm => ?_, ?_⟩
  · exact (Machine.Works.invariant contract hiring start []).perform ⟨[], _, _, .hired⟩ hperform
  · have hpaced := hm.paced hstart hstrict hgrowth htolerance
    have hmost := hpaced.tired.most
    rw [hpaced.contract_eq] at hmost
    refine ⟨fun rounds depth node after ending hon => hm.visitWithin hon,
      ⟨hpaced.tired.least, hmost⟩, ⟨hpaced.lastReset_eq, hpaced.cooldown_eq⟩, fun hcount => ?_,
      fun inquiry prompt answer hmem => ?_⟩
    · exact hpaced.tired.exhausted (by rwa [hpaced.contract_eq]) hcount
    · obtain ⟨front, v, back, rest', count', ending, hvisits, hfront, hon, hasks⟩ :=
        hm.exists_asks (by simp [hlog]) hmem
      have hbefore := hfront.paced hstart hstrict hgrowth htolerance
      exact ⟨front, v, back, rest', count', hvisits, hfront, hasks,
        (hbefore.consult hstrict hgrowth htolerance hon).due hasks⟩
  · rintro rfl
    obtain rfl : tolerance = 10000 := (Option.some.inj htolerance).symm
    norm_num

end Run

/-- A contract that bears little: two nodes may be enough, and two of the clock's units. -/
def Contract.impatient : Contract :=
  { bounds := [3, -1], maxGrowth := 2, cooldownRange := (2, 4) }

namespace Run

/-- A worker that two nodes can bring to its end asks about the first assignment, is told the right
    answer and rests, at a time that is read when the clock has been read twice before; and it asks
    again about the second assignment, not earlier than it may. -/
theorem worker_questions_spaced_impatient :
    ∃ (start after : Machine) (visits : List Visit) (rest : Rest) (count : Nat) (inquiry : Inquiry),
      (start.worker, start.dice, start.clock) =
        Worker.hire .impatient (Dice.cycling [1]) (Clock.ticking 0 10) ∧
      start.perform 1 0 (["hallo\nx = <a>\ny = x\nreicht dann auch mal"].map .source) =
        ([.error (.fault (.wrongAnswer .nothing "no"))], after) ∧
      start.Works .impatient ⟨0, 3⟩ visits rest count after ∧ rest = ⟨20, 3⟩ ∧
      .question (.worker inquiry) "[dmm] what is it? " (some "no") ∈ after.log ∧
      ∃ v ∈ visits, ∃ rest' count', v.Asks inquiry "[dmm] what is it? " (some "no") ∧
        v.Due .impatient 3 rest' count' inquiry := by
  have hparse : Node.parse "hallo\nx = <a>\ny = x\nreicht dann auch mal" =
      .ok [.assign "x" (.literal (.text "a")), .assign "y" (.var "x")] := by
    cbv
  obtain ⟨start, after, inquiry, earlier, hhire, hempty, hrun, hlog, hlast, hcooldown⟩ :
      ∃ start after inquiry earlier,
        (start.worker, start.dice, start.clock) =
          Worker.hire .impatient (Dice.cycling [1]) (Clock.ticking 0 10) ∧
        start.log = [] ∧
        on ((Job.source "hallo\nx = <a>\ny = x\nreicht dann auch mal").run 1 0) start =
          (.error (.fault (.wrongAnswer .nothing "no")), after) ∧
        after.log = .question (.worker inquiry) "[dmm] what is it? " (some "no") :: earlier ∧
        after.worker.lastReset = 20 ∧ after.worker.cooldown = 3 := by
    refine ⟨
      { worker := { contract := .impatient, lastReset := 0, cooldown := 3 }
        shouter := {}
        dice := { Dice.cycling [1] with drawn := 1 }
        clock := { Clock.ticking 0 10 with taken := 1 }
        answers := [some "-", some "no"] }, ?_⟩
    rw [Job.run, on_source_of_ok hparse rfl]
    exact ⟨_, _, _, rfl, rfl, by cbv, by cbv, by cbv, by cbv⟩
  have hperform := Machine.perform_cons hrun (Machine.perform_nil 1 0 after)
  have hmem : .question (.worker inquiry) "[dmm] what is it? " (some "no") ∈ after.log := by
    simp [hlog]
  have hspaced := worker_questions_spaced rfl (by decide) rfl hhire hempty
  obtain ⟨visits, rest, count, hworks⟩ := hspaced.1 1 0 _ after _ hperform
  obtain ⟨_, _, ⟨htime, hcool⟩, _, hquestions⟩ := hspaced.2.1 visits rest count after hworks
  obtain ⟨front, v, back, rest', count', rfl, _, hasks, hdue⟩ := hquestions inquiry _ _ hmem
  refine ⟨start, after, _, rest, count, inquiry, hhire, hperform, hworks, ?_, hmem, v,
    by simp, rest', count', hasks, hdue⟩
  rw [hlast] at htime
  rw [hcooldown] at hcool
  rw [htime, hcool]

end Run

end Hallo
