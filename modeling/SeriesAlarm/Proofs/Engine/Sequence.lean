import SeriesAlarm.Proofs.Engine.Turn
import SeriesAlarm.Proofs.Rule.Idle

/-!
# Sequences of ticks

Ticks may follow one another at any instants, with any sources, flags and outcomes of deliveries. A
test or an action keeps its schedule until it is run again, and it is only run once its next run is
reached.
-/

namespace SeriesAlarm

/-- What a tick is given. -/
structure Moment where
  source : Source
  flag : CancelReadings
  attempts : Attempts
  now : Instant

namespace Action

/-- The action is run when the actions that are due are run. -/
structure RunsAt (a : Action) (now : Instant) : Prop where
  active : a.active = true
  due : a.isDue? now = some true

def rule (a : Action) : Action :=
  { a with schedule := { a.schedule with nextRun := none }, buffered := [] }

theorem rule_of_turns {attempts : Attempts} {now : Instant} {a : Action} {step : Dispatcher.Step}
    (h : Dispatcher.Turns attempts now a step) : step.action.rule = a.rule := by
  cases h with
  | inactive => rfl
  | early => rfl
  | ran active due done next run advance =>
    obtain ⟨schedule, hschedule, rfl⟩ := Option.map_eq_some_iff.mp advance
    obtain ⟨next, -, rfl⟩ := Option.map_eq_some_iff.mp hschedule
    dsimp only
    rw [run_keeps run]
    rfl

end Action

theorem Dispatcher.rules_runDue {attempts : Attempts} {now : Instant} {d : Dispatcher}
    {steps : List Dispatcher.Step} (h : d.runDue attempts now = .ok steps) :
    (Dispatcher.after steps).map Action.rule = d.map Action.rule := by
  induction d generalizing steps with
  | nil =>
    cases h
    rfl
  | cons a d ih =>
    obtain ⟨step, rest, hstep, hrest, rfl⟩ := runDue_cons h
    exact congrArg₂ List.cons (Action.rule_of_turns hstep) (ih hrest)

namespace Dispatcher

/-- The actions after groups were added to their buffers that they take as they are. -/
def Grows (d d' : Dispatcher) : Prop :=
  ∃ groups : Action → List ResultGroup, (∀ a, ∀ g ∈ groups a, a.taken g = [g]) ∧
    d' = d.map fun a => a.receive (groups a)

theorem Grows.refl (d : Dispatcher) : Grows d d :=
  ⟨fun _ => [], fun _ _ hg => (by cases hg), by simp⟩

theorem Grows.trans {d d' d'' : Dispatcher} (h : Grows d d') (h' : Grows d' d'') : Grows d d'' := by
  obtain ⟨groups, htaken, rfl⟩ := h
  obtain ⟨groups', htaken', rfl⟩ := h'
  refine ⟨fun a => groups a ++ groups' (a.receive (groups a)), fun a g hg => ?_, ?_⟩
  · rcases List.mem_append.mp hg with hg | hg
    · exact htaken a g hg
    · exact htaken' (a.receive (groups a)) g hg
  · rw [List.map_map]
    exact List.map_congr_left fun a _ => a.receive_receive _ _

end Dispatcher

namespace Engine

def tickAt (e : Engine) (m : Moment) : Except Fault Tick := e.tick m.source m.flag m.attempts m.now

def ticks (e : Engine) : List Moment → Except Fault (List Tick)
  | [] => .ok []
  | m :: ms => do
    let t ← e.tickAt m
    let rest ← t.engine.ticks ms
    return t :: rest

/-- A test or an action, by its place in the engine. -/
inductive Runner
  | test (place : Nat)
  | action (place : Nat)

def schedule? (e : Engine) : Runner → Option Schedule
  | .test k => e.tests[k]?.map (·.schedule)
  | .action k => e.actions[k]?.map (·.schedule)

/-- The tick at the moment runs the test or the action: it is due when the tick comes to it, and the
flag was not raised before. -/
def Runs (e : Engine) (m : Moment) : Runner → Prop
  | .test k => ∃ p s, (e.tests.take k).foldlM (Progress.take m.source m.flag m.now)
      { actions := e.actions } = .ok p ∧ e.tests[k]? = some s ∧ p.Runs m.flag m.now s
  | .action k => ∃ p a, e.tests.foldlM (Progress.take m.source m.flag m.now)
      { actions := e.actions } = .ok p ∧ p.report.cancelled = false ∧ p.actions[k]? = some a ∧
      a.RunsAt m.now

/-- Ticks that do not run the test or the action. -/
inductive Rests (r : Runner) : Engine → List Moment → Engine → Prop
  | nil (e : Engine) : Rests r e [] e
  | cons {e last : Engine} {m : Moment} {ms : List Moment} {t : Tick} (ticks : e.tickAt m = .ok t)
      (rests : ¬ e.Runs m r) (later : Rests r t.engine ms last) : Rests r e (m :: ms) last

namespace Progress

variable {source : Source} {flag : CancelReadings} {now : Instant} {p p' : Progress}

theorem take_done {s : Test} (h : p.take source flag now s = .ok p') :
    p.actions.Grows p'.actions ∧
      ∃ s', p'.done = p.done ++ [s'] ∧ s'.rule = s.rule ∧ (¬ p.Runs flag now s → s' = s) := by
  cases take_takes h with
  | ended => exact ⟨.refl _, s, rfl, rfl, fun _ => rfl⟩
  | raised => exact ⟨.refl _, s, rfl, rfl, fun _ => rfl⟩
  | outOfSeason => exact ⟨.refl _, s, rfl, rfl, fun _ => rfl⟩
  | early => exact ⟨.refl _, s, rfl, rfl, fun _ => rfl⟩
  | interrupted runs pass hpass =>
    exact ⟨.refl _, pass.test, rfl, Test.rule_eq_of_idle_eq (Test.idle_pass hpass),
      fun hrests => absurd runs hrests⟩
  | ran runs pass hpass result next advance =>
    have hrule : next.rule = s.rule :=
      (Test.rule_advance? advance).trans (Test.rule_eq_of_idle_eq (Test.idle_pass hpass))
    have hgrows : p.actions.Grows (p.actions.forwardAll s.actions pass.handed) :=
      ⟨_, fun _ _ hg => Dispatcher.taken_of_mem_share hg, Dispatcher.forwardAll_eq_map _ _ _⟩
    exact ⟨hgrows, next, rfl, hrule, fun hrests => absurd runs hrests⟩

theorem foldlM_done {tests : List Test} (h : tests.foldlM (take source flag now) p = .ok p') :
    p.actions.Grows p'.actions ∧
      ∃ more, p'.done = p.done ++ more ∧ more.map Test.rule = tests.map Test.rule := by
  induction tests generalizing p with
  | nil =>
    cases h
    exact ⟨.refl _, [], (List.append_nil _).symm, rfl⟩
  | cons s rest ih =>
    rw [List.foldlM_cons] at h
    obtain ⟨next, hnext, hrest⟩ := bind_eq_ok.mp h
    obtain ⟨hgrows, s', hs', hrule, -⟩ := take_done hnext
    obtain ⟨hgrows', more, hmore, hrules⟩ := ih hrest
    refine ⟨hgrows.trans hgrows', s' :: more, ?_, ?_⟩
    · rw [hmore, hs', List.append_assoc, List.singleton_append]
    · rw [List.map_cons, List.map_cons, hrule, hrules]

theorem foldlM_at {tests : List Test} {k : Nat} {s : Test} (hs : tests[k]? = some s)
    (hstart : p.done = []) (h : tests.foldlM (take source flag now) p = .ok p') :
    ∃ q q', (tests.take k).foldlM (take source flag now) p = .ok q ∧
      q.take source flag now s = .ok q' ∧ q.done.length = k ∧ q'.done <+: p'.done := by
  obtain ⟨hk, hget⟩ := List.getElem?_eq_some_iff.mp hs
  have hsplit : tests = tests.take k ++ s :: tests.drop (k + 1) := by
    rw [← hget, List.getElem_cons_drop hk, List.take_append_drop]
  rw [hsplit, List.foldlM_append] at h
  obtain ⟨q, hq, h⟩ := bind_eq_ok.mp h
  rw [List.foldlM_cons] at h
  obtain ⟨q', hq', hrest⟩ := bind_eq_ok.mp h
  obtain ⟨-, before, hbefore, hrules⟩ := foldlM_done hq
  obtain ⟨-, more, hmore, -⟩ := foldlM_done hrest
  have hlength := congrArg List.length hrules
  rw [List.length_map, List.length_map, List.length_take] at hlength
  refine ⟨q, q', hq, hq', ?_, more, hmore.symm⟩
  rw [hbefore, hstart, List.nil_append]
  omega

end Progress

variable {e : Engine} {m : Moment} {t : Tick}

/-- A tick leaves the rules of its tests and actions as they are. -/
theorem rules_tickAt (h : e.tickAt m = .ok t) :
    t.engine.tests.map Test.rule = e.tests.map Test.rule ∧
      t.engine.actions.map Action.rule = e.actions.map Action.rule := by
  obtain ⟨p, hp, h⟩ := tick_cases h
  obtain ⟨⟨groups, -, hgroups⟩, more, hmore, hrules⟩ := Progress.foldlM_done hp
  have hactions : p.actions.map Action.rule = e.actions.map Action.rule := by
    rw [hgroups, List.map_map]
    rfl
  rw [List.nil_append] at hmore
  rcases h with ⟨-, rfl⟩ | ⟨-, steps, hsteps, rfl⟩
  · exact ⟨by rw [hmore, hrules], hactions⟩
  · exact ⟨by rw [hmore, hrules], (Dispatcher.rules_runDue hsteps).trans hactions⟩

theorem rule_keepTest (e : Engine) (s : Test) : (e.keepTest s).rule = s.rule := by
  unfold keepTest
  split <;> rfl

theorem rule_keepAction (e : Engine) (a : Action) : (e.keepAction a).rule = a.rule := by
  unfold keepAction
  split
  · rw [Action.foldl_addResults_eq]
    rfl
  · rfl

theorem rules_reload (e : Engine) (set : RuleSet) (source : Source) :
    (e.reload set source).tests.map Test.rule = (ofRuleSet set source).tests.map Test.rule ∧
      (e.reload set source).actions.map Action.rule =
        (ofRuleSet set source).actions.map Action.rule := by
  simp only [reload, ofRuleSet, List.map_map, Function.comp_def, rule_keepTest, rule_keepAction,
    and_self]

theorem test_of_rests {k : Nat} (h : e.tickAt m = .ok t) (rests : ¬ e.Runs m (.test k)) :
    t.engine.tests[k]? = e.tests[k]? := by
  cases hs : e.tests[k]? with
  | none =>
    have hlength := congrArg List.length (rules_tickAt h).1
    rw [List.length_map, List.length_map] at hlength
    rw [List.getElem?_eq_none_iff] at hs ⊢
    omega
  | some s =>
    obtain ⟨p, hp, h⟩ := tick_cases h
    have htests : t.engine.tests = p.done := by
      rcases h with ⟨-, rfl⟩ | ⟨-, steps, -, rfl⟩ <;> rfl
    obtain ⟨q, q', hq, hq', hlength, more, hmore⟩ := Progress.foldlM_at hs rfl hp
    obtain ⟨-, s', hs', -, hkept⟩ := Progress.take_done hq'
    have hnot : ¬ q.Runs m.flag m.now s := fun hruns => rests ⟨q, s, hq, hs, hruns⟩
    rw [htests, ← hmore, hs', hkept hnot, List.append_assoc, ← hlength]
    simp

theorem schedule?_action {p : Progress}
    (h : e.tests.foldlM (Progress.take m.source m.flag m.now) { actions := e.actions } = .ok p)
    (k : Nat) : e.schedule? (.action k) = p.actions[k]?.map (·.schedule) := by
  obtain ⟨⟨groups, -, hgroups⟩, -⟩ := Progress.foldlM_done h
  rw [schedule?, hgroups, List.getElem?_map, Option.map_map]
  rfl

theorem action_of_rests {k : Nat} (h : e.tickAt m = .ok t) (rests : ¬ e.Runs m (.action k)) :
    t.engine.schedule? (.action k) = e.schedule? (.action k) := by
  obtain ⟨p, hp, h⟩ := tick_cases h
  rcases h with ⟨-, rfl⟩ | ⟨hgoing, steps, hsteps, rfl⟩
  · exact (schedule?_action hp k).symm
  · change ((Dispatcher.after steps)[k]?).map (·.schedule) = _
    rw [schedule?_action hp, Dispatcher.after, List.getElem?_map]
    rcases forall₂_getElem? (mapM_eq_ok.mp hsteps) k with ⟨ha, hstep⟩ | ⟨a, step, ha, hstep, hran⟩
    · rw [ha, hstep]
      rfl
    · have hnot : ¬ a.RunsAt m.now := fun hruns => rests ⟨p, a, hp, hgoing, ha, hruns⟩
      rw [ha, hstep]
      cases Dispatcher.runOne_turns hran with
      | inactive => rfl
      | early => rfl
      | ran active due => exact absurd ⟨active, due⟩ hnot

theorem schedule?_of_rests {r : Runner} (h : e.tickAt m = .ok t) (rests : ¬ e.Runs m r) :
    t.engine.schedule? r = e.schedule? r := by
  cases r with
  | test k => rw [schedule?, schedule?, test_of_rests h rests]
  | action k => exact action_of_rests h rests

/-- Ticks that do not run a test or an action leave its schedule as it is. -/
theorem Rests.schedule? {r : Runner} {last : Engine} {ms : List Moment} (h : Rests r e ms last) :
    last.schedule? r = e.schedule? r := by
  induction h with
  | nil e => rfl
  | cons ticks rests _ ih => exact ih.trans (schedule?_of_rests ticks rests)

/-- What is run has reached its next run. -/
theorem Runs.reached {r : Runner} (h : e.Runs m r) {s : Schedule} {next : Instant}
    (hs : e.schedule? r = some s) (hnext : s.nextRun = some next) : next ≤ m.now := by
  have hreached (due : s.isDue? m.now = some true) : next ≤ m.now := by
    simpa [Schedule.isDue?, hnext] using due
  cases r with
  | test k =>
    obtain ⟨p, s', hp, hs', hruns⟩ := h
    rw [schedule?, hs'] at hs
    cases hs
    exact hreached hruns.due
  | action k =>
    obtain ⟨p, a, hp, -, ha, hruns⟩ := h
    rw [schedule?_action hp, ha] at hs
    cases hs
    exact hreached hruns.due

end Engine
end SeriesAlarm
