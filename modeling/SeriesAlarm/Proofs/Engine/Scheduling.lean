import SeriesAlarm.Proofs.Calendar.NextRun
import SeriesAlarm.Proofs.Engine.History
import SeriesAlarm.Proofs.Engine.Sequence

/-!
# When tests and actions run

A tick runs what is due and names the next run of each, which lies ahead; it leaves everything else
alone. No later tick runs a test or an action before the next run that was named last.
-/

namespace SeriesAlarm

instance (s : Test) (now : Instant) : Decidable (s.RunsAt now) :=
  decidable_of_iff (s.inSeason now = true ∧ s.isDue? now = some true)
    ⟨fun ⟨season, due⟩ => ⟨season, due⟩, fun ⟨season, due⟩ => ⟨season, due⟩⟩

instance (a : Action) (now : Instant) : Decidable (a.RunsAt now) :=
  decidable_of_iff (a.active = true ∧ a.isDue? now = some true)
    ⟨fun ⟨active, due⟩ => ⟨active, due⟩, fun ⟨active, due⟩ => ⟨active, due⟩⟩

namespace Schedule

/-- The schedule after a run: the run that follows is named, and lies ahead. -/
structure Renewed (s : Schedule) (now : Instant) (positive : Bool) (s' : Schedule) : Prop where
  next : ∃ next, s.nextRunAfter? now positive = some next ∧ s' = { s with nextRun := some next } ∧
    ((s.step positive).HasRoom now → now < next)

theorem renewed_of_advance? {s s' : Schedule} {now : Instant} {positive : Bool}
    (proper : s.base.IsProper) (first : Instant.first ≤ now)
    (h : s.advance? now positive = some s') : s.Renewed now positive s' := by
  obtain ⟨next, hnext, rfl⟩ := Option.map_eq_some_iff.mp h
  exact ⟨next, hnext, rfl, fun room => lt_nextSlot? room proper first hnext⟩

end Schedule

/-- What a tick does to a test: it runs a pass and renews the schedule by its outcome, or it leaves
the test as it is. -/
inductive Test.Scheduled (source : Source) (now : Instant) (s : Test) : Test → Prop
  | idle (rests : ¬ s.RunsAt now) : Scheduled source now s s
  | ran (runs : s.RunsAt now) (pass : Pass) (hpass : s.pass source .down now = .ok pass)
      (schedule : Schedule) (renewed : s.schedule.Renewed now pass.isPositive schedule) :
      Scheduled source now s { pass.test with schedule }

/-- What a test hands to an action in a tick. -/
def Test.handsTo (source : Source) (now : Instant) (s : Test) (a : Action) : List ResultGroup :=
  if s.RunsAt now then
    match s.pass source .down now with
    | .ok pass => Dispatcher.share s.actions pass.handed a
    | .error _ => []
  else []

/-- What a tick does to an action that is handed groups: it runs it and renews the schedule, or it only
adds to the buffer. -/
inductive Action.Scheduled (attempts : Attempts) (now : Instant) (groups : List ResultGroup)
    (a : Action) : Action → Prop
  | idle (rests : ¬ a.RunsAt now) : Scheduled attempts now groups a (a.receive groups)
  | ran (runs : a.RunsAt now) (done : ActionRun)
      (run : (a.receive groups).run attempts now none = .ok done) (schedule : Schedule)
      (renewed : a.schedule.Renewed now false schedule) :
      Scheduled attempts now groups a { a with schedule, buffered := done.action.buffered }

namespace Engine

/-- The fields of every base time are in their ranges, as in all that are read from texts. -/
structure Proper (e : Engine) : Prop where
  tests : ∀ s ∈ e.tests, s.schedule.base.IsProper
  actions : ∀ a ∈ e.actions, a.schedule.base.IsProper

def nextRun? (e : Engine) (r : Runner) : Option Instant := (e.schedule? r).bind (·.nextRun)

/-- What a tick runs, and when that is run again. -/
structure Schedules (e : Engine) (source : Source) (attempts : Attempts) (now : Instant) (t : Tick) :
    Prop where
  tests : List.Forall₂ (fun s s' => s.Scheduled source now s') e.tests t.engine.tests
  testsRun : t.report.testsRun = (e.tests.filter (·.RunsAt now)).length
  actions : List.Forall₂
    (fun a a' => a.Scheduled attempts now (e.tests.flatMap (·.handsTo source now a)) a')
    e.actions t.engine.actions
  actionsRun : t.report.deliveries.map (·.actionId) = (e.actions.filter (·.RunsAt now)).map (·.id)
  /-- The tick runs what is due. -/
  runs : ∀ k, (e.Runs ⟨source, .down, attempts, now⟩ (.test k) ↔ ∃ s, e.tests[k]? = some s ∧
      s.RunsAt now) ∧
    (e.Runs ⟨source, .down, attempts, now⟩ (.action k) ↔ ∃ a, e.actions[k]? = some a ∧ a.RunsAt now)
  /-- The first of any later ticks that runs it again does not come before its next run. -/
  later : ∀ r next, t.engine.nextRun? r = some next → ∀ ms last, Rests r t.engine ms last →
    ∀ m, last.Runs m r → next ≤ m.now

end Engine

section Single

variable {source : Source} {now : Instant}

theorem Test.scheduled_of_takes {s : Test} {turn : Test.Turn} (proper : s.schedule.base.IsProper)
    (first : Instant.first ≤ now) (h : s.Takes source now turn) :
    s.Scheduled source now turn.test ∧
      turn.report.testsRun = if s.RunsAt now then 1 else 0 := by
  cases h with
  | outOfSeason season =>
    have hrests := not_runsAt_of_inSeason season
    exact ⟨.idle hrests, by rw [if_neg hrests]; rfl⟩
  | notDue season due =>
    have hrests := not_runsAt_of_isDue? due
    exact ⟨.idle hrests, by rw [if_neg hrests]; rfl⟩
  | ran runs pass hpass next advance =>
    obtain ⟨schedule, hschedule, rfl⟩ := Option.map_eq_some_iff.mp advance
    have hsame : pass.test.schedule = s.schedule := by rw [pass_sameRule hpass]
    rw [hsame, positive_pass hpass] at hschedule
    refine ⟨.ran runs pass hpass schedule (Schedule.renewed_of_advance? proper first hschedule), ?_⟩
    rw [if_pos runs]
    unfold Turn.report Engine.Progress.note
    dsimp only
    split
    · split <;> rfl
    · rfl

theorem Test.share_of_takes {s : Test} {turn : Turn} (h : s.Takes source now turn) (a : Action) :
    turn.share a = s.handsTo source now a := by
  cases h with
  | outOfSeason season =>
    rw [handsTo, if_neg (not_runsAt_of_inSeason season)]
    exact Turn.share_of_handed_nil rfl a
  | notDue season due =>
    rw [handsTo, if_neg (not_runsAt_of_isDue? due)]
    exact Turn.share_of_handed_nil rfl a
  | ran runs pass hpass next advance =>
    have hactions := actions_turn (turn_eq_ok_iff.mpr (.ran runs pass hpass next advance))
    rw [handsTo, if_pos runs, hpass]
    change Dispatcher.share next.actions pass.handed a = _
    rw [hactions]

theorem Action.scheduled_of_turns {a : Action} {attempts : Attempts} {groups : List ResultGroup}
    {step : Dispatcher.Step} (proper : a.schedule.base.IsProper) (first : Instant.first ≤ now)
    (h : Dispatcher.Turns attempts now (a.receive groups) step) :
    a.Scheduled attempts now groups step.action ∧
      step.result.map (·.actionId) = if a.RunsAt now then some a.id else none := by
  cases h with
  | inactive active =>
    have hrests : ¬ a.RunsAt now := fun hruns => absurd (hruns.active.symm.trans active) (by decide)
    exact ⟨.idle hrests, by rw [if_neg hrests]; rfl⟩
  | early _ due =>
    have hrests : ¬ a.RunsAt now := fun hruns => by
      have hdue : some true = some false := hruns.due.symm.trans due
      cases hdue
    exact ⟨.idle hrests, by rw [if_neg hrests]; rfl⟩
  | ran active due done next run advance =>
    have hruns : a.RunsAt now := ⟨active, due⟩
    obtain ⟨schedule, hschedule, rfl⟩ := Option.map_eq_some_iff.mp advance
    have hkept := Action.run_keeps run
    rw [hkept] at hschedule
    have hrenewed := Schedule.renewed_of_advance? proper first hschedule
    refine ⟨?_, by rw [if_pos hruns]; rfl⟩
    dsimp only
    rw [hkept]
    exact .ran hruns done run schedule hrenewed

end Single

namespace Engine

variable {e : Engine} {source : Source} {attempts : Attempts} {now : Instant} {t : Tick}

theorem tests_scheduled {tests : List Test} {turns : List Test.Turn}
    (proper : ∀ s ∈ tests, s.schedule.base.IsProper) (first : Instant.first ≤ now)
    (h : Turned source now tests turns) :
    List.Forall₂ (fun s s' => s.Scheduled source now s') tests (turns.map (·.test)) ∧
      (TickReport.total (turns.map (·.report))).testsRun =
        (tests.filter (·.RunsAt now)).length := by
  induction h with
  | nil => exact ⟨.nil, rfl⟩
  | @cons s turn tests turns hturn _ ih =>
    obtain ⟨hhead, hcount⟩ := Test.scheduled_of_takes (proper s List.mem_cons_self) first
      (Test.turn_eq_ok_iff.mp hturn)
    obtain ⟨htail, hcounts⟩ := ih fun s' hs' => proper s' (List.mem_cons_of_mem s hs')
    refine ⟨.cons hhead htail, ?_⟩
    change turn.report.testsRun + (TickReport.total (turns.map (·.report))).testsRun = _
    rw [hcount, hcounts, List.filter_cons]
    by_cases hruns : s.RunsAt now
    · simp [hruns, Nat.add_comm]
    · simp [hruns]

theorem flatMap_share_eq_handsTo {tests : List Test} {turns : List Test.Turn}
    (h : Turned source now tests turns) (a : Action) :
    turns.flatMap (·.share a) = tests.flatMap (·.handsTo source now a) := by
  induction h with
  | nil => rfl
  | cons hturn _ ih =>
    rw [List.flatMap_cons, List.flatMap_cons, ih, Test.share_of_takes (Test.turn_eq_ok_iff.mp hturn)]

theorem actions_scheduled {actions : Dispatcher} {turns : List Test.Turn}
    {steps : List Dispatcher.Step} (proper : ∀ a ∈ actions, a.schedule.base.IsProper)
    (first : Instant.first ≤ now) (h : Ran attempts now turns actions steps) :
    List.Forall₂ (fun a a' => a.Scheduled attempts now (turns.flatMap (·.share a)) a') actions
        (Dispatcher.after steps) ∧
      (Dispatcher.results steps).map (·.actionId) =
        (actions.filter (·.RunsAt now)).map (·.id) := by
  induction h with
  | nil => exact ⟨.nil, rfl⟩
  | @cons a step actions steps hstep _ ih =>
    obtain ⟨hhead, hresult⟩ := Action.scheduled_of_turns (proper a List.mem_cons_self) first
      (Dispatcher.runOne_turns hstep)
    obtain ⟨htail, hresults⟩ := ih fun a' ha' => proper a' (List.mem_cons_of_mem a ha')
    refine ⟨.cons hhead htail, ?_⟩
    unfold Dispatcher.results at hresults ⊢
    rw [List.filterMap_cons, List.filter_cons]
    by_cases hruns : a.RunsAt now
    · rw [if_pos hruns] at hresult
      obtain ⟨result, hsome, hid⟩ := Option.map_eq_some_iff.mp hresult
      simp [hsome, hruns, hid, hresults]
    · rw [if_neg hruns] at hresult
      simp [Option.map_eq_none_iff.mp hresult, hruns, hresults]

/-- While the flag is down, a tick runs what is due. -/
theorem runs_down_iff (h : e.tick source .down attempts now = .ok t) (k : Nat) :
    (e.Runs ⟨source, .down, attempts, now⟩ (.test k) ↔ ∃ s, e.tests[k]? = some s ∧
        s.RunsAt now) ∧
      (e.Runs ⟨source, .down, attempts, now⟩ (.action k) ↔ ∃ a, e.actions[k]? = some a ∧
        a.RunsAt now) := by
  obtain ⟨p, hp, -⟩ := tick_cases h
  refine ⟨⟨?_, ?_⟩, ?_, ?_⟩
  · rintro ⟨_, s, -, hs, hruns⟩
    exact ⟨s, hs, hruns.season, hruns.due⟩
  · rintro ⟨s, hs, hruns⟩
    obtain ⟨q, -, hq, -⟩ := Progress.foldlM_at hs rfl hp
    obtain ⟨turns, -, rfl⟩ := gather_eq_ok_iff (e := { e with tests := e.tests.take k }).mp hq
    exact ⟨_, s, hq, hs, Progress.cancelled_ofTurns _ _, rfl, hruns.season, hruns.due⟩
  · rintro ⟨p, a', hp, -, ha', hruns⟩
    obtain ⟨turns, -, rfl⟩ := gather_eq_ok_iff.mp hp
    rw [Progress.ofTurns, List.getElem?_map] at ha'
    obtain ⟨a, ha, rfl⟩ := Option.map_eq_some_iff.mp ha'
    exact ⟨a, ha, hruns.active, hruns.due⟩
  · rintro ⟨a, ha, hruns⟩
    obtain ⟨turns, -, rfl⟩ := gather_eq_ok_iff.mp hp
    refine ⟨_, a.receive (turns.flatMap (·.share a)), hp, Progress.cancelled_ofTurns _ _, ?_,
      hruns.active, hruns.due⟩
    rw [Progress.ofTurns, List.getElem?_map, ha]
    rfl

/-- A tick runs what is due and names a next run that lies ahead; nothing is run again before it. -/
theorem tick_schedules (h : e.tick source .down attempts now = .ok t) (proper : e.Proper)
    (range : now.InRange) : e.Schedules source attempts now t := by
  have hruns := runs_down_iff h
  obtain ⟨turns, steps, hturns, hsteps, rfl⟩ := tick_down_eq_ok_iff.mp h
  obtain ⟨htests, htestsRun⟩ := tests_scheduled proper.tests range.1 hturns
  obtain ⟨hactions, hactionsRun⟩ := actions_scheduled proper.actions range.1 hsteps
  simp only [flatMap_share_eq_handsTo hturns] at hactions
  refine ⟨htests, htestsRun, hactions, hactionsRun, hruns, ?_⟩
  intro r next hnext ms last hrests m hagain
  obtain ⟨s, hs, hnext⟩ := Option.bind_eq_some_iff.mp hnext
  exact hagain.reached (hrests.schedule?.trans hs) hnext

theorem proper_iff_rules : e.Proper ↔
    (∀ s ∈ e.tests.map Test.rule, s.schedule.base.IsProper) ∧
      ∀ a ∈ e.actions.map Action.rule, a.schedule.base.IsProper := by
  rw [List.forall_mem_map, List.forall_mem_map]
  exact ⟨fun h => ⟨h.tests, h.actions⟩, fun h => ⟨h.1, h.2⟩⟩

theorem proper_ofRuleSet (env : Environment) (ds : List Document) (source : Source) :
    (ofRuleSet (RuleSet.ofDocuments env ds) source).Proper := by
  obtain ⟨hactions, htests⟩ := RuleSet.forall_ofDocuments
    (P := fun a => a.schedule.base.IsProper) (Q := fun s => s.schedule.base.IsProper)
    (fun d a h => TimePattern.isProper_parse
      (ScheduleEntry.parse_of_build (ActionDocument.schedule_build h)).1)
    (fun known d s h => TimePattern.isProper_parse
      (ScheduleEntry.parse_of_build (TestDocument.schedule_build h)).1) ds
  refine ⟨fun s hs => ?_, hactions⟩
  rcases Wildcard.mem_expandAll hs with hs | ⟨s₀, hs₀, capture, rfl⟩
  · exact htests s hs
  · exact htests s₀ hs₀

/-- The base times of an engine that was built from documents are proper, whatever happened to it
since. -/
theorem Reached.proper {j : Journal} {sent : List (String × Notification)} (h : Reached e j sent) :
    e.Proper := by
  induction h with
  | start env ds source => exact proper_ofRuleSet env ds source
  | @tick e j sent source flag attempts now t _ ticks ih =>
    obtain ⟨htests, hactions⟩ := rules_tickAt (m := ⟨source, flag, attempts, now⟩) ticks
    rw [proper_iff_rules, htests, hactions]
    exact proper_iff_rules.mp ih
  | @reload e j sent _ env ds source _ =>
    obtain ⟨htests, hactions⟩ := e.rules_reload (RuleSet.ofDocuments env ds) source
    rw [proper_iff_rules, htests, hactions]
    exact proper_iff_rules.mp (proper_ofRuleSet env ds source)

/-- The test and the action are run, and again a day later. -/
theorem tick_schedules_everyDay :
    let source := Source.ofSeries [] [] false
    let start := ofRuleSet (RuleSet.ofDocuments [] everyDay) source
    let now : Instant := ⟨700000 * nanosPerDay⟩
    let tomorrow : Instant := ⟨700001 * nanosPerDay⟩
    ∃ t, start.tick source .down (fun _ _ => true) now = .ok t ∧
      t.engine.nextRun? (.test 0) = some tomorrow ∧
      t.engine.nextRun? (.action 0) = some tomorrow ∧
      start.Schedules source (fun _ _ => true) now t := by
  intro source start now tomorrow
  have hrun : ((start.tick source .down (fun _ _ => true) now).toOption.map fun t =>
      (t.engine.nextRun? (.test 0), t.engine.nextRun? (.action 0))) =
        some (some tomorrow, some tomorrow) := by decide +kernel
  cases hends : start.tick source .down (fun _ _ => true) now with
  | error fault =>
    rw [hends] at hrun
    cases hrun
  | ok t =>
    rw [hends] at hrun
    obtain ⟨htest, haction⟩ := Prod.mk.inj (Option.some.inj hrun)
    exact ⟨t, rfl, htest, haction,
      tick_schedules hends (Reached.start [] everyDay source).proper (by decide +kernel)⟩

end Engine
end SeriesAlarm
