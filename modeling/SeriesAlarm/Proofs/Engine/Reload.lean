import SeriesAlarm.Proofs.Engine.History
import SeriesAlarm.Proofs.Engine.Sequence

/-!
# Loading the same rules again

An engine whose rules are loaded again from the same documents goes on as if they were not. The new
tests have the next runs of the old ones and nothing else of what these remember, but nothing else
shows in what a tick does; the actions are the old ones, buffers included.
-/

namespace SeriesAlarm

namespace Test

@[simp] theorem idle_idle (s : Test) : s.idle.idle = s.idle := by
  simp only [idle, cleared, Tree.bare_bare]

theorem advance?_idle {s s' : Test} (h : s.dry = s'.dry) (t : Instant) :
    (s.advance? t).map idle = (s'.advance? t).map idle := by
  have hidle : s.idle = s'.idle := by rw [← idle_dry, h, idle_dry]
  have hadvance (s : Test) : (s.advance? t).map idle =
      (s.dry.schedule.advance? t s.dry.positive).map fun schedule => { s.idle with schedule } := by
    rw [advance?, Option.map_map]
    rfl
  rw [hadvance, hadvance, h, hidle]

end Test

namespace Engine

def idle (e : Engine) : Engine := { e with tests := e.tests.map Test.idle }

namespace Progress

def idle (p : Progress) : Progress := { p with done := p.done.map Test.idle }

theorem close_idle {p p' : Progress} (h : p.idle = p'.idle) (now : Instant) (s : Test)
    {pass pass' : Pass} (hpass : pass.dry = pass'.dry) :
    (p.close now s.idle pass).map idle = (p'.close now s pass').map idle := by
  obtain ⟨hdone, hactions, hreport, hreads⟩ := Progress.mk.inj h
  obtain ⟨htest, hresult, hpassReads, -⟩ := Pass.mk.inj hpass
  have hgroups := Test.groups_eq_of_dry_eq htest
  have hidle : pass.test.idle = pass'.test.idle := by
    rw [← Test.idle_dry, htest, Test.idle_dry]
  have hadvance := congrArg (orFault .outOfCalendar) (Test.advance?_idle htest now)
  rw [← map_orFault, ← map_orFault] at hadvance
  unfold close
  simp only [Pass.handed, hreport, hreads, hresult, hpassReads, hgroups, hactions]
  split
  · simp [Except.map, idle, keep, hdone, hidle, hactions]
  · refine map_bind_congr hadvance fun next next' hnext => ?_
    simp only [Except.map, idle, List.map_append, List.map_cons, List.map_nil, hdone, hnext, pure,
      Except.pure]
    rfl

theorem passOver_idle {p p' : Progress} (h : p.idle = p'.idle) (flag : CancelReadings)
    (now : Instant) (s : Test) : (p.passOver flag now s.idle).idle = (p'.passOver flag now s).idle := by
  obtain ⟨hdone, hactions, hreport, hreads⟩ := Progress.mk.inj h
  have hseason : s.idle.inSeason now = s.inSeason now := rfl
  unfold passOver
  rw [hreport, hreads, hseason]
  repeat' split
  all_goals simp [idle, keep, hdone, hactions, hreport, hreads]

theorem take_idle {p p' : Progress} (h : p.idle = p'.idle) (source : Source) (flag : CancelReadings)
    (now : Instant) (s : Test) :
    (p.take source flag now s.idle).map idle = (p'.take source flag now s).map idle := by
  obtain ⟨hdone, hactions, hreport, hreads⟩ := Progress.mk.inj h
  by_cases hruns : p'.Runs flag now s
  · have hruns' : p.Runs flag now s.idle :=
      ⟨hreport ▸ hruns.going, hreads ▸ hruns.down, hruns.season, hruns.due⟩
    rw [take_of_runs hruns, take_of_runs hruns', hreads]
    exact map_bind_congr (s.pass_idle source _ now) fun pass pass' hpass =>
      close_idle h now s hpass
  · have hrests : ¬ p.Runs flag now s.idle := fun hruns' => hruns
      ⟨hreport ▸ hruns'.going, hreads ▸ hruns'.down, hruns'.season, hruns'.due⟩
    rw [take_of_not_runs hruns, take_of_not_runs hrests]
    exact congrArg Except.ok (passOver_idle h flag now s)

theorem foldlM_take_idle (source : Source) (flag : CancelReadings) (now : Instant)
    (tests : List Test) {p p' : Progress} (h : p.idle = p'.idle) :
    ((tests.map Test.idle).foldlM (take source flag now) p).map idle =
      (tests.foldlM (take source flag now) p').map idle := by
  induction tests generalizing p p' with
  | nil => exact congrArg Except.ok h
  | cons s rest ih =>
    rw [List.map_cons, List.foldlM_cons, List.foldlM_cons]
    exact map_bind_congr (take_idle h source flag now s) fun q q' hq => ih hq

end Progress

/-- What shows of a tick: the report and the notifications. -/
def shown (t : Tick) : TickReport × List (Action × Notification) := (t.report, t.sent)

/-- What the tests remember does not show in a tick, nor in what it leaves for the next one. -/
theorem tickAt_idle (e : Engine) (m : Moment) :
    (e.idle.tickAt m).map (fun t => (t.engine.idle, shown t)) =
      (e.tickAt m).map fun t => (t.engine.idle, shown t) := by
  refine map_bind_congr (Progress.foldlM_take_idle m.source m.flag m.now e.tests rfl) ?_
  intro p p' h
  obtain ⟨hdone, hactions, hreport, -⟩ := Progress.mk.inj h
  dsimp only
  rw [hreport, hactions]
  split
  · simp [Except.map, pure, Except.pure, idle, shown, hdone]
  · cases p'.actions.runDue m.attempts m.now with
    | error fault => rfl
    | ok steps => simp [Except.map, pure, Except.pure, bind, Except.bind, idle, shown, hdone]

/-- Engines that differ in what their tests remember show the same in all ticks to come. -/
theorem ticks_of_idle_eq {e e' : Engine} (h : e.idle = e'.idle) (ms : List Moment) :
    (e.ticks ms).map (List.map shown) = (e'.ticks ms).map (List.map shown) := by
  induction ms generalizing e e' with
  | nil => rfl
  | cons m ms ih =>
    have htick : (e.tickAt m).map (fun t => (t.engine.idle, shown t)) =
        (e'.tickAt m).map fun t => (t.engine.idle, shown t) := by
      rw [← tickAt_idle, h, tickAt_idle]
    unfold ticks
    refine map_bind_congr htick fun t t' ht => ?_
    obtain ⟨hengine, hshown⟩ := Prod.mk.inj ht
    refine map_bind_congr (ih hengine) fun rest rest' hrest => ?_
    exact congrArg Except.ok (congrArg₂ List.cons hshown hrest)

end Engine

/-- Nothing in the buffer would be cut off again. -/
def Action.IsTidy (a : Action) : Prop := ∀ g ∈ a.buffered, a.taken g = [g]

theorem Action.isTidy_of_turns {attempts : Attempts} {now : Instant} {a : Action}
    {step : Dispatcher.Step} (h : Dispatcher.Turns attempts now a step) (tidy : a.IsTidy) :
    step.action.IsTidy := by
  cases h with
  | inactive => exact tidy
  | early => exact tidy
  | ran active due done next run advance =>
    obtain ⟨schedule, -, rfl⟩ := Option.map_eq_some_iff.mp advance
    have hcutoff : done.action.cutoff = a.cutoff := by rw [Action.run_keeps run]
    intro g hg
    have htaken := tidy g (Action.buffered_run_subset run hg)
    unfold taken at htaken ⊢
    dsimp only
    rwa [hcutoff]

namespace Engine

/-- An engine as it can be, with what its rules were last built from: the environment, the documents
and the identifiers that the source knew. -/
inductive Serves : Engine → Environment → List Document → Except SourceError (List String) → Prop
  | start (env : Environment) (ds : List Document) (source : Source) :
      Serves (ofRuleSet (RuleSet.ofDocuments env ds) source) env ds source.identifiers
  | tick {e : Engine} {env : Environment} {ds : List Document}
      {ids : Except SourceError (List String)} {m : Moment} {t : Tick}
      (before : Serves e env ds ids) (ticks : e.tickAt m = .ok t) : Serves t.engine env ds ids
  | reload {e : Engine} {env : Environment} {ds : List Document}
      {ids : Except SourceError (List String)} (before : Serves e env ds ids) (env' : Environment)
      (ds' : List Document) (source : Source) :
      Serves (e.reload (RuleSet.ofDocuments env' ds') source) env' ds' source.identifiers

variable {e : Engine} {env : Environment} {ds : List Document}
  {ids : Except SourceError (List String)}

theorem Serves.reached (h : Serves e env ds ids) : ∃ j sent, Reached e j sent := by
  induction h with
  | start env ds source => exact ⟨_, _, .start env ds source⟩
  | tick _ ticks ih =>
    obtain ⟨j, sent, hreached⟩ := ih
    exact ⟨_, _, hreached.tick ticks⟩
  | reload _ env' ds' source ih =>
    obtain ⟨j, sent, hreached⟩ := ih
    exact ⟨_, _, hreached.reload env' ds' source⟩

theorem Serves.rules (h : Serves e env ds ids) :
    e.tests.map Test.rule =
        (Wildcard.expandAll (RuleSet.ofDocuments env ds).tests ids).map Test.rule ∧
      e.actions.map Action.rule = (RuleSet.ofDocuments env ds).actions.map Action.rule := by
  induction h with
  | start env ds source => exact ⟨rfl, rfl⟩
  | tick _ ticks ih =>
    obtain ⟨htests, hactions⟩ := rules_tickAt ticks
    exact ⟨htests.trans ih.1, hactions.trans ih.2⟩
  | @reload e _ _ _ _ env' ds' source => exact e.rules_reload _ source

theorem isTidy_tickAt {m : Moment} {t : Tick} (h : e.tickAt m = .ok t)
    (tidy : ∀ a ∈ e.actions, a.IsTidy) : ∀ a ∈ t.engine.actions, a.IsTidy := by
  obtain ⟨p, hp, h⟩ := tick_cases h
  obtain ⟨⟨groups, htaken, hgroups⟩, -⟩ := Progress.foldlM_done hp
  have hgathered : ∀ a ∈ p.actions, a.IsTidy := by
    rw [hgroups]
    intro a ha g hg
    obtain ⟨a₀, ha₀, rfl⟩ := List.mem_map.mp ha
    rcases List.mem_append.mp hg with hg | hg
    · exact tidy a₀ ha₀ g hg
    · exact htaken a₀ g hg
  rcases h with ⟨-, rfl⟩ | ⟨-, steps, hsteps, rfl⟩
  · exact hgathered
  · intro a ha
    obtain ⟨step, hstep, rfl⟩ := List.mem_map.mp ha
    obtain ⟨k, hk⟩ := List.getElem?_of_mem hstep
    rcases forall₂_getElem? (mapM_eq_ok.mp hsteps) k with ⟨-, hnone⟩ | ⟨a, step', ha, hstep', hran⟩
    · rw [hk] at hnone
      cases hnone
    · rw [hk] at hstep'
      cases hstep'
      exact Action.isTidy_of_turns (Dispatcher.runOne_turns hran)
        (hgathered a (List.mem_of_getElem? ha))

theorem keepAction_of_find? {a old : Action} (empty : a.buffered = [])
    (hold : e.actions.find? a.id = some old) :
    e.keepAction a = { a with
      schedule := { a.schedule with nextRun := old.schedule.nextRun }
      buffered := old.buffered.flatMap a.taken } := by
  unfold keepAction
  rw [hold]
  dsimp only
  rw [Action.foldl_addResults_eq, Action.receive, empty, List.nil_append]
  rfl

theorem isTidy_keepAction {a : Action} (empty : a.buffered = []) : (e.keepAction a).IsTidy := by
  cases hold : e.actions.find? a.id with
  | some old =>
    rw [keepAction_of_find? empty hold]
    intro g hg
    obtain ⟨g₀, -, hg⟩ := List.mem_flatMap.mp hg
    exact Action.taken_of_mem_taken hg
  | none =>
    intro g hg
    rw [keepAction, hold, empty] at hg
    cases hg

theorem keepAction_of_rule_eq {a old : Action} (empty : a.buffered = [])
    (hold : e.actions.find? a.id = some old) (rule : old.rule = a.rule) (tidy : old.IsTidy) :
    e.keepAction a = old := by
  have hcutoff : old.rule.cutoff = a.rule.cutoff := congrArg Action.cutoff rule
  have hgroups : old.buffered.flatMap a.taken = old.buffered := by
    have hsame : ∀ g ∈ old.buffered, a.taken g = [g] := fun g hg => by
      have hkept := tidy g hg
      unfold Action.taken at hkept ⊢
      rwa [show a.cutoff = old.cutoff from hcutoff.symm]
    rw [List.flatMap_congr hsame, List.flatMap_singleton']
  rw [keepAction_of_find? empty hold, hgroups]
  change { a.rule with
    schedule := { a.rule.schedule with nextRun := old.schedule.nextRun }
    buffered := old.buffered } = old
  rw [← rule]
  rfl

theorem Reached.tidy {j : Journal} {sent : List (String × Notification)} (h : Reached e j sent) :
    ∀ a ∈ e.actions, a.IsTidy := by
  induction h with
  | start env ds source =>
    intro a ha g hg
    rw [(RuleSet.built_ofDocuments env ds).empty a ha] at hg
    cases hg
  | @tick _ _ _ source flag attempts now _ _ ticks ih =>
    exact isTidy_tickAt (m := ⟨source, flag, attempts, now⟩) ticks ih
  | reload _ env ds source ih =>
    intro a ha
    obtain ⟨a₀, ha₀, rfl⟩ := List.mem_map.mp ha
    exact isTidy_keepAction ((RuleSet.built_ofDocuments env ds).empty a₀ ha₀)

theorem Serves.actions_reload (h : Serves e env ds ids) (source : Source) :
    (e.reload (RuleSet.ofDocuments env ds) source).actions = e.actions := by
  obtain ⟨j, sent, hreached⟩ := h.reached
  have hsorted := hreached.agrees.1.sorted
  have hsame : e.actions.map id = (RuleSet.ofDocuments env ds).actions.map e.keepAction := by
    refine map_eq_of_map_eq h.rules.2 fun old hold a ha hrule => ?_
    have hid : old.rule.id = a.rule.id := congrArg Action.id hrule
    have hempty := (RuleSet.built_ofDocuments env ds).empty a ha
    have hfind : e.actions.find? a.id = some old := hsorted.find?_eq_some_iff.mpr ⟨hold, hid⟩
    exact (keepAction_of_rule_eq hempty hfind hrule (hreached.tidy old hold)).symm
  rw [List.map_id] at hsame
  exact hsame.symm

theorem testById?_of_nodup (distinct : (e.tests.map (·.id)).Nodup) {s : Test} (hs : s ∈ e.tests) :
    e.testById? s.id = some s := by
  have hsome : (e.testById? s.id).isSome := by
    rw [testById?, List.find?_isSome]
    exact ⟨s, List.mem_reverse.mpr hs, by simp⟩
  obtain ⟨s', hs'⟩ := Option.isSome_iff_exists.mp hsome
  have hid : s'.id = s.id := by simpa using List.find?_some hs'
  have hmem : s' ∈ e.tests := List.mem_reverse.mp (List.mem_of_find?_eq_some hs')
  rw [hs', List.inj_on_of_nodup_map distinct hmem hs hid]

theorem Serves.idle_reload (h : Serves e env ds ids) (distinct : (e.tests.map (·.id)).Nodup)
    {source : Source} (same : source.identifiers = ids) :
    (e.reload (RuleSet.ofDocuments env ds) source).idle = e.idle := by
  have htests : e.tests.map Test.idle =
      (Wildcard.expandAll (RuleSet.ofDocuments env ds).tests ids).map fun s =>
        (e.keepTest s).idle := by
    refine map_eq_of_map_eq h.rules.1 fun old hold s _ hrule => ?_
    have hid : old.rule.id = s.rule.id := congrArg Test.id hrule
    have hfind : e.testById? s.id = some old := by
      rw [← show old.id = s.id from hid]
      exact testById?_of_nodup distinct hold
    rw [keepTest, hfind]
    change _ = { s.rule with schedule := { s.rule.schedule with nextRun := old.schedule.nextRun } }
    rw [← hrule]
    exact old.idle_eq_rule
  have hactions := h.actions_reload source
  unfold idle
  rw [hactions, htests, ← same, Engine.reload, List.map_map]
  rfl

/-- Loading the same rules again shows in no tick to come. -/
theorem Serves.reload_unseen (h : Serves e env ds ids) (distinct : (e.tests.map (·.id)).Nodup)
    {source : Source} (same : source.identifiers = ids) (ms : List Moment) :
    ((e.reload (RuleSet.ofDocuments env ds) source).ticks ms).map (List.map shown) =
      (e.ticks ms).map (List.map shown) :=
  ticks_of_idle_eq (h.idle_reload distinct same) ms

/-- A delivery is refused; whether the rules are then loaded again does not show. -/
theorem Serves.reload_unseen_everyDay :
    let source := Source.ofSeries [] [] false
    let rules := RuleSet.ofDocuments [] everyDay
    let refused : Moment := ⟨source, .down, fun _ _ => false, ⟨700000 * nanosPerDay⟩⟩
    let delivered : Moment := ⟨source, .down, fun _ _ => true, ⟨700001 * nanosPerDay⟩⟩
    ∃ t, (ofRuleSet rules source).tickAt refused = .ok t ∧
      ((t.engine.ticks [delivered]).toOption.map (List.map fun t => t.sent.length)) = some [1] ∧
      ((t.engine.reload rules source).ticks [delivered]).map (List.map shown) =
        (t.engine.ticks [delivered]).map (List.map shown) := by
  intro source rules refused delivered
  have hrun : (((ofRuleSet rules source).tickAt refused).toOption.map fun t =>
      (t.engine.tests.map (·.id),
        (t.engine.ticks [delivered]).toOption.map (List.map fun t => t.sent.length))) =
          some (["always"], some [1]) := by decide +kernel
  cases hends : (ofRuleSet rules source).tickAt refused with
  | error fault =>
    rw [hends] at hrun
    cases hrun
  | ok t =>
    rw [hends] at hrun
    obtain ⟨hids, hsent⟩ := Prod.mk.inj (Option.some.inj hrun)
    have hserves : Serves t.engine [] everyDay source.identifiers :=
      .tick (.start [] everyDay source) hends
    have hdistinct : (t.engine.tests.map (·.id)).Nodup := by
      rw [hids]
      decide
    exact ⟨t, rfl, hsent, hserves.reload_unseen hdistinct rfl [delivered]⟩

end Engine
end SeriesAlarm
