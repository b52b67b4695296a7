import SeriesAlarm.Proofs.Engine.Conservation

/-!
# The history of an engine

An engine begins with a rule set, and ticks and reloads follow in any order, whatever the source
answers, however the deliveries end and whenever the cancel flag is raised. The main statement says
where every group is that was ever handed to an action.
-/

namespace SeriesAlarm

def Entry.sent? : Entry → Option (String × Notification)
  | .ran a _ (some n) => some (a.id, n)
  | _ => none

namespace Engine

/-- An engine as it can be, with its journal and the notifications that were delivered so far. -/
inductive Reached : Engine → Journal → List (String × Notification) → Prop
  | start (env : Environment) (ds : List Document) (source : Source) :
      Reached (ofRuleSet (RuleSet.ofDocuments env ds) source) [] []
  | tick {e : Engine} {j : Journal} {sent : List (String × Notification)} {source : Source}
      {flag : CancelReadings} {attempts : Attempts} {now : Instant} {t : Tick}
      (before : Reached e j sent) (ticks : e.tick source flag attempts now = .ok t) :
      Reached t.engine (j ++ e.journal source flag attempts now)
        (sent ++ t.sent.map fun d => (d.1.id, d.2))
  | reload {e : Engine} {j : Journal} {sent : List (String × Notification)}
      (before : Reached e j sent) (env : Environment) (ds : List Document) (source : Source) :
      Reached (e.reload (RuleSet.ofDocuments env ds) source)
        (j ++ [.replaced (RuleSet.ofDocuments env ds).actions]) sent

/-- Every group that was handed to an action is at one place for one reason. -/
structure Conserves (e : Engine) (j : Journal) (sent : List (String × Notification)) : Prop
    extends Journal.Agrees e.actions j where
  /-- There is one copy for each handing over. -/
  copies : ∀ id, (j.copies id).map Copy.group = j.filterMap (Entry.handedTo? id)
  /-- A copy keeps its number and its group, and its place once it left the buffer. -/
  later : ∀ earlier rest, j = earlier ++ rest → ∀ (id : String) (k : Nat) (c : Copy),
    (Journal.copies id earlier)[k]? = some c →
      ∃ c', (Journal.copies id j)[k]? = some c' ∧ c.Becomes c'
  notified : sent = j.filterMap Entry.sent?
  /-- A failed run of an action drops what has expired, and nothing else. -/
  failure : ∀ a ∈ e.actions, ∀ attempts now step result,
    Dispatcher.runOne attempts now a = .ok step → step.result = some result →
      result.success = false → step.sent = none ∧ ∃ expiry, a.expiry? now = some expiry ∧
        step.action.buffered = a.buffered.filter (Action.isFresh expiry)
  /-- A reload takes every group over to the action with the same id, cut off anew. -/
  survival : ∀ env ds source, ∀ a ∈ (e.reload (RuleSet.ofDocuments env ds) source).actions,
    (∀ g ∈ a.buffered, g ≠ []) ∧ a.buffered =
      match e.actions.find? a.id with
      | some old => old.buffered.map (·.upTo a.cutoff)
      | none => []

end Engine

namespace Dispatcher

theorem sent?_runEntries {attempts : Attempts} {now : Instant} {d : Dispatcher}
    {steps : List Step} (h : d.runDue attempts now = .ok steps) :
    (runEntries now d steps).filterMap Entry.sent? =
      (deliveries steps).map fun s => (s.1.id, s.2) := by
  induction d generalizing steps with
  | nil =>
    cases h
    rfl
  | cons a d ih =>
    obtain ⟨step, rest, hstep, hrest, rfl⟩ := runDue_cons h
    have hhead : List.filterMap Entry.sent?
        (if step.result.isSome then [Entry.ran a now step.sent] else []) =
          (step.sent.map fun n => (step.action.id, n)).toList := by
      have hid : step.action.id = a.id := (hstep.changes [] []).2
      cases hstep with
      | inactive => rfl
      | early => rfl
      | ran active due done next run advance =>
        have hid : next.id = a.id := hid
        cases hsent : done.sent with
        | none => rfl
        | some n => simp [Entry.sent?, hid]
    rw [runEntries, List.filterMap_append, hhead, ih hrest]
    cases hsent : step.sent <;> simp [deliveries, hsent]

end Dispatcher

namespace Engine

theorem sent?_handings (cutoff : String → Option Nat) (ids : List String)
    (groups : List ResultGroup) :
    (Dispatcher.handings cutoff ids groups).filterMap Entry.sent? = [] := by
  rw [List.filterMap_eq_nil_iff]
  intro x hx
  obtain ⟨g, -, hx⟩ := List.mem_flatMap.mp hx
  obtain ⟨id, -, rfl⟩ := List.mem_map.mp hx
  rfl

theorem sent?_entries (source : Source) (flag : CancelReadings) (now : Instant)
    (tests : List Test) (p : Progress) :
    (p.entries source flag now tests).filterMap Entry.sent? = [] := by
  induction tests generalizing p with
  | nil => rfl
  | cons s rest ih =>
    have hhead : (p.entriesOf source flag now s).filterMap Entry.sent? = [] := by
      unfold Progress.entriesOf
      split
      · split
        · exact sent?_handings _ _ _
        · rfl
      · rfl
    rw [Progress.entries, List.filterMap_append, hhead]
    split
    · exact ih _
    · rfl

theorem sent?_journal {e : Engine} {source : Source} {flag : CancelReadings} {attempts : Attempts}
    {now : Instant} {t : Tick} (h : e.tick source flag attempts now = .ok t) :
    (e.journal source flag attempts now).filterMap Entry.sent? =
      t.sent.map fun d => (d.1.id, d.2) := by
  obtain ⟨p, hp, h⟩ := tick_cases h
  rw [journal, List.filterMap_append, sent?_entries, List.nil_append, hp]
  rcases h with ⟨hcancelled, rfl⟩ | ⟨hgoing, steps, hsteps, rfl⟩
  · simp [hcancelled]
  · simp only [hgoing, hsteps, Bool.false_eq_true, if_false]
    exact Dispatcher.sent?_runEntries hsteps

/-- What ticks and reloads keep of an engine. -/
theorem Reached.agrees {e : Engine} {j : Journal} {sent : List (String × Notification)}
    (h : Reached e j sent) :
    e.Sound ∧ j.Agrees e.actions ∧ sent = j.filterMap Entry.sent? := by
  induction h with
  | start env ds source =>
    have hset := RuleSet.built_ofDocuments env ds
    refine ⟨sound_ofRuleSet hset source, ?_, rfl⟩
    exact ⟨hset.sorted, hset.empty, fun _ _ => rfl, fun _ _ hc => (by cases hc),
      fun _ _ _ _ hn => (by simp at hn)⟩
  | tick before ticks ih =>
    obtain ⟨hsound, hagrees, rfl⟩ := ih
    obtain ⟨hfollows, hsound'⟩ := tick_follows ticks hsound
    refine ⟨hsound', hagrees.follows hfollows, ?_⟩
    rw [List.filterMap_append, sent?_journal ticks]
  | reload before env ds source ih =>
    obtain ⟨-, hagrees, rfl⟩ := ih
    have hset := RuleSet.built_ofDocuments env ds
    refine ⟨(reload_changes hset source).2, ?_, ?_⟩
    · exact hagrees.replaced hset.sorted hset.empty
    · rw [List.filterMap_append]
      exact (List.append_nil _).symm

theorem runOne_of_failure {attempts : Attempts} {now : Instant} {a : Action}
    {step : Dispatcher.Step} {result : DispatchResult}
    (h : Dispatcher.runOne attempts now a = .ok step) (hresult : step.result = some result)
    (hfailed : result.success = false) :
    step.sent = none ∧ ∃ expiry, a.expiry? now = some expiry ∧
      step.action.buffered = a.buffered.filter (Action.isFresh expiry) := by
  cases Dispatcher.runOne_turns h with
  | inactive => cases hresult
  | early => cases hresult
  | ran active due done next run advance =>
    cases hresult
    obtain ⟨expiry, hexpiry, hends⟩ := Action.run_ends run
    obtain ⟨schedule, -, rfl⟩ := Option.map_eq_some_iff.mp advance
    cases hends with
    | nothing => cases hfailed
    | unrendered => exact ⟨rfl, expiry, hexpiry, rfl⟩
    | refused => exact ⟨rfl, expiry, hexpiry, rfl⟩
    | delivered => cases hfailed

theorem buffered_reload {e : Engine} {j : Journal} (h : j.Agrees e.actions) {set : RuleSet}
    (hset : set.Built) (source : Source) :
    ∀ a ∈ (e.reload set source).actions, (∀ g ∈ a.buffered, g ≠ []) ∧ a.buffered =
      match e.actions.find? a.id with
      | some old => old.buffered.map (·.upTo a.cutoff)
      | none => [] := by
  intro a ha
  have hagrees := h.replaced hset.sorted hset.empty
  refine ⟨fun g hg => ?_, ?_⟩
  · obtain ⟨test, t, hexplains⟩ := hagrees.mem_explains a ha g hg
    exact hexplains.ne_nil
  · obtain ⟨a₀, ha₀, rfl⟩ := List.mem_map.mp ha
    rw [e.id_keepAction, e.cutoff_keepAction]
    exact e.buffered_keepAction (hset.empty a₀ ha₀) h.mem_explains

/-- No group is lost, delivered twice or kept twice, whatever happens to an engine. -/
theorem Reached.conserves {e : Engine} {j : Journal} {sent : List (String × Notification)}
    (h : Reached e j sent) : e.Conserves j sent := by
  obtain ⟨-, hagrees, hsent⟩ := h.agrees
  refine ⟨hagrees, fun id => j.map_group_copies id, ?_, hsent, ?_, ?_⟩
  · rintro earlier rest rfl id k c hc
    exact Journal.getElem?_copies_append hc rest
  · intro a _ attempts now step result hstep hresult hfailed
    exact runOne_of_failure hstep hresult hfailed
  · intro env ds source
    exact buffered_reload hagrees (RuleSet.built_ofDocuments env ds) source

/-- An action that is due every day, and a test for it that is always positive. -/
def everyDay : List Document :=
  let schedule : ScheduleEntry := { baseTime := "00", baseTimeFormat := "HH", interval := "1Day" }
  [.action {
      apiVersion := "1"
      metadata := { id := "log", name := "Log" }
      schedule
      retention := "2Day"
      subject := some "positive"
      body := some "again"
      delivery := .log },
    .test {
      apiVersion := "1"
      metadata := { id := "always", name := "Always" }
      schedule
      window := "1Day"
      formula := .operation .greaterThan (.constant 1 none) (.constant 0 none) none
      actions := ["log"] }]

/-- A delivery is refused, the rules are loaded anew, and the next delivery has both groups. -/
theorem Reached.conserves_everyDay :
    let source := Source.ofSeries [] [] false
    let rules := RuleSet.ofDocuments [] everyDay
    let start := ofRuleSet rules source
    let down : CancelReadings := fun _ => false
    ∃ first second, start.tick source down (fun _ _ => false) ⟨700000 * nanosPerDay⟩ = .ok first ∧
      (first.engine.reload rules source).tick source down (fun _ _ => true)
        ⟨700001 * nanosPerDay⟩ = .ok second ∧
      second.report.deliveries.map (·.groups) = [2] ∧ second.sent.length = 1 ∧
      second.engine.Conserves
        ([] ++ start.journal source down (fun _ _ => false) ⟨700000 * nanosPerDay⟩ ++
          [.replaced rules.actions] ++
          (first.engine.reload rules source).journal source down (fun _ _ => true)
            ⟨700001 * nanosPerDay⟩)
        ([] ++ (first.sent.map fun d => (d.1.id, d.2)) ++
          second.sent.map fun d => (d.1.id, d.2)) := by
  intro source rules start down
  let run := do
    let first ← start.tick source down (fun _ _ => false) ⟨700000 * nanosPerDay⟩
    (first.engine.reload rules source).tick source down (fun _ _ => true) ⟨700001 * nanosPerDay⟩
  have hrun : (run.toOption.map fun t => (t.report.deliveries.map (·.groups), t.sent.length)) =
      some ([2], 1) := by decide +kernel
  cases hends : run with
  | error fault =>
    rw [hends] at hrun
    cases hrun
  | ok second =>
    obtain ⟨first, hfirst, hsecond⟩ := bind_eq_ok.mp hends
    rw [hends] at hrun
    have hboth := Prod.mk.inj (Option.some.inj hrun)
    exact ⟨first, second, hfirst, hsecond, hboth.1, hboth.2,
      Reached.conserves (.tick (.reload (.tick (.start [] everyDay source) hfirst) [] everyDay source)
        hsecond)⟩

end Engine
end SeriesAlarm
