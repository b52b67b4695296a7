import SeriesAlarm.Proofs.Engine.Scheduling
import SeriesAlarm.Proofs.Rule.Ending

/-!
# Ticks that come to an end

A failing test does not stop a tick, but a tick stops where a calculation leaves the calendar. That is
so for the window of a test that is due, for the slots of its scan, for the retention of an action
that is due and for the next runs. Months and years are cut off at the ends of the calendar; shorter
units are not, so what their intervals may come to is bounded.
-/

namespace SeriesAlarm

namespace Test

/-- What a test computes when it is run stays in the calendar, and its scan leads on. -/
structure HasRoom (s : Test) (source : Source) (now : Instant) : Prop where
  window : s.window.FitsBetween .first now
  scan : ∀ i bounds, s.ScansBy source now i bounds → i.Ends now bounds
  next : ∀ pass, s.pass source .down now = .ok pass →
    (s.schedule.step pass.isPositive).FitsBetween now .last

end Test

/-- What an action computes when it is run stays in the calendar. -/
structure Action.HasRoom (a : Action) (now : Instant) : Prop where
  retention : a.retention.FitsBetween .first now
  next : a.schedule.interval.FitsBetween now .last

/-- What a tick computes stays in the calendar, and its scans lead on. -/
structure Engine.HasRoom (e : Engine) (source : Source) (now : Instant) : Prop where
  tests : ∀ s ∈ e.tests, s.RunsAt now → s.HasRoom source now
  actions : ∀ a ∈ e.actions, a.RunsAt now → a.HasRoom now

section Room

variable {source : Source} {now : Instant}

theorem Schedule.isSome_advance?_iff {s : Schedule} (proper : s.base.IsProper) (era : now.InEra)
    (positive : Bool) :
    (s.advance? now positive).isSome ↔ (s.step positive).FitsBetween now .last := by
  rw [advance?, Option.isSome_map, nextRunAfter?, isSome_nextSlot?_iff proper era]

/-- A test takes its turn if it has room for it. -/
theorem Test.turn_ends_iff {s : Test} (proper : s.schedule.base.IsProper) (era : now.InEra)
    (answers : source.Answers) :
    (∃ turn, s.turn source now = .ok turn) ↔ (s.RunsAt now → s.HasRoom source now) := by
  have hpass := pass_ends_iff (s := s) answers era.inRange.1 era.lt_last
  have hadvance {pass : Pass} (h : s.pass source .down now = .ok pass) :
      (pass.test.advance? now).isSome ↔
        (s.schedule.step pass.isPositive).FitsBetween now .last := by
    have hschedule : pass.test.schedule = s.schedule := by rw [pass_sameRule h]
    rw [advance?, Option.isSome_map, hschedule, positive_pass h,
      Schedule.isSome_advance?_iff proper era]
  simp only [turn_eq_ok_iff]
  constructor
  · rintro ⟨turn, hturn⟩ hruns
    cases hturn with
    | outOfSeason season => exact absurd hruns (not_runsAt_of_inSeason season)
    | notDue _ due => exact absurd hruns (not_runsAt_of_isDue? due)
    | ran _ pass h next advance =>
      obtain ⟨hwindow, hscan⟩ := hpass.mp ⟨pass, h⟩
      refine ⟨hwindow, hscan, fun pass' h' => ?_⟩
      cases h.symm.trans h'
      exact (hadvance h).mp (by rw [advance]; rfl)
  · intro hroom
    cases hseason : s.inSeason now with
    | false => exact ⟨_, .outOfSeason hseason⟩
    | true =>
      obtain ⟨due, hdue⟩ := Option.isSome_iff_exists.mp (s.schedule.isSome_isDue? now)
      cases due with
      | false => exact ⟨_, .notDue hseason hdue⟩
      | true =>
        obtain ⟨hwindow, hscan, hnext⟩ := hroom ⟨hseason, hdue⟩
        obtain ⟨pass, h⟩ := hpass.mpr ⟨hwindow, hscan⟩
        obtain ⟨next, advance⟩ := Option.isSome_iff_exists.mp ((hadvance h).mpr (hnext pass h))
        exact ⟨_, .ran ⟨hseason, hdue⟩ pass h next advance⟩

theorem Action.canRun_iff {a : Action} (proper : a.schedule.base.IsProper) (era : now.InEra) :
    a.CanRun now ↔ (a.RunsAt now → a.HasRoom now) := by
  have hroom : a.HasRoom now ↔
      (a.expiry? now).isSome ∧ (a.schedule.advance? now false).isSome := by
    rw [expiry?, Interval.isSome_back?_iff era.inRange.2, Schedule.isSome_advance?_iff proper era]
    exact ⟨fun h => ⟨h.retention, h.next⟩, fun h => ⟨h.1, h.2⟩⟩
  rw [hroom]
  constructor
  · intro h hruns
    obtain ⟨due, hdue, hruns'⟩ := h hruns.active
    exact hruns' (Option.some.inj (hdue.symm.trans hruns.due))
  · intro h hactive
    obtain ⟨due, hdue⟩ := Option.isSome_iff_exists.mp (a.schedule.isSome_isDue? now)
    refine ⟨due, hdue, fun hlate => h ⟨hactive, ?_⟩⟩
    rw [← hlate]
    exact hdue

end Room

namespace Engine

variable {e : Engine} {source : Source} {now : Instant}

/-- While the flag is down, a tick comes to an end exactly if there is room for all that it
computes. -/
theorem tick_down_ends_iff (proper : e.Proper) (era : now.InEra) (answers : source.Answers)
    (attempts : Attempts) :
    (∃ t, e.tick source .down attempts now = .ok t) ↔ e.HasRoom source now := by
  have htests : (∃ turns, Turned source now e.tests turns) ↔
      ∀ s ∈ e.tests, s.RunsAt now → s.HasRoom source now := by
    rw [exists_forall₂_iff]
    exact forall₂_congr fun s hs => Test.turn_ends_iff (proper.tests s hs) era answers
  have hactions (turns : List Test.Turn) : (∃ steps, Ran attempts now turns e.actions steps) ↔
      ∀ a ∈ e.actions, a.RunsAt now → a.HasRoom now := by
    rw [exists_ran_iff]
    exact forall₂_congr fun a ha => Action.canRun_iff (proper.actions a ha) era
  simp only [tick_down_eq_ok_iff]
  constructor
  · rintro ⟨t, turns, steps, hturns, hsteps, -⟩
    exact ⟨htests.mp ⟨turns, hturns⟩, (hactions turns).mp ⟨steps, hsteps⟩⟩
  · intro h
    obtain ⟨turns, hturns⟩ := htests.mpr h.tests
    obtain ⟨steps, hsteps⟩ := (hactions turns).mpr h.actions
    exact ⟨_, turns, steps, hturns, hsteps, rfl⟩

theorem Progress.exists_take {s : Test} {turn : Test.Turn} (h : s.turn source now = .ok turn)
    (flag : CancelReadings) (p : Progress) : ∃ p', p.take source flag now s = .ok p' := by
  by_cases hruns : p.Runs flag now s
  · rw [take_of_runs hruns]
    cases Test.turn_eq_ok_iff.mp h with
    | outOfSeason season => simp [hruns.season] at season
    | notDue _ due => simp [hruns.due] at due
    | ran _ pass hpass next advance =>
      obtain ⟨pass', hpass', hsame⟩ := Test.pass_of_down hpass (flag.after (p.reads + 1))
      have hclose : ∃ p', p.close now s pass' = .ok p' := by
        unfold close
        dsimp only
        split
        · exact ⟨_, rfl⟩
        · next hresult =>
          rw [hsame hresult, advance]
          exact ⟨_, rfl⟩
      obtain ⟨p', hp'⟩ := hclose
      exact ⟨p', bind_eq_ok.mpr ⟨pass', hpass', hp'⟩⟩
  · exact ⟨_, take_of_not_runs hruns⟩

theorem Progress.exists_foldlM {tests : List Test} {turns : List Test.Turn}
    (h : Turned source now tests turns) (flag : CancelReadings) (p : Progress) :
    ∃ p', tests.foldlM (take source flag now) p = .ok p' := by
  induction h generalizing p with
  | nil => exact ⟨p, rfl⟩
  | cons hturn _ ih =>
    obtain ⟨next, hnext⟩ := exists_take hturn flag p
    obtain ⟨p', hp'⟩ := ih next
    rw [List.foldlM_cons]
    exact ⟨p', bind_eq_ok.mpr ⟨next, hnext, hp'⟩⟩

/-- A tick that comes to an end while the flag is down does so whenever it is raised. -/
theorem exists_tick {attempts : Attempts} {t : Tick}
    (h : e.tick source .down attempts now = .ok t) (flag : CancelReadings) (attempts' : Attempts) :
    ∃ t', e.tick source flag attempts' now = .ok t' := by
  obtain ⟨turns, steps, hturns, hsteps, -⟩ := tick_down_eq_ok_iff.mp h
  obtain ⟨p, hp⟩ := Progress.exists_foldlM hturns flag { actions := e.actions }
  obtain ⟨⟨groups, -, hgroups⟩, -⟩ := Progress.foldlM_done hp
  have hruns : ∃ ran, p.actions.runDue attempts' now = .ok ran := by
    simp only [Dispatcher.runDue, mapM_eq_ok, exists_forall₂_iff, hgroups, List.forall_mem_map,
      Dispatcher.exists_runOne_iff, Action.canRun_receive]
    exact exists_ran_iff.mp ⟨steps, hsteps⟩
  obtain ⟨ran, hran⟩ := hruns
  unfold tick
  rw [hp]
  dsimp only [bind, Except.bind]
  split
  · exact ⟨_, rfl⟩
  · rw [hran]
    exact ⟨_, rfl⟩

/-- A tick comes to an end, whenever the cancel flag is raised and however the deliveries end, exactly
if there is room for all that it computes. -/
theorem tick_ends_iff (proper : e.Proper) (era : now.InEra) (answers : source.Answers) :
    (∀ flag attempts, ∃ t, e.tick source flag attempts now = .ok t) ↔ e.HasRoom source now := by
  have hdown := tick_down_ends_iff proper era answers fun _ _ => true
  constructor
  · intro h
    exact hdown.mp (h .down _)
  · intro room flag attempts
    obtain ⟨t, ht⟩ := hdown.mpr room
    exact exists_tick ht flag attempts

end Engine

section Modest

variable {source : Source} {now : Instant}

def Source.IsModest (source : Source) : Prop :=
  ∀ id first last s, source.resolve id first last = .series s →
    s.interval.IsModest ∧ s.interval.Moves

/-- No interval of a test, an action or a series takes up much of the calendar. -/
structure Engine.IsModest (e : Engine) (source : Source) : Prop where
  windows : ∀ s ∈ e.tests, s.window.IsModest
  intervals : ∀ i ∈ e.intervals, i.IsModest
  actions : ∀ a ∈ e.actions, a.retention.IsModest ∧ a.schedule.interval.IsModest
  series : source.IsModest

theorem Test.scanBounds_le_of_inSeason {s : Test} {start anchor : Instant} (hle : start ≤ anchor)
    (season : s.inSeason anchor = true) : (s.scanBounds start anchor).1 ≤ anchor := by
  cases hbounds : s.seasonBounds? anchor with
  | none =>
    rw [scanBounds_of_none hbounds]
    exact hle
  | some bounds =>
    obtain ⟨season', hseason', hbounds'⟩ := Option.bind_eq_some_iff.mp hbounds
    have hopen : bounds.1 ≤ anchor := by
      simp only [inSeason, hseason', Season.contains, hbounds', Bool.and_eq_true,
        decide_eq_true_eq] at season
      exact season.1
    rw [scanBounds_of_some hbounds]
    dsimp only
    split
    · exact Int.le_trans (Interval.truncate_le .day bounds.1) hopen
    · exact hle

/-- Modest rules never stop a tick. -/
theorem Engine.IsModest.hasRoom {e : Engine} (h : e.IsModest source) (era : now.InEra) :
    e.HasRoom source now := by
  refine ⟨fun s hs hruns => ⟨?_, ?_, ?_⟩, fun a ha _ => ⟨?_, ?_⟩⟩
  · exact (h.windows s hs).fitsBehind era
  · rintro i bounds ⟨start, root, resolved, hstart, hroot, hi, rfl⟩
    obtain ⟨id, -, series, hanswer, rfl⟩ := (Tree.mem_boundIntervals_resolve? hroot).mp
      (Test.mem_of_nativeInterval hi)
    obtain ⟨hmodest, hmoves⟩ := h.series _ _ _ _ hanswer
    have hle : start ≤ now := Interval.back?_le era.inRange.1 hstart
    exact hmodest.ends hmoves era (Test.scanBounds_le_of_inSeason hle hruns.season)
      Test.scanBounds_le_anchor
  · intro pass _
    refine (h.intervals _ (List.mem_flatMap.mpr ⟨s, hs, ?_⟩)).fitsAhead era (Int.le_refl _)
    unfold Schedule.step
    cases s.schedule.positiveInterval <;> cases pass.isPositive <;> simp
  · exact (h.actions a ha).1.fitsBehind era
  · exact (h.actions a ha).2.fitsAhead era (Int.le_refl _)

end Modest

namespace Engine

/-- The rules of every day stop no tick. -/
theorem tick_ends_everyDay :
    let source := Source.ofSeries [] [] false
    let start := ofRuleSet (RuleSet.ofDocuments [] everyDay) source
    let now : Instant := ⟨732219 * nanosPerDay⟩
    now.InEra ∧ ∀ flag attempts, ∃ t, start.tick source flag attempts now = .ok t := by
  intro source start now
  have era : now.InEra := by decide +kernel
  have modest : start.IsModest source := by
    refine ⟨by decide +kernel, by decide +kernel, by decide +kernel, ?_⟩
    intro id first last s hanswer
    cases hanswer
  exact ⟨era, (tick_ends_iff (proper_ofRuleSet [] everyDay source) era
    (Source.answers_ofSeries [] [] false)).mpr (modest.hasRoom era)⟩

/-- A test that looks back over some 456000 years, past the beginning of the calendar. -/
def archive : List Document :=
  [.test {
      apiVersion := "1"
      metadata := { id := "archive", name := "Archive" }
      schedule := { baseTime := "00", baseTimeFormat := "HH", interval := "1Day" }
      window := "4000000000Hour"
      formula := .operation .greaterThan (.constant 1 none) (.constant 0 none) none
      actions := [] }]

/-- The documents are built without an error, and the first tick stops the program. -/
theorem tick_stops_archive :
    let source := Source.ofSeries [] [] false
    let set := RuleSet.ofDocuments [] archive
    let now : Instant := ⟨732219 * nanosPerDay⟩
    set.errors = [] ∧ now.InEra ∧ source.Answers ∧
      (ofRuleSet set source).tick source .down (fun _ _ => true) now = .error .outOfCalendar := by
  intro source set now
  have hstops : ((ofRuleSet set source).tick source .down (fun _ _ => true) now).map
      (fun _ => ()) = .error .outOfCalendar := by decide +kernel
  refine ⟨by decide +kernel, by decide +kernel, Source.answers_ofSeries [] [] false, ?_⟩
  cases hends : (ofRuleSet set source).tick source .down (fun _ _ => true) now with
  | error fault =>
    rw [hends] at hstops
    cases hstops
    rfl
  | ok t =>
    rw [hends] at hstops
    cases hstops

end Engine
end SeriesAlarm
