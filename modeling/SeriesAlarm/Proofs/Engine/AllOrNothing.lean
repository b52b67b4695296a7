import SeriesAlarm.Proofs.Engine.Conservation
import SeriesAlarm.Proofs.Engine.Turn
import SeriesAlarm.Proofs.Rule.Groups
import SeriesAlarm.Proofs.Rule.Interruption
import SeriesAlarm.Proofs.Rule.Scan

/-!
# A pass is all or nothing

A pass that fails leaves no group with the test and hands none to an action. One that ends well has a
group for each truthy instant of its scan, unless these are fewer than the threshold, and hands all of
them to the actions of the test.
-/

namespace SeriesAlarm

theorem Action.taken_of_explains {g : ResultGroup} (hg : ∃ test t, g.Explains test t) (a : Action) :
    a.taken g = [g.upTo a.cutoff] := by
  obtain ⟨test, t, hg⟩ := hg
  rw [taken, List.isEmpty_eq_false_iff.mpr (hg.upTo a.cutoff).ne_nil]
  rfl

namespace Dispatcher

/-- An action takes each group, up to its cutoff, once for every time it is listed. -/
theorem share_of_explains {ids : List String} {groups : List ResultGroup}
    (hgroups : ∀ g ∈ groups, ∃ test t, g.Explains test t) (a : Action) :
    share ids groups a =
      groups.flatMap fun g => List.replicate (ids.count a.id) (g.upTo a.cutoff) := by
  refine List.flatMap_congr fun g hg => ?_
  rw [Action.taken_of_explains (hgroups g hg), List.filter_eq, ← List.map_eq_flatMap,
    List.map_const', List.length_replicate]

theorem share_of_count_eq_one {ids : List String} {groups : List ResultGroup} {a : Action}
    (hgroups : ∀ g ∈ groups, ∃ test t, g.Explains test t) (once : ids.count a.id = 1) :
    share ids groups a = groups.map (·.upTo a.cutoff) := by
  rw [share_of_explains hgroups, once, List.map_eq_flatMap]
  rfl

theorem share_of_notMem {ids : List String} {groups : List ResultGroup} {a : Action}
    (unlisted : a.id ∉ ids) : share ids groups a = [] := by
  have hids : ids.filter (· = a.id) = [] := by
    rw [List.filter_eq, List.count_eq_zero.mpr unlisted, List.replicate_zero]
  rw [share, hids]
  exact List.flatMap_eq_nil_iff.mpr fun g _ => rfl

end Dispatcher

namespace Test

/-- Nothing came of the pass: neither the test nor an action has a group of it. -/
structure Discards (s : Test) (d : Dispatcher) (p : Pass) (d' : Dispatcher) : Prop where
  groups : p.test.groups = []
  negative : p.test.positive = false
  schedule : p.test.schedule = s.schedule
  buffers : d' = d

/-- The groups of the pass over the bound tree, one for each truthy instant of its scan or none if these
are fewer than the threshold, are what each action of the test gets, up to its cutoff. -/
structure HandsOn (s : Test) (root : Tree) (d : Dispatcher) (p : Pass) (report : PassReport)
    (d' : Dispatcher) : Prop extends s.Evaluates root p report where
  forwarded : report.forwarded =
    if s.threshold ≤ (root.truthyAmong p.visited).length then (root.truthyAmong p.visited).length
    else 0
  count : p.test.groups.length = report.forwarded
  positive : p.test.positive = true ↔ 0 < report.forwarded
  buffers : List.Forall₂ (fun a a' =>
      (s.actions.count a.id = 1 →
        a' = { a with buffered := a.buffered ++ p.test.groups.map (·.upTo a.cutoff) }) ∧
      (a.id ∉ s.actions → a' = a))
    d d'

/-- A tick that runs the test goes on with these actions, and with the test but for its next run. It
stops only if there is no next run. -/
def TakenOver (s : Test) (source : Source) (flag : CancelReadings) (anchor : Instant)
    (d : Dispatcher) (p : Pass) (d' : Dispatcher) : Prop :=
  ∀ (q : Engine.Progress) (readings : CancelReadings), q.Runs readings anchor s →
    readings.after (q.reads + 1) = flag → q.actions = d →
      match q.take source readings anchor s with
      | .ok q' => q'.actions = d' ∧ ∃ schedule, q'.done = q.done ++ [{ p.test with schedule }]
      | .error _ => p.test.advance? anchor = none

variable {s : Test} {source : Source} {flag : CancelReadings} {anchor : Instant} {p : Pass}
  {d d' : Dispatcher}

theorem discards_of_error {e : PassError} (h : s.pass source flag anchor = .ok p)
    (result : p.result = .error e) : s.Discards d p (d.forwardAll s.actions p.handed) := by
  refine ⟨?_, ?_, ?_, ?_⟩
  · rcases pass_heeds h with ⟨-, hgroups, -⟩ | ⟨hresult, -, -⟩
    · exact hgroups
    · obtain ⟨start, root, resolved, -, -, hpass⟩ := pass_cases h
      rcases hpass with ⟨e, -, rfl⟩ | ⟨_, _, -, -, -, -, ⟨-, -, hend⟩ | ⟨-, -, hend⟩⟩
      · rfl
      · exact absurd hend hresult
      · rw [hend] at result
        cases result
  · rw [positive_pass h, Pass.isPositive, result]
  · rw [pass_sameRule h]
  · rw [Pass.handed_of_error result, Dispatcher.forwardAll_nil]

theorem handsOn_of_ok {report : PassReport} (h : s.pass source flag anchor = .ok p)
    (node : s.root.isNode = true) (result : p.result = .ok report) :
    ∃ start root resolved, s.window.back? anchor = some start ∧
      s.root.resolve? source start anchor = some (root, resolved) ∧
      s.HandsOn root d p report (d.forwardAll s.actions p.handed) := by
  obtain ⟨start, root, resolved, hstart, hroot, hevaluates⟩ := evaluates_of_ok h result
  have hcount := length_groups_of_ok h result
  have hexplains : ∀ g ∈ p.test.groups, ∃ test t, g.Explains test t := fun g hg =>
    ⟨s.id, explains_of_handed h node g (Pass.handed_of_ok result ▸ hg)⟩
  refine ⟨start, root, resolved, hstart, hroot, hevaluates, ?_, hcount, ?_, ?_⟩
  · have hlength := congrArg List.length hevaluates.groups
    rw [List.length_map, hcount] at hlength
    rw [hlength]
    split <;> simp
  · rw [positive_pass h, Pass.isPositive, result]
    exact decide_eq_true_iff
  · rw [Dispatcher.forwardAll_eq_map, Pass.handed_of_ok result]
    refine List.forall₂_map_right_iff.mpr (List.forall₂_same.mpr fun a _ => ⟨fun once => ?_, ?_⟩)
    · rw [Dispatcher.share_of_count_eq_one hexplains once]
      rfl
    · intro unlisted
      rw [Dispatcher.share_of_notMem unlisted, Action.receive_nil]

theorem takenOver_of_ok (h : s.pass source flag anchor = .ok p) :
    s.TakenOver source flag anchor d p (d.forwardAll s.actions p.handed) := by
  rintro q readings hruns rfl rfl
  rw [Engine.Progress.take_of_runs hruns, h]
  simp only [bind, Except.bind]
  cases hclose : q.close anchor s p with
  | ok q' =>
    unfold Engine.Progress.close at hclose
    dsimp only at hclose
    split at hclose
    · next result =>
      cases hclose
      rw [Pass.handed_of_error result]
      exact ⟨rfl, p.test.schedule, rfl⟩
    · obtain ⟨next, hnext, hclose⟩ := bind_eq_ok.mp hclose
      obtain ⟨schedule, -, rfl⟩ := Option.map_eq_some_iff.mp (orFault_eq_ok.mp hnext)
      cases hclose
      exact ⟨rfl, schedule, rfl⟩
  | error fault =>
    unfold Engine.Progress.close at hclose
    dsimp only at hclose
    split at hclose
    · cases hclose
    · cases hadvance : p.test.advance? anchor with
      | none => rfl
      | some next =>
        rw [hadvance] at hclose
        cases hclose

/-- A pass that came to an end left nothing of itself, or everything. -/
theorem pass_discards_or_handsOn (h : s.runPass source flag anchor d = .ok (p, d'))
    (node : s.root.isNode = true) :
    (match p.result with
    | .error _ => s.Discards d p d'
    | .ok report => ∃ start root resolved, s.window.back? anchor = some start ∧
        s.root.resolve? source start anchor = some (root, resolved) ∧
        s.HandsOn root d p report d') ∧
    s.TakenOver source flag anchor d p d' := by
  rw [s.runPass_eq] at h
  obtain ⟨p₀, hpass, hp⟩ := map_eq_ok.mp h
  cases hp
  refine ⟨?_, takenOver_of_ok hpass⟩
  split
  · next e result => exact discards_of_error hpass result
  · next report result => exact handsOn_of_ok hpass node result

/-- One sample of the first night of winter is too high, and its group goes to a log. -/
theorem pass_discards_or_handsOn_winter :
    let level : Series := {
      identifier := "level"
      interval := { base := .hour, multiplier := 1 }
      samples := [(.ofDate ⟨2005, 10, 1⟩ 0, 10), (.ofDate ⟨2005, 10, 1⟩ 3600, 75)] }
    let log : Action := {
      id := "log"
      name := "Log"
      schedule := { base := { format := "HH", hour := some 0 }, interval := .oneDay }
      retention := { base := .day, multiplier := 7 }
      channel := .log }
    let test : Test := { winter with actions := ["log"] }
    let source := Source.ofSeries [level] [] false
    let anchor := Instant.ofDate ⟨2005, 10, 1⟩ 5400
    ∃ p d', test.runPass source .down anchor [log] = .ok (p, d') ∧ test.root.isNode = true ∧
      (p.test.groups.length, d'.map (·.buffered.length)) = (1, [1]) ∧
      (match p.result with
      | .error _ => test.Discards [log] p d'
      | .ok report => ∃ start root resolved, test.window.back? anchor = some start ∧
          test.root.resolve? source start anchor = some (root, resolved) ∧
          test.HandsOn root [log] p report d') ∧
      test.TakenOver source .down anchor [log] p d' := by
  intro level log test source anchor
  have hcounts : (test.runPass source .down anchor [log]).toOption.map (fun x =>
      (x.1.test.groups.length, x.2.map (·.buffered.length))) = some (1, [1]) := by
    decide +kernel
  cases hrun : test.runPass source .down anchor [log] with
  | error fault =>
    rw [hrun] at hcounts
    cases hcounts
  | ok x =>
    rw [hrun] at hcounts
    exact ⟨x.1, x.2, rfl, rfl, Option.some.inj hcounts, pass_discards_or_handsOn hrun rfl⟩

end Test
end SeriesAlarm
