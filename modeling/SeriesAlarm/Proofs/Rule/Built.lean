import SeriesAlarm.Proofs.Action.Sorted
import SeriesAlarm.Rule.RuleSet
import SeriesAlarm.Rule.Wildcard

/-!
# What a rule set promises

The actions of a rule set are sorted and hold no groups. Each of its tests has an operator at the
root and names actions of the set only.
-/

namespace SeriesAlarm

/-- A test is evaluated from an operator down and hands its groups to known actions. -/
structure Test.FitsIn (s : Test) (ids : List String) : Prop where
  root : s.root.isNode = true
  actions : ∀ id ∈ s.actions, id ∈ ids

theorem atField_eq_ok {α ε : Type} {path : String} {problem : ε → BuildProblem} {r : Except ε α}
    {a : α} : atField path problem r = .ok a ↔ r = .ok a := by
  cases r <;> simp [atField, Except.mapError]

theorem Formula.isNode_buildRoot {f : Formula} {e : Tree} (h : f.buildRoot = .ok e) :
    e.isNode = true := by
  obtain ⟨e', -, h⟩ := bind_eq_ok.mp h
  split at h
  · next hnode =>
    cases h
    exact hnode
  · cases h

theorem ActionDocument.build_cases {env : Environment} {d : ActionDocument} {a : Action}
    (h : d.build env = .ok a) : ∃ schedule retention channel,
      d.schedule.build false = .ok schedule ∧
      buildInterval "retention" d.retention = .ok retention ∧
      d.delivery.build env = .ok channel ∧ d.wording.isValid = true ∧
      a = {
        id := d.metadata.id
        name := d.metadata.name
        active := d.active
        schedule
        cutoff := d.cutoff
        retention
        severity := d.severity
        wording := d.wording
        channel } := by
  obtain ⟨schedule, hschedule, h⟩ := bind_eq_ok.mp h
  obtain ⟨retention, hretention, h⟩ := bind_eq_ok.mp h
  obtain ⟨channel, hchannel, h⟩ := bind_eq_ok.mp h
  split at h
  · cases h
  · next hvalid =>
    cases h
    exact ⟨schedule, retention, channel, hschedule, hretention, hchannel, by simpa using hvalid, rfl⟩

theorem ActionDocument.buffered_build {env : Environment} {d : ActionDocument} {a : Action}
    (h : d.build env = .ok a) : a.buffered = [] := by
  obtain ⟨schedule, retention, channel, -, -, -, -, rfl⟩ := build_cases h
  rfl

/-- A test document builds if its parts do, its threshold is not zero and its actions are known. -/
theorem TestDocument.build_cases {known : Dispatcher} {d : TestDocument} {s : Test}
    (h : d.build known = .ok s) : ∃ root schedule window season,
      d.formula.buildRoot = .ok root ∧ d.schedule.build true = .ok schedule ∧
      buildInterval "evaluation_window" d.window = .ok window ∧
      d.season.mapM buildSeason = .ok season ∧ d.threshold ≠ 0 ∧
      checkActions known 0 d.actions = .ok () ∧
      s = {
        id := d.metadata.id
        name := d.metadata.name
        root
        schedule
        window
        season
        threshold := d.threshold
        message := d.message
        actions := d.actions } := by
  obtain ⟨root, hroot, h⟩ := bind_eq_ok.mp h
  obtain ⟨schedule, hschedule, h⟩ := bind_eq_ok.mp h
  obtain ⟨window, hwindow, h⟩ := bind_eq_ok.mp h
  obtain ⟨season, hseason, h⟩ := bind_eq_ok.mp h
  split at h
  · cases h
  · next hthreshold =>
    obtain ⟨⟨⟩, hactions, h⟩ := bind_eq_ok.mp h
    cases h
    exact ⟨root, schedule, window, season, hroot, hschedule, hwindow, hseason, hthreshold, hactions,
      rfl⟩

theorem TestDocument.mem_ids_of_checkActions {known : Dispatcher} {n : Nat} {ids : List String}
    (h : checkActions known n ids = .ok ()) : ∀ id ∈ ids, id ∈ known.ids := by
  induction ids generalizing n with
  | nil => exact fun id hid => by cases hid
  | cons i ids ih =>
    simp only [checkActions] at h
    split at h
    · next hfound =>
      intro id hid
      rcases List.mem_cons.mp hid with rfl | hid
      · obtain ⟨a, ha⟩ := Option.isSome_iff_exists.mp hfound
        have hid : a.id = id := by simpa using List.find?_some ha
        exact List.mem_map.mpr ⟨a, List.mem_of_find?_eq_some ha, hid⟩
      · exact ih h id hid
    · cases h

theorem TestDocument.fitsIn_build {known : Dispatcher} {d : TestDocument} {s : Test}
    (h : d.build known = .ok s) : s.FitsIn known.ids := by
  obtain ⟨root, schedule, window, season, hroot, -, -, -, -, hactions, rfl⟩ := build_cases h
  exact ⟨Formula.isNode_buildRoot hroot, mem_ids_of_checkActions hactions⟩

theorem ScheduleEntry.parse_of_build {e : ScheduleEntry} {positiveAllowed : Bool} {s : Schedule}
    (h : e.build positiveAllowed = .ok s) :
    TimePattern.parse e.baseTime e.baseTimeFormat = .ok s.base ∧
      Interval.parse e.interval = .ok s.interval ∧ s.nextRun = none := by
  obtain ⟨base, hbase, h⟩ := bind_eq_ok.mp h
  obtain ⟨interval, hinterval, h⟩ := bind_eq_ok.mp h
  have hparts := And.intro (atField_eq_ok.mp hbase) (atField_eq_ok.mp hinterval)
  split at h
  · cases h
    exact ⟨hparts.1, hparts.2, rfl⟩
  · split at h
    · obtain ⟨positive, -, h⟩ := bind_eq_ok.mp h
      cases h
      exact ⟨hparts.1, hparts.2, rfl⟩
    · cases h

theorem ActionDocument.schedule_build {env : Environment} {d : ActionDocument} {a : Action}
    (h : d.build env = .ok a) : d.schedule.build false = .ok a.schedule := by
  obtain ⟨schedule, retention, channel, hschedule, -, -, -, rfl⟩ := build_cases h
  exact hschedule

theorem TestDocument.schedule_build {known : Dispatcher} {d : TestDocument} {s : Test}
    (h : d.build known = .ok s) : d.schedule.build true = .ok s.schedule := by
  obtain ⟨root, schedule, window, season, -, hschedule, -, -, -, -, rfl⟩ := build_cases h
  exact hschedule

theorem Wildcard.mem_expandAll {tests : List Test} {identifiers : Except SourceError (List String)}
    {s : Test} (h : s ∈ expandAll tests identifiers) :
    s ∈ tests ∨ ∃ s₀ ∈ tests, ∃ capture, s = copyFor s₀ capture := by
  obtain ⟨s₀, hs₀, hs⟩ := List.mem_flatMap.mp h
  split at hs
  · rw [List.mem_singleton.mp hs]
    exact .inl hs₀
  · split at hs
    · unfold expandTest at hs
      split at hs
      · rw [List.mem_singleton.mp hs]
        exact .inl hs₀
      · obtain ⟨capture, -, rfl⟩ := List.mem_map.mp hs
        exact .inr ⟨s₀, hs₀, capture, rfl⟩
    · cases hs

namespace RuleSet

structure Built (set : RuleSet) : Prop where
  sorted : set.actions.Sorted
  empty : ∀ a ∈ set.actions, a.buffered = []
  tests : ∀ s ∈ set.tests, s.FitsIn set.actions.ids

theorem Built.addAction {set : RuleSet} (h : set.Built) (htests : set.tests = [])
    (env : Environment) (d : ActionDocument) :
    (set.addAction env d).Built ∧ (set.addAction env d).tests = [] := by
  unfold RuleSet.addAction
  split
  · next a ha =>
    refine ⟨⟨h.sorted.set a, fun b hb => ?_, fun s hs => ?_⟩, htests⟩
    · rcases Dispatcher.mem_set hb with rfl | hb
      · exact ActionDocument.buffered_build ha
      · exact h.empty b hb
    · change s ∈ set.tests at hs
      rw [htests] at hs
      cases hs
  · exact ⟨⟨h.sorted, h.empty, h.tests⟩, htests⟩

theorem Built.addTest {set : RuleSet} (h : set.Built) (d : TestDocument) :
    (set.addTest d).Built := by
  unfold RuleSet.addTest
  split
  · next s hs =>
    refine ⟨h.sorted, h.empty, fun s' hs' => ?_⟩
    rcases List.mem_append.mp hs' with hs' | hs'
    · exact h.tests s' hs'
    · rw [List.mem_singleton.mp hs']
      exact TestDocument.fitsIn_build hs
  · exact ⟨h.sorted, h.empty, h.tests⟩

/-- What rule documents build is a sound rule set, whatever the documents are. -/
theorem built_ofDocuments (env : Environment) (ds : List Document) : (ofDocuments env ds).Built := by
  have hactions : ∀ (as : List ActionDocument) (set : RuleSet), set.Built → set.tests = [] →
      (as.foldl (RuleSet.addAction env) set).Built := by
    intro as
    induction as with
    | nil => exact fun set h _ => h
    | cons a as ih =>
      intro set h htests
      have hnext := h.addAction htests env a
      exact ih _ hnext.1 hnext.2
  have htests : ∀ (ts : List TestDocument) (set : RuleSet), set.Built →
      (ts.foldl RuleSet.addTest set).Built := by
    intro ts
    induction ts with
    | nil => exact fun set h => h
    | cons d ts ih => exact fun set h => ih _ (h.addTest d)
  refine htests _ _ (hactions _ _ ⟨List.Pairwise.nil, fun a ha => ?_, fun s hs => ?_⟩ rfl)
  · cases ha
  · cases hs

theorem forall_ofDocuments {env : Environment} {P : Action → Prop} {Q : Test → Prop}
    (action : ∀ d a, ActionDocument.build env d = .ok a → P a)
    (test : ∀ known d s, TestDocument.build known d = .ok s → Q s) (ds : List Document) :
    (∀ a ∈ (ofDocuments env ds).actions, P a) ∧ ∀ s ∈ (ofDocuments env ds).tests, Q s := by
  let Holds (set : RuleSet) : Prop := (∀ a ∈ set.actions, P a) ∧ ∀ s ∈ set.tests, Q s
  have haction (set : RuleSet) (h : Holds set) (d : ActionDocument) :
      Holds (set.addAction env d) := by
    unfold RuleSet.addAction
    split
    · next a ha =>
      refine ⟨fun b hb => ?_, h.2⟩
      rcases Dispatcher.mem_set hb with rfl | hb
      · exact action d b ha
      · exact h.1 b hb
    · exact h
  have htest (set : RuleSet) (h : Holds set) (d : TestDocument) : Holds (set.addTest d) := by
    unfold RuleSet.addTest
    split
    · next s hs =>
      refine ⟨h.1, fun s' hs' => ?_⟩
      rcases List.mem_append.mp hs' with hs' | hs'
      · exact h.2 s' hs'
      · rw [List.mem_singleton.mp hs']
        exact test set.actions d s hs
    · exact h
  have hempty : Holds {} := ⟨List.forall_mem_nil _, List.forall_mem_nil _⟩
  have hactions : Holds ((enabledActions ds).foldl (RuleSet.addAction env) {}) :=
    List.foldlRecOn (motive := Holds) _ _ hempty fun set h d _ => haction set h d
  exact List.foldlRecOn (motive := Holds) _ _ hactions fun set h d _ => htest set h d

end RuleSet
end SeriesAlarm
