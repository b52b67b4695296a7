import SeriesAlarm.Proofs.Engine.Tick
import SeriesAlarm.Proofs.Expr.Binding
import SeriesAlarm.Proofs.Rule.Idle
import SeriesAlarm.Proofs.Rule.Scan
import SeriesAlarm.Proofs.Rule.Uninterrupted

/-!
# A pass has no memory

Whatever an earlier pass left in a test, the values of its tree, the series in its leaves, its groups and
its flag, the next pass does not read it. So two tests that were built alike do the same, also under
different names and schedules, and a leaf of which the series does not resolve has none.
-/

namespace SeriesAlarm
namespace Test

variable {s s' : Test} {source : Source} {flag : CancelReadings} {anchor : Instant}
  (name : String) (schedule : Schedule)

section Relabel

def relabel (s : Test) (name : String) (schedule : Schedule) : Test := { s with name, schedule }

theorem run?_relabel (s : Test) (t : Instant) : (s.relabel name schedule).run? t =
    (s.run? t).map fun x => (x.1.relabel name schedule, x.2) := by
  unfold run?
  rw [Option.map_map]
  refine congrArg (Option.map · (s.root.evaluate? t)) (funext fun root => ?_)
  rw [Function.comp_apply]
  split <;> rfl

def Scan.relabel (c : Scan) (name : String) (schedule : Schedule) : Scan :=
  { c with test := c.test.relabel name schedule }

theorem Scan.step_relabel (c : Scan) (flag : CancelReadings) (t : Instant) :
    (c.relabel name schedule).step flag t = (c.step flag t).map (·.relabel name schedule) := by
  unfold Scan.step
  change (if flag c.reads then _ else _) = _
  split
  · rfl
  · rw [Scan.relabel, run?_relabel]
    cases c.test.run? t <;> rfl

theorem scan_relabel (flag : CancelReadings) (i : Interval) (last t : Instant) (c : Scan) :
    scan flag i last t (c.relabel name schedule) =
      (scan flag i last t c).map (·.relabel name schedule) := by
  fun_induction scan flag i last t c with
  | case1 t c hle e hstep =>
    rw [scan, if_pos hle, Scan.step_relabel, hstep]
    rfl
  | case2 t c hle c' hstep hcancelled =>
    rw [scan, if_pos hle, Scan.step_relabel, hstep]
    exact if_pos hcancelled
  | case3 t c hle c' hstep hgoing hnext =>
    rw [scan, if_pos hle, Scan.step_relabel, hstep]
    refine (if_neg hgoing).trans ?_
    rw [hnext]
    rfl
  | case4 t c hle c' hstep hgoing next hnext hlt ih =>
    rw [scan, if_pos hle, Scan.step_relabel, hstep]
    refine (if_neg hgoing).trans ?_
    rw [hnext]
    exact (if_pos hlt).trans ih
  | case5 t c hle c' hstep hgoing next hnext hnot =>
    rw [scan, if_pos hle, Scan.step_relabel, hstep]
    refine (if_neg hgoing).trans ?_
    rw [hnext]
    exact if_neg hnot
  | case6 t c hnot =>
    rw [scan, if_neg hnot]
    rfl

theorem scanBetween_relabel (s : Test) (flag : CancelReadings) (anchor : Instant)
    (bounds : Instant × Instant) (interval : Option Interval) :
    (s.relabel name schedule).scanBetween flag anchor bounds interval =
      (s.scanBetween flag anchor bounds interval).map (·.relabel name schedule) := by
  cases interval with
  | some i =>
    simp only [scanBetween]
    cases firstSlot? i bounds.1 with
    | none => rfl
    | some t => exact scan_relabel name schedule flag i (i.align bounds.2) t { test := s }
  | none =>
    simp only [scanBetween]
    split
    · exact Scan.step_relabel name schedule { test := s } flag anchor
    · rfl

theorem settle_relabel (s : Test) :
    (s.relabel name schedule).settle = s.settle.relabel name schedule := by
  unfold settle
  change (if s.groups.length < s.threshold then _ else _) = _
  split <;> rfl

end Relabel
end Test

def Pass.relabel (p : Pass) (name : String) (schedule : Schedule) : Pass :=
  { p with test := p.test.relabel name schedule }

namespace Test

variable {s s' : Test} {source : Source} {flag : CancelReadings} {anchor : Instant}

theorem sweep_relabel (s : Test) (flag : CancelReadings) (anchor start : Instant)
    (resolved : List Bool) (name : String) (schedule : Schedule) :
    (s.relabel name schedule).sweep flag anchor start resolved =
      (s.sweep flag anchor start resolved).map (·.relabel name schedule) := by
  have hnative : (s.relabel name schedule).nativeInterval = s.nativeInterval := rfl
  have hbounds : (s.relabel name schedule).scanBounds start anchor = s.scanBounds start anchor := rfl
  unfold sweep
  rw [hnative, hbounds]
  cases s.nativeInterval with
  | error e => rfl
  | ok interval =>
    dsimp only
    rw [scanBetween_relabel]
    cases s.scanBetween flag anchor (s.scanBounds start anchor) interval with
    | error e => rfl
    | ok done =>
      change (if done.cancelled then _ else _) = Except.map _ (if done.cancelled then _ else _)
      split
      · rfl
      · dsimp only [Scan.relabel]
        rw [settle_relabel]
        rfl

theorem pass_relabel (s : Test) (source : Source) (flag : CancelReadings) (anchor : Instant)
    (name : String) (schedule : Schedule) :
    (s.relabel name schedule).pass source flag anchor =
      (s.pass source flag anchor).map (·.relabel name schedule) := by
  rw [pass_eq, pass_eq]
  change (orFault .outOfCalendar (s.window.back? anchor) >>= _) = _
  cases s.window.back? anchor with
  | none => rfl
  | some start =>
    change (orFault .reversedWindow (s.root.resolve? source start anchor) >>= _) =
      Except.map _ (orFault .reversedWindow (s.root.resolve? source start anchor) >>= _)
    cases s.root.resolve? source start anchor with
    | none => rfl
    | some x => exact sweep_relabel (s.bound x.1) flag anchor start x.2 name schedule

/-- The tests were built alike, as far as a pass is concerned. -/
structure BuiltAlike (s s' : Test) : Prop where
  id : s.id = s'.id
  tree : s.root.bare = s'.root.bare
  window : s.window = s'.window
  season : s.season = s'.season
  threshold : s.threshold = s'.threshold
  message : s.message = s'.message
  actions : s.actions = s'.actions

theorem BuiltAlike.idle_eq (h : s.BuiltAlike s') :
    s'.idle = s.idle.relabel s'.name s'.schedule := by
  simp only [idle, cleared, relabel, h.id, h.tree, h.window, h.season, h.threshold, h.message,
    h.actions]

/-- The tree that a pass leaves is the one that it bound, but for values. -/
theorem pass_binds {p : Pass} (h : s.pass source flag anchor = .ok p) :
    ∃ start root resolved, s.window.back? anchor = some start ∧
      s.root.resolve? source start anchor = some (root, resolved) ∧ p.test.root.dry = root.dry := by
  obtain ⟨start, root, resolved, hstart, hroot, hpass⟩ := pass_cases h
  refine ⟨start, root, resolved, hstart, hroot, ?_⟩
  rcases hpass with ⟨e, -, rfl⟩ | ⟨interval, done, -, hscan, -, -, hend⟩
  · rfl
  have hdone : done.test.root.dry = root.dry :=
    scanBetween_keeps (P := fun s' _ => s'.root.dry = root.dry) hscan (fun _ _ hs' => hs')
      (fun _ _ _ _ _ hs' heval => (Tree.dry_evaluate? heval).trans hs') rfl
  rcases hend with ⟨-, htest, -⟩ | ⟨-, htest, -⟩
  · rw [htest]
    exact hdone
  · rw [htest, root_settle]
    exact hdone

/-- After a pass every slot holds what the source answered for its window, and nothing where it did
not answer. -/
theorem bound_of_pass {p : Pass} (h : s.pass source flag anchor = .ok p) :
    ∃ start, s.window.back? anchor = some start ∧ ∀ f ∈ p.test.root.leaves,
      f.bound = f.inputs.map fun id => (source.resolve id start anchor).series? := by
  obtain ⟨start, root, resolved, hstart, hroot, hdry⟩ := pass_binds h
  refine ⟨start, hstart, fun f hf => ?_⟩
  have hleaves : p.test.root.leaves.map Leaf.dry = root.leaves.map Leaf.dry := by
    rw [← Tree.leaves_dry, ← Tree.leaves_dry, hdry]
  obtain ⟨f', hf', hsame⟩ := List.mem_map.mp (hleaves ▸ List.mem_map_of_mem (f := Leaf.dry) hf)
  have hbound : f'.dry.bound = f.dry.bound := congrArg Leaf.bound hsame
  have hinputs : f'.dry.inputs = f.dry.inputs := congrArg Leaf.inputs hsame
  have hanswers := Tree.bound_of_resolve? hroot f' hf'
  change f'.bound = f.bound at hbound
  change f'.inputs = f.inputs at hinputs
  rwa [hbound, hinputs] at hanswers

end Test

/-- What shows of a pass: its result, the groups and the flag that it leaves with the test, the
instants that it visited, the readings of the flag, and the actions once its groups were handed on. -/
structure Pass.Effect where
  result : Except PassError PassReport
  groups : List ResultGroup
  positive : Bool
  visited : List Instant
  reads : Nat
  actions : Dispatcher

def Pass.effect (d : Dispatcher) (p : Pass) : Pass.Effect where
  result := p.result
  groups := p.test.groups
  positive := p.test.positive
  visited := p.visited
  reads := p.reads
  actions := d.forwardAll p.test.actions p.handed

namespace Test

variable {s s' : Test} {source : Source} {flag : CancelReadings} {anchor : Instant}

theorem map_effect_idle (s : Test) (source : Source) (flag : CancelReadings) (anchor : Instant)
    (d : Dispatcher) : (s.idle.pass source flag anchor).map (Pass.effect d) =
      (s.pass source flag anchor).map (Pass.effect d) := by
  have hdry (x : Except Fault Pass) : x.map (Pass.effect d) = (x.map Pass.dry).map (Pass.effect d) := by
    cases x <;> rfl
  rw [hdry, s.pass_idle, ← hdry]

theorem map_effect_relabel (s : Test) (source : Source) (flag : CancelReadings) (anchor : Instant)
    (name : String) (schedule : Schedule) (d : Dispatcher) :
    ((s.relabel name schedule).pass source flag anchor).map (Pass.effect d) =
      (s.pass source flag anchor).map (Pass.effect d) := by
  rw [s.pass_relabel]
  cases s.pass source flag anchor <;> rfl

/-- Tests that were built alike do the same, whatever earlier passes left in them, and a pass leaves
no series of an earlier one in a leaf. -/
theorem pass_forgets (alike : s.BuiltAlike s') (source : Source) (flag : CancelReadings)
    (anchor : Instant) :
    (∀ d, (s.pass source flag anchor).map (Pass.effect d) =
      (s'.pass source flag anchor).map (Pass.effect d)) ∧
    ∀ p, s.pass source flag anchor = .ok p →
      ∃ start, s.window.back? anchor = some start ∧ ∀ f ∈ p.test.root.leaves,
        f.bound = f.inputs.map fun id => (source.resolve id start anchor).series? := by
  refine ⟨fun d => ?_, fun p hp => bound_of_pass hp⟩
  rw [← s.map_effect_idle, ← s'.map_effect_idle, alike.idle_eq, map_effect_relabel]

/-- A test that an earlier pass left positive, with the sample that made it so, finds nothing when its
series is gone. -/
theorem pass_forgets_winter :
    let stale : Series := {
      identifier := "level"
      interval := { base := .hour, multiplier := 1 }
      samples := [(.ofDate ⟨2005, 10, 1⟩ 3600, 75)] }
    let ran : Test := { winter with
      name := "Level again"
      root := .node .greaterThan
        (.leaf { kind := .getValue, inputs := ["level"], bound := [some stale], last := 75 })
        (.leaf (.ofConstant 50)) none 1
      groups := [[]]
      positive := true }
    let source := Source.ofSeries [] [] false
    let anchor := Instant.ofDate ⟨2005, 10, 1⟩ 5400
    ran.BuiltAlike winter ∧
      ((ran.pass source .down anchor).toOption.map fun p =>
        (p.test.groups.length, p.test.positive)) = some (0, false) ∧
      (∀ d, (ran.pass source .down anchor).map (Pass.effect d) =
        (winter.pass source .down anchor).map (Pass.effect d)) ∧
      ∀ p, ran.pass source .down anchor = .ok p →
        ∃ start, ran.window.back? anchor = some start ∧ ∀ f ∈ p.test.root.leaves,
          f.bound = f.inputs.map fun id => (source.resolve id start anchor).series? := by
  intro stale ran source anchor
  have alike : ran.BuiltAlike winter := ⟨rfl, rfl, rfl, rfl, rfl, rfl, rfl⟩
  exact ⟨alike, by decide +kernel, pass_forgets alike source .down anchor⟩

end Test
end SeriesAlarm
