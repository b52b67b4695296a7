import SeriesAlarm.Proofs.Expr.Erasure
import SeriesAlarm.Proofs.Rule.Pass

/-!
# What a test remembers between passes

Of a pass only the next run lives on: the groups, the flag of a positive pass, the series and the
values of the tree are replaced by the next pass before anything reads them. So a pass does the same
for a test and for the test that never ran, down to the values of its tree.
-/

namespace SeriesAlarm
namespace Test

def dry (s : Test) : Test := { s with root := s.root.dry }

/-- The test as if no pass had been made. -/
def idle (s : Test) : Test := { s.cleared with root := s.root.bare }

def rule (s : Test) : Test := { s.idle with schedule := { s.schedule with nextRun := none } }

@[simp] theorem idle_dry (s : Test) : s.dry.idle = s.idle := by
  simp only [dry, idle, cleared, Tree.bare_dry]

theorem rule_eq_of_idle_eq {s s' : Test} (h : s.idle = s'.idle) : s.rule = s'.rule := by
  have hschedule : s.idle.schedule = s'.idle.schedule := congrArg Test.schedule h
  rw [rule, rule, h, show s.schedule = s'.schedule from hschedule]

theorem idle_eq_rule (s : Test) :
    s.idle = { s.rule with schedule := { s.rule.schedule with nextRun := s.schedule.nextRun } } :=
  rfl

theorem groups_eq_of_dry_eq {s s' : Test} (h : s.dry = s'.dry) : s.groups = s'.groups := by
  have hgroups := congrArg Test.groups h
  exact hgroups

theorem run?_dry (s : Test) (t : Instant) : s.dry.run? t = s.run? t := by
  unfold run?
  rw [dry, Tree.evaluate?_dry]

namespace Scan

def dry (c : Scan) : Scan := { c with test := c.test.dry }

theorem step_dry_of_down {c : Scan} {flag : CancelReadings} (down : flag c.reads = false)
    (t : Instant) : c.dry.step flag t = c.step flag t := by
  have hdown : flag c.dry.reads = false := down
  unfold Scan.step
  rw [down, hdown, dry, run?_dry]
  rfl

theorem step_of_up {c : Scan} {flag : CancelReadings} (up : flag c.reads = true) (t : Instant) :
    c.step flag t = .ok { c with
      test := { c.test with groups := [] }, reads := c.reads + 1, cancelled := true } :=
  if_pos up

theorem step_dry_of_up {c : Scan} {flag : CancelReadings} (up : flag c.reads = true) (t : Instant) :
    c.dry.step flag t = (c.step flag t).map dry := by
  rw [step_of_up up, step_of_up (c := c.dry) up]
  rfl

theorem step_dry (c : Scan) (flag : CancelReadings) (t : Instant) :
    (c.dry.step flag t).map dry = (c.step flag t).map dry := by
  cases hflag : flag c.reads with
  | false => rw [step_dry_of_down hflag]
  | true =>
    rw [step_dry_of_up hflag, step_of_up hflag]
    simp [Except.map, dry, Test.dry]

end Scan

theorem scan_dry (flag : CancelReadings) (i : Interval) (last t : Instant) (c : Scan) :
    (scan flag i last t c.dry).map Scan.dry = (scan flag i last t c).map Scan.dry := by
  unfold scan
  split
  · cases hflag : flag c.reads with
    | false => rw [Scan.step_dry_of_down hflag]
    | true =>
      rw [Scan.step_dry_of_up hflag, Scan.step_of_up hflag]
      simp [Except.map, Scan.dry, Test.dry]
  · simp [Except.map, Scan.dry, Test.dry]

theorem scanBetween_dry (s : Test) (flag : CancelReadings) (anchor : Instant)
    (bounds : Instant × Instant) (interval : Option Interval) :
    (s.dry.scanBetween flag anchor bounds interval).map Scan.dry =
      (s.scanBetween flag anchor bounds interval).map Scan.dry := by
  have hstart : ({ test := s.dry } : Scan) = Scan.dry { test := s } := rfl
  cases interval with
  | some i =>
    simp only [scanBetween]
    cases firstSlot? i bounds.1 with
    | none => rfl
    | some t => exact scan_dry flag i (i.align bounds.2) t { test := s }
  | none =>
    simp only [scanBetween]
    split
    · exact Scan.step_dry { test := s } flag anchor
    · simp [Except.map, Scan.dry, dry]

theorem settle_dry (s : Test) : s.dry.settle = s.settle.dry := by
  unfold settle
  change (if s.groups.length < s.threshold then _ else _) = _
  split <;> rfl

/-- The rest of a pass once the leaves are bound. -/
def sweep (s : Test) (flag : CancelReadings) (anchor start : Instant) (resolved : List Bool) :
    Except Fault Pass := do
  match s.nativeInterval with
  | .error e => return { test := s, result := .error e, reads := 0 }
  | .ok interval =>
    let done ← s.scanBetween flag anchor (s.scanBounds start anchor) interval
    let visited := done.visited.reverse
    if done.cancelled then
      return { test := done.test, result := .error .cancelled, reads := done.reads, visited }
    let test := done.test.settle
    return {
      test
      result := .ok {
        forwarded := test.groups.length
        steps := visited.length
        degraded := (resolved.filter (!·)).length }
      reads := done.reads
      visited }

theorem pass_eq (s : Test) (source : Source) (flag : CancelReadings) (anchor : Instant) :
    s.pass source flag anchor = (do
      let start ← orFault .outOfCalendar (s.window.back? anchor)
      let x ← orFault .reversedWindow (s.root.resolve? source start anchor)
      (s.bound x.1).sweep flag anchor start x.2) := rfl

end Test

def Pass.dry (p : Pass) : Pass := { p with test := p.test.dry }

namespace Test

theorem nativeInterval_dry (s : Test) : s.dry.nativeInterval = s.nativeInterval :=
  congrArg (sharedInterval s.id) s.root.intervals_dry

theorem sweep_dry (s : Test) (flag : CancelReadings) (anchor start : Instant)
    (resolved : List Bool) :
    (s.dry.sweep flag anchor start resolved).map Pass.dry =
      (s.sweep flag anchor start resolved).map Pass.dry := by
  unfold sweep
  rw [nativeInterval_dry]
  cases s.nativeInterval with
  | error e => simp [Except.map, Pass.dry, dry, pure, Except.pure]
  | ok interval =>
    refine map_bind_congr (s.scanBetween_dry flag anchor (s.scanBounds start anchor) interval) ?_
    intro c c' h
    obtain ⟨htest, hvisited, hreads, hcancelled⟩ := Scan.mk.inj h
    have hsettle : c.test.settle.dry = c'.test.settle.dry := by
      rw [← settle_dry, ← settle_dry]
      exact congrArg settle htest
    have hgroups : c.test.settle.groups = c'.test.settle.groups := groups_eq_of_dry_eq hsettle
    simp only [hcancelled, hvisited, hreads, hgroups]
    split
    · exact congrArg Except.ok (congrArg (fun test => Pass.mk test _ _ _) htest)
    · simp [Except.map, Pass.dry, hsettle, pure, Except.pure]

/-- A pass does the same as for the test that never ran. -/
theorem pass_idle (s : Test) (source : Source) (flag : CancelReadings) (anchor : Instant) :
    (s.idle.pass source flag anchor).map Pass.dry = (s.pass source flag anchor).map Pass.dry := by
  rw [pass_eq, pass_eq]
  change (orFault .outOfCalendar (s.window.back? anchor) >>= _).map _ = _
  cases s.window.back? anchor with
  | none => rfl
  | some start =>
    change (orFault .reversedWindow (s.root.bare.resolve? source start anchor) >>= _).map _ =
      (orFault .reversedWindow (s.root.resolve? source start anchor) >>= _).map _
    refine map_bind_congr (f := fun x => (x.1.dry, x.2)) ?_ ?_
    · rw [map_orFault, map_orFault, s.root.resolve?_bare]
    · rintro ⟨root, resolved⟩ ⟨root', resolved'⟩ h
      obtain ⟨hroot, hresolved⟩ := Prod.mk.inj h
      have hbound : (s.idle.bound root).dry = (s.bound root').dry :=
        congrArg (fun root => { s.cleared with root }) hroot
      dsimp only at hresolved ⊢
      rw [hresolved, ← sweep_dry, hbound, sweep_dry]

/-- A pass leaves nothing behind but what the next one replaces. -/
theorem idle_pass {s : Test} {source : Source} {flag : CancelReadings} {anchor : Instant} {p : Pass}
    (h : s.pass source flag anchor = .ok p) : p.test.idle = s.idle := by
  refine pass_keeps (P := fun s' _ => s'.idle = s.idle) h ?_ ?_ ?_ ?_
  · intro start root resolved hresolve
    simp only [idle, bound, cleared, Tree.bare_resolve? hresolve]
  · exact fun s' _ hs' => hs'
  · intro s' _ hs'
    rw [← hs']
    unfold settle
    split <;> rfl
  · intro s' _ u root _ hs' heval
    rw [← hs']
    simp only [idle, evaluated, cleared, Tree.bare_evaluate? heval]

theorem rule_advance? {s s' : Test} {t : Instant} (h : s.advance? t = some s') :
    s'.rule = s.rule := by
  obtain ⟨schedule, hschedule, rfl⟩ := Option.map_eq_some_iff.mp h
  obtain ⟨next, -, rfl⟩ := Option.map_eq_some_iff.mp hschedule
  rfl

end Test
end SeriesAlarm
