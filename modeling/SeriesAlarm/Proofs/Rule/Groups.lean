import SeriesAlarm.Proofs.Expr.Erasure
import SeriesAlarm.Proofs.Expr.Explained
import SeriesAlarm.Proofs.Rule.Pass

/-!
# The groups of a pass

A scan that is not interrupted gathers one group at each instant at which the tree is truthy, in the
order of the scan. The threshold then keeps all of them or none.
-/

namespace SeriesAlarm

def Tree.truthyAmong (e : Tree) (ts : List Instant) : List Instant := ts.filter (e.isTruthyAt ·)

namespace Test

/-- The group of an instant, of the tree as a pass bound it. -/
def group? (s : Test) (root : Tree) (t : Instant) : Option ResultGroup :=
  (root.evaluate? t).map (·.explain s.id s.message t 0)

/-- A test has gathered the groups of the instants at which the tree is truthy, and differs in nothing
else from the test that was bound but in the values of its tree. -/
structure Gathers (s : Test) (root : Tree) (s' : Test) (visited : List Instant) : Prop where
  rule : s.SameRule s'
  tree : s'.root.dry = root.dry
  negative : s'.positive = false
  groups : s'.groups.map some = (root.truthyAmong visited).map (s.group? root)

variable {s s' : Test} {root : Tree} {visited : List Instant}

theorem gathers_bound (s : Test) (root : Tree) : s.Gathers root (s.bound root) [] :=
  ⟨rfl, rfl, rfl, rfl⟩

/-- Evaluating a test at an instant adds the group of the instant, if there is one. -/
theorem Gathers.evaluated {t : Instant} {root' : Tree} (h : s.Gathers root s' visited)
    (heval : s'.root.evaluate? t = some root') :
    s.Gathers root (s'.evaluated t root') (visited ++ [t]) := by
  -- The tree has the values of the instant before, which an evaluation does not read.
  have hroot : root.evaluate? t = some root' := by
    rw [← heval, ← s'.root.evaluate?_dry, h.tree, root.evaluate?_dry]
  have hid : s'.id = s.id := by rw [h.rule]
  have hmessage : s'.message = s.message := by rw [h.rule]
  refine ⟨h.rule.evaluated t root', (Tree.dry_evaluate? heval).trans h.tree, h.negative, ?_⟩
  rw [Test.evaluated, List.map_append, h.groups, Tree.truthyAmong, Tree.truthyAmong,
    List.filter_append, List.map_append, hid, hmessage]
  congr 1
  cases htrue : isTruthy root'.last with
  | true => simp [Tree.isTruthyAt_eq hroot, htrue, group?, hroot]
  | false => simp [Tree.isTruthyAt_eq hroot, htrue]

/-- The threshold keeps the groups of all truthy instants or none. -/
theorem Gathers.settle (h : s.Gathers root s' visited) :
    s'.settle.groups.map some =
        (if s.threshold ≤ (root.truthyAmong visited).length then
          (root.truthyAmong visited).map (s.group? root) else []) ∧
      s'.settle.positive = !s'.settle.groups.isEmpty := by
  have hcount : s'.groups.length = (root.truthyAmong visited).length := by
    simpa using congrArg List.length h.groups
  have hthreshold : s'.threshold = s.threshold := by rw [h.rule]
  rw [Test.settle, hcount, hthreshold]
  by_cases hfew : (root.truthyAmong visited).length < s.threshold
  · rw [if_pos hfew, if_neg (Nat.not_le.mpr hfew)]
    exact ⟨rfl, h.negative⟩
  · rw [if_neg hfew, if_pos (Nat.not_lt.mp hfew)]
    exact ⟨h.groups, rfl⟩

/-- The test after its tree was evaluated at instants, one after another. -/
def evaluateAll? (s : Test) (ts : List Instant) : Option Test :=
  ts.foldlM (fun s t => (s.root.evaluate? t).map (s.evaluated t)) s

theorem evaluateAll?_concat (ts : List Instant) (t : Instant) : s.evaluateAll? (ts ++ [t]) =
    (s.evaluateAll? ts).bind fun s' => (s'.root.evaluate? t).map (s'.evaluated t) := by
  simp [evaluateAll?, List.foldlM_append]

theorem Gathers.evaluateAll? {s₁ : Test} {ts : List Instant} (h : s.Gathers root s₁ visited)
    (hall : s₁.evaluateAll? ts = some s') : s.Gathers root s' (visited ++ ts) := by
  induction ts generalizing s₁ visited with
  | nil =>
    cases hall
    rwa [List.append_nil]
  | cons t ts ih =>
    obtain ⟨s₂, hs₂, hall⟩ := Option.bind_eq_some_iff.mp hall
    obtain ⟨root', heval, rfl⟩ := Option.map_eq_some_iff.mp hs₂
    rw [List.append_cons]
    exact ih (h.evaluated heval) hall

/-- The pass over the bound tree evaluated it at the instants that it visited, one after another. These
are its steps, and their values are all that it leaves: the tree has those of the last, and a group
stands for each at which the tree is truthy, unless they are too few. -/
structure Evaluates (s : Test) (root : Tree) (p : Pass) (report : PassReport) : Prop where
  steps : report.steps = p.visited.length
  test : ((s.bound root).evaluateAll? p.visited).map settle = some p.test
  groups : p.test.groups.map some =
    if s.threshold ≤ (root.truthyAmong p.visited).length then
      (root.truthyAmong p.visited).map (s.group? root)
    else []

variable {source : Source} {flag : CancelReadings} {anchor : Instant} {p : Pass} {report : PassReport}

theorem evaluates_of_ok (h : s.pass source flag anchor = .ok p) (result : p.result = .ok report) :
    ∃ start root resolved, s.window.back? anchor = some start ∧
      s.root.resolve? source start anchor = some (root, resolved) ∧ s.Evaluates root p report := by
  obtain ⟨start, root, resolved, interval, done, hstart, hroot, hscan, hvisited, going, htest, -,
    hsteps⟩ := pass_cases_of_ok h result
  refine ⟨start, root, resolved, hstart, hroot, ?_⟩
  have hall : (s.bound root).evaluateAll? p.visited = some done.test := by
    rw [hvisited]
    refine (scanBetween_kept (P := fun s' vs => (s.bound root).evaluateAll? vs.reverse = some s')
      hscan ?_ rfl).of_going going
    intro s' vs u root' _ hs' heval
    rw [List.reverse_cons, evaluateAll?_concat, hs', Option.bind_some, heval, Option.map_some]
  have hgathers : s.Gathers root done.test p.visited := (gathers_bound s root).evaluateAll? hall
  constructor
  case steps => rw [hsteps, hvisited, List.length_reverse]
  case test => rw [hall, htest, Option.map_some]
  case groups =>
    rw [htest]
    exact hgathers.settle.1

theorem length_groups_of_ok (h : s.pass source flag anchor = .ok p) (result : p.result = .ok report) :
    p.test.groups.length = report.forwarded := by
  obtain ⟨start, root, resolved, interval, done, -, -, -, -, -, htest, hforwarded, -⟩ :=
    pass_cases_of_ok h result
  rw [htest, hforwarded]

end Test
end SeriesAlarm
