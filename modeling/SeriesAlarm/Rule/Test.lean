import SeriesAlarm.Calendar.Schedule
import SeriesAlarm.Calendar.Season
import SeriesAlarm.Expr.Explain

/-!
# Tests

A test is an expression tree with a schedule, a window to look back over, a season and the actions
that receive its results. `Test.pass` evaluates the tree at every sample instant of the window.
-/

namespace SeriesAlarm

/-- What stops the program as a whole. -/
inductive Fault
  | outOfCalendar
  | reversedWindow
  | endlessScan
  deriving DecidableEq, Repr

def orFault {α : Type} (fault : Fault) : Option α → Except Fault α
  | some a => .ok a
  | none => .error fault

/-- The successive values that the cancel flag is read with. -/
abbrev CancelReadings := Nat → Bool

def CancelReadings.after (flag : CancelReadings) (n : Nat) : CancelReadings := fun k => flag (n + k)

structure Test where
  id : String
  name : String
  root : Tree
  schedule : Schedule
  window : Interval
  season : Option Season := none
  threshold : Nat := 1
  message : Option String := none
  actions : List String := []
  groups : List ResultGroup := []
  positive : Bool := false

/-- Why a pass ended without a result. -/
inductive PassError
  | cancelled
  | mixedIntervals (testId : String) (first second : Interval)
  deriving DecidableEq, Repr

def PassError.message : PassError → String
  | .cancelled => "evaluation cancelled"
  | .mixedIntervals testId first second =>
    "test '" ++ testId ++ "' mixes sampling intervals " ++ first.text ++ " and " ++ second.text

/-- How many groups a pass forwarded, at how many instants it evaluated the tree, and how many
leaves had no data. -/
structure PassReport where
  forwarded : Nat
  steps : Nat
  degraded : Nat
  deriving DecidableEq, Repr

/-- A finished pass: the test after it, how often the cancel flag was read, and the instants at which
the tree was evaluated, in order. -/
structure Pass where
  test : Test
  result : Except PassError PassReport
  reads : Nat
  visited : List Instant := []

namespace Test

/-- Evaluates the tree at an instant and adds a group if it is truthy. -/
def run? (s : Test) (t : Instant) : Option (Test × Bool) :=
  (s.root.evaluate? t).map fun root =>
    if isTruthy root.last then
      ({ s with root, groups := s.groups ++ [root.explain s.id s.message t 0] }, true)
    else ({ s with root }, false)

def cleared (s : Test) : Test := { s with groups := [], positive := false }

def sharedInterval (id : String) : List Interval → Except PassError (Option Interval)
  | [] => .ok none
  | i :: rest =>
    match rest.find? (· ≠ i) with
    | some other => .error (.mixedIntervals id i other)
    | none => .ok (some i)

def nativeInterval (s : Test) : Except PassError (Option Interval) :=
  sharedInterval s.id (s.root.leaves.flatMap (·.boundIntervals))

/-- Where a scan stands: the test, the instants visited, the latest first, and the readings of the
flag. -/
structure Scan where
  test : Test
  visited : List Instant := []
  reads : Nat := 0
  cancelled : Bool := false

/-- Looks at the cancel flag, then runs the test at `t`, unless the flag is up. -/
def Scan.step (flag : CancelReadings) (t : Instant) (s : Scan) : Except Fault Scan :=
  if flag s.reads then
    .ok { s with test := { s.test with groups := [] }, reads := s.reads + 1, cancelled := true }
  else do
    let (test, _) ← orFault .outOfCalendar (s.test.run? t)
    return { s with test, visited := t :: s.visited, reads := s.reads + 1 }

/-- Steps from `t` to `last` by an interval. Where the interval does not move forward, the fault
`endlessScan` stands for a loop that comes to no end: it runs the test at `t` again and again, until the
cancel flag is raised. -/
def scan (flag : CancelReadings) (i : Interval) (last t : Instant) (s : Scan) : Except Fault Scan :=
  if t ≤ last then
    match s.step flag t with
    | .error e => .error e
    | .ok s' =>
      if s'.cancelled then .ok s'
      else
        match i.next? t with
        | none => .error .outOfCalendar
        | some next =>
          if t < next then scan flag i last next s' else .error .endlessScan
  else .ok s
termination_by (last.nanos + 1 - t.nanos).toNat
decreasing_by
  simp only [Instant.le_def, Instant.lt_def] at *
  omega

/-- The part of the window that lies in the season of the anchor. -/
def scanBounds (s : Test) (start anchor : Instant) : Instant × Instant :=
  match s.season.bind fun season => season.bounds? anchor with
  | none => (start, anchor)
  | some (first, last) =>
    (if start < first then first.truncate .day else start, if last < anchor then last else anchor)

def firstSlot? (i : Interval) (start : Instant) : Option Instant :=
  let t := i.align start
  if t < start then i.next? t else some t

/-- Scans the bounds on the grid of the shared interval; with no series bound the test runs once,
at the anchor, if that lies within the bounds. -/
def scanBetween (s : Test) (flag : CancelReadings) (anchor : Instant) (bounds : Instant × Instant) :
    Option Interval → Except Fault Scan
  | some i => do
    let t ← orFault .outOfCalendar (firstSlot? i bounds.1)
    scan flag i (i.align bounds.2) t { test := s }
  | none =>
    if bounds.1 ≤ anchor ∧ anchor ≤ bounds.2 then Scan.step flag anchor { test := s }
    else .ok { test := s, reads := 1, cancelled := flag 0 }

/-- Keeps the groups if there are as many as the threshold asks for. -/
def settle (s : Test) : Test :=
  if s.groups.length < s.threshold then { s with groups := [] }
  else { s with positive := !s.groups.isEmpty }

/-- One pass over the window that ends at the anchor. Every leaf is bound anew, the sample instants
are evaluated in order, and too few groups are discarded. -/
def pass (s : Test) (source : Source) (flag : CancelReadings) (anchor : Instant) :
    Except Fault Pass := do
  let start ← orFault .outOfCalendar (s.window.back? anchor)
  let (root, resolved) ← orFault .reversedWindow (s.root.resolve? source start anchor)
  let s := { s.cleared with root }
  match s.nativeInterval with
  | .error e => return { test := s, result := .error e, reads := 0 }
  | .ok interval =>
    let done ← s.scanBetween flag anchor (s.scanBounds start anchor) interval
    let visited := done.visited.reverse
    if done.cancelled then
      return { test := done.test, result := .error .cancelled, reads := done.reads, visited }
    let test := done.test.settle
    return {
      test
      result := .ok {
        forwarded := test.groups.length
        steps := visited.length
        degraded := (resolved.filter (!·)).length }
      reads := done.reads
      visited }

def inSeason (s : Test) (t : Instant) : Bool :=
  match s.season with
  | some season => season.contains t
  | none => true

def isDue? (s : Test) (t : Instant) : Option Bool := s.schedule.isDue? t

def advance? (s : Test) (t : Instant) : Option Test :=
  (s.schedule.advance? t s.positive).map fun schedule => { s with schedule }

def wildcards (s : Test) : List String := s.root.wildcards

def setWildcards (s : Test) (capture : String) : Test :=
  { s with root := s.root.setWildcards capture }

end Test
end SeriesAlarm
