import SeriesAlarm.Rule.RuleSet
import SeriesAlarm.Rule.Wildcard

/-!
# The engine

Tests and actions driven by a clock. A tick runs the tests that are in season and due, then the
actions that are due. A failing test or action does not stop the others.
-/

namespace SeriesAlarm

/-- What a tick did. -/
structure TickReport where
  testsRun : Nat := 0
  outOfSeason : Nat := 0
  positive : Nat := 0
  groupsForwarded : Nat := 0
  failures : List (String × PassError) := []
  deliveries : List DispatchResult := []
  cancelled : Bool := false
  deriving DecidableEq, Repr

/-- Runs a pass and hands its groups to the actions of the test, unless it failed. -/
def Test.runPass (s : Test) (source : Source) (flag : CancelReadings) (anchor : Instant)
    (d : Dispatcher) : Except Fault (Pass × Dispatcher) := do
  let pass ← s.pass source flag anchor
  match pass.result with
  | .error _ => return (pass, d)
  | .ok _ => return (pass, d.forwardAll s.actions pass.test.groups)

structure Engine where
  tests : List Test
  actions : Dispatcher

/-- A finished tick, with the notifications that were delivered. -/
structure Tick where
  engine : Engine
  report : TickReport
  sent : List (Action × Notification) := []

namespace Engine

/-- The engine of a rule set, wildcards replaced by what the source knows now. -/
def ofRuleSet (set : RuleSet) (source : Source) : Engine where
  tests := Wildcard.expandAll set.tests source.identifiers
  actions := set.actions

def intervals (e : Engine) : List Interval :=
  e.tests.flatMap fun s => s.schedule.interval :: s.schedule.positiveInterval.toList

/-- The first of the intervals with the least nominal length. -/
def leastInterval : List Interval → Option Interval
  | [] => none
  | i :: is =>
    match leastInterval is with
    | none => some i
    | some j => some (if i.nominalSeconds ≤ j.nominalSeconds then i else j)

def finestInterval (e : Engine) : Option Interval := leastInterval e.intervals

def testById? (e : Engine) (id : String) : Option Test := e.tests.reverse.find? fun s => s.id == id

def keepTest (e : Engine) (s : Test) : Test :=
  match e.testById? s.id with
  | some old => { s with schedule := { s.schedule with nextRun := old.schedule.nextRun } }
  | none => s

/-- An action of a new rule set keeps the next run and the groups of the action with its id. -/
def keepAction (e : Engine) (a : Action) : Action :=
  match e.actions.find? a.id with
  | some old =>
    old.buffered.foldl Action.addResults
      { a with schedule := { a.schedule with nextRun := old.schedule.nextRun } }
  | none => a

def reload (e : Engine) (set : RuleSet) (source : Source) : Engine where
  tests := (Wildcard.expandAll set.tests source.identifiers).map e.keepTest
  actions := set.actions.map e.keepAction

/-- Where a tick stands: the tests that were looked at, the actions with what these forwarded, the
report, and how often the cancel flag was read. -/
structure Progress where
  done : List Test := []
  actions : Dispatcher
  report : TickReport := {}
  reads : Nat := 0

namespace Progress

def note (r : TickReport) (id : String) : Except PassError PassReport → TickReport
  | .ok p =>
    if 0 < p.forwarded then
      { r with positive := r.positive + 1, groupsForwarded := r.groupsForwarded + p.forwarded }
    else r
  | .error e => { r with failures := r.failures ++ [(id, e)] }

def keep (p : Progress) (s : Test) : Progress := { p with done := p.done ++ [s] }

/-- Takes up one test: the flag is read first, and a test out of season or not due is left as it
is. -/
def take (source : Source) (flag : CancelReadings) (now : Instant) (p : Progress) (s : Test) :
    Except Fault Progress := do
  if p.report.cancelled then return p.keep s
  let raised := flag p.reads
  let p := { p with reads := p.reads + 1 }
  if raised then return { p.keep s with report := { p.report with cancelled := true } }
  if !s.inSeason now then
    return { p.keep s with report := { p.report with outOfSeason := p.report.outOfSeason + 1 } }
  if !(← orFault .outOfCalendar (s.isDue? now)) then return p.keep s
  let report := { p.report with testsRun := p.report.testsRun + 1 }
  let (pass, actions) ← s.runPass source (flag.after p.reads) now p.actions
  let p := { p with actions, reads := p.reads + pass.reads }
  match pass.result with
  | .error .cancelled =>
    return { p.keep pass.test with report := { report with cancelled := true } }
  | result =>
    let next ← orFault .outOfCalendar (pass.test.advance? now)
    return { p.keep next with report := note report s.id result }

end Progress

/-- Runs everything that is due at `now`. A raised cancel flag ends the tick before any delivery. -/
def tick (e : Engine) (source : Source) (flag : CancelReadings) (attempts : Attempts)
    (now : Instant) : Except Fault Tick := do
  let p ← e.tests.foldlM (Progress.take source flag now) { actions := e.actions }
  if p.report.cancelled then
    return { engine := { tests := p.done, actions := p.actions }, report := p.report }
  let ran ← p.actions.runDue attempts now
  return {
    engine := { tests := p.done, actions := Dispatcher.after ran }
    report := { p.report with deliveries := Dispatcher.results ran }
    sent := Dispatcher.deliveries ran }

end Engine
end SeriesAlarm
