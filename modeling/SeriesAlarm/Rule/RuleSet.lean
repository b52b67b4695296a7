import SeriesAlarm.Action.Dispatcher
import SeriesAlarm.Document.Basic

/-!
# Rule sets

Tests and actions built from documents. A document is built as a whole or not at all; what stops it
is reported with the path of the field.
-/

namespace SeriesAlarm

inductive BuildProblem
  | interval (cause : IntervalError)
  | pattern (cause : PatternError)
  | season (cause : SeasonError)
  | positiveIntervalOfAction
  | constantAsFunction
  | missingValueNotFinite
  | leaf (cause : LeafError)
  | constantNotFinite (x : String)
  | rootNotOperator
  | delivery (cause : DeliveryError)
  | wording
  | thresholdZero
  | unknownAction (id : String)
  deriving DecidableEq, Repr

def parseProblem (message : String) : String := "Parse error: " ++ message

def BuildProblem.message : BuildProblem → String
  | .interval cause => parseProblem cause.message
  | .pattern cause | .season (.pattern cause) => parseProblem cause.message
  | .season cause => cause.message
  | .positiveIntervalOfAction => "only tests reschedule on positive passes"
  | .constantAsFunction => "use `constant: <value>` for constants"
  | .missingValueNotFinite => "missing_value must be a finite number"
  | .leaf cause => cause.message
  | .constantNotFinite x => "constant must be finite, got " ++ x
  | .rootNotOperator => "the root must be an operator node (op/left/right)"
  | .delivery cause => cause.message
  | .wording => DeliveryError.template.message
  | .thresholdZero => "must be at least 1"
  | .unknownAction id => "unknown action '" ++ id ++ "'"

/-- A problem at the path of a field. -/
structure BuildError where
  path : String
  problem : BuildProblem
  deriving DecidableEq, Repr

def BuildError.message (e : BuildError) : String :=
  "Validation error: " ++ e.path ++ ": " ++ e.problem.message

def atField {α ε : Type} (path : String) (problem : ε → BuildProblem) (r : Except ε α) :
    Except BuildError α :=
  r.mapError fun e => { path, problem := problem e }

def buildInterval (path text : String) : Except BuildError Interval :=
  atField path .interval (Interval.parse text)

namespace ScheduleEntry

/-- The schedule of a test; one of an action has no positive interval. -/
def build (s : ScheduleEntry) (positiveAllowed : Bool) : Except BuildError Schedule := do
  let base ← atField "schedule.base_time" .pattern (TimePattern.parse s.baseTime s.baseTimeFormat)
  let interval ← buildInterval "schedule.interval" s.interval
  match s.positiveInterval with
  | none => return { base, interval }
  | some text =>
    if positiveAllowed then
      let positive ← buildInterval "schedule.positive_interval" text
      return { base, interval, positiveInterval := some positive }
    else
      throw { path := "schedule.positive_interval", problem := .positiveIntervalOfAction }

end ScheduleEntry

namespace Formula

/-- The tree of a formula, whose path is extended by `left` and `right`; the leftmost leaf that is
not valid is reported. -/
def build (path : String) : Formula → Except BuildError Tree
  | .operation op left right message => do
    let left ← left.build (path ++ ".left")
    let right ← right.build (path ++ ".right")
    return .ofOperator op left right message
  | .function kind args message missingValue =>
    if kind = .constant then .error { path, problem := .constantAsFunction }
    else if missingValue.any fun x => !x.isFinite then
      .error { path, problem := .missingValueNotFinite }
    else
      (atField path .leaf (Leaf.ofInputs kind args)).map fun f =>
        .leaf { f with message, missingValue }
  | .constant x message =>
    if x.isFinite then .ok (.leaf { Leaf.ofConstant x with message })
    else .error { path, problem := .constantNotFinite (Decimal.plain x) }

/-- The tree of a test, which must have an operator at its root. -/
def buildRoot (f : Formula) : Except BuildError Tree := do
  let e ← f.build "expression"
  if e.isNode then return e else throw { path := "expression", problem := .rootNotOperator }

end Formula

namespace DeliveryEntry

def build (env : Environment) : DeliveryEntry → Except BuildError Channel
  | .log => .ok .log
  | .webhook url method headers =>
    (atField "delivery" (fun e => .delivery (.config e.message))
      (Webhook.ofConfig env url method (headers.getD []))).map .webhook
  | .process command args timeoutSeconds => do
    let hook ← atField "delivery" .delivery (Hook.ofConfig command args)
    return .hook { hook with timeout := (timeoutSeconds.map (1000 * ·)).getD hook.timeout }

end DeliveryEntry

namespace ActionDocument

def wording (d : ActionDocument) : Wording where
  subject := d.subject.getD Wording.defaultSubject
  body := d.body.getD Wording.defaultBody

def build (env : Environment) (d : ActionDocument) : Except BuildError Action := do
  let schedule ← d.schedule.build false
  let retention ← buildInterval "retention" d.retention
  let channel ← d.delivery.build env
  if !d.wording.isValid then throw { path := "templates", problem := .wording }
  return {
    id := d.metadata.id
    name := d.metadata.name
    active := d.active
    schedule
    cutoff := d.cutoff
    retention
    severity := d.severity
    wording := d.wording
    channel }

end ActionDocument

namespace TestDocument

def checkActions (known : Dispatcher) : Nat → List String → Except BuildError Unit
  | _, [] => .ok ()
  | i, id :: ids =>
    if (known.find? id).isSome then checkActions known (i + 1) ids
    else .error { path := "actions[" ++ Nat.repr i ++ "]", problem := .unknownAction id }

def buildSeason (s : SeasonEntry) : Except BuildError Season :=
  atField "season" .season (Season.parse s.start s.finish s.format)

def build (known : Dispatcher) (d : TestDocument) : Except BuildError Test := do
  let root ← d.formula.buildRoot
  let schedule ← d.schedule.build true
  let window ← buildInterval "evaluation_window" d.window
  let season ← d.season.mapM buildSeason
  if d.threshold = 0 then throw { path := "positive_count_threshold", problem := .thresholdZero }
  checkActions known 0 d.actions
  return {
    id := d.metadata.id
    name := d.metadata.name
    root
    schedule
    window
    season
    threshold := d.threshold
    message := d.message
    actions := d.actions }

end TestDocument

/-- The tests sorted by id, the actions, and why documents could not be built, by id. -/
structure RuleSet where
  tests : List Test := []
  actions : Dispatcher := []
  errors : List (String × BuildError) := []

namespace RuleSet

def addError (set : RuleSet) (id : String) (e : BuildError) : RuleSet :=
  { set with errors := (id, e) :: set.errors.filter fun x => x.1 ≠ id }

def addAction (env : Environment) (set : RuleSet) (d : ActionDocument) : RuleSet :=
  match d.build env with
  | .ok a => { set with actions := set.actions.set a }
  | .error e => set.addError d.metadata.id e

def addTest (set : RuleSet) (d : TestDocument) : RuleSet :=
  match d.build set.actions with
  | .ok s => { set with tests := set.tests ++ [s] }
  | .error e => set.addError d.metadata.id e

def enabledActions (ds : List Document) : List ActionDocument :=
  ds.filterMap fun d => match d with
    | .action a => if a.metadata.enabled then some a else none
    | .test _ => none

def enabledTests (ds : List Document) : List TestDocument :=
  ds.filterMap fun d => match d with
    | .test t => if t.metadata.enabled then some t else none
    | .action _ => none

/-- Builds every enabled document: the actions first, so that tests can name them, then the tests by
id. -/
def ofDocuments (env : Environment) (ds : List Document) : RuleSet :=
  let withActions := (enabledActions ds).foldl (addAction env) {}
  let tests := (enabledTests ds).mergeSort fun s t => decide (s.metadata.id ≤ t.metadata.id)
  tests.foldl addTest withActions

end RuleSet
end SeriesAlarm
