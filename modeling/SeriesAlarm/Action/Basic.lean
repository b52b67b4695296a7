import SeriesAlarm.Action.Wording
import SeriesAlarm.Delivery.Channel
import SeriesAlarm.Rule.Test

/-!
# Actions

An action keeps the groups that tests forward to it until a run of it delivers them, or until they
are older than its retention. `Action.run` is one run; whether the attempt to deliver succeeds is
given to it.
-/

namespace SeriesAlarm

/-- Results above the `cutoff` level are not kept. -/
structure Action where
  id : String
  name : String
  active : Bool := true
  schedule : Schedule
  cutoff : Option Nat := none
  retention : Interval
  severity : Option Severity := none
  wording : Wording := .default
  channel : Channel
  buffered : List ResultGroup := []

/-- The outcome of each attempt to deliver a notification of an action. -/
abbrev Attempts := Action → Notification → Bool

/-- One run of an action: the action after it, whether it ended well, what was handed to the channel,
and what the channel delivered. -/
structure ActionRun where
  action : Action
  ok : Bool
  offered : Option Notification := none
  sent : Option Notification := none

namespace Action

def keeps (a : Action) (r : PositiveResult) : Bool := a.cutoff.all (r.level ≤ ·)

/-- Appends the results that are kept, as one group, unless none is. -/
def addResults (a : Action) (g : ResultGroup) : Action :=
  let kept := g.filter a.keeps
  if kept.isEmpty then a else { a with buffered := a.buffered ++ [kept] }

@[simp] theorem addResults_id (a : Action) (g : ResultGroup) : (a.addResults g).id = a.id := by
  simp only [addResults]; split <;> rfl

/-- The instant before which groups have expired. -/
def expiry? (a : Action) (t : Instant) : Option Instant := a.retention.back? t

def isFresh (expiry : Instant) (g : ResultGroup) : Bool := g.timestamp?.any (expiry ≤ ·)

/-- Drops the groups whose first result is older than the retention. -/
def expire? (a : Action) (t : Instant) : Option Action :=
  (a.expiry? t).map fun expiry => { a with buffered := a.buffered.filter (isFresh expiry) }

def isSelected (testId : Option String) (g : ResultGroup) : Bool :=
  testId.all fun id => g.testId? == some id

def sender (a : Action) : Wording.Sender := { id := a.id, name := a.name, severity := a.severity }

/-- The positions of the groups of one test, or of all of them. -/
def selectedAt (testId : Option String) (groups : List ResultGroup) : List Nat :=
  (groups.zipIdx.filter fun x => isSelected testId x.1).map (·.2)

theorem mem_selectedAt {testId : Option String} {groups : List ResultGroup} {i : Nat} :
    i ∈ selectedAt testId groups ↔ ∃ g, groups[i]? = some g ∧ isSelected testId g = true := by
  simp [selectedAt, List.mem_zipIdx_iff_getElem?]

def groupsAt (positions : List Nat) (groups : List ResultGroup) : List ResultGroup :=
  positions.filterMap (groups[·]?)

def groupsBeside (positions : List Nat) (groups : List ResultGroup) : List ResultGroup :=
  (groups.zipIdx.filter fun x => !positions.contains x.2).map (·.1)

/-- Offers the chosen groups to the channel in one notification. They leave the buffer to the others if
it is delivered. -/
def release (a : Action) (attempts : Attempts) (t : Instant) (chosen others : List ResultGroup) :
    ActionRun :=
  match a.wording.render a.sender chosen t with
  | none => { action := a, ok := false }
  | some n =>
    if attempts a n then
      { action := { a with buffered := others }, ok := true, offered := some n, sent := some n }
    else { action := a, ok := false, offered := some n }

/-- Expires old groups, then delivers those of one test or all of them in one notification. With none
to deliver the run is a success. -/
def run (a : Action) (attempts : Attempts) (t : Instant) (testId : Option String) :
    Except Fault ActionRun := do
  let a ← orFault .outOfCalendar (a.expire? t)
  let positions := selectedAt testId a.buffered
  if positions.isEmpty then return { action := a, ok := true }
  return a.release attempts t (groupsAt positions a.buffered) (groupsBeside positions a.buffered)

def isDue? (a : Action) (t : Instant) : Option Bool := a.schedule.isDue? t

def advance? (a : Action) (t : Instant) : Option Action :=
  (a.schedule.advance? t false).map fun schedule => { a with schedule }

def describedChar (c : Char) : List Char :=
  match c with
  | '"' => ['\\', '"']
  | '\\' => ['\\', '\\']
  | '\n' => ['\\', 'n']
  | '\r' => ['\\', 'r']
  | '\t' => ['\\', 't']
  | c => if c.toNat = 0 then ['\\', '0'] else [c]

def described (s : String) : String :=
  "\"" ++ String.ofList (s.toList.flatMap describedChar) ++ "\""

def describe (a : Action) : String :=
  "Action \x7b id: " ++ described a.id ++ ", active: " ++ (if a.active then "true" else "false") ++
    ", channel: " ++ described a.channel.name ++ ", buffered: " ++ Nat.repr a.buffered.length ++
    " \x7d"

end Action
end SeriesAlarm
