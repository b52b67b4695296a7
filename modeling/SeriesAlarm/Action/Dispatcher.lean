import SeriesAlarm.Action.Basic

/-!
# Dispatching

The actions by id, and a run of those that are due. Each action is run by itself, so a failure of
one does not reach the others.
-/

namespace SeriesAlarm

/-- The outcome of an action that was due. -/
structure DispatchResult where
  actionId : String
  channel : String
  groups : Nat
  success : Bool
  deriving DecidableEq, Repr

/-- Actions sorted by id, one for each. -/
abbrev Dispatcher := List Action

namespace Dispatcher

def find? (d : Dispatcher) (id : String) : Option Action := List.find? (fun a => a.id == id) d

/-- Adds an action at its place, instead of one with its id. -/
def set (d : Dispatcher) (a : Action) : Dispatcher :=
  match d with
  | [] => [a]
  | b :: bs =>
    if a.id < b.id then a :: b :: bs
    else if a.id = b.id then a :: bs
    else b :: set bs a

def ofActions (all : List Action) : Dispatcher := all.foldl set []

def modify (d : Dispatcher) (id : String) (f : Action → Action) : Dispatcher :=
  d.map fun a => if a.id = id then f a else a

def forward (d : Dispatcher) (id : String) (g : ResultGroup) : Dispatcher :=
  d.modify id fun a => a.addResults g

/-- Hands each group, in order, to each of the actions of a test. -/
def forwardAll (d : Dispatcher) (ids : List String) (groups : List ResultGroup) : Dispatcher :=
  groups.foldl (fun d g => ids.foldl (fun d id => d.forward id g) d) d

@[simp] theorem forwardAll_nil (d : Dispatcher) (ids : List String) : d.forwardAll ids [] = d := rfl

/-- What running one action came to. -/
structure Step where
  action : Action
  result : Option DispatchResult := none
  offered : Option Notification := none
  sent : Option Notification := none

/-- Runs an action if it is active and due, and sets its next run. -/
def runOne (attempts : Attempts) (t : Instant) (a : Action) : Except Fault Step := do
  if !a.active then return { action := a }
  if !(← orFault .outOfCalendar (a.isDue? t)) then return { action := a }
  let done ← a.run attempts t none
  let action ← orFault .outOfCalendar (done.action.advance? t)
  return {
    action
    result := some {
      actionId := a.id
      channel := a.channel.name
      groups := a.buffered.length
      success := done.ok }
    offered := done.offered
    sent := done.sent }

/-- Runs every action that is due, in the order of their ids. -/
def runDue (d : Dispatcher) (attempts : Attempts) (t : Instant) : Except Fault (List Step) :=
  d.mapM (runOne attempts t)

def after (steps : List Step) : Dispatcher := steps.map (·.action)

def results (steps : List Step) : List DispatchResult := steps.filterMap (·.result)

def deliveries (steps : List Step) : List (Action × Notification) :=
  steps.filterMap fun s => s.sent.map fun n => (s.action, n)

end Dispatcher
end SeriesAlarm
