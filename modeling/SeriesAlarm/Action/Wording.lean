import SeriesAlarm.Delivery.Notification
import SeriesAlarm.Expr.Explain
import SeriesAlarm.Template.Eval

/-!
# The wording of notifications

The templates of a subject and a body, and the variables they are rendered with.
-/

namespace SeriesAlarm

open Template (Value Frame)

structure Wording where
  subject : String
  body : String
  deriving DecidableEq, Repr

namespace Wording

def defaultSubject : String :=
  "\x7b% if action.severity %\x7d[\x7b\x7b action.severity | upper \x7d\x7d] \x7b% endif %\x7d" ++
    "\x7b\x7b action.name \x7d\x7d: \x7b\x7b count \x7d\x7d positive result group(s)"

/-- A line for each group and one for each of its results, two spaces deeper with each level. -/
def defaultBody : String :=
  "\x7b% for group in groups %\x7d\x7b\x7b group.test_id \x7d\x7d @ \x7b\x7b group.timestamp \x7d\x7d\n" ++
    "\x7b% for r in group.results %\x7d\x7b\x7b r.indent \x7d\x7d\x7b\x7b r.message \x7d\x7d\n" ++
    "\x7b% endfor %\x7d\x7b% endfor %\x7d"

def default : Wording := { subject := defaultSubject, body := defaultBody }

def isValid (w : Wording) : Bool := Template.isValid w.subject && Template.isValid w.body

/-- What the templates know of the action. -/
structure Sender where
  id : String
  name : String
  severity : Option Severity := none
  deriving DecidableEq, Repr

def Sender.value (s : Sender) : Value :=
  .record [("id", .str s.id), ("name", .str s.name),
    ("severity", (s.severity.map fun v => Value.str v.name).getD .null)]

def indent (level : Nat) : String := String.ofList (List.replicate (2 * level) ' ')

def resultValue (r : PositiveResult) : Value :=
  .record [("level", .int r.level), ("indent", .str (indent r.level)), ("message", .str r.message),
    ("left_value", .float r.leftValue), ("right_value", .float r.rightValue),
    ("timestamp", .str r.timestamp.spaced)]

def groupValue (g : ResultGroup) : Value :=
  .record [("test_id", .str (g.testId?.getD "")),
    ("timestamp", .str ((g.timestamp?.map (·.spaced)).getD "")),
    ("results", .list (g.map resultValue))]

def frame (sender : Sender) (groups : List ResultGroup) (now : Instant) : Frame :=
  [("action", sender.value), ("groups", .list (groups.map groupValue)),
    ("count", .int groups.length), ("now", .str now.spaced)]

/-- The facts that go with the text; the tests are named once each, in order. -/
def facts (sender : Sender) (groups : List ResultGroup) : List (String × String) :=
  let tests := sortedNames (groups.filterMap (·.testId?))
  let severity := match sender.severity with
    | some v => [("severity", v.name)]
    | none => []
  [("action_id", sender.id), ("groups", Nat.repr groups.length)] ++ severity ++
    [("test_ids", ",".intercalate tests)]

/-- The notification of groups; nothing if a template cannot be rendered. -/
def render (w : Wording) (sender : Sender) (groups : List ResultGroup) (now : Instant) :
    Option Notification := do
  let frame := Wording.frame sender groups now
  let subject ← Template.render w.subject frame
  let body ← Template.render w.body frame
  return { subject, body, metadata := facts sender groups }

theorem metadata_render {w : Wording} {sender : Sender} {groups : List ResultGroup} {now : Instant}
    {n : Notification} (h : w.render sender groups now = some n) :
    n.metadata = facts sender groups := by
  simp only [render, Option.bind_eq_bind, Option.bind_eq_some_iff, Option.pure_def,
    Option.some.injEq] at h
  obtain ⟨subject, -, body, -, rfl⟩ := h
  rfl

theorem groupsFact_render {w : Wording} {sender : Sender} {groups : List ResultGroup} {now : Instant}
    {n : Notification} (h : w.render sender groups now = some n) :
    n.fact? "groups" = some (Nat.repr groups.length) := by
  rw [Notification.fact?, metadata_render h]
  rfl

end Wording
end SeriesAlarm
