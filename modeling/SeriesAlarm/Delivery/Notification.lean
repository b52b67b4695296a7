import SeriesAlarm.Json.Value
import SeriesAlarm.Text.Digits
import SeriesAlarm.Text.Replace
import SeriesAlarm.Width

/-!
# Notifications

A rendered text with the facts that go with it, and the two JSON forms in which it leaves the
program.
-/

namespace SeriesAlarm

open Text

inductive Severity
  | info | warning | critical
  deriving DecidableEq, Repr, Inhabited

namespace Severity

def all : List Severity := [.info, .warning, .critical]

def name : Severity → String
  | .info => "info"
  | .warning => "warning"
  | .critical => "critical"

def ofText? (s : String) : Option Severity := all.find? fun v => v.name == s

theorem ofText?_name (v : Severity) : ofText? v.name = some v := by cases v <;> decide

end Severity

structure Notification where
  subject : String
  body : String
  metadata : List (String × String)
  deriving DecidableEq, Repr

/-- What is posted to an address: the action that sends it, the tests behind it and how many groups
there are. -/
structure Alarm where
  actionId : String
  severity : Option String
  testIds : List String
  groups : Nat
  subject : String
  body : String
  deriving DecidableEq, Repr

def Alarm.json (a : Alarm) : Json :=
  let severity := match a.severity with
    | some s => [("severity", Json.string s)]
    | none => []
  .object ([("action_id", .string a.actionId)] ++ severity ++
    [("test_ids", .array (a.testIds.map .string)), ("groups", .int a.groups),
      ("subject", .string a.subject), ("body", .string a.body)])

namespace Notification

def fact? (n : Notification) (key : String) : Option String :=
  (n.metadata.find? fun m => m.1 == key).map (·.2)

def json (n : Notification) : Json :=
  .object [("subject", .string n.subject), ("body", .string n.body),
    ("metadata", .object (n.metadata.map fun m => (m.1, .string m.2)))]

/-- A count of 64 bits; a text that is none counts as zero. -/
def countOf (s : String) : Nat :=
  match plusDigits? s.toList with
  | some n => if n < wordSize 64 then n else 0
  | none => 0

def listOf (s : String) : List String :=
  ((splitOnChar ',' s.toList).filter (· ≠ [])).map String.ofList

/-- What a notification says of the alarm behind it; what it does not say is left empty. -/
def alarm (n : Notification) : Alarm where
  actionId := (n.fact? "action_id").getD ""
  severity := n.fact? "severity"
  testIds := listOf ((n.fact? "test_ids").getD "")
  groups := countOf ((n.fact? "groups").getD "")
  subject := n.subject
  body := n.body

def payload (n : Notification) : Json := n.alarm.json

end Notification
end SeriesAlarm
