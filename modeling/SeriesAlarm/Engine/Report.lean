import SeriesAlarm.Engine.Basic
import SeriesAlarm.Json.Value

/-!
# Written reports

A report as a JSON value. How long deliveries took is not part of it.
-/

namespace SeriesAlarm

def DispatchResult.json (r : DispatchResult) : Json :=
  .object [("action_id", .string r.actionId), ("channel", .string r.channel),
    ("groups", .int r.groups), ("success", .bool r.success)]

def TickReport.json (r : TickReport) : Json :=
  .object [("tests_run", .int r.testsRun), ("out_of_season", .int r.outOfSeason),
    ("positive", .int r.positive), ("groups_forwarded", .int r.groupsForwarded),
    ("failures", .array (r.failures.map fun f => .array [.string f.1, .string f.2.message])),
    ("deliveries", .array (r.deliveries.map DispatchResult.json)),
    ("cancelled", .bool r.cancelled)]

end SeriesAlarm
