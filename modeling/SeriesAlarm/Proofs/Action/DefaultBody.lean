import Mathlib
import SeriesAlarm.Action.Wording
import SeriesAlarm.Proofs.Template.Writes

/-!
# The default body

What the default template of a body writes for a list of groups: for each group the test and the instant of
its first result, then the results, each on a line of its own.
-/

namespace SeriesAlarm

open Template

namespace Wording

/-- The line of a result, two spaces deeper with each level. -/
def resultLine (r : PositiveResult) : String :=
  String.join (List.replicate r.level "  ") ++ r.message ++ "\n"

/-- The test and the instant of the first result; no test makes an empty group. -/
def headLine : ResultGroup → String
  | [] => " @ \n"
  | r :: _ => r.testId ++ " @ " ++ r.timestamp.spaced ++ "\n"

def groupLines (g : ResultGroup) : String := headLine g ++ String.join (g.map resultLine)

def resultStmts : List Stmt :=
  [.emit (.attr (.var "r") "indent"), .emit (.attr (.var "r") "message"), .text "\n"]

def groupStmts : List Stmt :=
  [.emit (.attr (.var "group") "test_id"), .text " @ ", .emit (.attr (.var "group") "timestamp"),
    .text "\n", .loop (.name "r") (.attr (.var "group") "results") none false resultStmts []]

theorem parse_defaultBody :
    parse defaultBody = some [.loop (.name "group") (.var "groups") none false groupStmts []] := by
  cbv

theorem indent_eq_join (level : Nat) : indent level = String.join (List.replicate level "  ") := by
  induction level with
  | zero => rfl
  | succ level ih =>
    rw [List.replicate_succ, String.join_cons, ← ih, indent, indent, ← String.ofList_append]
    rfl

theorem headLine_eq (g : ResultGroup) :
    headLine g = g.testId?.getD "" ++ " @ " ++ (g.timestamp?.map (·.spaced)).getD "" ++ "\n" := by
  cases g <;> rfl

variable {call : Caller} {frames : List Frame} {f : Frame}

theorem writes_resultStmts {r : PositiveResult} (h : Value.lookupName "r" f = some (resultValue r)) :
    Writes call (f :: frames) resultStmts (resultLine r) := by
  have hr : Evaluates call (f :: frames) (.var "r") (resultValue r) := evaluates_var (Run.lookupIn_cons h)
  have hindent := hr.attr (n := "indent") (Value.attr_record rfl)
  have hmessage := hr.attr (n := "message") (Value.attr_record rfl)
  have hwrites := ((writes_nil.text "\n").emit hmessage).emit hindent
  rw [resultLine, ← indent_eq_join, String.append_assoc]
  exact hwrites

theorem writes_groupStmts {g : ResultGroup} (h : Value.lookupName "group" f = some (groupValue g)) :
    Writes call (f :: frames) groupStmts (groupLines g) := by
  have hg : Evaluates call (f :: frames) (.var "group") (groupValue g) :=
    evaluates_var (Run.lookupIn_cons h)
  have htest := hg.attr (n := "test_id") (Value.attr_record rfl)
  have htime := hg.attr (n := "timestamp") (Value.attr_record rfl)
  have hresults := hg.attr (n := "results") (Value.attr_record rfl)
  have hloop : Writes call (f :: frames)
      [.loop (.name "r") (.attr (.var "group") "results") none false resultStmts []]
      (String.join (g.map resultLine) ++ "") :=
    writes_nil.loop hresults fun _ _ _ hr => writes_resultStmts hr
  have hwrites := (((hloop.text "\n").emit htime).text " @ ").emit htest
  rw [groupLines, headLine_eq]
  simp only [String.append_assoc]
  rw [String.append_empty] at hwrites
  exact hwrites

/-- The default body shows every group and every result once and in order, and nothing else: what a message
or an identifier looks like makes no difference. -/
theorem render_defaultBody (sender : Sender) (groups : List ResultGroup) (now : Instant) :
    Template.render defaultBody (frame sender groups now) =
      some (String.join (groups.map groupLines)) := by
  have hgroups : Evaluates (callTo callLimit) [[], frame sender groups now] (.var "groups")
      (.list (groups.map groupValue)) := evaluates_var rfl
  have hwrites : Writes (callTo callLimit) [[], frame sender groups now]
      [.loop (.name "group") (.var "groups") none false groupStmts []]
      (String.join (groups.map groupLines) ++ "") :=
    writes_nil.loop hgroups fun _ _ _ hg => writes_groupStmts hg
  rw [String.append_empty] at hwrites
  exact render_of_writes parse_defaultBody hwrites

end Wording
end SeriesAlarm
