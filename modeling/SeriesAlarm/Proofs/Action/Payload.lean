import SeriesAlarm.Rule.RuleSet
import SeriesAlarm.Proofs.Text.Names
import SeriesAlarm.Proofs.Text.Written

/-!
# What a payload tells

The ids of the tests go into a notification as one text with commas, and the payload takes that text
apart again. So it names the tests of the groups unless an id is empty or has a comma; what else it
tells of the action is right in any case.
-/

namespace SeriesAlarm

/-- The alarm is that of the groups: it names each test that they are of once, in order. -/
structure Alarm.Tells (alarm : Alarm) (sender : Wording.Sender) (groups : List ResultGroup) :
    Prop where
  action : alarm.actionId = sender.id
  severity : alarm.severity = sender.severity.map (·.name)
  count : alarm.groups = groups.length
  sorted : alarm.testIds.Pairwise (· < ·)
  tests : ∀ id, id ∈ alarm.testIds ↔ ∃ g ∈ groups, g.testId? = some id

namespace Wording

variable {w : Wording} {sender : Sender} {groups : List ResultGroup} {now : Instant}
  {n : Notification}

def testIds (groups : List ResultGroup) : List String := sortedNames (groups.filterMap (·.testId?))

theorem mem_testIds {id : String} : id ∈ testIds groups ↔ ∃ g ∈ groups, g.testId? = some id := by
  rw [testIds, mem_sortedNames, List.mem_filterMap]

theorem forall_testIds_iff {P : String → Prop} :
    (∀ id ∈ testIds groups, P id) ↔ ∀ g ∈ groups, ∀ id, g.testId? = some id → P id := by
  simp only [mem_testIds, forall_exists_index, and_imp]
  exact ⟨fun h g hg id hid => h id g hg hid, fun h id g hg hid => h g hg id hid⟩

theorem facts_eq (sender : Sender) (groups : List ResultGroup) :
    facts sender groups = [("action_id", sender.id), ("groups", Nat.repr groups.length)] ++
      (sender.severity.map fun v => ("severity", v.name)).toList ++
      [("test_ids", ",".intercalate (testIds groups))] := by
  unfold facts testIds
  cases sender.severity <;> rfl

/-- What is read back of an action and its groups: commas take the ids of the tests apart. -/
def Sender.alarm (s : Sender) (groups : List ResultGroup) (n : Notification) : Alarm where
  actionId := s.id
  severity := s.severity.map (·.name)
  testIds := (testIds groups).flatMap Notification.listOf
  groups := groups.length
  subject := n.subject
  body := n.body

theorem alarm_render (rendered : w.render sender groups now = some n)
    (short : groups.length < wordSize 64) : n.alarm = sender.alarm groups n := by
  have hfacts := (metadata_render rendered).trans (facts_eq sender groups)
  have haction : n.fact? "action_id" = some sender.id := by
    rw [Notification.fact?, hfacts]
    rfl
  have hseverity : n.fact? "severity" = sender.severity.map (·.name) := by
    rw [Notification.fact?, hfacts]
    cases sender.severity <;> rfl
  have htests : n.fact? "test_ids" = some (",".intercalate (testIds groups)) := by
    rw [Notification.fact?, hfacts]
    cases sender.severity <;> rfl
  rw [Notification.alarm, haction, groupsFact_render rendered, hseverity, htests]
  simp only [Option.getD_some, Notification.countOf_repr short, Notification.listOf_intercalate,
    Sender.alarm]

/-- A payload gives the id and the severity of its action, how many groups there are, and each part
that commas make of the ids of their tests. It names these tests exactly if no id is empty or has a
comma. -/
theorem alarm_tells_iff (rendered : w.render sender groups now = some n)
    (short : groups.length < wordSize 64) :
    n.payload = (sender.alarm groups n).json ∧
    (n.alarm.Tells sender groups ↔
      ∀ g ∈ groups, ∀ id, g.testId? = some id → id ≠ "" ∧ ',' ∉ id.toList) := by
  have halarm := alarm_render rendered short
  refine ⟨congrArg Alarm.json halarm, ?_⟩
  have hparts : n.alarm.testIds = Notification.listOf (",".intercalate (testIds groups)) := by
    rw [halarm, Sender.alarm, Notification.listOf_intercalate]
  rw [← forall_testIds_iff, ← Notification.listOf_intercalate_iff, ← hparts]
  constructor
  · intro h
    exact h.sorted.eq_of_mem_iff (sorted_sortedNames _) fun id => (h.tests id).trans mem_testIds.symm
  · intro h
    have htold : n.alarm.actionId = sender.id ∧ n.alarm.severity = sender.severity.map (·.name) ∧
        n.alarm.groups = groups.length := by
      rw [halarm]
      exact ⟨rfl, rfl, rfl⟩
    exact ⟨htold.1, htold.2.1, htold.2.2, h ▸ sorted_sortedNames _, fun id => h ▸ mem_testIds⟩

def plain : Wording := { subject := "Alarm", body := "See the log." }

def crew : Sender := { id := "ops", name := "Ops log", severity := some .critical }

def positiveTest (id : String) : TestDocument where
  apiVersion := "v1"
  metadata := { id, name := id }
  schedule := { baseTime := "00:00", interval := "1d" }
  window := "1d"
  formula := .operation .greaterThan (.constant 1 none) (.constant 0 none) none

/-- The groups of a pass of such a test, and the notification of them. -/
def told? (id : String) : Option (List ResultGroup × Notification) := do
  let now := Instant.ofDate ⟨2005, 10, 1⟩ 21600
  let s ← ((positiveTest id).build []).toOption
  let p ← (s.pass (.ofSeries [] [] false) (fun _ => false) now).toOption
  let n ← plain.render crew p.test.groups now
  return (p.test.groups, n)

theorem exists_of_told?_eq_some {id : String} {groups : List ResultGroup} {n : Notification}
    (h : told? id = some (groups, n)) : ∃ now, plain.render crew groups now = some n := by
  simp only [told?, Option.bind_eq_bind, Option.bind_eq_some_iff, Option.pure_def,
    Option.some.injEq, Prod.mk.injEq] at h
  obtain ⟨s, -, p, -, n', hn, hgroups, hnotification⟩ := h
  exact ⟨_, hgroups ▸ hnotification ▸ hn⟩

theorem alarm_tells_iff_north : ∃ groups n, told? "north" = some (groups, n) ∧
    groups.map (·.testId?) = [some "north"] ∧ n.alarm.Tells crew groups := by
  have hshown : (told? "north").map (fun x => x.1.map (·.testId?)) = some [some "north"] := by
    decide +kernel
  obtain ⟨⟨groups, n⟩, htold, hids⟩ := Option.map_eq_some_iff.mp hshown
  obtain ⟨now, hn⟩ := exists_of_told?_eq_some htold
  have hlength : groups.length = 1 := by simpa using congrArg List.length hids
  have hshort : groups.length < wordSize 64 := by rw [hlength]; decide
  refine ⟨groups, n, htold, hids, (alarm_tells_iff hn hshort).2.mpr fun g hg id hid => ?_⟩
  have hmem : some id ∈ groups.map (·.testId?) := List.mem_map.mpr ⟨g, hg, hid⟩
  rw [hids, List.mem_singleton, Option.some.injEq] at hmem
  subst hmem
  decide

/-- One test whose id has a comma is told as two. -/
theorem not_tells_northSouth : ∃ groups n, told? "north,south" = some (groups, n) ∧
    groups.map (·.testId?) = [some "north,south"] ∧ n.alarm.testIds = ["north", "south"] ∧
    ¬ n.alarm.Tells crew groups := by
  have hshown : (told? "north,south").map (fun x => (x.1.map (·.testId?), x.2.alarm.testIds)) =
      some ([some "north,south"], ["north", "south"]) := by decide +kernel
  obtain ⟨⟨groups, n⟩, htold, hids⟩ := Option.map_eq_some_iff.mp hshown
  rw [Prod.mk.injEq] at hids
  refine ⟨groups, n, htold, hids.1, hids.2, fun h => ?_⟩
  obtain ⟨g, hg, hid⟩ := (h.tests "north").mp (hids.2 ▸ List.mem_cons_self)
  have hmem : some "north" ∈ groups.map (·.testId?) := List.mem_map.mpr ⟨g, hg, hid⟩
  rw [hids.1] at hmem
  exact absurd hmem (by decide)

end Wording
end SeriesAlarm
