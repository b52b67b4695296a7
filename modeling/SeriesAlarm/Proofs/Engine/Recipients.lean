import SeriesAlarm.Proofs.Engine.AllOrNothing
import SeriesAlarm.Proofs.Rule.Built

/-!
# Who gets a group, and how often

A pass hands each group to the actions that the document of its test lists, one entry after the other.
So an action gets a group as often as it is listed, and each action gets each group once if the list
names none twice.
-/

namespace SeriesAlarm

namespace Dispatcher

variable {before : Dispatcher} {ids : List String} {groups : List ResultGroup}

/-- The buffers of the actions with these ids grow by `n` groups, and no other action changes. -/
def GrowsBy (ids : List String) (n : Nat) (before after : Dispatcher) : Prop :=
  List.Forall₂ (fun a a' => (a.id ∈ ids → ∃ more : List ResultGroup, more.length = n ∧
      a' = a.receive more) ∧ (a.id ∉ ids → a' = a)) before after

theorem length_share (hgroups : ∀ g ∈ groups, ∃ test t, g.Explains test t) (a : Action) :
    (share ids groups a).length = groups.length * ids.count a.id := by
  simp [share_of_explains hgroups]

/-- Handing on adds to every buffer as many copies of each group as its action is listed. -/
theorem growsBy_forwardAll_iff (hgroups : ∀ g ∈ groups, ∃ test t, g.Explains test t)
    (hids : ∀ id ∈ ids, id ∈ before.ids) :
    GrowsBy ids groups.length before (before.forwardAll ids groups) ↔ groups = [] ∨ ids.Nodup := by
  rw [GrowsBy, forwardAll_eq_map, List.forall₂_map_right_iff, List.forall₂_same]
  constructor
  · intro h
    by_cases hempty : groups = []
    · exact .inl hempty
    refine .inr (List.nodup_iff_count_le_one.mpr fun id => ?_)
    by_cases hlisted : id ∈ ids
    · obtain ⟨a, ha, rfl⟩ := List.mem_map.mp (hids id hlisted)
      obtain ⟨more, hlength, hmore⟩ := (h a ha).1 hlisted
      have hcopies : groups.length * ids.count a.id = groups.length * 1 := by
        have heq := congrArg (·.buffered.length) hmore
        simp only [Action.receive, List.length_append, hlength, length_share hgroups] at heq
        omega
      exact (Nat.eq_of_mul_eq_mul_left (List.length_pos_iff.mpr hempty) hcopies).le
    · simp [List.count_eq_zero.mpr hlisted]
  · intro h a _
    refine ⟨fun hlisted => ⟨_, ?_, rfl⟩, fun hunlisted => ?_⟩
    · rw [length_share hgroups]
      rcases h with hempty | hnodup
      · simp [hempty]
      · rw [List.count_eq_one_of_mem hnodup hlisted, Nat.mul_one]
    · rw [share_of_notMem hunlisted, Action.receive_nil]

end Dispatcher

theorem TestDocument.actions_build {known : Dispatcher} {d : TestDocument} {s : Test}
    (h : d.build known = .ok s) : s.actions = d.actions := by
  obtain ⟨root, schedule, window, season, -, -, -, -, -, -, rfl⟩ := build_cases h
  rfl

namespace Test

/-- A pass that forwards groups adds each of them, up to its cutoff, to every buffer as often as the
document lists the action, which is once for each action named, exactly if none is named twice. -/
theorem pass_growsBy_iff {known before : Dispatcher} {d : TestDocument} {s : Test} {source : Source}
    {flag : CancelReadings} {anchor : Instant} {p : Pass} {report : PassReport}
    (built : d.build known = .ok s) (same : before.ids = known.ids)
    (pass : s.pass source flag anchor = .ok p) (result : p.result = .ok report) :
    p.test.groups.length = report.forwarded ∧
    (before.forwardAll s.actions p.handed = before.map fun a =>
      a.receive (p.test.groups.flatMap fun g =>
        List.replicate (d.actions.count a.id) (g.upTo a.cutoff))) ∧
    (before.GrowsBy d.actions report.forwarded (before.forwardAll s.actions p.handed) ↔
      report.forwarded = 0 ∨ d.actions.Nodup) := by
  have fits := TestDocument.fitsIn_build built
  have hactions := TestDocument.actions_build built
  have hcount := length_groups_of_ok pass result
  have hhanded := Pass.handed_of_ok result
  have hexplains : ∀ g ∈ p.test.groups, ∃ test t, g.Explains test t := fun g hg =>
    ⟨s.id, explains_of_handed pass fits.root g (hhanded ▸ hg)⟩
  have hids : ∀ id ∈ d.actions, id ∈ before.ids := by
    rw [same, ← hactions]
    exact fits.actions
  refine ⟨hcount, ?_, ?_⟩
  · rw [Dispatcher.forwardAll_eq_map, hhanded, hactions]
    simp only [Dispatcher.share_of_explains hexplains]
  · rw [← hcount, hhanded, hactions, List.length_eq_zero_iff]
    exact Dispatcher.growsBy_forwardAll_iff hexplains hids

def ops : Action where
  id := "ops"
  name := "Ops log"
  schedule := { base := { format := "HH:mm", hour := some 0, minute := some 0 }, interval := .oneDay }
  retention := { base := .day, multiplier := 7 }
  channel := .log

def always (actions : List String) : TestDocument where
  apiVersion := "v1"
  metadata := { id := "level", name := "level" }
  schedule := { baseTime := "00:00", interval := "1d" }
  window := "1d"
  formula := .operation .greaterThan (.constant 1 none) (.constant 0 none) none
  actions := actions

def counts? (actions : List String) : Option (Nat × List Nat) := do
  let s ← ((always actions).build [ops]).toOption
  let p ← (s.pass (.ofSeries [] [] false) .down (.ofDate ⟨2005, 10, 1⟩ 21600)).toOption
  let report ← p.result.toOption
  return (report.forwarded, (Dispatcher.forwardAll [ops] s.actions p.handed).map (·.buffered.length))

theorem counts?_eq_some {actions : List String} {n : Nat} {held : List Nat}
    (h : counts? actions = some (n, held)) :
    ∃ s p report, (always actions).build [ops] = .ok s ∧
      s.pass (.ofSeries [] [] false) .down (.ofDate ⟨2005, 10, 1⟩ 21600) = .ok p ∧
      p.result = .ok report ∧ report.forwarded = n ∧
      (Dispatcher.forwardAll [ops] s.actions p.handed).map (·.buffered.length) = held := by
  have hok {α ε : Type} {r : Except ε α} {a : α} (h : r.toOption = some a) : r = .ok a := by
    cases r <;> simp_all [Except.toOption]
  simp only [counts?, Option.bind_eq_bind, Option.bind_eq_some_iff, Option.pure_def,
    Option.some.injEq, Prod.mk.injEq] at h
  obtain ⟨s, hs, p, hp, report, hreport, hforwarded, hheld⟩ := h
  exact ⟨s, p, report, hok hs, hok hp, hok hreport, hforwarded, hheld⟩

theorem pass_growsBy_iff_ops :
    ∃ s p report, (always ["ops"]).build [ops] = .ok s ∧
      s.pass (.ofSeries [] [] false) .down (.ofDate ⟨2005, 10, 1⟩ 21600) = .ok p ∧
      p.result = .ok report ∧ report.forwarded = 1 ∧
      Dispatcher.GrowsBy ["ops"] 1 [ops] (Dispatcher.forwardAll [ops] s.actions p.handed) := by
  obtain ⟨s, p, report, built, pass, result, hforwarded, -⟩ :=
    counts?_eq_some (show counts? ["ops"] = some (1, [1]) by decide +kernel)
  have hgrows : Dispatcher.GrowsBy ["ops"] report.forwarded [ops]
      (Dispatcher.forwardAll [ops] s.actions p.handed) :=
    (pass_growsBy_iff built rfl pass result).2.2.mpr (.inr (List.nodup_singleton "ops"))
  exact ⟨s, p, report, built, pass, result, hforwarded, hforwarded ▸ hgrows⟩

/-- An action that is listed twice holds two groups where one was forwarded. -/
theorem not_growsBy_opsTwice :
    ∃ s p report, (always ["ops", "ops"]).build [ops] = .ok s ∧
      s.pass (.ofSeries [] [] false) .down (.ofDate ⟨2005, 10, 1⟩ 21600) = .ok p ∧
      p.result = .ok report ∧ report.forwarded = 1 ∧
      (Dispatcher.forwardAll [ops] s.actions p.handed).map (·.buffered.length) = [2] ∧
      ¬ Dispatcher.GrowsBy ["ops", "ops"] 1 [ops]
        (Dispatcher.forwardAll [ops] s.actions p.handed) := by
  obtain ⟨s, p, report, built, pass, result, hforwarded, hheld⟩ :=
    counts?_eq_some (show counts? ["ops", "ops"] = some (1, [2]) by decide +kernel)
  refine ⟨s, p, report, built, pass, result, hforwarded, hheld, fun hgrows => ?_⟩
  rw [Dispatcher.forwardAll_eq_map] at hheld hgrows
  obtain ⟨more, hone, hmore⟩ := (List.forall₂_cons.mp hgrows).1.1 (by decide)
  simp only [List.map_cons, List.map_nil] at hmore hheld
  rw [hmore] at hheld
  simp [Action.receive, ops, hone] at hheld

end Test
end SeriesAlarm
