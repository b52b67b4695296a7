import Mathlib.Data.List.Perm.Basic
import SeriesAlarm.Proofs.Engine.Turn

/-!
# Ticks are composed of what is done alone

What a tick does with a test is what it would do with no other test there, and likewise for each
action. The tests meet only in the buffers, and there each adds its own groups behind those of the
tests before it.
-/

namespace SeriesAlarm

def Test.Turn.Fails (turn : Test.Turn) (e : PassError) : Prop :=
  ∃ pass, turn.outcome = .ran pass ∧ pass.result = .error e

theorem Test.Turn.Fails.share {turn : Test.Turn} {e : PassError} (h : turn.Fails e) (a : Action) :
    turn.share a = [] := by
  obtain ⟨pass, houtcome, hresult⟩ := h
  refine turn.share_of_handed_nil ?_ a
  simp [Test.Turn.handed, houtcome, Pass.handed, hresult, Except.toOption]

theorem Test.Turn.share_eq_nil {turn : Test.Turn} {a : Action} (h : a.id ∉ turn.test.actions) :
    turn.share a = [] := by
  have hnone : turn.test.actions.filter (· = a.id) = [] := by
    rw [List.filter_eq_nil_iff]
    intro id hid heq
    exact h (of_decide_eq_true heq ▸ hid)
  simp [Test.Turn.share, Dispatcher.share, hnone]

namespace TickReport

/-- The reports count the same and list the same. -/
structure Reordered (r r' : TickReport) : Prop where
  counts : r' = { r with failures := r'.failures, deliveries := r'.deliveries }
  failures : r'.failures.Perm r.failures
  deliveries : r'.deliveries.Perm r.deliveries

theorem Reordered.refl (r : TickReport) : r.Reordered r := ⟨rfl, .refl _, .refl _⟩

theorem Reordered.trans {r r' r'' : TickReport} (h : r.Reordered r') (h' : r'.Reordered r'') :
    r.Reordered r'' :=
  ⟨by rw [h'.counts, h.counts], h'.failures.trans h.failures, h'.deliveries.trans h.deliveries⟩

theorem Reordered.join {r r' : TickReport} (h : r.Reordered r') (first : TickReport) :
    (first.join r).Reordered (first.join r') :=
  ⟨by rw [h.counts]; rfl, h.failures.append_left _, h.deliveries.append_left _⟩

theorem reordered_swap (r r' r'' : TickReport) :
    (r.join (r'.join r'')).Reordered (r'.join (r.join r'')) := by
  refine ⟨?_, ?_, ?_⟩
  · simp only [TickReport.join, Bool.or_left_comm, Nat.add_left_comm]
  · simp only [TickReport.join, ← List.append_assoc]
    exact List.perm_append_comm.append_right _
  · simp only [TickReport.join, ← List.append_assoc]
    exact List.perm_append_comm.append_right _

theorem reordered_total {rs rs' : List TickReport} (h : rs.Perm rs') :
    (total rs).Reordered (total rs') := by
  induction h with
  | nil => exact .refl _
  | cons r _ ih => exact ih.join r
  | swap r r' rs => exact reordered_swap r' r (total rs)
  | trans _ _ ih ih' => exact ih.trans ih'

end TickReport

namespace Engine

abbrev Failed (source : Source) (now : Instant) : List Test → List Test.Turn → Prop :=
  List.Forall₂ fun s turn => s.Takes source now turn ∧ ∃ cause, turn.Fails cause

/-- More than one of the tests hands its groups to the action with this id. -/
def Shares (e : Engine) (id : String) : Prop := 1 < (e.tests.filter (id ∈ ·.actions)).length

/-- The same tests were taken up in another order. -/
structure Reordered (e : Engine) (p p' : Progress) : Prop where
  tests : p.done.Perm p'.done
  buffers : List.Forall₂ (fun a a' => a' = { a with buffered := a'.buffered } ∧
    a.buffered.Perm a'.buffered ∧ (¬ e.Shares a.id → a' = a)) p.actions p'.actions
  report : p.report.Reordered p'.report
  reads : p'.reads = p.reads

/-- How a tick is put together from the turns of its tests and the runs of its actions. -/
structure Composes (e : Engine) (source : Source) (attempts : Attempts) (now : Instant)
    (turns : List Test.Turn) (steps : List Dispatcher.Step) : Prop where
  /-- Each test takes the turn that it would take as the only one. -/
  tests : List.Forall₂ (fun s turn => s.Takes source now turn ∧
    ∃ alone, Engine.tick { e with tests := [s] } source .down attempts now =
      .ok (finished [turn] alone)) e.tests turns
  /-- When the deliveries start, each test has left behind what it would leave as the only one. -/
  gathers : e.gather source now = .ok (.ofTurns e.actions turns) ∧
    List.Forall₂ (fun s turn => Engine.gather { e with tests := [s] } source now =
      .ok (.ofTurns e.actions [turn])) e.tests turns
  /-- Each action does what it would do as the only one. -/
  actions : List.Forall₂ (fun a step =>
    Engine.tick { e with actions := [a] } source .down attempts now = .ok (finished turns [step]))
      e.actions steps
  /-- The order of the tests shows in nothing but the buffers that they share. -/
  permuted : ∀ tests', e.tests.Perm tests' → ∃ turns', Turned source now tests' turns' ∧
    Engine.gather { e with tests := tests' } source now = .ok (.ofTurns e.actions turns') ∧
    e.Reordered (.ofTurns e.actions turns) (.ofTurns e.actions turns')
  /-- More tests whose pass fails change nothing for the others, nor for the actions. -/
  failing : ∀ before more after failed, e.tests = before ++ after →
    Failed source now more failed → ∃ front back,
      turns = front ++ back ∧ front.length = before.length ∧
      Engine.tick { e with tests := before ++ more ++ after } source .down attempts now =
        .ok (finished (front ++ failed ++ back) steps)
  /-- How the deliveries of one action end changes nothing for the others. -/
  deliveries : ∀ id (attempts' : Attempts),
    (∀ a n, a.id ≠ id → attempts' a n = attempts a n) →
    ∃ steps', e.tick source .down attempts' now = .ok (finished turns steps') ∧
      List.Forall₂ (fun step step' => step.action.id ≠ id → step' = step) steps steps'

variable {e : Engine} {source : Source} {attempts : Attempts} {now : Instant}
  {turns : List Test.Turn} {steps : List Dispatcher.Step}

theorem steps_of_attempts {actions : Dispatcher} {steps' : List Dispatcher.Step} {id : String}
    {attempts' : Attempts} (same : ∀ a n, a.id ≠ id → attempts' a n = attempts a n)
    (h : Ran attempts now turns actions steps) (h' : Ran attempts' now turns actions steps') :
    List.Forall₂ (fun step step' => step.action.id ≠ id → step' = step) steps steps' := by
  induction h generalizing steps' with
  | nil =>
    cases h'
    exact .nil
  | @cons a step actions steps hstep _ ih =>
    cases h' with
    | cons hstep' hrest =>
      refine .cons (fun hid => ?_) (ih hrest)
      have hsame : step.action.id = a.id := (Dispatcher.runOne_turns hstep).id_eq
      have heq := Dispatcher.runOne_congr (a := a.receive (turns.flatMap (·.share a)))
        (fun b n hb => same b n (hb.trans hsame.symm ▸ hid)) now
      rw [heq, hstep] at hstep'
      exact (Except.ok.inj hstep').symm

theorem flatMap_share_of_failed {more : List Test} {failed : List Test.Turn}
    (h : Failed source now more failed) (a : Action) : failed.flatMap (·.share a) = [] := by
  induction h with
  | nil => rfl
  | cons hturn _ ih =>
    obtain ⟨-, cause, hfails⟩ := hturn
    rw [List.flatMap_cons, hfails.share a, ih, List.append_nil]

theorem flatMap_share_eq (turns : List Test.Turn) (a : Action) :
    turns.flatMap (·.share a) = (turns.filter (a.id ∈ ·.test.actions)).flatMap (·.share a) := by
  induction turns with
  | nil => rfl
  | cons turn turns ih =>
    rw [List.flatMap_cons, ih]
    by_cases hnamed : a.id ∈ turn.test.actions
    · simp [hnamed]
    · simp [hnamed, Test.Turn.share_eq_nil hnamed]

theorem length_filter_of_turned {tests : List Test} (h : Turned source now tests turns)
    (id : String) : (turns.filter (id ∈ ·.test.actions)).length =
      (tests.filter (id ∈ ·.actions)).length := by
  induction h with
  | nil => rfl
  | cons hturn _ ih =>
    rw [List.filter_cons, List.filter_cons, Test.actions_turn hturn]
    split
    · rw [List.length_cons, List.length_cons, ih]
    · exact ih

/-- At most one turn appends to an action that is not shared, so their order does not matter. -/
theorem flatMap_share_of_perm {tests : List Test} {turns' : List Test.Turn} {a : Action}
    (h : Turned source now tests turns) (perm : turns.Perm turns')
    (alone : (tests.filter (a.id ∈ ·.actions)).length ≤ 1) :
    turns'.flatMap (·.share a) = turns.flatMap (·.share a) := by
  have hperm := perm.filter (a.id ∈ ·.test.actions)
  have hlength := length_filter_of_turned h a.id
  rw [flatMap_share_eq turns, flatMap_share_eq turns']
  cases hturns : turns.filter (a.id ∈ ·.test.actions) with
  | nil =>
    rw [hturns] at hperm
    rw [hperm.nil_eq]
  | cons turn rest =>
    rw [hturns] at hperm hlength
    rw [List.length_cons] at hlength
    have hrest : rest = [] := List.eq_nil_of_length_eq_zero (by omega)
    rw [hrest] at hperm ⊢
    rw [List.singleton_perm.mp hperm]

theorem reordered_of_perm {turns' : List Test.Turn} (h : Turned source now e.tests turns)
    (perm : turns.Perm turns') :
    e.Reordered (.ofTurns e.actions turns) (.ofTurns e.actions turns') := by
  refine ⟨perm.map _, ?_, TickReport.reordered_total (perm.map _), ?_⟩
  · refine List.forall₂_map_left_iff.mpr (List.forall₂_map_right_iff.mpr ?_)
    refine List.forall₂_same.mpr fun a _ => ⟨rfl, (perm.flatMap_right _).append_left _, ?_⟩
    intro hshares
    rw [flatMap_share_of_perm (a := a) h perm (Nat.le_of_not_lt hshares)]
  · exact (perm.map _).sum_nat.symm

/-- While the flag is down, a tick is put together from what is done alone. -/
theorem tick_composes {t : Tick} (h : e.tick source .down attempts now = .ok t) :
    ∃ turns steps, t = finished turns steps ∧ e.Composes source attempts now turns steps := by
  obtain ⟨turns, steps, hturns, hsteps, rfl⟩ := tick_down_eq_ok_iff.mp h
  refine ⟨turns, steps, rfl, ?_, ⟨?_, ?_⟩, ?_, ?_, ?_, ?_⟩
  · refine hturns.imp fun s turn hturn => ⟨Test.turn_eq_ok_iff.mp hturn, ?_⟩
    obtain ⟨alone, halone⟩ := exists_ran_iff.mpr (exists_ran_iff.mp ⟨steps, hsteps⟩)
    exact ⟨alone, tick_down_eq_ok_iff.mpr ⟨_, _, .cons hturn .nil, halone, rfl⟩⟩
  · exact gather_eq_ok_iff.mpr ⟨turns, hturns, rfl⟩
  · exact hturns.imp fun s turn hturn => gather_eq_ok_iff.mpr ⟨_, .cons hturn .nil, rfl⟩
  · refine hsteps.imp fun a step hstep => ?_
    exact tick_down_eq_ok_iff.mpr ⟨turns, _, hturns, .cons hstep .nil, rfl⟩
  · intro tests' hperm
    obtain ⟨turns', hturns', hperm'⟩ := List.perm_comp_forall₂ hperm.symm hturns
    exact ⟨turns', hturns', gather_eq_ok_iff.mpr ⟨turns', hturns', rfl⟩,
      reordered_of_perm hturns hperm'.symm⟩
  · intro before more after failed htests hfailed
    rw [htests] at hturns
    have hfront := (List.forall₂_take_append _ _ _ hturns.flip).flip
    have hback := (List.forall₂_drop_append _ _ _ hturns.flip).flip
    refine ⟨turns.take before.length, turns.drop before.length, ?_, hfront.length_eq.symm, ?_⟩
    · exact (List.take_append_drop _ _).symm
    have hmore : Turned source now more failed :=
      hfailed.imp fun _ _ h => Test.turn_eq_ok_iff.mpr h.1
    refine tick_down_eq_ok_iff.mpr ⟨_, steps, List.rel_append (List.rel_append hfront hmore) hback,
      hsteps.imp fun a step hstep => ?_, rfl⟩
    rw [List.flatMap_append, List.flatMap_append, flatMap_share_of_failed hfailed,
      List.append_nil, ← List.flatMap_append, List.take_append_drop]
    exact hstep
  · intro id attempts' hsame
    obtain ⟨steps', hsteps'⟩ := exists_ran_iff.mpr (exists_ran_iff.mp ⟨steps, hsteps⟩)
    exact ⟨steps', tick_down_eq_ok_iff.mpr ⟨turns, steps', hturns, hsteps', rfl⟩,
      steps_of_attempts hsame hsteps hsteps'⟩

/-- Two actions and three tests, two of which hand groups to the first action; the series of the
third have different intervals. -/
def threeTests : Engine :=
  let schedule : Schedule := { base := { format := "HH", hour := some 0 }, interval := .oneDay }
  let action (id : String) : Action := {
    id, name := id, schedule, retention := .oneDay, channel := .log
    wording := { subject := "positive", body := "again" } }
  let test (id : String) (left right : Leaf) (actions : List String) : Test := {
    id, name := id, schedule, window := .oneDay, actions
    root := .ofOperator .greaterThan (.leaf left) (.leaf right) none }
  let series (id : String) : Leaf := { kind := .getValue, inputs := [id] }
  { tests := [
      test "a" (.ofConstant 1) (.ofConstant 0) ["first"],
      test "b" (.ofConstant 1) (.ofConstant 0) ["first", "second"],
      test "c" (series "hourly") (series "daily") ["first"]]
    actions := [action "first", action "second"] }

/-- One test fails, and both actions deliver what the other two hand to them. -/
theorem tick_composes_threeTests :
    let source := Source.ofSeries
      [{ identifier := "hourly", interval := { base := .hour, multiplier := 1 } },
        { identifier := "daily", interval := .oneDay }] [] false
    let now : Instant := ⟨700000 * nanosPerDay⟩
    ∃ t turns steps, threeTests.tick source .down (fun _ _ => true) now = .ok t ∧
      t.report.failures.map (·.1) = ["c"] ∧ t.report.deliveries.map (·.groups) = [2, 1] ∧
      t = finished turns steps ∧ threeTests.Composes source (fun _ _ => true) now turns steps := by
  intro source now
  have hrun : ((threeTests.tick source .down (fun _ _ => true) now).toOption.map fun t =>
      (t.report.failures.map (·.1), t.report.deliveries.map (·.groups))) = some (["c"], [2, 1]) := by
    decide +kernel
  cases hends : threeTests.tick source .down (fun _ _ => true) now with
  | error fault =>
    rw [hends] at hrun
    cases hrun
  | ok t =>
    rw [hends] at hrun
    have hboth := Prod.mk.inj (Option.some.inj hrun)
    obtain ⟨turns, steps, hfinished, hcomposes⟩ := tick_composes hends
    exact ⟨t, turns, steps, rfl, hboth.1, hboth.2, hfinished, hcomposes⟩

end Engine
end SeriesAlarm
