import SeriesAlarm.Proofs.Engine.Composition
import SeriesAlarm.Proofs.Rule.Interruption

/-!
# Ticks that are cancelled

The cancel flag may be raised at any reading. Up to the first reading that finds it up a tick does
what it does with the flag down, and there it ends: the test that was taken up is left as it was but
for the outcome of its pass, and neither the tests after it nor the actions are touched.
-/

namespace SeriesAlarm

theorem CancelReadings.after_after (flag : CancelReadings) (a b : Nat) :
    (flag.after a).after b = flag.after (a + b) := by
  funext k
  simp only [after, Nat.add_assoc]

/-- The flag was found up at the test: before the test was looked at, or in its pass. Then come the
test as it is left, how many passes were begun for it and how often the flag was read. -/
inductive Test.Interrupted (source : Source) (flag : CancelReadings) (now : Instant) (s : Test) :
    Test → Nat → Nat → Prop
  | waiting (up : flag 0 = true) : Interrupted source flag now s s 0 1
  | running (down : flag 0 = false) (runs : s.RunsAt now) (pass : Pass)
      (hpass : s.pass source (flag.after 1) now = .ok pass)
      (result : pass.result = .error .cancelled) (dropped : pass.test.groups = []) :
      Interrupted source flag now s pass.test 1 (1 + pass.reads)

/-- An interrupted test is left as it was, but for what the next pass replaces. -/
theorem Test.Interrupted.idle_eq {source : Source} {flag : CancelReadings} {now : Instant}
    {s left : Test} {ran reads : Nat} (h : s.Interrupted source flag now left ran reads) :
    left.idle = s.idle := by
  cases h with
  | waiting => rfl
  | running _ _ pass hpass => exact Test.idle_pass hpass

namespace Engine
namespace Progress

variable {source : Source} {flag : CancelReadings} {now : Instant}

theorem cancelled_note (r : TickReport) (id : String) (result : Except PassError PassReport) :
    (note r id result).cancelled = r.cancelled := by
  unfold note
  cases result with
  | error e => rfl
  | ok report =>
    dsimp only
    split <;> rfl

/-- The progress when the flag was found up at a test: nothing was handed on, and the tests after it
are left as they are. -/
def stop (p : Progress) (left : Test) (ran reads : Nat) (after : List Test) : Progress where
  done := p.done ++ left :: after
  actions := p.actions
  report := { p.report with testsRun := p.report.testsRun + ran, cancelled := true }
  reads := p.reads + reads

/-- What taking up tests comes to: they were stopped at one of them, or they were all taken up as with
the flag down. -/
inductive Heeds (source : Source) (flag : CancelReadings) (now : Instant) (p : Progress) :
    List Test → Progress → Prop
  | stopped {before after : List Test} {s left : Test} {q : Progress} {ran reads : Nat}
      (led : before.foldlM (take source .down now) p = .ok q) (going : q.report.cancelled = false)
      (interrupted : s.Interrupted source (flag.after q.reads) now left ran reads)
      (rises : flag.RisesIn p.reads (q.reads + reads)) :
      Heeds source flag now p (before ++ s :: after) (q.stop left ran reads after)
  | undisturbed {tests : List Test} {q : Progress}
      (led : tests.foldlM (take source .down now) p = .ok q) (going : q.report.cancelled = false)
      (le : p.reads ≤ q.reads) (down : flag.IsDownIn p.reads q.reads) :
      Heeds source flag now p tests q

/-- A test that is not run is passed over as with the flag down, unless the flag is up. -/
theorem take_down_of_not_runs {p : Progress} {s : Test} (hflag : flag p.reads = false)
    (h : ¬ p.Runs flag now s) : p.take source .down now s = p.take source flag now s := by
  have hdown : ¬ p.Runs .down now s := fun hruns =>
    h ⟨hruns.going, hflag, hruns.season, hruns.due⟩
  rw [take_of_not_runs h, take_of_not_runs hdown]
  unfold passOver
  rw [hflag]
  rfl

theorem take_heeds {p p' : Progress} {s : Test} (h : p.take source flag now s = .ok p')
    (going : p.report.cancelled = false) :
    (∃ left ran reads, s.Interrupted source (flag.after p.reads) now left ran reads ∧
        flag.RisesIn p.reads (p.reads + reads) ∧ p' = p.stop left ran reads []) ∨
      (p.take source .down now s = .ok p' ∧ p'.report.cancelled = false ∧ p.reads ≤ p'.reads ∧
        flag.IsDownIn p.reads p'.reads) := by
  have hidle (hflag : flag p.reads = false) (hnot : ¬ p.Runs flag now s)
      (hreads : p'.reads = p.reads + 1) :
      p.take source .down now s = .ok p' ∧ p.reads ≤ p'.reads ∧ flag.IsDownIn p.reads p'.reads := by
    refine ⟨?_, by omega, ?_⟩
    · rw [take_down_of_not_runs hflag hnot, h]
    · rw [hreads]
      exact .single hflag
  cases take_takes h with
  | ended cancelled => simp [going] at cancelled
  | raised _ up => exact .inl ⟨s, 0, 1, .waiting up, .single up, rfl⟩
  | outOfSeason _ down season =>
    obtain ⟨htake, hreads⟩ := hidle down (fun hruns => by simp [hruns.season] at season) rfl
    exact .inr ⟨htake, going, hreads⟩
  | early _ down _ due =>
    obtain ⟨htake, hreads⟩ := hidle down (fun hruns => by simp [hruns.due] at due) rfl
    exact .inr ⟨htake, going, hreads⟩
  | interrupted runs pass hpass result =>
    rcases Test.pass_heeds hpass with ⟨-, hdropped, hrises⟩ | ⟨hresult, -⟩
    · have hafter : s.pass source ((flag.after p.reads).after 1) now = .ok pass := by
        rw [CancelReadings.after_after, hpass]
      have hrises := hrises.of_after
      rw [Nat.add_zero, Nat.add_assoc] at hrises
      have hdown := CancelReadings.IsDownIn.single runs.down
      refine .inl ⟨pass.test, 1, 1 + pass.reads, ?_, hdown.rises (Nat.le_succ _) hrises, ?_⟩
      · exact .running runs.down ⟨runs.season, runs.due⟩ pass hafter result hdropped
      · rw [stop, ← Nat.add_assoc]
        rfl
    · exact absurd result hresult
  | ran runs pass hpass result next advance =>
    rcases Test.pass_heeds hpass with ⟨hresult, -⟩ | ⟨-, hdown, hreadings⟩
    · exact absurd hresult result
    · have hruns : p.Runs .down now s := ⟨going, rfl, runs.season, runs.due⟩
      have hsame : p.take source .down now s = p.take source flag now s := by
        rw [take_of_runs hruns, take_of_runs runs, CancelReadings.down_after, hdown, hpass]
      have hreadings := hreadings.of_after
      rw [Nat.add_zero] at hreadings
      refine .inr ⟨hsame.trans h, ?_, ?_, ?_⟩
      · rw [cancelled_note]
        exact going
      · exact Nat.le_trans (Nat.le_succ _) (Nat.le_add_right _ _)
      · exact (CancelReadings.IsDownIn.single runs.down).trans hreadings

theorem foldlM_of_cancelled {p : Progress} (h : p.report.cancelled = true) (tests : List Test) :
    tests.foldlM (take source flag now) p = .ok { p with done := p.done ++ tests } := by
  induction tests generalizing p with
  | nil =>
    rw [List.append_nil]
    rfl
  | cons s rest ih =>
    have htake : p.take source flag now s = .ok (p.keep s) := by
      unfold take
      rw [h]
      rfl
    rw [List.foldlM_cons, htake]
    change rest.foldlM (take source flag now) (p.keep s) = _
    rw [ih (p := p.keep s) h]
    simp [keep]

theorem foldlM_heeds {tests : List Test} {p p' : Progress}
    (h : tests.foldlM (take source flag now) p = .ok p') (going : p.report.cancelled = false) :
    Heeds source flag now p tests p' := by
  induction tests generalizing p with
  | nil =>
    cases h
    exact .undisturbed rfl going (Nat.le_refl _) (.refl flag _)
  | cons s rest ih =>
    rw [List.foldlM_cons] at h
    obtain ⟨next, hnext, hrest⟩ := bind_eq_ok.mp h
    rcases take_heeds hnext going with
      ⟨left, ran, reads, hleft, hrises, rfl⟩ | ⟨hdown, going', hle, hreadings⟩
    · have hstop : p' = p.stop left ran reads rest := by
        rw [foldlM_of_cancelled rfl] at hrest
        cases hrest
        simp [stop]
      have hhere : Heeds source flag now p ([] ++ s :: rest) (p.stop left ran reads rest) :=
        .stopped rfl going hleft hrises
      rw [hstop]
      exact hhere
    · have hcons {tests : List Test} {q : Progress}
          (hq : tests.foldlM (take source .down now) next = .ok q) :
          (s :: tests).foldlM (take source .down now) p = .ok q := by
        rw [List.foldlM_cons]
        exact bind_eq_ok.mpr ⟨next, hdown, hq⟩
      cases ih hrest going' with
      | @stopped before after _ _ _ _ _ led hgoing hleft hrises =>
        have hthere := hreadings.rises hle hrises
        exact Heeds.stopped (hcons led) hgoing hleft hthere
      | undisturbed led hgoing hle' hreadings' =>
        exact .undisturbed (hcons led) hgoing (hle.trans hle') (hreadings.trans hreadings')

end Progress

/-- The tick was cancelled at the test `s`, which it left as `left`, after the turns of the tests
before. -/
structure CancelledAt (e : Engine) (source : Source) (flag : CancelReadings) (now : Instant)
    (t : Tick) (before : List Test) (turns : List Test.Turn) (s left : Test) (after : List Test) :
    Prop where
  tests : e.tests = before ++ s :: after
  turned : Turned source now before turns
  /-- The same turns are the first of a tick that is not cancelled. -/
  uncancelled : ∀ attempts t', e.tick source .down attempts now = .ok t' →
    ∃ later steps, t' = finished (turns ++ later) steps
  /-- The test keeps its next run, and the tests after it are left as they are. The buffers have
  what the turns appended; no action was run. -/
  engine : t.engine = {
    tests := turns.map (·.test) ++ left :: after
    actions := e.actions.map fun a => a.receive (turns.flatMap (·.share a)) }
  kept : left.schedule = s.schedule ∧ left.idle = s.idle
  /-- The first reading that found the flag up was the last one. -/
  interrupted : ∃ ran reads,
    s.Interrupted source (flag.after (turns.map (·.reads)).sum) now left ran reads ∧
    flag.RisesIn 0 ((turns.map (·.reads)).sum + reads) ∧
    t.report = { TickReport.total (turns.map (·.report)) with
      testsRun := (TickReport.total (turns.map (·.report))).testsRun + ran, cancelled := true }
  deliveries : t.report.deliveries = [] ∧ t.sent = []
  /-- No delivery was attempted. -/
  attempts : ∀ attempts, e.tick source flag attempts now = .ok t

variable {e : Engine} {source : Source} {flag : CancelReadings} {attempts : Attempts}
  {now : Instant} {t : Tick}

theorem deliveries_total (turns : List Test.Turn) :
    (TickReport.total (turns.map (·.report))).deliveries = [] := by
  induction turns with
  | nil => rfl
  | cons turn turns ih =>
    have hturn : turn.report.deliveries = [] := by
      unfold Test.Turn.report Progress.note
      split
      · rfl
      · rfl
      · split
        · split <;> rfl
        · rfl
    rw [List.map_cons, TickReport.total_cons, TickReport.join, hturn, ih]
    rfl

theorem cancelledAt_of_stop {before after : List Test} {s left : Test} {turns : List Test.Turn}
    {ran reads : Nat} (tests : e.tests = before ++ s :: after)
    (turned : Turned source now before turns)
    (interrupted : s.Interrupted source (flag.after (turns.map (·.reads)).sum) now left ran reads)
    (rises : flag.RisesIn 0 ((turns.map (·.reads)).sum + reads))
    (h : e.tests.foldlM (Progress.take source flag now) { actions := e.actions } =
      .ok ((Progress.ofTurns e.actions turns).stop left ran reads after))
    (ticks : e.tick source flag attempts now = .ok t) :
    e.CancelledAt source flag now t before turns s left after := by
  let p := (Progress.ofTurns e.actions turns).stop left ran reads after
  have hends (attempts' : Attempts) : e.tick source flag attempts' now =
      .ok { engine := { tests := p.done, actions := p.actions }, report := p.report } := by
    unfold tick
    rw [h]
    rfl
  cases ticks.symm.trans (hends attempts)
  refine ⟨tests, turned, ?_, rfl, ⟨?_, interrupted.idle_eq⟩, ⟨ran, reads, interrupted, rises, rfl⟩,
    ⟨deliveries_total turns, rfl⟩, hends⟩
  · intro attempts' t' ht'
    obtain ⟨turns', steps, hturns, -, rfl⟩ := tick_down_eq_ok_iff.mp ht'
    rw [tests] at hturns
    obtain ⟨first, later, hfirst, -, rfl⟩ : ∃ first later, Turned source now before first ∧
        Turned source now (s :: after) later ∧ turns' = first ++ later := by
      have hfront := (List.forall₂_take_append _ _ _ hturns.flip).flip
      have hback := (List.forall₂_drop_append _ _ _ hturns.flip).flip
      exact ⟨_, _, hfront, hback, (List.take_append_drop _ _).symm⟩
    have hsame : first = turns := by
      have hmap := (mapM_eq_ok.mpr hfirst).symm.trans (mapM_eq_ok.mpr turned)
      exact Except.ok.inj hmap
    exact ⟨later, steps, by rw [hsame]⟩
  · have hidle := interrupted.idle_eq
    have hschedule := congrArg Test.schedule hidle
    exact hschedule

/-- A tick is cancelled by the first reading that finds the flag up, and then nothing more is done; or
no reading finds it up, and the tick is the one with the flag down. -/
theorem tick_heeds (h : e.tick source flag attempts now = .ok t) :
    (t.report.cancelled = true ∧ ∃ before turns s left after,
        e.CancelledAt source flag now t before turns s left after) ∨
      (t.report.cancelled = false ∧ e.tick source .down attempts now = .ok t ∧
        ∃ p, e.gather source now = .ok p ∧ flag.IsDownIn 0 p.reads) := by
  obtain ⟨p, hp, hends⟩ := tick_cases h
  generalize htests : e.tests = tests at hp
  cases Progress.foldlM_heeds hp rfl with
  | @stopped before after s left q ran reads led going interrupted rises =>
    obtain ⟨turns, hturns, rfl⟩ := gather_eq_ok_iff (e := { e with tests := before }).mp led
    rw [← htests] at hp
    refine .inl ⟨?_, before, turns, s, left, after, ?_⟩
    · rcases hends with ⟨-, rfl⟩ | ⟨hgoing, -⟩
      · rfl
      · cases hgoing
    · exact cancelledAt_of_stop htests hturns interrupted rises hp h
  | undisturbed led going _ down =>
    rw [← htests] at led
    refine .inr ⟨?_, ?_, p, led, down⟩
    · rcases hends with ⟨hcancelled, -⟩ | ⟨-, steps, -, rfl⟩
      · rw [going] at hcancelled
        cases hcancelled
      · exact going
    · rw [← h]
      unfold tick
      rw [led, htests, hp]

/-- The flag is raised in the pass of the second of three tests: what the first handed on stays, and
nothing else happens. -/
theorem tick_heeds_threeTests :
    let source := Source.ofSeries [] [] false
    let flag : CancelReadings := fun k => k == 3
    let now : Instant := ⟨700000 * nanosPerDay⟩
    ∃ t, threeTests.tick source flag (fun _ _ => true) now = .ok t ∧
      t.report.testsRun = 2 ∧ t.engine.actions.map (·.buffered.length) = [1, 0] ∧
      t.report.cancelled = true ∧ ∃ before turns s left after,
        threeTests.CancelledAt source flag now t before turns s left after := by
  intro source flag now
  have hrun : ((threeTests.tick source flag (fun _ _ => true) now).toOption.map fun t =>
      (t.report.testsRun, t.engine.actions.map (·.buffered.length), t.report.cancelled)) =
        some (2, [1, 0], true) := by
    decide +kernel
  cases hends : threeTests.tick source flag (fun _ _ => true) now with
  | error fault =>
    rw [hends] at hrun
    cases hrun
  | ok t =>
    rw [hends] at hrun
    obtain ⟨htests, hboth⟩ := Prod.mk.inj (Option.some.inj hrun)
    obtain ⟨hbuffered, hcancelled⟩ := Prod.mk.inj hboth
    refine ⟨t, rfl, htests, hbuffered, ?_⟩
    rcases tick_heeds hends with hstopped | ⟨hgoing, -⟩
    · exact hstopped
    · rw [hgoing] at hcancelled
      cases hcancelled

end Engine
end SeriesAlarm
