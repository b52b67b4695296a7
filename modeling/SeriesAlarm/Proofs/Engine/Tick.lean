import SeriesAlarm.Proofs.Action.Run
import SeriesAlarm.Proofs.Calendar.NextRun
import SeriesAlarm.Proofs.Rule.Pass
import SeriesAlarm.Engine.Basic

/-!
# What a tick does

A tick takes up the tests one after another and then runs the actions that are due, unless the
cancel flag was up.
-/

namespace SeriesAlarm

/-- The groups that a pass leaves to be handed on: none if it failed. -/
def Pass.handed (p : Pass) : List ResultGroup :=
  if p.result.toOption.isSome then p.test.groups else []

theorem Pass.handed_of_ok {p : Pass} {report : PassReport} (h : p.result = .ok report) :
    p.handed = p.test.groups := by
  rw [handed, h]
  rfl

theorem Pass.handed_of_error {p : Pass} {e : PassError} (h : p.result = .error e) :
    p.handed = [] := by
  rw [handed, h]
  rfl

theorem Test.runPass_eq (s : Test) (source : Source) (flag : CancelReadings) (anchor : Instant)
    (d : Dispatcher) : s.runPass source flag anchor d =
      (s.pass source flag anchor).map fun p => (p, d.forwardAll s.actions p.handed) := by
  unfold runPass
  cases s.pass source flag anchor with
  | error fault => rfl
  | ok p =>
    simp only [Except.map, bind, Except.bind]
    split
    · next e hresult =>
      rw [Pass.handed_of_error hresult, Dispatcher.forwardAll_nil]
      rfl
    · next report hresult =>
      rw [Pass.handed_of_ok hresult]
      rfl

namespace Engine
namespace Progress

/-- A test runs a pass when a tick takes it up. -/
structure Runs (flag : CancelReadings) (now : Instant) (p : Progress) (s : Test) : Prop where
  going : p.report.cancelled = false
  down : flag p.reads = false
  season : s.inSeason now = true
  due : s.isDue? now = some true

/-- What taking up a test comes to. -/
inductive Takes (source : Source) (flag : CancelReadings) (now : Instant) (p : Progress)
    (s : Test) : Progress → Prop
  | ended (cancelled : p.report.cancelled = true) : Takes source flag now p s (p.keep s)
  | raised (going : p.report.cancelled = false) (up : flag p.reads = true) :
      Takes source flag now p s { p.keep s with
        report := { p.report with cancelled := true }, reads := p.reads + 1 }
  | outOfSeason (going : p.report.cancelled = false) (down : flag p.reads = false)
      (season : s.inSeason now = false) :
      Takes source flag now p s { p.keep s with
        report := { p.report with outOfSeason := p.report.outOfSeason + 1 }, reads := p.reads + 1 }
  | early (going : p.report.cancelled = false) (down : flag p.reads = false)
      (season : s.inSeason now = true) (due : s.isDue? now = some false) :
      Takes source flag now p s { p.keep s with reads := p.reads + 1 }
  | interrupted (runs : Runs flag now p s) (pass : Pass)
      (hpass : s.pass source (flag.after (p.reads + 1)) now = .ok pass)
      (result : pass.result = .error .cancelled) :
      Takes source flag now p s { p.keep pass.test with
        report := { p.report with testsRun := p.report.testsRun + 1, cancelled := true }
        reads := p.reads + 1 + pass.reads }
  | ran (runs : Runs flag now p s) (pass : Pass)
      (hpass : s.pass source (flag.after (p.reads + 1)) now = .ok pass)
      (result : pass.result ≠ .error .cancelled) (next : Test)
      (advance : pass.test.advance? now = some next) :
      Takes source flag now p s {
        done := p.done ++ [next]
        actions := p.actions.forwardAll s.actions pass.handed
        report := note { p.report with testsRun := p.report.testsRun + 1 } s.id pass.result
        reads := p.reads + 1 + pass.reads }

theorem take_takes {source : Source} {flag : CancelReadings} {now : Instant} {p p' : Progress}
    {s : Test} (h : p.take source flag now s = .ok p') : Takes source flag now p s p' := by
  unfold take at h
  dsimp only at h
  split at h
  · next hcancelled =>
    cases h
    exact .ended hcancelled
  next hgoing =>
  have hgoing := Bool.eq_false_iff.mpr hgoing
  split at h
  · next hup =>
    cases h
    exact .raised hgoing hup
  next hdown =>
  have hdown := Bool.eq_false_iff.mpr hdown
  split at h
  · next hseason =>
    cases h
    exact .outOfSeason hgoing hdown (by simpa using hseason)
  next hseason =>
  have hseason : s.inSeason now = true := by simpa using hseason
  obtain ⟨due, hdue, h⟩ := bind_eq_ok.mp h
  have hdue := orFault_eq_ok.mp hdue
  split at h
  · next hearly =>
    cases h
    rw [show due = false by simpa using hearly] at hdue
    exact .early hgoing hdown hseason hdue
  next hlate =>
  rw [show due = true by simpa using hlate] at hdue
  have hruns : Runs flag now p s := ⟨hgoing, hdown, hseason, hdue⟩
  obtain ⟨x, hx, h⟩ := bind_eq_ok.mp h
  rw [s.runPass_eq] at hx
  obtain ⟨pass, hpass, rfl⟩ := map_eq_ok.mp hx
  dsimp only at h
  split at h
  · next hresult =>
    cases h
    rw [Pass.handed_of_error hresult]
    exact .interrupted hruns pass hpass hresult
  · next hresult =>
    obtain ⟨next, hnext, h⟩ := bind_eq_ok.mp h
    cases h
    exact .ran hruns pass hpass hresult next (orFault_eq_ok.mp hnext)

/-- What is left of taking up a test once its pass is made. -/
def close (p : Progress) (now : Instant) (s : Test) (pass : Pass) : Except Fault Progress :=
  let report := { p.report with testsRun := p.report.testsRun + 1 }
  let reads := p.reads + 1 + pass.reads
  match pass.result with
  | .error .cancelled =>
    .ok { p.keep pass.test with report := { report with cancelled := true }, reads }
  | result => do
    let next ← orFault .outOfCalendar (pass.test.advance? now)
    return {
      done := p.done ++ [next]
      actions := p.actions.forwardAll s.actions pass.handed
      report := note report s.id result
      reads }

def passOver (p : Progress) (flag : CancelReadings) (now : Instant) (s : Test) : Progress :=
  if p.report.cancelled then p.keep s
  else if flag p.reads then
    { p.keep s with report := { p.report with cancelled := true }, reads := p.reads + 1 }
  else if s.inSeason now then { p.keep s with reads := p.reads + 1 }
  else { p.keep s with
    report := { p.report with outOfSeason := p.report.outOfSeason + 1 }, reads := p.reads + 1 }

theorem take_of_runs {p : Progress} {source : Source} {flag : CancelReadings} {now : Instant}
    {s : Test} (h : Runs flag now p s) :
    p.take source flag now s = s.pass source (flag.after (p.reads + 1)) now >>= p.close now s := by
  have hdue : orFault .outOfCalendar (s.isDue? now) = .ok true := orFault_eq_ok.mpr h.due
  unfold take
  simp only [h.going, h.down, h.season, hdue, Bool.not_true, Bool.false_eq_true, if_false, s.runPass_eq]
  change Except.map _ (s.pass source (flag.after (p.reads + 1)) now) >>= _ = _
  cases s.pass source (flag.after (p.reads + 1)) now with
  | error fault => rfl
  | ok pass =>
    change _ = p.close now s pass
    unfold close
    cases hresult : pass.result with
    | ok report => simp only [Except.map, bind, Except.bind, hresult, h.going, keep]
    | error e =>
      cases e <;> simp [Except.map, bind, Except.bind, hresult, h.going, keep, pure, Except.pure,
        Pass.handed_of_error hresult]

theorem take_of_not_runs {p : Progress} {source : Source} {flag : CancelReadings} {now : Instant}
    {s : Test} (h : ¬ Runs flag now p s) : p.take source flag now s = .ok (p.passOver flag now s) := by
  obtain ⟨due, hdue⟩ := Option.isSome_iff_exists.mp (s.schedule.isSome_isDue? now)
  have hdue' : orFault .outOfCalendar (s.isDue? now) = .ok due := orFault_eq_ok.mpr hdue
  unfold take passOver
  rw [hdue']
  cases hcancelled : p.report.cancelled with
  | true => rfl
  | false =>
    cases hflag : flag p.reads with
    | true => rfl
    | false =>
      cases hseason : s.inSeason now with
      | false => rfl
      | true =>
        cases due with
        | false => rfl
        | true => exact absurd ⟨hcancelled, hflag, hseason, hdue⟩ h

end Progress

/-- A tick ends when the flag was up, or once the actions that are due have run. -/
theorem tick_cases {e : Engine} {source : Source} {flag : CancelReadings} {attempts : Attempts}
    {now : Instant} {t : Tick} (h : e.tick source flag attempts now = .ok t) :
    ∃ p, e.tests.foldlM (Progress.take source flag now) { actions := e.actions } = .ok p ∧
      ((p.report.cancelled = true ∧
          t = { engine := { tests := p.done, actions := p.actions }, report := p.report }) ∨
        (p.report.cancelled = false ∧ ∃ steps, p.actions.runDue attempts now = .ok steps ∧
          t = {
            engine := { tests := p.done, actions := Dispatcher.after steps }
            report := { p.report with deliveries := Dispatcher.results steps }
            sent := Dispatcher.deliveries steps })) := by
  obtain ⟨p, hp, h⟩ := bind_eq_ok.mp h
  refine ⟨p, hp, ?_⟩
  split at h
  · next hcancelled =>
    cases h
    exact .inl ⟨hcancelled, rfl⟩
  · next hgoing =>
    obtain ⟨steps, hsteps, h⟩ := bind_eq_ok.mp h
    cases h
    exact .inr ⟨Bool.eq_false_iff.mpr hgoing, steps, hsteps, rfl⟩

end Engine
end SeriesAlarm
