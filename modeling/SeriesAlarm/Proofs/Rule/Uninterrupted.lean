import SeriesAlarm.Proofs.Rule.Pass

/-!
# Passes that are not interrupted

With the cancel flag down a pass ends with a report, or because its series do not go together. Whether
it was positive can be read from that end.
-/

namespace SeriesAlarm

def CancelReadings.down : CancelReadings := fun _ => false

@[simp] theorem CancelReadings.down_after (n : Nat) : down.after n = down := rfl

namespace Test

theorem Scan.cancelled_step_down {t : Instant} {c c' : Scan} (h : c.step .down t = .ok c') :
    c'.cancelled = c.cancelled := by
  rcases Scan.step_cases h with ⟨hup, -⟩ | ⟨-, root, -, rfl⟩
  · cases hup
  · rfl

theorem cancelled_scan_down {i : Interval} {last t : Instant} {c done : Scan}
    (h : scan .down i last t c = .ok done) : done.cancelled = c.cancelled := by
  fun_induction scan .down i last t c with
  | case1 => cases h
  | case2 t c _ c' hstep =>
    cases h
    exact Scan.cancelled_step_down hstep
  | case3 => cases h
  | case4 t c _ c' hstep _ _ _ _ ih => exact (ih h).trans (Scan.cancelled_step_down hstep)
  | case5 => cases h
  | case6 =>
    cases h
    rfl

theorem cancelled_scanBetween_down {s : Test} {anchor : Instant} {bounds : Instant × Instant}
    {interval : Option Interval} {done : Scan}
    (h : s.scanBetween .down anchor bounds interval = .ok done) : done.cancelled = false := by
  cases interval with
  | some i =>
    obtain ⟨slot, -, h⟩ := bind_eq_ok.mp h
    exact cancelled_scan_down h
  | none =>
    simp only [scanBetween] at h
    split at h
    · exact Scan.cancelled_step_down h
    · cases h
      rfl

theorem sharedInterval_ne_cancelled (id : String) (intervals : List Interval) :
    sharedInterval id intervals ≠ .error .cancelled := by
  unfold sharedInterval
  split
  · exact fun h => by cases h
  · split <;> exact fun h => by cases h

theorem pass_down_ne_cancelled {s : Test} {source : Source} {anchor : Instant} {p : Pass}
    (h : s.pass source .down anchor = .ok p) : p.result ≠ .error .cancelled := by
  obtain ⟨start, root, resolved, -, -, h⟩ := pass_cases h
  rcases h with ⟨e, he, rfl⟩ | ⟨interval, done, -, hscan, -, -, h⟩
  · rintro ⟨⟩
    exact sharedInterval_ne_cancelled _ _ he
  · rcases h with ⟨hcancelled, -⟩ | ⟨-, -, hresult⟩
    · rw [cancelled_scanBetween_down hscan] at hcancelled
      cases hcancelled
    · rw [hresult]
      exact fun h => by cases h

end Test

def Pass.isPositive (p : Pass) : Bool :=
  match p.result with
  | .ok report => 0 < report.forwarded
  | .error _ => false

/-- A failed pass and one that its threshold discards are not positive. -/
theorem Test.positive_pass {s : Test} {source : Source} {flag : CancelReadings} {anchor : Instant}
    {p : Pass} (h : s.pass source flag anchor = .ok p) : p.test.positive = p.isPositive := by
  obtain ⟨start, root, resolved, -, -, h⟩ := pass_cases h
  rcases h with ⟨e, -, rfl⟩ | ⟨interval, done, -, hscan, -, -, h⟩
  · rfl
  · have hdone : done.test.positive = false := by
      refine scanBetween_keeps (P := fun s' _ => s'.positive = false) hscan ?_ ?_ rfl
      · exact fun _ _ hs' => hs'
      · exact fun _ _ _ _ _ hs' _ => hs'
    rcases h with ⟨-, htest, hresult⟩ | ⟨-, htest, hresult⟩
    · rw [Pass.isPositive, htest, hresult, hdone]
    · rw [Pass.isPositive, htest, hresult]
      unfold Test.settle
      split
      · exact hdone
      · cases done.test.groups <;> rfl

end SeriesAlarm
