import SeriesAlarm.Proofs.Rule.Idle
import SeriesAlarm.Proofs.Rule.Uninterrupted

/-!
# Passes that are interrupted

A pass reads the cancel flag before each evaluation. The first reading that finds it up ends the pass
and drops its groups; as long as there is none, the pass goes on as it does with the flag down.
-/

namespace SeriesAlarm

namespace CancelReadings

variable {flag : CancelReadings} {a b c : Nat}

def IsDownIn (flag : CancelReadings) (a b : Nat) : Prop := ∀ k, a ≤ k → k < b → flag k = false

/-- Of the readings from number `a` up to number `b` the last one is the first to find the flag
up. -/
def RisesIn (flag : CancelReadings) (a b : Nat) : Prop :=
  ∃ n, b = n + 1 ∧ a ≤ n ∧ flag n = true ∧ flag.IsDownIn a n

theorem IsDownIn.refl (flag : CancelReadings) (a : Nat) : flag.IsDownIn a a :=
  fun _ hle hlt => absurd hle (Nat.not_le.mpr hlt)

theorem IsDownIn.single (h : flag a = false) : flag.IsDownIn a (a + 1) := by
  intro k hle hlt
  rwa [show k = a by omega]

theorem IsDownIn.trans (h : flag.IsDownIn a b) (h' : flag.IsDownIn b c) : flag.IsDownIn a c := by
  intro k hle hlt
  by_cases hk : k < b
  · exact h k hle hk
  · exact h' k (Nat.not_lt.mp hk) hlt

theorem RisesIn.single (h : flag a = true) : flag.RisesIn a (a + 1) :=
  ⟨a, rfl, Nat.le_refl a, h, .refl flag a⟩

theorem IsDownIn.rises (hle : a ≤ b) (h : flag.IsDownIn a b) (h' : flag.RisesIn b c) :
    flag.RisesIn a c := by
  obtain ⟨n, rfl, hn, hup, hdown⟩ := h'
  exact ⟨n, rfl, hle.trans hn, hup, h.trans hdown⟩

theorem IsDownIn.of_after (h : (flag.after c).IsDownIn a b) : flag.IsDownIn (c + a) (c + b) := by
  intro k hle hlt
  have hk := h (k - c) (by omega) (by omega)
  rwa [after, Nat.add_sub_cancel' (by omega)] at hk

theorem RisesIn.of_after (h : (flag.after c).RisesIn a b) : flag.RisesIn (c + a) (c + b) := by
  obtain ⟨n, rfl, hn, hup, hdown⟩ := h
  exact ⟨c + n, rfl, Nat.add_le_add_left hn c, hup, hdown.of_after⟩

end CancelReadings

namespace Test

/-- How a scan that began at `c` ended, while the same scan with the flag down comes to `alone`. -/
inductive Scan.Heeds (flag : CancelReadings) (c : Scan) (alone : Except Fault Scan) (done : Scan) :
    Prop
  | interrupted (cancelled : done.cancelled = true) (dropped : done.test.groups = [])
      (rises : flag.RisesIn c.reads done.reads)
  | undisturbed (going : done.cancelled = false) (same : alone = .ok done)
      (le : c.reads ≤ done.reads) (down : flag.IsDownIn c.reads done.reads)

theorem Scan.step_heeds {flag : CancelReadings} {t : Instant} {c done : Scan}
    (going : c.cancelled = false) (h : c.step flag t = .ok done) :
    Scan.Heeds flag c (c.step .down t) done := by
  cases hflag : flag c.reads with
  | true =>
    rw [step_of_up hflag] at h
    cases h
    exact .interrupted rfl rfl (.single hflag)
  | false =>
    have hdown : c.step .down t = .ok done := by
      rw [← h]
      unfold Scan.step
      rw [hflag]
      rfl
    obtain ⟨hup, -⟩ | ⟨-, root, -, hdone⟩ := step_cases h
    · rw [hflag] at hup
      cases hup
    · have hreads : done.reads = c.reads + 1 := by rw [hdone]
      refine .undisturbed (by rw [hdone]; exact going) hdown (by omega) ?_
      rw [hreads]
      exact .single hflag

theorem scan_heeds {flag : CancelReadings} {i : Interval} {last t : Instant} {c done : Scan}
    (going : c.cancelled = false) (h : scan flag i last t c = .ok done) :
    Scan.Heeds flag c (scan .down i last t c) done := by
  fun_induction scan flag i last t c with
  | case1 => cases h
  | case2 t c hle c' hstep hcancelled =>
    cases h
    cases Scan.step_heeds going hstep with
    | interrupted cancelled dropped rises => exact .interrupted cancelled dropped rises
    | undisturbed hgoing => simp [hgoing] at hcancelled
  | case3 => cases h
  | case4 t c hle c' hstep hgoing next hnext hlt ih =>
    cases Scan.step_heeds going hstep with
    | interrupted cancelled => exact absurd cancelled hgoing
    | undisturbed going' same le down =>
      have hscan : scan .down i last t c = scan .down i last next c' := by
        conv_lhs => unfold scan
        simp only [if_pos hle, same, going', hnext, if_pos hlt, Bool.false_eq_true, if_false]
      rw [hscan]
      cases ih going' h with
      | interrupted cancelled dropped rises =>
        exact .interrupted cancelled dropped (down.rises le rises)
      | undisturbed hdone same le' down' =>
        exact .undisturbed hdone same (le.trans le') (down.trans down')
  | case5 => cases h
  | case6 t c hgt =>
    cases h
    refine .undisturbed going ?_ (Nat.le_refl _) (.refl flag _)
    unfold scan
    rw [if_neg hgt]

theorem scanBetween_heeds {s : Test} {flag : CancelReadings} {anchor : Instant}
    {bounds : Instant × Instant} {interval : Option Interval} {done : Scan} (empty : s.groups = [])
    (h : s.scanBetween flag anchor bounds interval = .ok done) :
    Scan.Heeds flag { test := s } (s.scanBetween .down anchor bounds interval) done := by
  cases interval with
  | some i =>
    obtain ⟨slot, hslot, hscan⟩ := bind_eq_ok.mp h
    have hheeds := scan_heeds rfl hscan
    simp only [scanBetween, hslot]
    exact hheeds
  | none =>
    simp only [scanBetween] at h ⊢
    split at h
    · next hin =>
      rw [if_pos hin]
      exact Scan.step_heeds rfl h
    · next hout =>
      rw [if_neg hout]
      cases h
      cases hflag : flag 0 with
      | true => exact .interrupted rfl empty (.single hflag)
      | false => exact .undisturbed rfl rfl (Nat.zero_le _) (.single hflag)

theorem sweep_heeds {s : Test} {flag : CancelReadings} {anchor start : Instant}
    {resolved : List Bool} {p : Pass} (empty : s.groups = [])
    (h : s.sweep flag anchor start resolved = .ok p) :
    (p.result = .error .cancelled ∧ p.test.groups = [] ∧ flag.RisesIn 0 p.reads) ∨
      (p.result ≠ .error .cancelled ∧ s.sweep .down anchor start resolved = .ok p ∧
        flag.IsDownIn 0 p.reads) := by
  unfold sweep at h ⊢
  cases hnative : s.nativeInterval with
  | error e =>
    rw [hnative] at h
    cases h
    refine .inr ⟨fun hresult => ?_, rfl, .refl flag 0⟩
    cases hresult
    exact sharedInterval_ne_cancelled _ _ hnative
  | ok interval =>
    rw [hnative] at h
    obtain ⟨done, hdone, h⟩ := bind_eq_ok.mp h
    cases scanBetween_heeds empty hdone with
    | interrupted cancelled dropped rises =>
      rw [cancelled] at h
      cases h
      exact .inl ⟨rfl, dropped, rises⟩
    | undisturbed going same _ down =>
      rw [going] at h
      cases h
      refine .inr ⟨fun hresult => (by cases hresult), bind_eq_ok.mpr ⟨done, same, ?_⟩, down⟩
      rw [going]
      rfl

/-- A pass is interrupted by the first reading that finds the flag up, or goes on as with the flag
down. -/
theorem pass_heeds {s : Test} {source : Source} {flag : CancelReadings} {anchor : Instant} {p : Pass}
    (h : s.pass source flag anchor = .ok p) :
    (p.result = .error .cancelled ∧ p.test.groups = [] ∧ flag.RisesIn 0 p.reads) ∨
      (p.result ≠ .error .cancelled ∧ s.pass source .down anchor = .ok p ∧
        flag.IsDownIn 0 p.reads) := by
  rw [pass_eq] at h
  obtain ⟨start, hstart, h⟩ := bind_eq_ok.mp h
  obtain ⟨x, hx, h⟩ := bind_eq_ok.mp h
  have hempty : (s.bound x.1).groups = [] := rfl
  refine (sweep_heeds hempty h).imp_right fun ⟨hresult, hdown, hreadings⟩ => ⟨hresult, ?_, hreadings⟩
  exact bind_eq_ok.mpr ⟨start, hstart, bind_eq_ok.mpr ⟨x, hx, hdown⟩⟩

end Test
end SeriesAlarm
