import Mathlib.Tactic.Ring
import SeriesAlarm.Proofs.Calendar.Ticks

/-!
# Regular intervals tick

A second, a minute or an hour whose multiplier divides the next unit, and a day, tick at the multiples
of their length. A month and a year tick at the first instant of each.
-/

namespace SeriesAlarm

theorem Instant.nanosPerDay_dvd_first : nanosPerDay ∣ Instant.first.nanos := by decide

theorem Instant.last_eq : Instant.last.nanos = Date.monthStart (12 * (lastYear + 1)) * nanosPerDay - 1 := by
  decide

theorem Instant.first_eq : Instant.first.nanos = Date.monthStart (12 * firstYear) * nanosPerDay := by
  decide

namespace Interval

variable {i : Interval}

section Steps

theorem ticks_of_step {step : Int} (pos : 0 < step) (dvd : step ∣ nanosPerDay)
    (align : ∀ t, (i.align t).nanos = t.nanos - t.nanos % step)
    (next : ∀ t v, i.next? t = some v → v.nanos = t.nanos + step) :
    i.Ticks fun k => k * step := by
  have hsucc (k : Int) : (k + 1) * step = k * step + step := by ring
  refine ⟨fun k => ?_, fun t => ⟨t.nanos / step, ?_⟩, fun k v _ hv => ?_, ?_⟩
  · rw [hsucc]
    omega
  · have hdiv := Int.mul_ediv_add_emod t.nanos step
    have hnonneg := Int.emod_nonneg t.nanos (Int.ne_of_gt pos)
    have hlt := Int.emod_lt_of_pos t.nanos pos
    rw [Int.mul_comm] at hdiv
    rw [align, hsucc]
    omega
  · left
    rw [next _ v hv, hsucc]
  · obtain ⟨k, hk⟩ := Dvd.dvd.trans dvd Instant.nanosPerDay_dvd_first
    exact ⟨k, by rw [hk, Int.mul_comm]⟩

/-- Rounding down to a unit and then to a multiple of units rounds down to their product. -/
theorem sub_emod_sub_emod {t w m : Int} (hw : 0 < w) :
    t - t % w - t / w % m * w = t - t % (w * m) := by
  have hunit := Int.mul_ediv_add_emod t w
  have hmany := Int.mul_ediv_add_emod (t / w) m
  have hboth := Int.mul_ediv_add_emod t (w * m)
  rw [Int.ediv_ediv_of_nonneg (Int.le_of_lt hw)] at hmany
  have hproduct : w * (t / w) = w * m * (t / (w * m)) + t / w % m * w := by
    conv_lhs => rw [← hmany]
    ring
  omega

theorem truncate_of_clock {u : TimeUnit} (hu : u = .second ∨ u = .minute ∨ u = .hour)
    (t : Instant) :
    (t.truncate u).nanos = t.nanos - t.nanos % (u.nominalSeconds * nanosPerSecond) := by
  rcases hu with rfl | rfl | rfl <;> rfl

theorem clockField_emod {u : TimeUnit} {m : Nat}
    (hm : ((u = .second ∨ u = .minute) ∧ m ∣ 60) ∨ (u = .hour ∧ m ∣ 24)) (t : Instant) :
    ((u.clockField t % m : Nat) : Int) = t.nanos / (u.nominalSeconds * nanosPerSecond) % m := by
  have hcount {n : Int} {q c : Nat} (hm : m ∣ c) (hq : (q : Int) = n % c) :
      ((q % m : Nat) : Int) = n % m := by
    rw [Int.natCast_emod, hq, Int.emod_emod_of_dvd n (Int.natCast_dvd_natCast.mpr hm)]
  rcases hm with ⟨rfl | rfl, h60⟩ | ⟨rfl, h24⟩
  · refine hcount h60 ?_
    simp only [TimeUnit.clockField, Instant.second, Instant.secondOfDay, nanosPerDay,
      nanosPerSecond, TimeUnit.nominalSeconds]
    omega
  · refine hcount h60 ?_
    simp only [TimeUnit.clockField, Instant.minute, Instant.secondOfDay, nanosPerDay,
      nanosPerSecond, TimeUnit.nominalSeconds]
    omega
  · refine hcount h24 ?_
    simp only [TimeUnit.clockField, Instant.hour, Instant.secondOfDay, nanosPerDay,
      nanosPerSecond, TimeUnit.nominalSeconds]
    omega

def stepNanos (i : Interval) : Int := i.base.nominalSeconds * nanosPerSecond * i.multiplier

theorem nanos_of_next? {v t : Instant}
    (hu : i.base = .second ∨ i.base = .minute ∨ i.base = .hour ∨ i.base = .day)
    (h : i.next? t = some v) : v.nanos = t.nanos + i.stepNanos := by
  unfold next? add? at h
  rcases hu with hu | hu | hu | hu <;>
  · rw [hu] at h
    rw [Instant.shift_eq_some h, stepNanos, hu]
    simp only [TimeUnit.nominalSeconds]
    push_cast
    ring

theorem ticks_of_clock
    (hm : ((i.base = .second ∨ i.base = .minute) ∧ i.multiplier ∣ 60) ∨
      (i.base = .hour ∧ i.multiplier ∣ 24)) :
    i.Ticks fun k => k * i.stepNanos := by
  have hu : i.base = .second ∨ i.base = .minute ∨ i.base = .hour := by tauto
  have hunit : 0 < (i.base.nominalSeconds : Int) * nanosPerSecond := by
    rcases hu with hu | hu | hu <;> rw [hu] <;> decide
  refine ticks_of_step ?_ ?_ (fun t => ?_) fun t v hv => nanos_of_next? (by tauto) hv
  · exact Int.mul_pos hunit (Int.natCast_pos.mpr i.multiplier_pos)
  · have hday : ∀ {w n : Int} {m : Nat}, w * n ∣ nanosPerDay → (m : Int) ∣ n → w * m ∣ nanosPerDay :=
      fun hw hmn => Dvd.dvd.trans (Int.mul_dvd_mul_left _ hmn) hw
    rcases hm with ⟨hu | hu, hm⟩ | ⟨hu, hm⟩ <;> rw [stepNanos, hu]
    · exact hday (n := 60) (by decide) (Int.natCast_dvd_natCast.mpr hm)
    · exact hday (n := 60) (by decide) (Int.natCast_dvd_natCast.mpr hm)
    · exact hday (n := 24) (by decide) (Int.natCast_dvd_natCast.mpr hm)
  · have hfloor : (t.nanos - t.nanos % (i.base.nominalSeconds * nanosPerSecond)) /
        (i.base.nominalSeconds * nanosPerSecond) =
          t.nanos / (i.base.nominalSeconds * nanosPerSecond) := by
      have hdiv := Int.mul_ediv_add_emod t.nanos (i.base.nominalSeconds * nanosPerSecond)
      have hmul : t.nanos - t.nanos % (i.base.nominalSeconds * nanosPerSecond) =
          i.base.nominalSeconds * nanosPerSecond *
            (t.nanos / (i.base.nominalSeconds * nanosPerSecond)) := by omega
      rw [hmul, Int.mul_ediv_cancel_left _ (Int.ne_of_gt hunit)]
    simp only [align]
    rw [clockField_emod hm, truncate_of_clock hu, hfloor, stepNanos, ← sub_emod_sub_emod hunit]
    ring

theorem ticks_of_day (hu : i.base = .day) (hm : i.multiplier = 1) :
    i.Ticks fun k => k * nanosPerDay := by
  refine ticks_of_step (by decide) (Int.dvd_refl _) (fun t => ?_) fun t v hv => ?_
  · simp [align, hu, hm, TimeUnit.clockField, Instant.truncate]
  · have hnext := nanos_of_next? (by tauto) hv
    rw [hnext, stepNanos, hu, hm]
    rfl

end Steps

section Months

open Date

theorem shiftMonths?_monthStart (k m : Int) :
    Instant.shiftMonths? ⟨monthStart k * nanosPerDay⟩ m =
      if Instant.firstYear ≤ (k + m) / 12 ∧ (k + m) / 12 ≤ Instant.lastYear then
        some ⟨monthStart (k + m) * nanosPerDay⟩
      else none := by
  have hdate : Instant.date ⟨monthStart k * nanosPerDay⟩ = firstOfMonth k := by
    rw [Instant.date, Int.mul_ediv_cancel _ (by decide), ofDayNumber_monthStart]
  simp only [Instant.shiftMonths?, hdate, shiftMonths_firstOfMonth, Int.mul_emod_left, add_zero]
  rfl

/-- A shift from the first instant of a month ends at that of another, or beyond the calendar. -/
theorem shiftMonthsSaturating_monthStart {k m : Int} (hm : 0 < m) (hlimit : m < monthLimit)
    (hfirst : Instant.first.nanos ≤ monthStart k * nanosPerDay) :
    shiftMonthsSaturating ⟨monthStart k * nanosPerDay⟩ m = ⟨monthStart (k + m) * nanosPerDay⟩ ∨
      (shiftMonthsSaturating ⟨monthStart k * nanosPerDay⟩ m = Instant.last ∧
        Instant.last.nanos < monthStart (k + m) * nanosPerDay) := by
  have hcount : (m.natAbs : Int) % wordSize 32 = m := by
    have hwide : (monthLimit : Int) < wordSize 32 := by decide
    rw [Int.natAbs_of_nonneg hm.le]
    exact Int.emod_eq_of_lt hm.le (hlimit.trans hwide)
  have hnat : ((m.natAbs % wordSize 32 : Nat) : Int) = m := by rw [Int.natCast_emod, hcount]
  have hne : m.natAbs % wordSize 32 ≠ 0 := by omega
  have hsmall : ¬ monthLimit ≤ m.natAbs % wordSize 32 := by omega
  have hshift : shiftMonthsSaturating ⟨monthStart k * nanosPerDay⟩ m =
      (Instant.shiftMonths? ⟨monthStart k * nanosPerDay⟩ m).getD Instant.last := by
    simp only [shiftMonthsSaturating, if_neg hne, if_neg hsmall, if_pos hm.le, hnat]
  rw [hshift, shiftMonths?_monthStart]
  split
  · exact .inl rfl
  next hyear =>
  right
  rw [Instant.first_eq] at hfirst
  have hlow : 12 * Instant.firstYear ≤ k :=
    monthStart_le_iff.mp (Int.le_of_mul_le_mul_right hfirst (by decide))
  have hbeyond : 12 * (Instant.lastYear + 1) ≤ k + m := by omega
  have hstart := monthStart_le_iff.mpr hbeyond
  refine ⟨rfl, ?_⟩
  rw [Instant.last_eq]
  unfold nanosPerDay
  omega

theorem monthStart_ne_last (k : Int) : monthStart k * nanosPerDay ≠ Instant.last.nanos := by
  rw [Instant.last_eq]
  unfold nanosPerDay
  omega

theorem ticks_of_month (hu : i.base = .month) (hm : i.multiplier = 1) :
    i.Ticks fun k => monthStart k * nanosPerDay := by
  refine ⟨fun k => ?_, fun t => ⟨t.date.monthNumber, ?_⟩, fun k v hfirst hv => ?_, ?_⟩
  · exact Int.mul_lt_mul_of_pos_right (monthStart_lt_succ k) (by decide)
  · obtain ⟨hlow, hhigh, -⟩ := ofDayNumber_bounds (t.nanos / nanosPerDay)
    obtain ⟨hstart, hstop⟩ := monthStart_bounds (t.nanos / nanosPerDay)
    change monthStart t.date.monthNumber ≤ _ at hstart
    change _ < monthStart (t.date.monthNumber + 1) at hstop
    refine ⟨?_, ?_, ?_⟩
    · have hmonth : monthStart t.date.monthNumber = dayNumber ⟨t.year, t.month, 1⟩ :=
        congrArg dayNumber (firstOfMonth_monthNumber hlow hhigh)
      rw [hmonth]
      simp [align, hu, TimeUnit.clockField, Instant.truncate, Instant.ofDate]
    · unfold nanosPerDay at hstart ⊢
      omega
    · unfold nanosPerDay at hstop ⊢
      omega
  · have hnext : shiftMonthsSaturating ⟨monthStart k * nanosPerDay⟩ 1 = v := by
      simpa [next?, add?, hu, hm] using hv
    rcases shiftMonthsSaturating_monthStart (m := 1) (by decide) (by decide) hfirst with h | h
    · exact .inl (by rw [← hnext, h])
    · exact .inr ⟨hnext ▸ h.1, monthStart_ne_last, h.2⟩
  · exact ⟨12 * Instant.firstYear, Instant.first_eq.symm⟩

theorem ticks_of_year (hu : i.base = .year) (hm : i.multiplier = 1) :
    i.Ticks fun k => monthStart (12 * k) * nanosPerDay := by
  have hsucc (k : Int) : 12 * (k + 1) = 12 * k + 12 := by ring
  refine ⟨fun k => ?_, fun t => ⟨t.year, ?_⟩, fun k v hfirst hv => ?_, ?_⟩
  · refine Int.mul_lt_mul_of_pos_right (monthStart_lt_iff.mpr ?_) (by decide)
    omega
  · obtain ⟨hstart, hstop⟩ := yearOf_bounds (t.nanos / nanosPerDay)
    change daysBeforeYear t.year ≤ _ at hstart
    change _ < daysBeforeYear (t.year + 1) at hstop
    rw [monthStart_of_month_one, monthStart_of_month_one]
    refine ⟨?_, ?_, ?_⟩
    · rw [← dayNumber_first]
      simp [align, hu, TimeUnit.clockField, Instant.truncate, Instant.ofDate]
    · unfold nanosPerDay at hstart ⊢
      omega
    · unfold nanosPerDay at hstop ⊢
      omega
  · have hnext : shiftMonthsSaturating ⟨monthStart (12 * k) * nanosPerDay⟩ 12 = v := by
      have hfits : fitsSigned 64 12 = true := by decide
      simpa [next?, add?, hu, hm, hfits] using hv
    rw [hsucc]
    rcases shiftMonthsSaturating_monthStart (m := 12) (by decide) (by decide) hfirst with h | h
    · exact .inl (by rw [← hnext, h])
    · exact .inr ⟨hnext ▸ h.1, fun j => monthStart_ne_last (12 * j), h.2⟩
  · exact ⟨Instant.firstYear, Instant.first_eq.symm⟩

end Months

theorem IsRegular.ticks (h : i.IsRegular) : ∃ g, i.Ticks g := by
  by_cases hclock : ((i.base = .second ∨ i.base = .minute) ∧ i.multiplier ∣ 60) ∨
      (i.base = .hour ∧ i.multiplier ∣ 24)
  · exact ⟨_, ticks_of_clock hclock⟩
  · have hone : i.multiplier = 1 := h.resolve_right hclock
    cases hu : i.base with
    | second => exact absurd (.inl ⟨.inl hu, by simp [hone]⟩) hclock
    | minute => exact absurd (.inl ⟨.inr hu, by simp [hone]⟩) hclock
    | hour => exact absurd (.inr ⟨hu, by simp [hone]⟩) hclock
    | day => exact ⟨_, ticks_of_day hu hone⟩
    | month => exact ⟨_, ticks_of_month hu hone⟩
    | year => exact ⟨_, ticks_of_year hu hone⟩

end Interval
end SeriesAlarm
