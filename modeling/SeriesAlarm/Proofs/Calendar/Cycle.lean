import SeriesAlarm.Proofs.Calendar.Room

/-!
# Where grids begin anew

The grid of seconds begins anew with every minute, that of minutes with every hour and that of hours
with every day; days, months and years are only truncated to. Steps of an interval lead from one such
beginning to the next only if the interval is regular.
-/

namespace SeriesAlarm

/-- The unit with which the grid of a unit begins anew. -/
def TimeUnit.cycle : TimeUnit → TimeUnit
  | .second => .minute
  | .minute => .hour
  | .hour => .day
  | u => u

theorem TimeUnit.clockField_of_cycle {u : TimeUnit} {t : Instant} (h : t.truncate u.cycle = t) :
    t.truncate u = t ∧ u.clockField t = 0 := by
  have hnanos := congrArg Instant.nanos h
  cases u with
  | second | minute | hour =>
    simp only [cycle, Instant.truncate, nanosPerDay, nanosPerSecond] at hnanos
    refine ⟨Instant.ext ?_, ?_⟩
    · simp only [Instant.truncate, nanosPerSecond]
      omega
    · simp only [clockField, Instant.second, Instant.minute, Instant.hour, Instant.secondOfDay,
        nanosPerDay, nanosPerSecond]
      omega
  | day | month | year => exact ⟨h, rfl⟩

namespace Interval

variable {i : Interval} {t u v : Instant}

def cycle (i : Interval) : Interval where
  base := i.base.cycle
  multiplier := 1
  multiplier_pos := oneDay.multiplier_pos
  multiplier_lt := oneDay.multiplier_lt

theorem align_of_align_cycle (h : i.cycle.align t = t) : i.align t = t := by
  have htruncate : t.truncate i.base.cycle = t := by
    rw [← align_one]
    exact h
  obtain ⟨hunit, hfield⟩ := TimeUnit.clockField_of_cycle htruncate
  simp [align, hunit, hfield]

theorem Follows.nanos (fixed : i.IsFixed) (h : i.Follows t u) :
    ∃ k : Nat, u.nanos = t.nanos + k * i.stepNanos := by
  induction h with
  | refl t => exact ⟨0, by simp⟩
  | step hnext _ _ ih =>
    obtain ⟨k, hk⟩ := ih
    refine ⟨k + 1, ?_⟩
    rw [hk, nanos_of_next? fixed hnext]
    push_cast
    ring

theorem Follows.next_le (h : i.Follows t u) (hlt : t < u) :
    ∃ next, i.next? t = some next ∧ next ≤ u := by
  cases h with
  | refl => exact absurd hlt (Int.lt_irrefl _)
  | step hnext _ hfollows => exact ⟨_, hnext, hfollows.le⟩

/-- A cycle is so many steps of a fixed length only if the multiplier divides it. -/
theorem isRegular_of_cycle {k : Nat} (fixed : i.IsFixed)
    (h : i.cycle.stepNanos = k * i.stepNanos) : i.IsRegular := by
  have hdvd (unit n : Nat) (hpos : 0 < unit)
      (h : ((unit * n : Nat) : Int) * nanosPerSecond =
        k * ((unit : Int) * nanosPerSecond * i.multiplier)) : i.multiplier ∣ n := by
    refine ⟨k, ?_⟩
    have hunit : ((unit * n : Nat) : Int) * nanosPerSecond =
        ((unit * (i.multiplier * k) : Nat) : Int) * nanosPerSecond := by
      rw [h]
      push_cast
      ring
    exact Nat.eq_of_mul_eq_mul_left hpos (by unfold nanosPerSecond at hunit; omega)
  simp only [stepNanos, cycle] at h
  rcases fixed with hu | hu | hu | hu <;> rw [hu] at h
  · exact .inr (.inl ⟨.inl hu, hdvd 1 60 (by decide) h⟩)
  · exact .inr (.inl ⟨.inr hu, hdvd 60 60 (by decide) h⟩)
  · exact .inr (.inr ⟨hu, hdvd 3600 24 (by decide) h⟩)
  · exact .inl (Nat.dvd_one.mp (hdvd 86400 1 (by decide) h))

section Months

open Date

theorem exists_monthStart (h : ¬ i.IsFixed) (ht : Instant.first ≤ t) (aligned : i.align t = t) :
    ∃ k, t = ⟨monthStart k * nanosPerDay⟩ ∧ Instant.first.nanos ≤ monthStart k * nanosPerDay := by
  cases hu : i.base with
  | second | minute | hour | day => simp [IsFixed, hu] at h
  | month =>
    obtain ⟨k, hk, hfirst, -⟩ := align_of_month hu ht
    exact ⟨k, aligned.symm.trans hk, hfirst⟩
  | year =>
    obtain ⟨k, hk, hfirst, -⟩ := align_of_year hu ht
    exact ⟨12 * k, aligned.symm.trans hk, hfirst⟩

theorem months_le {k n m : Int} {next : Instant} (hm : 0 < m) (hfits : m < wordSize 32)
    (hfirst : Instant.first.nanos ≤ monthStart k * nanosPerDay)
    (hnext : shiftMonthsSaturating ⟨monthStart k * nanosPerDay⟩ m = next)
    (hle : next.nanos ≤ monthStart (k + n) * nanosPerDay)
    (hlast : monthStart (k + n) * nanosPerDay < Instant.last.nanos) : m ≤ n := by
  by_contra hmore
  have hbefore : monthStart (k + n) * nanosPerDay < monthStart (k + m) * nanosPerDay :=
    Int.mul_lt_mul_of_pos_right (monthStart_lt_iff.mpr (by omega)) (by decide)
  have hbeyond := lt_shiftMonthsSaturating (t := ⟨monthStart (k + n) * nanosPerDay⟩) hm hfits
    hfirst hbefore hnext
  rcases hbeyond with hlt | heq
  · rw [Instant.lt_def] at hlt
    exact absurd hle (Int.not_le.mpr hlt)
  · rw [heq] at hle
    exact absurd hle (Int.not_le.mpr hlast)

theorem months_pos (i : Interval) : 0 < i.months := by
  have hpos := i.multiplier_pos
  unfold months
  split <;> omega

theorem MonthsFit.months_lt (h : i.MonthsFit) : i.months < wordSize 32 := by
  have hlt := i.multiplier_lt
  unfold months
  split
  · next hu => exact h hu
  · exact hlt

theorem MonthsFit.moves (h : i.MonthsFit) : i.Moves :=
  .inr fun hdvd => absurd (Nat.le_of_dvd i.months_pos hdvd) (Nat.not_le.mpr h.months_lt)

end Months

/-- Steps of an irregular interval do not lead from one beginning of the grid to the next. -/
theorem isRegular_of_follows (fits : i.MonthsFit) (hfirst : Instant.first ≤ t)
    (begins : i.cycle.align t = t) (hnext : i.cycle.next? t = some v) (hlt : t < v)
    (hlast : v < Instant.last) (h : i.Follows t v) : i.IsRegular := by
  by_cases fixed : i.IsFixed
  · have hcycle : i.cycle.IsFixed := by
      rcases fixed with hu | hu | hu | hu <;> simp [IsFixed, cycle, hu, TimeUnit.cycle]
    obtain ⟨k, hk⟩ := h.nanos fixed
    refine isRegular_of_cycle (k := k) fixed ?_
    have hv := nanos_of_next? hcycle hnext
    omega
  · have hbase : i.cycle.base = i.base := by
      cases hu : i.base <;> simp [IsFixed, hu, cycle, TimeUnit.cycle] at fixed ⊢
    have hcycle : ¬ i.cycle.IsFixed := fun h => fixed (by rwa [IsFixed, hbase] at h)
    have hmonths : i.months = i.cycle.months * i.multiplier := by
      unfold months
      rw [hbase]
      split <;> simp [cycle]
    obtain ⟨k, rfl, hk⟩ := exists_monthStart fixed hfirst (align_of_align_cycle begins)
    obtain ⟨next, hnext', hle⟩ := h.next_le hlt
    rw [next?, add?_of_not_isFixed hcycle _ (.inl rfl), mul_one] at hnext
    rw [next?, add?_of_not_isFixed fixed _ (.inl rfl), mul_one] at hnext'
    have hlimit : (i.cycle.months : Int) < monthLimit := by
      have hyear : i.cycle.months ≤ 12 := by
        unfold months cycle
        split <;> simp
      have hwide : 12 < monthLimit := by decide
      omega
    have hv : v.nanos = Date.monthStart (k + i.cycle.months) * nanosPerDay := by
      rcases shiftMonthsSaturating_monthStart (Int.ofNat_lt.mpr i.cycle.months_pos) hlimit hk with
        heq | ⟨heq, -⟩
      · rw [← Option.some.inj hnext, heq]
      · rw [← Option.some.inj hnext, heq] at hlast
        exact absurd hlast (Int.lt_irrefl _)
    rw [Instant.le_def, hv] at hle
    rw [Instant.lt_def, hv] at hlast
    have hfew := months_le (Int.ofNat_lt.mpr i.months_pos) (Int.ofNat_lt.mpr fits.months_lt) hk
      (Option.some.inj hnext') hle hlast
    rw [Int.ofNat_le, hmonths] at hfew
    have hone : i.multiplier ≤ 1 :=
      Nat.le_of_mul_le_mul_left (by rwa [mul_one]) i.cycle.months_pos
    exact .inl (Nat.le_antisymm hone i.multiplier_pos)

end Interval
end SeriesAlarm
