import Mathlib.Tactic.Linarith
import SeriesAlarm.Proofs.Calendar.Bounds

/-!
# The slots of any interval

An interval need not tick: `7Minute` starts anew with every hour, and the months of a long count of
years are taken modulo the size of a word. Its slots are whole seconds all the same, and unless the
count wraps, the slot after an aligned instant lies beyond that instant.
-/

namespace SeriesAlarm

namespace Instant

theorem le_of_eq {t u : Instant} (h : t = u) : t ≤ u := h ▸ Int.le_refl t.nanos

def IsWhole (t : Instant) : Prop := t.nanos % nanosPerSecond = 0

instance (t : Instant) : Decidable t.IsWhole := inferInstanceAs (Decidable (_ = _))

theorem not_isWhole_last : ¬ Instant.last.IsWhole := by decide

theorem isWhole_truncate (t : Instant) (u : TimeUnit) : (t.truncate u).IsWhole := by
  unfold IsWhole truncate
  cases u <;> simp only [ofDate, nanosPerDay, nanosPerSecond] <;> omega

theorem IsWhole.shift {t v : Instant} {seconds : Int} (ht : t.IsWhole)
    (h : t.shift seconds = some v) : v.IsWhole := by
  unfold IsWhole at ht ⊢
  rw [shift_eq_some h]
  unfold nanosPerSecond at ht ⊢
  omega

theorem IsWhole.shiftMonths {t v : Instant} {m : Int} (ht : t.IsWhole)
    (h : t.shiftMonths? m = some v) : v.IsWhole := by
  have hday := emod_of_shiftMonths? h
  unfold IsWhole nanosPerSecond at ht ⊢
  unfold nanosPerDay at hday
  omega

end Instant

namespace Interval

variable {i : Interval} {t u v : Instant}

def MonthsFit (i : Interval) : Prop := i.base = .year → 12 * i.multiplier < wordSize 32

instance (i : Interval) : Decidable i.MonthsFit := inferInstanceAs (Decidable (_ → _))

theorem isWhole_next? (ht : t.IsWhole) (h : i.next? t = some v) : v.IsWhole ∨ v = Instant.last := by
  have hmonths {m : Int} (hm : 0 ≤ m) (h : shiftMonthsSaturating t m = v) :
      v.IsWhole ∨ v = Instant.last := by
    rcases shiftMonthsSaturating_cases t m with heq | heq | ⟨n, heq⟩
    · rw [← h, heq]
      exact .inl ht
    · rw [← h, heq, if_pos hm]
      exact .inr rfl
    · rw [← h]
      exact .inl (ht.shiftMonths heq)
  unfold next? add? at h
  cases hu : i.base <;> rw [hu] at h
  · exact .inl (ht.shift h)
  · exact .inl (ht.shift h)
  · exact .inl (ht.shift h)
  · exact .inl (ht.shift h)
  · exact hmonths (by omega) (Option.some.inj h)
  · dsimp only at h
    split at h
    · exact hmonths (by omega) (Option.some.inj h)
    · cases h

theorem fitsSigned_months (i : Interval) : fitsSigned 64 (12 * i.multiplier) = true := by
  have hlt := i.multiplier_lt
  have hwide : 12 * wordSize 32 < wordSize 63 := by decide
  change (decide (-(wordSize 63 : Int) ≤ _) && decide (_ < (wordSize 63 : Int))) = true
  simp only [Bool.and_eq_true, decide_eq_true_eq]
  omega

section Align

theorem align_one (u : TimeUnit) (t : Instant) :
    align { base := u, multiplier := 1 } t = t.truncate u := by
  simp [align, Nat.mod_one]

theorem truncate_le (u : TimeUnit) (t : Instant) : t.truncate u ≤ t := by
  have hregular : IsRegular { base := u, multiplier := 1 } := .inl rfl
  obtain ⟨g, hticks⟩ := hregular.ticks
  rw [← align_one]
  exact hticks.align_le t

theorem align_le (i : Interval) (t : Instant) : i.align t ≤ t := by
  have htruncate := truncate_le i.base t
  have hoffset : 0 ≤ (((i.base.clockField (t.truncate i.base) % i.multiplier *
      i.base.nominalSeconds : Nat) : Int)) := Int.natCast_nonneg _
  rw [Instant.le_def] at htruncate ⊢
  unfold align nanosPerSecond
  dsimp only
  push_cast at hoffset ⊢
  omega

theorem isWhole_align (i : Interval) (t : Instant) : (i.align t).IsWhole := by
  have hwhole := Instant.isWhole_truncate t i.base
  unfold Instant.IsWhole at hwhole ⊢
  unfold align
  dsimp only
  rw [Int.sub_mul_emod_self_right, hwhole]

theorem align_of_month (hu : i.base = .month) (ht : Instant.first ≤ t) :
    ∃ k, i.align t = ⟨Date.monthStart k * nanosPerDay⟩ ∧
      Instant.first.nanos ≤ Date.monthStart k * nanosPerDay ∧
      t.nanos < Date.monthStart (k + 1) * nanosPerDay := by
  have hone : i.align t = align { base := .month, multiplier := 1 } t := by
    simp [align, hu, TimeUnit.clockField]
  have hticks := ticks_of_month (i := { base := .month, multiplier := 1 }) rfl rfl
  have hfirst := hticks.first_le_align ht
  obtain ⟨k, hk, -, hlt⟩ := hticks.align t
  rw [Instant.le_def, hk] at hfirst
  exact ⟨k, hone.trans (Instant.ext hk), hfirst, hlt⟩

theorem align_of_year (hu : i.base = .year) (ht : Instant.first ≤ t) :
    ∃ k, i.align t = ⟨Date.monthStart (12 * k) * nanosPerDay⟩ ∧
      Instant.first.nanos ≤ Date.monthStart (12 * k) * nanosPerDay ∧
      t.nanos < Date.monthStart (12 * (k + 1)) * nanosPerDay := by
  have hone : i.align t = align { base := .year, multiplier := 1 } t := by
    simp [align, hu, TimeUnit.clockField]
  have hticks := ticks_of_year (i := { base := .year, multiplier := 1 }) rfl rfl
  have hfirst := hticks.first_le_align ht
  obtain ⟨k, hk, -, hlt⟩ := hticks.align t
  rw [Instant.le_def, hk] at hfirst
  exact ⟨k, hone.trans (Instant.ext hk), hfirst, hlt⟩

theorem lt_truncate (hu : i.base = .second ∨ i.base = .minute ∨ i.base = .hour ∨ i.base = .day)
    (t : Instant) :
    t.nanos < (t.truncate i.base).nanos + i.base.nominalSeconds * nanosPerSecond := by
  rcases hu with hu | hu | hu | hu <;> rw [hu] <;>
    simp only [Instant.truncate, TimeUnit.nominalSeconds, nanosPerDay, nanosPerSecond] <;> omega

theorem lt_shiftMonthsSaturating {k m : Int} (hm : 0 < m) (hfits : m < wordSize 32)
    (hfirst : Instant.first.nanos ≤ Date.monthStart k * nanosPerDay)
    (ht : t.nanos < Date.monthStart (k + m) * nanosPerDay)
    (hv : shiftMonthsSaturating ⟨Date.monthStart k * nanosPerDay⟩ m = v) :
    t < v ∨ v = Instant.last := by
  by_cases hlimit : m < monthLimit
  · rcases shiftMonthsSaturating_monthStart hm hlimit hfirst with h | ⟨h, -⟩
    · left
      rw [Instant.lt_def, ← hv, h]
      exact ht
    · exact .inr (hv ▸ h)
  · right
    have hcount : m.natAbs % wordSize 32 = m.natAbs := Nat.mod_eq_of_lt (by omega)
    have hpos : 0 < monthLimit := by decide
    have hne : m.natAbs ≠ 0 := by omega
    have hbig : monthLimit ≤ m.natAbs := by omega
    rw [← hv]
    simp only [shiftMonthsSaturating, hcount, if_neg hne, if_pos hbig, if_pos hm.le,
      Option.getD_none]

/-- One interval after an aligned instant comes an instant beyond it, or the end of the calendar. -/
theorem lt_next_align (fits : i.MonthsFit) (ht : Instant.first ≤ t)
    (hv : i.next? (i.align t) = some v) : t < v ∨ v = Instant.last := by
  have hpos := i.multiplier_pos
  by_cases hu : i.base = .second ∨ i.base = .minute ∨ i.base = .hour ∨ i.base = .day
  · left
    have hunit := lt_truncate hu t
    have hoffset : i.base.clockField (t.truncate i.base) % i.multiplier + 1 ≤ i.multiplier :=
      Nat.mod_lt _ hpos
    have hnonneg : (0 : Int) ≤ i.base.nominalSeconds * nanosPerSecond :=
      Int.mul_nonneg (Int.natCast_nonneg _) (by decide)
    have hsteps := Int.mul_le_mul_of_nonneg_right (Int.ofNat_le.mpr hoffset) hnonneg
    rw [Instant.lt_def, nanos_of_next? hu hv, stepNanos, align]
    push_cast at hsteps ⊢
    linarith
  cases hbase : i.base with
  | second => exact absurd (.inl hbase) hu
  | minute => exact absurd (.inr (.inl hbase)) hu
  | hour => exact absurd (.inr (.inr (.inl hbase))) hu
  | day => exact absurd (.inr (.inr (.inr hbase))) hu
  | month =>
    obtain ⟨k, hk, hfirst, hlt⟩ := align_of_month hbase ht
    have hshift : shiftMonthsSaturating ⟨Date.monthStart k * nanosPerDay⟩ i.multiplier = v := by
      rw [hk] at hv
      simpa [next?, add?, hbase] using hv
    have hnext : Date.monthStart (k + 1) ≤ Date.monthStart (k + i.multiplier) :=
      Date.monthStart_le_iff.mpr (by omega)
    refine lt_shiftMonthsSaturating (by omega) ?_ hfirst ?_ hshift
    · exact Int.ofNat_lt.mpr i.multiplier_lt
    · exact Int.lt_of_lt_of_le hlt (Int.mul_le_mul_of_nonneg_right hnext (by decide))
  | year =>
    obtain ⟨k, hk, hfirst, hlt⟩ := align_of_year hbase ht
    have hfits := fits hbase
    have hshift : shiftMonthsSaturating ⟨Date.monthStart (12 * k) * nanosPerDay⟩
        (12 * i.multiplier) = v := by
      rw [hk] at hv
      simpa [next?, add?, hbase, i.fitsSigned_months] using hv
    have hnext : Date.monthStart (12 * (k + 1)) ≤ Date.monthStart (12 * k + 12 * i.multiplier) :=
      Date.monthStart_le_iff.mpr (by omega)
    refine lt_shiftMonthsSaturating (by omega) (by omega) hfirst ?_ hshift
    exact Int.lt_of_lt_of_le hlt (Int.mul_le_mul_of_nonneg_right hnext (by decide))

end Align

/-- An instant comes after another by repeated steps forward of one interval. -/
inductive Follows (i : Interval) : Instant → Instant → Prop
  | refl (t : Instant) : i.Follows t t
  | step {t next u : Instant} : i.next? t = some next → t < next → i.Follows next u → i.Follows t u

theorem Follows.le (h : i.Follows t u) : t ≤ u := by
  induction h with
  | refl t => exact Int.le_refl _
  | step _ hlt _ ih => exact Int.le_trans (Int.le_of_lt hlt) ih

theorem Follows.isWhole (h : i.Follows t u) (ht : t.IsWhole ∨ Instant.last ≤ t) :
    u.IsWhole ∨ Instant.last ≤ u := by
  induction h with
  | refl t => exact ht
  | step hnext hlt _ ih =>
    apply ih
    rcases ht with hwhole | hlast
    · exact (isWhole_next? hwhole hnext).imp_right fun hlast => Instant.le_of_eq hlast.symm
    · exact .inr (Int.le_trans hlast (Int.le_of_lt hlt))

end Interval
end SeriesAlarm
