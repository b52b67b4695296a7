import SeriesAlarm.Proofs.Calendar.NextRun

/-!
# Room in the calendar

Seconds, minutes, hours and days have to stay in the calendar, while months and years are cut off at
its ends. So an interval can be added to an instant exactly if its length, where it has a fixed one,
fits before the end. From an instant that lies nearer to the end than to the beginning, what fits
ahead fits behind too, and a schedule names a next run if one interval fits ahead.
-/

namespace SeriesAlarm

namespace Instant

/-- The years in which rules are run. -/
def InEra (t : Instant) : Prop := 1970 ≤ t.year ∧ t.year ≤ 9999

instance (t : Instant) : Decidable t.InEra := inferInstanceAs (Decidable (_ ∧ _))

theorem InEra.bounds {t : Instant} (h : t.InEra) : Date.monthStart (12 * 1970) * nanosPerDay ≤ t.nanos ∧
    t.nanos < Date.monthStart (12 * 10000) * nanosPerDay := by
  obtain ⟨hlow, hhigh⟩ := t.month_bounds
  obtain ⟨hfirst, hlast⟩ := h
  rw [year_eq] at hfirst hlast
  refine ⟨le_trans ?_ hlow, hhigh.trans_le ?_⟩ <;>
    refine Int.mul_le_mul_of_nonneg_right (Date.monthStart_le_iff.mpr ?_) (by decide) <;> omega

theorem InEra.inRange {t : Instant} (h : t.InEra) : t.InRange := by
  obtain ⟨hlow, hhigh⟩ := h.bounds
  have hfirst : first.nanos ≤ Date.monthStart (12 * 1970) * nanosPerDay := by decide
  have hlast : Date.monthStart (12 * 10000) * nanosPerDay ≤ last.nanos := by decide
  exact ⟨hfirst.trans hlow, hhigh.le.trans hlast⟩

theorem InEra.lt_last {t : Instant} (h : t.InEra) : t < last := by
  have hlast : Date.monthStart (12 * 10000) * nanosPerDay < last.nanos := by decide
  exact h.bounds.2.trans hlast

theorem InEra.middle {t : Instant} (h : t.InEra) : first.nanos + last.nanos ≤ 2 * t.nanos := by
  have hmiddle : first.nanos + last.nanos ≤ 2 * (Date.monthStart (12 * 1970) * nanosPerDay) := by
    decide
  have hlow := h.bounds.1
  omega

theorem lt_of_monthNumber_lt {t v : Instant} (h : t.date.monthNumber < v.date.monthNumber) :
    t < v := by
  have hnext : Date.monthStart (t.date.monthNumber + 1) ≤ Date.monthStart v.date.monthNumber :=
    Date.monthStart_le_iff.mpr h
  exact t.month_bounds.2.trans_le
    ((Int.mul_le_mul_of_nonneg_right hnext (by decide)).trans v.month_bounds.1)

end Instant

namespace Interval

variable {i : Interval} {t u v : Instant}

instance (i : Interval) : Decidable i.IsFixed := inferInstanceAs (Decidable (_ ∨ _))

def months (i : Interval) : Nat :=
  match i.base with
  | .year => 12 * i.multiplier
  | _ => i.multiplier

def FitsBetween (i : Interval) (t u : Instant) : Prop := i.IsFixed → t.nanos + i.stepNanos ≤ u.nanos

instance (i : Interval) (t u : Instant) : Decidable (i.FitsBetween t u) :=
  inferInstanceAs (Decidable (_ → _))

/-- Adding the interval leads on: the months, which are counted modulo a word, do not vanish. -/
def Moves (i : Interval) : Prop := i.IsFixed ∨ ¬ wordSize 32 ∣ i.months

/-- The interval fits between the last of the years in which rules are run and the end of the
calendar, if it has a fixed length. -/
def IsModest (i : Interval) : Prop :=
  i.IsFixed → Date.monthStart (12 * 10000) * nanosPerDay + i.stepNanos ≤ Instant.last.nanos

instance (i : Interval) : Decidable i.IsModest := inferInstanceAs (Decidable (_ → _))

theorem IsModest.fitsAhead (h : i.IsModest) (era : t.InEra) (hle : u ≤ t) :
    i.FitsBetween u .last := by
  intro hfixed
  have hhigh := era.bounds.2
  have hfits := h hfixed
  rw [Instant.le_def] at hle
  omega

theorem IsModest.fitsBehind (h : i.IsModest) (era : t.InEra) : i.FitsBetween .first t := by
  intro hfixed
  have hhigh := era.bounds.2
  have hmiddle := era.middle
  have hfits := h hfixed
  omega

theorem stepNanos_pos (h : i.IsFixed) : 0 < i.stepNanos := by
  have hunit : 0 < (i.base.nominalSeconds : Int) * nanosPerSecond := by
    rcases h with hu | hu | hu | hu <;> rw [hu] <;> decide
  exact Int.mul_pos hunit (Int.natCast_pos.mpr i.multiplier_pos)

theorem add?_of_isFixed (h : i.IsFixed) (t : Instant) (n : Int) :
    i.add? t n = Instant.inRange? ⟨t.nanos + n * i.stepNanos⟩ := by
  unfold add?
  rcases h with hu | hu | hu | hu <;>
  · rw [hu]
    simp only [Instant.shift, stepNanos, hu, TimeUnit.nominalSeconds]
    congr 2
    push_cast
    ring

theorem add?_of_not_isFixed (h : ¬ i.IsFixed) (t : Instant) {n : Int} (hn : n = 1 ∨ n = -1) :
    i.add? t n = some (shiftMonthsSaturating t (i.months * n)) := by
  have hlt := i.multiplier_lt
  have hwide : 12 * wordSize 32 < wordSize 63 := by decide
  have hfits : fitsSigned 64 (12 * (i.multiplier * n)) = true := by
    change (decide (-(wordSize 63 : Int) ≤ _) && decide (_ < (wordSize 63 : Int))) = true
    simp only [Bool.and_eq_true, decide_eq_true_eq]
    rcases hn with rfl | rfl <;> omega
  unfold add? months
  cases hu : i.base with
  | month => rfl
  | year =>
    dsimp only
    rw [if_pos hfits]
    congr 2
    push_cast
    ring
  | _ => simp [IsFixed, hu] at h

theorem isSome_inRange?_iff : t.inRange?.isSome ↔ t.InRange := by
  unfold Instant.inRange?
  split <;> simp_all

theorem isSome_next?_iff (ht : Instant.first ≤ t) :
    (i.next? t).isSome ↔ i.FitsBetween t .last := by
  by_cases h : i.IsFixed
  · have hpos := stepNanos_pos h
    rw [next?, add?_of_isFixed h, isSome_inRange?_iff]
    simp only [Instant.InRange, Instant.le_def, FitsBetween, h, true_imp_iff, one_mul] at ht ⊢
    omega
  · rw [next?, add?_of_not_isFixed h t (.inl rfl)]
    exact ⟨fun _ hfixed => absurd hfixed h, fun _ => rfl⟩

theorem isSome_back?_iff (ht : t ≤ Instant.last) :
    (i.back? t).isSome ↔ i.FitsBetween .first t := by
  by_cases h : i.IsFixed
  · have hpos := stepNanos_pos h
    rw [back?, add?_of_isFixed h, isSome_inRange?_iff]
    simp only [Instant.InRange, Instant.le_def, FitsBetween, h, true_imp_iff, neg_mul,
      one_mul] at ht ⊢
    omega
  · rw [back?, add?_of_not_isFixed h t (.inr rfl)]
    exact ⟨fun _ hfixed => absurd hfixed h, fun _ => rfl⟩

/-- Months that are a multiple of the word size vanish, and all others lead on. -/
theorem lt_shiftMonthsSaturating_iff (m : Nat) (ht : t < Instant.last) :
    t < shiftMonthsSaturating t m ↔ ¬ wordSize 32 ∣ m := by
  rw [Nat.dvd_iff_mod_eq_zero]
  unfold shiftMonthsSaturating
  simp only [Int.natAbs_natCast, Int.natCast_nonneg, if_true]
  split
  · next hzero => simp [hzero, Instant.lt_def]
  · next hzero =>
    refine iff_of_true ?_ hzero
    split
    · exact ht
    · cases hshift : t.shiftMonths? (m % wordSize 32 : Nat) with
      | none => exact ht
      | some v =>
        have hmonth := Instant.monthNumber_of_shiftMonths? hshift
        exact Instant.lt_of_monthNumber_lt (by rw [Option.getD_some]; omega)

theorem shiftMonthsSaturating_neg_le (m : Nat) (ht : Instant.first ≤ t) :
    shiftMonthsSaturating t (-m) ≤ t := by
  unfold shiftMonthsSaturating
  simp only [Int.natAbs_neg, Int.natAbs_natCast]
  split
  · exact Int.le_refl _
  · next hzero =>
    have hneg : ¬ (0 : Int) ≤ -m := by
      have hpos : m ≠ 0 := fun hm => hzero (by rw [hm]; rfl)
      omega
    rw [if_neg hneg, if_neg hneg]
    split
    · exact ht
    · cases hshift : t.shiftMonths? (-(m % wordSize 32 : Nat)) with
      | none => exact ht
      | some v =>
        have hmonth := Instant.monthNumber_of_shiftMonths? hshift
        exact Int.le_of_lt (Instant.lt_of_monthNumber_lt (by rw [Option.getD_some]; omega))

theorem HasRoom.of_isFixed (h : i.IsFixed) (hnext : (i.next? t).isSome) : i.HasRoom t := by
  unfold HasRoom MonthsFit exactNext?
  rcases h with hu | hu | hu | hu <;> simp [hu, hnext]

theorem lt_next?_iff (ht : t < Instant.last) (hv : i.next? t = some v) : t < v ↔ i.Moves := by
  by_cases h : i.IsFixed
  · have hpos := stepNanos_pos h
    have hnext := nanos_of_next? h hv
    refine iff_of_true ?_ (.inl h)
    rw [Instant.lt_def]
    omega
  · rw [next?, add?_of_not_isFixed h t (.inl rfl), mul_one] at hv
    rw [← Option.some.inj hv, lt_shiftMonthsSaturating_iff i.months ht, Moves]
    exact (or_iff_right h).symm

theorem back?_le (ht : Instant.first ≤ t) (hv : i.back? t = some v) : v ≤ t := by
  by_cases h : i.IsFixed
  · have hpos := stepNanos_pos h
    rw [back?, add?_of_isFixed h, Instant.inRange?] at hv
    split at hv
    · cases hv
      rw [Instant.le_def]
      dsimp only
      omega
    · cases hv
  · rw [back?, add?_of_not_isFixed h t (.inr rfl), mul_neg_one] at hv
    rw [← Option.some.inj hv]
    exact shiftMonthsSaturating_neg_le i.months ht

end Interval

namespace TimePattern

variable {p : TimePattern} {i : Interval} {t : Instant}

theorem IsProper.isSome_realign? (h : p.IsProper) (fits : i.FitsBetween .first t) :
    (p.realign? t i).isSome := by
  rcases p.realign?_cases t i with hsame | ⟨aligned, haligned, hsame | ⟨hfixed, hshift⟩⟩
  · rw [hsame]
    rfl
  · rw [hsame]
    rfl
  · have hlast := (inRange_aligned? h haligned).2
    have htruncate := truncate_le_aligned? h haligned
    have hunit := Interval.lt_truncate hfixed t
    have hfits := fits hfixed
    have hoffset : (p.gridOffset i t + 1 : Int) * i.unitNanos ≤ i.multiplier * i.unitNanos :=
      Int.mul_le_mul_of_nonneg_right (Int.ofNat_le.mpr (p.gridOffset_lt i t))
        (Int.mul_nonneg (Int.natCast_nonneg _) (by decide))
    have hnonneg : 0 ≤ (p.gridOffset i t : Int) * i.unitNanos :=
      Int.mul_nonneg (Int.natCast_nonneg _) (Int.mul_nonneg (Int.natCast_nonneg _) (by decide))
    rw [hshift, Instant.isSome_shift_iff]
    unfold Interval.unitNanos at hoffset hnonneg
    unfold Interval.stepNanos at hfits
    simp only [Instant.InRange, Instant.le_def] at hlast htruncate ⊢
    push_cast
    constructor <;> linarith

end TimePattern

/-- In the years in which rules are run, a next run is named exactly if one interval fits ahead. -/
theorem isSome_nextSlot?_iff {base : TimePattern} {step : Interval} {now : Instant}
    (proper : base.IsProper) (era : now.InEra) :
    (nextSlot? base step now).isSome ↔ step.FitsBetween now .last := by
  have range := era.inRange
  rw [← Interval.isSome_next?_iff range.1]
  constructor
  · intro h
    obtain ⟨next, hnext⟩ := Option.isSome_iff_exists.mp h
    obtain ⟨naive, hnaive, -⟩ := Option.bind_eq_some_iff.mp hnext
    rw [hnaive]
    rfl
  · intro h
    obtain ⟨naive, hnaive⟩ := Option.isSome_iff_exists.mp h
    have hfits := (Interval.isSome_next?_iff range.1).mp h
    have hbefore : step.FitsBetween .first now := fun hfixed => by
      have hmiddle := era.middle
      have hahead := hfits hfixed
      omega
    have hbehind : step.FitsBetween .first naive := fun hfixed => by
      have hlow := range.1
      rw [Interval.nanos_of_next? hfixed hnaive]
      rw [Instant.le_def] at hlow
      omega
    obtain ⟨ahead, hahead⟩ := Option.isSome_iff_exists.mp (proper.isSome_realign? hbehind)
    obtain ⟨current, hcurrent⟩ := Option.isSome_iff_exists.mp (proper.isSome_realign? hbefore)
    simp only [nextSlot?, hnaive, hahead, hcurrent, Option.bind_eq_bind, Option.bind_some]
    split
    · next hle =>
      have hmonths : ¬ step.IsFixed := fun hfixed =>
        absurd ((Interval.HasRoom.of_isFixed hfixed h).lt_realign? proper range.1 hnaive hahead)
          (Int.not_lt.mpr hle)
      have hagain := Interval.add?_of_not_isFixed hmonths naive (.inl rfl)
      obtain ⟨later, hlater⟩ := Option.isSome_iff_exists.mp
        (proper.isSome_realign? (i := step) fun hfixed => absurd hfixed hmonths)
      rw [Interval.next?, hagain, Option.bind_some, hlater]
      rfl
    · rfl

end SeriesAlarm
