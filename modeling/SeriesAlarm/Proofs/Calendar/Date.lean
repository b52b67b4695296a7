import Mathlib.Order.Monotone.Basic
import SeriesAlarm.Calendar.Date

/-!
# Months and years as ranges of days

Months are numbered through from the start of the year 0, and `monthStart` is the number of the first
day of each. A day number lies between the start of the month of its date and that of the next month,
and likewise for years, so the date of a first day is known.
-/

namespace SeriesAlarm

theorem daysBeforeMonth_succ (year : Int) {month : Nat} (h : 1 ≤ month) :
    daysBeforeMonth year (month + 1) = daysBeforeMonth year month + daysInMonth year month := by
  obtain ⟨m, rfl⟩ := Nat.exists_eq_add_of_le' h
  rfl

theorem daysBeforeMonth_thirteen (year : Int) : daysBeforeMonth year 13 = 365 + leapDay year := by
  simp only [daysBeforeMonth, daysInMonth]
  omega

namespace Date

theorem monthUpTo_bounds (year : Int) (dayOfYear : Nat) {n : Nat} (hn : 1 ≤ n) :
    1 ≤ monthUpTo year dayOfYear n ∧ monthUpTo year dayOfYear n ≤ n ∧
      daysBeforeMonth year (monthUpTo year dayOfYear n) ≤ dayOfYear ∧
      (dayOfYear < daysBeforeMonth year (n + 1) →
        dayOfYear < daysBeforeMonth year (monthUpTo year dayOfYear n + 1)) := by
  fun_induction monthUpTo year dayOfYear n with
  | case1 => omega
  | case2 => exact ⟨Nat.le_refl 1, Nat.le_refl 1, Nat.zero_le _, id⟩
  | case3 month hmonth hle => exact ⟨hn, Nat.le_refl _, hle, id⟩
  | case4 month hmonth hle ih =>
    have hpos : 1 ≤ month := Nat.one_le_iff_ne_zero.mpr hmonth
    obtain ⟨hlow, hhigh, hstart, hstop⟩ := ih hpos
    exact ⟨hlow, Nat.le_succ_of_le hhigh, hstart, fun _ => hstop (Nat.lt_of_not_le hle)⟩

/-- What the date of a day number is. -/
theorem ofDayNumber_bounds (n : Int) :
    1 ≤ (ofDayNumber n).month ∧ (ofDayNumber n).month ≤ 12 ∧ 1 ≤ (ofDayNumber n).day ∧
      (ofDayNumber n).day ≤ daysInMonth (ofDayNumber n).year (ofDayNumber n).month ∧
      (ofDayNumber n).dayNumber = n := by
  obtain ⟨hstart, hstop⟩ := yearOf_bounds n
  rw [daysBeforeYear_succ] at hstop
  have hyear : (n - daysBeforeYear (yearOf n)).toNat < daysBeforeMonth (yearOf n) 13 := by
    rw [daysBeforeMonth_thirteen]
    omega
  obtain ⟨hlow, hhigh, hmonth, hnext⟩ := monthUpTo_bounds (yearOf n)
    (n - daysBeforeYear (yearOf n)).toNat (n := 12) (by decide)
  have hnext := hnext hyear
  rw [daysBeforeMonth_succ _ hlow] at hnext
  simp only [ofDayNumber, dayNumber]
  refine ⟨hlow, hhigh, ?_, ?_, ?_⟩ <;> omega

def firstOfMonth (k : Int) : Date := ⟨k / 12, (k % 12 + 1).toNat, 1⟩

def monthStart (k : Int) : Int := (firstOfMonth k).dayNumber

theorem monthStart_succ (k : Int) :
    monthStart (k + 1) = monthStart k + daysInMonth (k / 12) (k % 12 + 1).toNat := by
  by_cases hlast : k % 12 = 11
  · have hdiv : (k + 1) / 12 = k / 12 + 1 := by omega
    have hmod : (k + 1) % 12 = 0 := by omega
    have hdays := daysBeforeMonth_thirteen (k / 12)
    rw [daysBeforeMonth_succ _ (by decide)] at hdays
    simp only [monthStart, firstOfMonth, dayNumber, hdiv, hmod, hlast, daysBeforeYear_succ]
    change _ + ((0 : Nat) : Int) + _ - _ = _ + ((daysBeforeMonth (k / 12) 12 : Nat) : Int) + _ - _ +
      ((daysInMonth (k / 12) 12 : Nat) : Int)
    omega
  · have hdiv : (k + 1) / 12 = k / 12 := by omega
    have hmod : ((k + 1) % 12 + 1).toNat = (k % 12 + 1).toNat + 1 := by omega
    have hpos : 1 ≤ (k % 12 + 1).toNat := by omega
    simp only [monthStart, firstOfMonth, dayNumber, hdiv, hmod, daysBeforeMonth_succ _ hpos]
    omega

theorem monthStart_lt_succ (k : Int) : monthStart k < monthStart (k + 1) := by
  have hpos := daysInMonth_pos (k / 12) (k % 12 + 1).toNat
  rw [monthStart_succ]
  omega

theorem dayNumber_first (year : Int) : dayNumber ⟨year, 1, 1⟩ = daysBeforeYear year := by
  change daysBeforeYear year + ((0 : Nat) : Int) + ((1 : Nat) : Int) - 1 = _
  omega

theorem monthStart_of_month_one (year : Int) : monthStart (12 * year) = daysBeforeYear year := by
  have hdiv : 12 * year / 12 = year := by omega
  have hmod : 12 * year % 12 = 0 := by omega
  rw [monthStart, firstOfMonth, hdiv, hmod]
  exact dayNumber_first year

theorem firstOfMonth_monthNumber {d : Date} (h : 1 ≤ d.month) (h' : d.month ≤ 12) :
    firstOfMonth d.monthNumber = { d with day := 1 } := by
  have hdiv : d.monthNumber / 12 = d.year := by unfold monthNumber; omega
  have hmod : (d.monthNumber % 12 + 1).toNat = d.month := by unfold monthNumber; omega
  rw [firstOfMonth, hdiv, hmod]

theorem monthNumber_firstOfMonth (k : Int) : (firstOfMonth k).monthNumber = k := by
  simp only [monthNumber, firstOfMonth]
  omega

theorem monthStart_bounds (n : Int) :
    monthStart (ofDayNumber n).monthNumber ≤ n ∧ n < monthStart ((ofDayNumber n).monthNumber + 1) := by
  obtain ⟨hlow, hhigh, hday, hlength, hnumber⟩ := ofDayNumber_bounds n
  have hdiv : (ofDayNumber n).monthNumber / 12 = (ofDayNumber n).year := by
    unfold monthNumber; omega
  have hmod : ((ofDayNumber n).monthNumber % 12 + 1).toNat = (ofDayNumber n).month := by
    unfold monthNumber; omega
  rw [monthStart_succ, hdiv, hmod, monthStart, firstOfMonth_monthNumber hlow hhigh]
  unfold dayNumber at hnumber ⊢
  dsimp only
  omega

theorem monthStart_lt_iff {j k : Int} : monthStart j < monthStart k ↔ j < k :=
  (strictMono_int_of_lt_succ monthStart_lt_succ).lt_iff_lt

theorem monthStart_le_iff {j k : Int} : monthStart j ≤ monthStart k ↔ j ≤ k :=
  (strictMono_int_of_lt_succ monthStart_lt_succ).le_iff_le

theorem ofDayNumber_monthStart (k : Int) : ofDayNumber (monthStart k) = firstOfMonth k := by
  obtain ⟨hlow, hhigh, hday, -, hnumber⟩ := ofDayNumber_bounds (monthStart k)
  obtain ⟨hstart, hstop⟩ := monthStart_bounds (monthStart k)
  have hle : (ofDayNumber (monthStart k)).monthNumber ≤ k :=
    monthStart_le_iff.mp hstart
  have hlt : k < (ofDayNumber (monthStart k)).monthNumber + 1 :=
    monthStart_lt_iff.mp hstop
  have hmonth : (ofDayNumber (monthStart k)).monthNumber = k := by omega
  have hfirst := firstOfMonth_monthNumber hlow hhigh
  rw [hmonth] at hfirst
  have hone : (ofDayNumber (monthStart k)).day = 1 := by
    have hsame : (firstOfMonth k).dayNumber = (ofDayNumber (monthStart k)).dayNumber :=
      hnumber.symm
    rw [hfirst] at hsame
    unfold dayNumber at hsame
    dsimp only at hsame
    omega
  rw [hfirst, ← hone]

theorem shiftMonths_firstOfMonth (k m : Int) :
    (firstOfMonth k).shiftMonths m = firstOfMonth (k + m) := by
  simp only [shiftMonths, monthNumber_firstOfMonth, clamped]
  have hmin : min 1 (daysInMonth ((k + m) / 12) ((k + m) % 12 + 1).toNat) = 1 :=
    Nat.min_eq_left (daysInMonth_pos _ _)
  change (⟨_, _, min 1 _⟩ : Date) = _
  rw [hmin]
  rfl

theorem monthStart_le_shiftMonths {d : Date} (h : 1 ≤ d.day) (m : Int) :
    monthStart (d.monthNumber + m) ≤ (d.shiftMonths m).dayNumber := by
  have hlength := daysInMonth_pos ((d.monthNumber + m) / 12) ((d.monthNumber + m) % 12 + 1).toNat
  have hday : 1 ≤ min d.day
      (daysInMonth ((d.monthNumber + m) / 12) ((d.monthNumber + m) % 12 + 1).toNat) :=
    Nat.le_min.mpr ⟨h, hlength⟩
  simp only [monthStart, firstOfMonth, shiftMonths, clamped, dayNumber]
  omega

theorem shiftMonths_year (d : Date) (m : Int) :
    (d.shiftMonths m).year = (d.monthNumber + m) / 12 := rfl

end Date
end SeriesAlarm
