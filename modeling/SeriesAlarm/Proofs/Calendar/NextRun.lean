import Mathlib.Tactic.Linarith
import SeriesAlarm.Calendar.Schedule
import SeriesAlarm.Proofs.Calendar.Slots

/-!
# The next run lies ahead

A pattern that was read from a text keeps every field in its range. Moving an instant onto such a
pattern goes back by less than one interval, so the run that is named after `now` comes later than
`now`, as long as one interval after `now` is in the calendar.
-/

namespace SeriesAlarm

theorem daysInMonth_le (year : Int) (month : Nat) : daysInMonth year month ≤ 31 := by
  have hleap := leapDay_le year
  unfold daysInMonth
  split <;> omega

namespace Date

theorem clamped_bounds (year : Int) {month day : Nat} (hmonth : 1 ≤ month ∧ month ≤ 12)
    (hday : 1 ≤ day) :
    monthStart (12 * year + month - 1) ≤ (clamped year month day).dayNumber ∧
      (clamped year month day).dayNumber < monthStart (12 * year + month) := by
  have hlength := daysInMonth_pos year month
  have hmin : 1 ≤ min day (daysInMonth year month) := Nat.le_min.mpr ⟨hday, hlength⟩
  have hcut := Nat.min_le_right day (daysInMonth year month)
  have hdiv : (12 * year + month - 1) / 12 = year := by omega
  have hmod : ((12 * year + month - 1) % 12 + 1).toNat = month := by omega
  have hsucc := monthStart_succ (12 * year + month - 1)
  rw [hdiv, hmod, show 12 * year + month - 1 + 1 = 12 * year + month by omega] at hsucc
  rw [hsucc, monthStart, firstOfMonth, hdiv, hmod]
  simp only [dayNumber, clamped]
  omega

theorem monthNumber_eq {n k : Int} (h : monthStart k ≤ n) (h' : n < monthStart (k + 1)) :
    (ofDayNumber n).monthNumber = k := by
  obtain ⟨hstart, hstop⟩ := monthStart_bounds n
  have hle : k < (ofDayNumber n).monthNumber + 1 := monthStart_lt_iff.mp (h.trans_lt hstop)
  have hge : (ofDayNumber n).monthNumber < k + 1 := monthStart_lt_iff.mp (hstart.trans_lt h')
  omega

theorem shiftMonths_lt_monthStart (d : Date) (m : Int) :
    (d.shiftMonths m).dayNumber < monthStart (d.monthNumber + m + 1) := by
  rw [monthStart_succ]
  simp only [monthStart, firstOfMonth, shiftMonths, clamped, dayNumber]
  have hday := Nat.min_le_right d.day
    (daysInMonth ((d.monthNumber + m) / 12) ((d.monthNumber + m) % 12 + 1).toNat)
  omega

end Date

namespace Instant

variable {t v : Instant}

open Date

theorem date_bounds (t : Instant) : 1 ≤ t.month ∧ t.month ≤ 12 ∧ 1 ≤ t.day ∧
    t.day ≤ daysInMonth t.year t.month ∧ t.date.dayNumber = t.nanos / nanosPerDay :=
  ofDayNumber_bounds (t.nanos / nanosPerDay)

theorem clock_bounds (t : Instant) : t.hour ≤ 23 ∧ t.minute ≤ 59 ∧ t.second ≤ 59 := by
  have hday := t.secondOfDay_lt
  unfold hour minute second
  omega

theorem clamped_date (t : Instant) : clamped t.year t.month t.day = t.date := by
  rw [clamped, Nat.min_eq_left t.date_bounds.2.2.2.1]
  rfl

theorem month_bounds (t : Instant) : monthStart t.date.monthNumber * nanosPerDay ≤ t.nanos ∧
    t.nanos < monthStart (t.date.monthNumber + 1) * nanosPerDay := by
  obtain ⟨hstart, hstop⟩ := monthStart_bounds (t.nanos / nanosPerDay)
  change monthStart t.date.monthNumber ≤ _ at hstart
  change _ < monthStart (t.date.monthNumber + 1) at hstop
  unfold nanosPerDay at hstart hstop ⊢
  omega

theorem year_eq (t : Instant) : t.year = t.date.monthNumber / 12 := by
  obtain ⟨hlow, hhigh, -⟩ := t.date_bounds
  change t.date.year = _
  change 1 ≤ t.date.month at hlow
  change t.date.month ≤ 12 at hhigh
  unfold monthNumber
  omega

theorem firstMonth_le (h : first ≤ t) : 12 * firstYear ≤ t.date.monthNumber := by
  have hlt := h.trans_lt t.month_bounds.2
  rw [first_eq] at hlt
  have hmonth := monthStart_lt_iff.mp (Int.lt_of_mul_lt_mul_right hlt (by decide))
  omega

theorem truncate_month (t : Instant) :
    (t.truncate .month).nanos = monthStart t.date.monthNumber * nanosPerDay := by
  obtain ⟨hlow, hhigh, -⟩ := t.date_bounds
  have hmonth : monthStart t.date.monthNumber = dayNumber ⟨t.year, t.month, 1⟩ :=
    congrArg dayNumber (firstOfMonth_monthNumber hlow hhigh)
  simp [truncate, ofDate, hmonth]

theorem truncate_year (t : Instant) :
    (t.truncate .year).nanos = monthStart (12 * t.year) * nanosPerDay := by
  rw [monthStart_of_month_one, ← dayNumber_first]
  simp [truncate, ofDate]

theorem monthNumber_of_shiftMonths? {m : Int} (h : t.shiftMonths? m = some v) :
    v.date.monthNumber = t.date.monthNumber + m := by
  unfold shiftMonths? at h
  dsimp only at h
  split at h
  · cases h
    have hday : ((t.date.shiftMonths m).dayNumber * nanosPerDay + t.nanos % nanosPerDay) /
        nanosPerDay = (t.date.shiftMonths m).dayNumber := by
      unfold nanosPerDay
      omega
    refine monthNumber_eq ?_ ?_ <;> rw [hday]
    · exact monthStart_le_shiftMonths t.date_bounds.2.2.1 m
    · exact shiftMonths_lt_monthStart t.date m
  · cases h

theorem inRange_ofFields? {year : Int} {month day hour minute second : Nat}
    (hmonth : 1 ≤ month ∧ month ≤ 12) (hday : 1 ≤ day) (hhour : hour ≤ 23) (hminute : minute ≤ 59)
    (hsecond : second ≤ 59) (h : ofFields? year month day hour minute second = some t) :
    t.InRange := by
  unfold ofFields? at h
  split at h
  · next hyear =>
    cases h
    obtain ⟨hlow, hhigh⟩ := clamped_bounds year hmonth hday
    have hfirst : monthStart (12 * firstYear) ≤ monthStart (12 * year + month - 1) :=
      monthStart_le_iff.mpr (by omega)
    have hlast : monthStart (12 * year + month) ≤ monthStart (12 * (lastYear + 1)) :=
      monthStart_le_iff.mpr (by omega)
    simp only [InRange, le_def, first_eq, last_eq, ofDate, nanosPerDay, nanosPerSecond]
    omega
  · cases h

end Instant

namespace TimePattern

variable {p : TimePattern}

def IsProper (p : TimePattern) : Prop := ∀ u n, p.get u = some n → lowest u ≤ n ∧ n ≤ highest u

instance (p : TimePattern) : Decidable p.IsProper :=
  decidable_of_iff (∀ u ∈ TimeUnit.all, ∀ n ∈ (p.get u).toList, lowest u ≤ n ∧ n ≤ highest u)
    ⟨fun h u n hn => h u (TimeUnit.mem_all u) n (by simp [hn]),
      fun h u _ n hn => h u n (by simpa using hn)⟩

theorem IsProper.set (h : p.IsProper) {u : TimeUnit} {n : Nat} (hn : lowest u ≤ n ∧ n ≤ highest u) :
    (p.set u n).IsProper := by
  intro v m hm
  by_cases hv : v = u
  · subst hv
    rw [get_set_self] at hm
    cases hm
    exact hn
  · rw [get_set_of_ne p n hv] at hm
    exact h v m hm

theorem isProper_readPieces {pieces : List Piece} {text : List Char} {q : TimePattern}
    (hp : p.IsProper) (h : readPieces pieces p text = .ok q) : q.IsProper := by
  fun_induction readPieces pieces p text with
  | case1 p =>
    cases h
    exact hp
  | case2 => cases h
  | case3 p c ps r ih => exact ih hp h
  | case4 => cases h
  | case5 => cases h
  | case6 => cases h
  | case7 => cases h
  | case8 p u ps v width hwidth n hn hrange ih => exact ih (hp.set hrange) h
  | case9 => cases h

theorem isProper_parse {value format : String} (h : parse value format = .ok p) : p.IsProper := by
  unfold parse at h
  split at h
  · cases h
  · cases h
  · next q hq =>
    split at h
    · cases h
    · cases h
      refine isProper_readPieces (fun u n hn => ?_) hq
      cases u <;> cases hn

/-- The instant with its finer fields taken from the pattern. -/
def aligned? (p : TimePattern) (t : Instant) (u : TimeUnit) : Option Instant :=
  Instant.ofFields? t.year (p.realignedField u .month t.month) (p.realignedField u .day t.day)
    (p.realignedField u .hour t.hour) (p.realignedField u .minute t.minute)
    (p.realignedField u .second t.second)

theorem IsProper.realignedField_bounds (h : p.IsProper) (base u : TimeUnit) {n : Nat}
    (hlow : lowest u ≤ n) (hhigh : n ≤ highest u) :
    lowest u ≤ p.realignedField base u n ∧ p.realignedField base u n ≤ highest u := by
  unfold realignedField
  split
  · cases hget : p.get u with
    | none => cases u <;> decide
    | some m => exact h u m hget
  · exact ⟨hlow, hhigh⟩

theorem inRange_aligned? (h : p.IsProper) {t a : Instant} {u : TimeUnit}
    (ha : p.aligned? t u = some a) : a.InRange := by
  obtain ⟨hlow, hhigh, hday, hlength, -⟩ := t.date_bounds
  obtain ⟨hhour, hminute, hsecond⟩ := t.clock_bounds
  have hmonth := h.realignedField_bounds u .month hlow hhigh
  have hday := h.realignedField_bounds u .day hday (hlength.trans (daysInMonth_le _ _))
  have hhour := h.realignedField_bounds u .hour (Nat.zero_le _) hhour
  have hminute := h.realignedField_bounds u .minute (Nat.zero_le _) hminute
  have hsecond := h.realignedField_bounds u .second (Nat.zero_le _) hsecond
  exact Instant.inRange_ofFields? hmonth hday.1 hhour.2 hminute.2 hsecond.2 ha

theorem truncate_le_aligned? (h : p.IsProper) {t a : Instant} {u : TimeUnit}
    (ha : p.aligned? t u = some a) : t.truncate u ≤ a := by
  obtain ⟨hlow, hhigh, hday, hlength, hnumber⟩ := t.date_bounds
  have hmonth : 1 ≤ p.realignedField u .month t.month ∧ p.realignedField u .month t.month ≤ 12 :=
    h.realignedField_bounds u .month hlow hhigh
  have hday := h.realignedField_bounds u .day hday
    (hlength.trans (daysInMonth_le _ _))
  obtain ⟨hstart, -⟩ := Date.clamped_bounds t.year hmonth hday.1
  unfold aligned? Instant.ofFields? at ha
  split at ha
  · cases ha
    rw [Instant.le_def]
    cases u with
    | month =>
      change Date.monthStart t.date.monthNumber ≤ _ at hstart
      rw [Instant.truncate_month]
      simp only [Instant.ofDate, nanosPerDay, nanosPerSecond]
      omega
    | year =>
      have hjanuary : Date.monthStart (12 * t.year) ≤ Date.monthStart (12 * t.year +
        (p.realignedField .year .month t.month : Nat) - 1) := Date.monthStart_le_iff.mpr (by omega)
      rw [Instant.truncate_year]
      simp only [Instant.ofDate, nanosPerDay, nanosPerSecond]
      omega
    | _ =>
      simp only [realignedField, TimeUnit.rank, Nat.lt_irrefl, Nat.reduceLT, if_true, if_false,
        t.clamped_date, Instant.ofDate, hnumber, Instant.truncate, Instant.hour, Instant.minute,
        Instant.second, Instant.secondOfDay, nanosPerDay, nanosPerSecond]
      omega
  · cases ha

theorem gridOffset_lt (p : TimePattern) (i : Interval) (t : Instant) :
    p.gridOffset i t < i.multiplier := by
  have hpos := i.multiplier_pos
  unfold gridOffset
  split
  · next phase _ =>
    have hlt := Int.emod_lt_of_pos (((i.base.clockField t : Nat) : Int) - phase)
      (Int.natCast_pos.mpr hpos)
    omega
  · exact hpos

end TimePattern

namespace Interval

def IsFixed (i : Interval) : Prop :=
  i.base = .second ∨ i.base = .minute ∨ i.base = .hour ∨ i.base = .day

def unitNanos (i : Interval) : Int := i.base.nominalSeconds * nanosPerSecond

def exactNext? (i : Interval) (t : Instant) : Option Instant :=
  match i.base with
  | .month => t.shiftMonths? i.multiplier
  | .year => t.shiftMonths? (12 * i.multiplier)
  | _ => i.next? t

/-- One interval after the instant is in the calendar, and its months fit in a word. -/
def HasRoom (i : Interval) (t : Instant) : Prop := i.MonthsFit ∧ (i.exactNext? t).isSome

instance (i : Interval) (t : Instant) : Decidable (i.HasRoom t) :=
  inferInstanceAs (Decidable (_ ∧ _))

variable {i : Interval} {t v : Instant}

theorem shiftMonthsSaturating_eq {m : Int} (hm : 0 < m) (ht : Instant.first ≤ t)
    (h : t.shiftMonths? m = some v) : shiftMonthsSaturating t m = v := by
  have hlow := Instant.firstMonth_le ht
  have hhigh : (t.date.monthNumber + m) / 12 ≤ Instant.lastYear := by
    unfold Instant.shiftMonths? at h
    dsimp only at h
    split at h
    · next hyear => exact hyear.2
    · cases h
  have hlimit : m < monthLimit := by
    have hspan : 12 * (Instant.lastYear + 1) - 12 * Instant.firstYear < monthLimit := by decide
    omega
  have hwide : (monthLimit : Int) < wordSize 32 := by decide
  have hcount : m.natAbs % wordSize 32 = m.natAbs := Nat.mod_eq_of_lt (by omega)
  have hnat : (m.natAbs : Int) = m := Int.natAbs_of_nonneg hm.le
  have hne : m.natAbs ≠ 0 := by omega
  have hsmall : ¬ monthLimit ≤ m.natAbs := by omega
  simp only [shiftMonthsSaturating, hcount, if_neg hne, if_neg hsmall, if_pos hm.le, hnat, h,
    Option.getD_some]

theorem HasRoom.next_eq (h : i.HasRoom t) (ht : Instant.first ≤ t) : i.next? t = i.exactNext? t := by
  have hpos := i.multiplier_pos
  obtain ⟨v, hv⟩ := Option.isSome_iff_exists.mp h.2
  rw [hv]
  unfold exactNext? at hv
  cases hu : i.base with
  | month =>
    rw [hu] at hv
    have hshift := shiftMonthsSaturating_eq (by omega) ht hv
    simpa [next?, add?, hu] using hshift
  | year =>
    rw [hu] at hv
    have hshift := shiftMonthsSaturating_eq (by omega) ht hv
    simpa [next?, add?, hu, i.fitsSigned_months] using hshift
  | _ => simpa [hu] using hv

theorem HasRoom.monthNumber (h : i.HasRoom t) (ht : Instant.first ≤ t) (hv : i.next? t = some v) :
    (i.base = .month → v.date.monthNumber = t.date.monthNumber + i.multiplier) ∧
      (i.base = .year → v.date.monthNumber = t.date.monthNumber + 12 * i.multiplier) := by
  rw [h.next_eq ht] at hv
  unfold exactNext? at hv
  constructor
  · intro hu
    rw [hu] at hv
    exact Instant.monthNumber_of_shiftMonths? hv
  · intro hu
    rw [hu] at hv
    exact Instant.monthNumber_of_shiftMonths? hv

/-- One interval later lies beyond the unit of the instant, also after some units back, where the
unit has a fixed length. -/
theorem HasRoom.lt_truncate (h : i.HasRoom t) (ht : Instant.first ≤ t) (hv : i.next? t = some v)
    {k : Nat} (hk : k < i.multiplier) (hfixed : k = 0 ∨ i.IsFixed) :
    t.nanos < (v.truncate i.base).nanos - k * i.unitNanos := by
  by_cases hu : i.IsFixed
  · have hnext := nanos_of_next? hu hv
    have hunit := Interval.lt_truncate hu v
    have hsteps : (k + 1 : Int) * i.unitNanos ≤ i.multiplier * i.unitNanos :=
      Int.mul_le_mul_of_nonneg_right (by omega)
        (Int.mul_nonneg (Int.natCast_nonneg _) (by decide))
    rw [stepNanos] at hnext
    unfold unitNanos at hsteps ⊢
    linarith
  · have hzero : k = 0 := hfixed.resolve_right hu
    obtain ⟨hmonth, hyear⟩ := h.monthNumber ht hv
    have hbounds := t.month_bounds.2
    have hpos := i.multiplier_pos
    rw [hzero]
    simp only [Nat.cast_zero, zero_mul, sub_zero]
    refine hbounds.trans_le ?_
    cases hbase : i.base with
    | month =>
      rw [Instant.truncate_month, hmonth hbase]
      refine Int.mul_le_mul_of_nonneg_right (Date.monthStart_le_iff.mpr ?_) (by decide)
      omega
    | year =>
      have hnumber := hyear hbase
      rw [Instant.truncate_year, Instant.year_eq, hnumber]
      refine Int.mul_le_mul_of_nonneg_right (Date.monthStart_le_iff.mpr ?_) (by decide)
      omega
    | _ => simp [IsFixed, hbase] at hu

end Interval

namespace TimePattern

/-- An instant that cannot be aligned stays as it is; where the unit is one of the clock, moving onto
the pattern goes back from the aligned instant to the grid. -/
theorem realign?_cases (p : TimePattern) (t : Instant) (i : Interval) :
    p.realign? t i = some t ∨ ∃ aligned, p.aligned? t i.base = some aligned ∧
      (p.realign? t i = some aligned ∨ i.IsFixed ∧
        p.realign? t i = aligned.shift (-(p.gridOffset i t * i.base.nominalSeconds : Nat))) := by
  unfold realign?
  dsimp only
  split
  · exact .inl rfl
  · next aligned haligned =>
    refine .inr ⟨aligned, haligned, ?_⟩
    unfold Interval.IsFixed
    cases i.base <;> simp

/-- Moving onto a pattern goes back by less than one interval from the start of the unit. -/
theorem IsProper.le_realign? {p : TimePattern} (h : p.IsProper) {t r : Instant} {i : Interval}
    (hr : p.realign? t i = some r) : r = t ∨ ∃ k : Nat, k < i.multiplier ∧ (k = 0 ∨ i.IsFixed) ∧
      (t.truncate i.base).nanos - k * i.unitNanos ≤ r.nanos := by
  rcases p.realign?_cases t i with hsame | ⟨aligned, haligned, hend⟩
  · exact .inl (Option.some.inj (hr.symm.trans hsame))
  · have htruncate := truncate_le_aligned? h haligned
    rw [Instant.le_def] at htruncate
    right
    rcases hend with hsame | ⟨hfixed, hshift⟩
    · refine ⟨0, i.multiplier_pos, .inl rfl, ?_⟩
      rw [Option.some.inj (hr.symm.trans hsame)]
      simpa using htruncate
    · refine ⟨p.gridOffset i t, p.gridOffset_lt i t, .inr hfixed, ?_⟩
      rw [Instant.shift_eq_some (hshift.symm.trans hr), Interval.unitNanos]
      push_cast
      linarith

end TimePattern

theorem TimePattern.isSome_realign?_oneDay (p : TimePattern) (t : Instant) :
    (p.realign? t .oneDay).isSome := by
  unfold realign?
  dsimp only
  split <;> rfl

theorem Schedule.isSome_isDue? (s : Schedule) (t : Instant) : (s.isDue? t).isSome := by
  unfold isDue?
  split
  · rfl
  · rw [Option.isSome_map]
    exact TimePattern.isSome_realign?_oneDay _ _

theorem Interval.HasRoom.lt_realign? {p : TimePattern} {i : Interval} {now naive r : Instant}
    (room : i.HasRoom now) (proper : p.IsProper) (first : Instant.first ≤ now)
    (hnaive : i.next? now = some naive) (hr : p.realign? naive i = some r) : now < r := by
  rcases proper.le_realign? hr with rfl | ⟨k, hk, hfixed, hle⟩
  · have htruncate := Interval.truncate_le i.base r
    have hlt := room.lt_truncate first hnaive i.multiplier_pos (.inl rfl)
    rw [Instant.le_def] at htruncate
    rw [Instant.lt_def]
    simp only [Nat.cast_zero, zero_mul, sub_zero] at hlt
    exact hlt.trans_le htruncate
  · have hlt := room.lt_truncate first hnaive hk hfixed
    exact hlt.trans_le hle

theorem nextSlot?_of_lt {base : TimePattern} {step : Interval} {now naive ahead : Instant}
    (hnaive : step.next? now = some naive) (hahead : base.realign? naive step = some ahead)
    (hlt : now < ahead) :
    nextSlot? base step now = (base.realign? now step).map fun current =>
      if now < current ∧ current < ahead then current else ahead := by
  have hnot : ¬ ahead ≤ now := Int.not_le.mpr hlt
  simp only [nextSlot?, hnaive, hahead, Option.bind_eq_bind, Option.bind_some, if_neg hnot]
  cases base.realign? now step <;> rfl

/-- With room ahead the run after `now` comes later than `now`. -/
theorem lt_nextSlot? {base : TimePattern} {step : Interval} {now next : Instant}
    (room : step.HasRoom now) (proper : base.IsProper) (first : Instant.first ≤ now)
    (h : nextSlot? base step now = some next) : now < next := by
  obtain ⟨naive, hnaive, hrest⟩ := Option.bind_eq_some_iff.mp h
  obtain ⟨ahead, hahead, -⟩ := Option.bind_eq_some_iff.mp hrest
  have hlt := room.lt_realign? proper first hnaive hahead
  rw [nextSlot?_of_lt hnaive hahead hlt] at h
  obtain ⟨current, -, rfl⟩ := Option.map_eq_some_iff.mp h
  split
  · next hcurrent => exact hcurrent.1
  · exact hlt

end SeriesAlarm
