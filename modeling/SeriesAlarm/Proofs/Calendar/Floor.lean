import SeriesAlarm.Proofs.Calendar.Cycle
import SeriesAlarm.Proofs.Calendar.InCycle

/-!
# Aligning rounds down

Aligning sets fields of a date and of a time of day, and none of them is refused. The units of a clock
are numbered through, and their grid begins anew with the next coarser unit, so aligning rounds the
number down to a multiple within a cycle. It is a floor also where the multiplier does not divide the
cycle, or is longer than it.
-/

namespace SeriesAlarm

namespace Instant

variable {t : Instant} {d : Date} {hour minute second fraction : Nat}

def dateOf? (year : Int) (month day : Nat) : Option Date :=
  if firstYear ≤ year ∧ year ≤ lastYear ∧ (1 ≤ month ∧ month ≤ 12) ∧
      1 ≤ day ∧ day ≤ daysInMonth year month then
    some ⟨year, month, day⟩
  else none

def ofTime? (d : Date) (hour minute second fraction : Nat) : Option Instant :=
  if hour < 24 ∧ minute < 60 ∧ second < 60 ∧ fraction < 1000000000 then
    some ⟨(ofDate d (hour * 3600 + minute * 60 + second)).nanos + fraction⟩
  else none

/-- Sets every field finer than the unit to its least value. -/
def clearFiner? (t : Instant) : TimeUnit → Option Instant
  | .second => ofTime? t.date t.hour t.minute t.second 0
  | .minute => ofTime? t.date t.hour t.minute 0 0
  | .hour => ofTime? t.date t.hour 0 0 0
  | .day => ofTime? t.date 0 0 0 0
  | .month => (dateOf? t.year t.month 1).bind fun d => ofTime? d 0 0 0 0
  | .year => (dateOf? t.year 1 1).bind fun d => ofTime? d 0 0 0 0

def setField? (t : Instant) : TimeUnit → Nat → Option Instant
  | .second, n => ofTime? t.date t.hour t.minute n t.fraction
  | .minute, n => ofTime? t.date t.hour n t.second t.fraction
  | .hour, n => ofTime? t.date n t.minute t.second t.fraction
  | _, _ => none

theorem ofTime?_eq (hhour : hour < 24) (hminute : minute < 60) (hsecond : second < 60)
    (hfraction : fraction < 1000000000) :
    ofTime? d hour minute second fraction =
      some ⟨(ofDate d (hour * 3600 + minute * 60 + second)).nanos + fraction⟩ :=
  if_pos ⟨hhour, hminute, hsecond, hfraction⟩

theorem fraction_lt (t : Instant) : t.fraction < 1000000000 := by
  unfold fraction nanosPerSecond
  omega

theorem nanos_eq_fields (t : Instant) : t.nanos = t.date.dayNumber * nanosPerDay +
    (t.hour * 3600 + t.minute * 60 + t.second : Nat) * nanosPerSecond + t.fraction := by
  rw [t.date_bounds.2.2.2.2]
  simp only [hour, minute, second, secondOfDay, fraction, nanosPerDay, nanosPerSecond]
  omega

theorem year_bounds (h : t.InRange) : firstYear ≤ t.year ∧ t.year ≤ lastYear := by
  obtain ⟨hfirst, hlast⟩ := h
  have hlow := firstMonth_le hfirst
  have hhigh : t.date.monthNumber < 12 * (lastYear + 1) := by
    rw [← lt_monthStart_iff]
    rw [le_def, last_eq] at hlast
    omega
  rw [year_eq]
  omega

theorem dateOf?_first (h : t.InRange) (month : Nat) (hmonth : 1 ≤ month ∧ month ≤ 12) :
    dateOf? t.year month 1 = some ⟨t.year, month, 1⟩ := by
  obtain ⟨hlow, hhigh⟩ := year_bounds h
  exact if_pos ⟨hlow, hhigh, hmonth, Nat.le_refl 1, daysInMonth_pos t.year month⟩

/-- Truncating sets the finer fields, and none is refused. -/
theorem clearFiner?_eq (h : t.InRange) (u : TimeUnit) : t.clearFiner? u = some (t.truncate u) := by
  obtain ⟨hhour, hminute, hsecond⟩ := t.clock_bounds
  have hnanos := t.nanos_eq_fields
  have hfraction := t.fraction_lt
  unfold nanosPerDay nanosPerSecond at hnanos
  cases u with
  | month =>
    obtain ⟨hlow, hhigh, -⟩ := t.date_bounds
    simp [clearFiner?, dateOf?_first h t.month ⟨hlow, hhigh⟩, ofTime?_eq, truncate]
  | year => simp [clearFiner?, dateOf?_first h 1 (by decide), ofTime?_eq, truncate]
  | _ =>
    rw [clearFiner?, ofTime?_eq (by omega) (by omega) (by omega) (by decide)]
    congr 2
    simp only [ofDate, nanosPerDay, nanosPerSecond]
    omega

theorem setField?_eq {u : TimeUnit} (hu : u.IsClock) {n : Nat} (hn : n < u.perCycle) :
    t.setField? u n =
      some ⟨t.nanos + ((n : Int) - u.clockField t) * u.nominalSeconds * nanosPerSecond⟩ := by
  obtain ⟨hhour, hminute, hsecond⟩ := t.clock_bounds
  have hnanos := t.nanos_eq_fields
  have hfraction := t.fraction_lt
  unfold nanosPerDay nanosPerSecond at hnanos
  rcases hu with rfl | rfl | rfl <;> simp only [TimeUnit.perCycle] at hn <;>
  · rw [setField?, ofTime?_eq (by omega) (by omega) (by omega) hfraction]
    congr 2
    simp only [ofDate, TimeUnit.clockField, TimeUnit.nominalSeconds, nanosPerDay, nanosPerSecond]
    omega

end Instant

section FloorIn

variable {c m n k : Int}

/-- Rounds down to a multiple of `m` on a grid that begins anew with every multiple of `c`. -/
def floorIn (c m n : Int) : Int := n - n % c % m

theorem floorIn_eq (c m n : Int) : floorIn c m n = c * (n / c) + n % c / m * m := by
  have hcycle := Int.mul_ediv_add_emod n c
  have hgrid := Int.mul_ediv_add_emod (n % c) m
  rw [floorIn, Int.mul_comm _ m]
  omega

theorem floorIn_bounds (hm : 0 < m) (n : Int) : floorIn c m n ≤ n ∧ n < floorIn c m n + m := by
  have hnonneg := Int.emod_nonneg (n % c) hm.ne'
  have hlt := Int.emod_lt_of_pos (n % c) hm
  unfold floorIn
  omega

theorem floorIn_cycle (hc : 0 < c) (hm : 0 < m) (n : Int) :
    floorIn c m n / c = n / c ∧ floorIn c m n % c = n % c / m * m := by
  have hnonneg := Int.emod_nonneg n hc.ne'
  have hlt := Int.emod_lt_of_pos n hc
  have hlow : 0 ≤ n % c / m * m := Int.mul_nonneg (Int.ediv_nonneg hnonneg hm.le) hm.le
  have hhigh : n % c / m * m ≤ n % c := Int.ediv_mul_le _ hm.ne'
  rw [floorIn_eq]
  constructor
  · rw [Int.mul_add_ediv_left _ _ hc.ne', Int.ediv_eq_zero_of_lt hlow (by omega), Int.add_zero]
  · rw [Int.mul_add_emod_self_left, Int.emod_eq_of_lt hlow (by omega)]

theorem floorIn_floorIn (hc : 0 < c) (hm : 0 < m) (n : Int) :
    floorIn c m (floorIn c m n) = floorIn c m n := by
  obtain ⟨hdiv, hmod⟩ := floorIn_cycle hc hm n
  rw [floorIn_eq c m (floorIn c m n), hdiv, hmod, Int.mul_ediv_cancel _ hm.ne', floorIn_eq]

theorem floorIn_mono (hc : 0 < c) (hm : 0 < m) (h : n ≤ k) : floorIn c m n ≤ floorIn c m k := by
  rcases (Int.ediv_le_ediv hc h).lt_or_eq with hcycle | hcycle
  · have hnext : c * (n / c + 1) ≤ c * (k / c) := Int.mul_le_mul_of_nonneg_left hcycle hc.le
    have hbefore : n < c * (n / c + 1) := Int.lt_mul_ediv_self_add hc |>.trans_eq (by ring)
    have hnonneg := Int.mul_nonneg (Int.ediv_nonneg (Int.emod_nonneg k hc.ne') hm.le) hm.le
    have hfloor := (floorIn_bounds (c := c) hm n).1
    rw [floorIn_eq c m k]
    omega
  · have hfield : n % c ≤ k % c := by
      have hn := Int.mul_ediv_add_emod n c
      have hk := Int.mul_ediv_add_emod k c
      rw [hcycle] at hn
      omega
    have hgrid := Int.mul_le_mul_of_nonneg_right (Int.ediv_le_ediv hm hfield) hm.le
    rw [floorIn_eq, floorIn_eq, hcycle]
    omega

end FloorIn

namespace Interval

variable {i : Interval} {s t : Instant}

/-- Aligns an instant by its fields; nothing if one of them is refused. -/
def alignFields? (i : Interval) (t : Instant) : Option Instant :=
  (t.clearFiner? i.base).bind fun u =>
    if i.base.IsClock then u.setField? i.base (i.base.clockField u / i.multiplier * i.multiplier)
    else some u

/-- Aligning is a floor that sets fields: for a unit of the clock onto the multiples within the next
coarser unit, else onto the beginning of the unit. -/
structure RoundsDown (i : Interval) : Prop where
  le : ∀ t, i.align t ≤ t
  align : ∀ t, i.align (i.align t) = i.align t
  mono : ∀ s t, s ≤ t → i.align s ≤ i.align t
  cycle : i.base.IsClock → ∀ t, (i.align t).truncate i.base.cycle = t.truncate i.base.cycle
  near : i.base.IsClock → ∀ t, t.nanos < (i.align t).nanos + i.stepNanos
  grid : i.base.IsClock → ∀ t, (i.align t).truncate i.base = i.align t ∧
    i.base.clockField (i.align t) = i.base.clockField t / i.multiplier * i.multiplier
  truncates : ¬ i.base.IsClock → ∀ t, i.align t = t.truncate i.base
  fields : ∀ t, t.InRange → i.alignFields? t = some (i.align t)

section Clock

theorem unitNumber_of_eq {n : Int} (h : t.nanos = n * i.unitNanos) : i.unitNumber t = n := by
  have hpos := i.unitNanos_pos
  refine unitNumber_eq h.ge ?_
  rw [h, Int.add_mul]
  omega

theorem clockField_eq_unitNumber (h : i.base.IsClock) (t : Instant) :
    (i.base.clockField t : Int) = i.unitNumber t % i.base.perCycle :=
  TimeUnit.clockField_eq h t

theorem clockField_truncate (h : i.base.IsClock) (t : Instant) :
    i.base.clockField (t.truncate i.base) = i.base.clockField t := by
  have hunit := unitNumber_of_eq (truncate_of_isFixed (isFixed_of_isClock h) t)
  rw [← Int.natCast_inj, clockField_eq_unitNumber h, hunit, clockField_eq_unitNumber h]

theorem perCycle_pos (u : TimeUnit) : (0 : Int) < u.perCycle := by
  cases u <;> decide

theorem natCast_multiplier_pos (i : Interval) : (0 : Int) < i.multiplier :=
  Int.natCast_pos.mpr i.multiplier_pos

theorem nanos_align (h : i.base.IsClock) (t : Instant) :
    (i.align t).nanos =
      floorIn i.base.perCycle i.multiplier (i.unitNumber t) * i.unitNanos := by
  rw [align]
  dsimp only
  rw [clockField_truncate h, truncate_of_isFixed (isFixed_of_isClock h), Int.natCast_emod,
    clockField_eq_unitNumber h, floorIn, unitNanos]
  ring

theorem unitNumber_align (h : i.base.IsClock) (t : Instant) :
    i.unitNumber (i.align t) = floorIn i.base.perCycle i.multiplier (i.unitNumber t) :=
  unitNumber_of_eq (nanos_align h t)

/-- A cycle of the clock is made of so many units. -/
theorem truncate_cycle (h : i.base.IsClock) (t : Instant) :
    (t.truncate i.base.cycle).nanos =
      i.unitNumber t / i.base.perCycle * (i.base.perCycle * i.unitNanos) := by
  rw [unitNumber, unitNanos]
  rcases h with h | h | h <;>
  · simp only [h, TimeUnit.cycle, TimeUnit.perCycle, TimeUnit.nominalSeconds, Instant.truncate,
      nanosPerDay, nanosPerSecond]
    omega

theorem align_align_of_isClock (h : i.base.IsClock) (t : Instant) :
    i.align (i.align t) = i.align t := by
  apply Instant.ext
  rw [nanos_align h, unitNumber_align h, nanos_align h,
    floorIn_floorIn (perCycle_pos _) i.natCast_multiplier_pos]

theorem align_mono_of_isClock (h : i.base.IsClock) (hle : s ≤ t) : i.align s ≤ i.align t := by
  have hunit : i.unitNumber s ≤ i.unitNumber t := Int.ediv_le_ediv i.unitNanos_pos hle
  have hfloor := floorIn_mono (perCycle_pos i.base) i.natCast_multiplier_pos hunit
  rw [Instant.le_def, nanos_align h, nanos_align h]
  exact Int.mul_le_mul_of_nonneg_right hfloor i.unitNanos_pos.le

theorem truncate_cycle_align (h : i.base.IsClock) (t : Instant) :
    (i.align t).truncate i.base.cycle = t.truncate i.base.cycle := by
  apply Instant.ext
  rw [truncate_cycle h, truncate_cycle h, unitNumber_align h,
    (floorIn_cycle (perCycle_pos _) i.natCast_multiplier_pos _).1]

theorem lt_align_add (h : i.base.IsClock) (t : Instant) :
    t.nanos < (i.align t).nanos + i.stepNanos := by
  have hfloor := (floorIn_bounds (c := i.base.perCycle) i.natCast_multiplier_pos (i.unitNumber t)).2
  have hunits := Int.mul_le_mul_of_nonneg_right (Int.add_one_le_of_lt hfloor) i.unitNanos_pos.le
  rw [nanos_align h, stepNanos_eq, ← Int.add_mul]
  exact (i.unitNumber_bounds t).2.trans_le hunits

theorem truncate_align (h : i.base.IsClock) (t : Instant) :
    (i.align t).truncate i.base = i.align t := by
  apply Instant.ext
  rw [truncate_of_isFixed (isFixed_of_isClock h), unitNumber_align h, nanos_align h]

theorem clockField_align (h : i.base.IsClock) (t : Instant) :
    i.base.clockField (i.align t) = i.base.clockField t / i.multiplier * i.multiplier := by
  rw [← Int.natCast_inj, clockField_eq_unitNumber h, unitNumber_align h,
    (floorIn_cycle (perCycle_pos _) i.natCast_multiplier_pos _).2]
  push_cast
  rw [clockField_eq_unitNumber h]

theorem alignFields?_of_isClock (h : i.base.IsClock) (ht : t.InRange) :
    i.alignFields? t = some (i.align t) := by
  have hfield := clockField_truncate h t
  have hmod := Nat.div_add_mod (i.base.clockField t) i.multiplier
  have hcycle : i.base.clockField t < i.base.perCycle := by
    rw [← Int.ofNat_lt, clockField_eq_unitNumber h]
    exact Int.emod_lt_of_pos _ (perCycle_pos _)
  have hle : i.base.clockField t / i.multiplier * i.multiplier < i.base.perCycle :=
    (Nat.div_mul_le_self _ _).trans_lt hcycle
  have hback : ((i.base.clockField t / i.multiplier * i.multiplier : Nat) : Int) -
      i.base.clockField t = -(i.base.clockField t % i.multiplier : Nat) := by
    rw [Nat.mul_comm]
    omega
  rw [alignFields?, Instant.clearFiner?_eq ht, Option.bind_some, if_pos h, hfield,
    Instant.setField?_eq h hle, hfield, hback, align, hfield]
  congr 2
  ring

end Clock

section Calendar

theorem align_of_not_isClock (h : ¬ i.base.IsClock) (t : Instant) :
    i.align t = t.truncate i.base := by
  have hfield : i.base.clockField (t.truncate i.base) = 0 := by
    cases hu : i.base <;> simp_all [TimeUnit.IsClock, TimeUnit.clockField]
  simp [align, hfield]

theorem truncate_truncate (t : Instant) (u : TimeUnit) : (t.truncate u).truncate u = t.truncate u := by
  obtain ⟨g, hticks⟩ := IsRegular.ticks (i := { base := u, multiplier := 1 }) (.inl rfl)
  simpa only [align_one] using hticks.align_align t

theorem truncate_mono (u : TimeUnit) (h : s ≤ t) : s.truncate u ≤ t.truncate u := by
  obtain ⟨g, hticks⟩ := IsRegular.ticks (i := { base := u, multiplier := 1 }) (.inl rfl)
  have hle := (hticks.le_align_iff (hticks.align_align s)).mpr (Int.le_trans (hticks.align_le s) h)
  simpa only [align_one] using hle

end Calendar

/-- Aligning rounds down, for every interval and whatever the multiplier. -/
theorem align_roundsDown (i : Interval) : i.RoundsDown := by
  by_cases h : i.base.IsClock
  · exact {
      le := i.align_le
      align := align_align_of_isClock h
      mono := fun _ _ => align_mono_of_isClock h
      cycle := fun _ => truncate_cycle_align h
      near := fun _ => lt_align_add h
      grid := fun _ t => ⟨truncate_align h t, clockField_align h t⟩
      truncates := fun hclock => absurd h hclock
      fields := fun _ => alignFields?_of_isClock h }
  · have htruncate := align_of_not_isClock h
    refine ⟨i.align_le, fun t => ?_, fun s t hle => ?_, fun hclock => absurd hclock h,
      fun hclock => absurd hclock h, fun hclock => absurd hclock h, fun _ => htruncate, fun t ht => ?_⟩
    · rw [htruncate, htruncate, truncate_truncate]
    · rw [htruncate, htruncate]
      exact truncate_mono i.base hle
    · rw [alignFields?, Instant.clearFiner?_eq ht, Option.bind_some, if_neg h, htruncate]

/-- The grid of `7Minute` begins anew at seven o'clock: four minutes after its last one. -/
example : let i : Interval := { base := .minute, multiplier := 7 }
    i.align (Instant.ofDate ⟨2006, 5, 20⟩ 25199) = Instant.ofDate ⟨2006, 5, 20⟩ 24960 ∧
      i.align (Instant.ofDate ⟨2006, 5, 20⟩ 25200) = Instant.ofDate ⟨2006, 5, 20⟩ 25200 := by
  decide +kernel

end Interval
end SeriesAlarm
