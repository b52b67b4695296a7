import SeriesAlarm.Proofs.Calendar.Room

/-!
# Where a pattern moves an instant

The units of an interval are numbered through, and the pattern has one slot in each: the beginning of
the unit and the finer fields of the pattern. Moving an instant onto the pattern leads to the slot of
its own unit, less the units by which the grid of the pattern lies back. An instant of which the month
cannot be measured stays as it is; that is so only in the last month of the calendar.
-/

namespace SeriesAlarm

namespace Instant

variable {t v : Instant}

theorem inRange?_eq_some_iff : t.inRange? = some v ↔ t.InRange ∧ v = t := by
  unfold inRange?
  by_cases h : t.InRange
  · rw [if_pos h, Option.some.injEq, eq_comm]
    exact (and_iff_right h).symm
  · rw [if_neg h]
    exact iff_of_false (fun h' => by cases h') fun h' => h h'.1

theorem monthNumber_le (h : t ≤ v) : t.date.monthNumber ≤ v.date.monthNumber := by
  by_contra hlt
  exact Int.not_lt.mpr h (lt_of_monthNumber_lt (Int.not_le.mp hlt))

theorem monthNumber_eq (t : Instant) : t.date.monthNumber = 12 * t.year + t.month - 1 := rfl

theorem monthStart_le_iff {k : Int} :
    Date.monthStart k * nanosPerDay ≤ t.nanos ↔ k ≤ t.date.monthNumber := by
  obtain ⟨hlow, hhigh⟩ := t.month_bounds
  constructor
  · intro h
    have hmonth := Int.lt_of_mul_lt_mul_right (h.trans_lt hhigh) (by decide)
    exact Int.lt_add_one_iff.mp (Date.monthStart_lt_iff.mp hmonth)
  · intro h
    exact (Int.mul_le_mul_of_nonneg_right (Date.monthStart_le_iff.mpr h) (by decide)).trans hlow

theorem lt_monthStart_iff {k : Int} :
    t.nanos < Date.monthStart k * nanosPerDay ↔ t.date.monthNumber < k := by
  rw [← Int.not_le, monthStart_le_iff, Int.not_le]

end Instant

namespace TimeUnit

def IsClock (u : TimeUnit) : Prop := u = .second ∨ u = .minute ∨ u = .hour

instance (u : TimeUnit) : Decidable u.IsClock := inferInstanceAs (Decidable (_ ∨ _))

def perCycle : TimeUnit → Nat
  | .second | .minute => 60
  | .hour => 24
  | _ => 1

/-- The field of a unit of the clock counts it through, up to the next coarser one. -/
theorem clockField_eq {u : TimeUnit} (h : u.IsClock) (t : Instant) :
    (u.clockField t : Int) = t.nanos / (u.nominalSeconds * nanosPerSecond) % u.perCycle := by
  rcases h with rfl | rfl | rfl
  all_goals
    simp only [clockField, Instant.second, Instant.minute, Instant.hour, Instant.secondOfDay,
      nanosPerDay, nanosPerSecond, nominalSeconds, perCycle]
    omega

end TimeUnit

namespace Interval

variable {i : Interval}

theorem isFixed_of_isClock (h : i.base.IsClock) : i.IsFixed := by
  rcases h with h | h | h <;> simp [IsFixed, h]

theorem unitNanos_pos (i : Interval) : 0 < i.unitNanos := by
  unfold unitNanos
  cases i.base <;> decide

theorem stepNanos_eq (i : Interval) : i.stepNanos = i.multiplier * i.unitNanos :=
  Int.mul_comm _ _

def unitNumber (i : Interval) (t : Instant) : Int := t.nanos / i.unitNanos

theorem unitNumber_bounds (i : Interval) (t : Instant) :
    i.unitNumber t * i.unitNanos ≤ t.nanos ∧ t.nanos < (i.unitNumber t + 1) * i.unitNanos := by
  have hpos := i.unitNanos_pos
  have hdiv := Int.mul_ediv_add_emod t.nanos i.unitNanos
  have hnonneg := Int.emod_nonneg t.nanos (Int.ne_of_gt hpos)
  have hlt := Int.emod_lt_of_pos t.nanos hpos
  rw [Int.add_mul, Int.one_mul, unitNumber, Int.mul_comm]
  omega

theorem unitNumber_eq {n : Int} {t : Instant} (hlow : n * i.unitNanos ≤ t.nanos)
    (hhigh : t.nanos < (n + 1) * i.unitNanos) : i.unitNumber t = n := by
  obtain ⟨hle, hlt⟩ := i.unitNumber_bounds t
  have hpos := i.unitNanos_pos
  have hbelow := Int.lt_of_mul_lt_mul_right (hle.trans_lt hhigh) hpos.le
  have habove := Int.lt_of_mul_lt_mul_right (hlow.trans_lt hlt) hpos.le
  omega

end Interval

namespace TimePattern

variable {p : TimePattern} {t v a : Instant} {u : TimeUnit} {i : Interval}

section Aligned

def finerNanos (p : TimePattern) (u : TimeUnit) : Int :=
  (p.realignedField u .hour 0 * 3600 + p.realignedField u .minute 0 * 60 +
    p.realignedField u .second 0 : Nat) * nanosPerSecond

theorem finerNanos_nonneg (p : TimePattern) (u : TimeUnit) : 0 ≤ p.finerNanos u :=
  Int.mul_nonneg (Int.natCast_nonneg _) (by decide)

theorem IsProper.finerNanos_lt (h : p.IsProper) (hfixed : i.IsFixed) :
    p.finerNanos i.base < i.unitNanos := by
  have hhour := (h.realignedField_bounds i.base .hour (n := 0) (by decide) (by decide)).2
  have hminute := (h.realignedField_bounds i.base .minute (n := 0) (by decide) (by decide)).2
  have hsecond := (h.realignedField_bounds i.base .second (n := 0) (by decide) (by decide)).2
  unfold finerNanos Interval.unitNanos
  rcases hfixed with hu | hu | hu | hu <;> rw [hu] at hhour hminute hsecond ⊢ <;>
    simp only [realignedField, TimeUnit.rank, highest, Nat.lt_irrefl, Nat.reduceLT, if_true,
      if_false, TimeUnit.nominalSeconds, nanosPerSecond] at hhour hminute hsecond ⊢ <;>
    omega

theorem IsProper.finerNanos_lt_day (h : p.IsProper) (u : TimeUnit) :
    p.finerNanos u < nanosPerDay := by
  have hhour := (h.realignedField_bounds u .hour (n := 0) (by decide) (by decide)).2
  have hminute := (h.realignedField_bounds u .minute (n := 0) (by decide) (by decide)).2
  have hsecond := (h.realignedField_bounds u .second (n := 0) (by decide) (by decide)).2
  simp only [highest] at hhour hminute hsecond
  simp only [finerNanos, nanosPerDay, nanosPerSecond]
  omega

theorem isSome_aligned?_iff : (p.aligned? t u).isSome ↔
    Instant.firstYear ≤ t.year ∧ t.year ≤ Instant.lastYear ∧
      ¬ (t.year = Instant.lastYear ∧ p.realignedField u .month t.month = 12) := by
  unfold aligned? Instant.ofFields?
  split
  · next h => exact iff_of_true rfl h
  · next h => exact iff_of_false (by simp) h

theorem realignedField_month_of_ne (hu : u ≠ .year) (n : Nat) : p.realignedField u .month n = n := by
  cases u with
  | year => exact absurd rfl hu
  | _ => rfl

theorem realignedField_month_of_year (p : TimePattern) (m n : Nat) :
    p.realignedField .year .month m = p.realignedField .year .month n := rfl

theorem isSome_aligned?_of_le (hfirst : Instant.first ≤ t) (hle : t ≤ v)
    (hv : (p.aligned? v u).isSome) : (p.aligned? t u).isSome := by
  have hmonth := Instant.monthNumber_le hle
  have hlow := Instant.firstMonth_le hfirst
  have hyear := t.year_eq
  have hyear' := v.year_eq
  rw [isSome_aligned?_iff] at hv ⊢
  obtain ⟨-, hlast, hnot⟩ := hv
  refine ⟨by omega, by omega, ?_⟩
  rintro ⟨hsame, htwelve⟩
  have hsame' : v.year = Instant.lastYear := by omega
  refine hnot ⟨hsame', ?_⟩
  by_cases hu : u = .year
  · rw [hu, p.realignedField_month_of_year _ t.month, ← hu, htwelve]
  · rw [realignedField_month_of_ne hu] at htwelve ⊢
    have hbound := v.date_bounds.2.1
    rw [t.monthNumber_eq, v.monthNumber_eq] at hmonth
    omega

theorem aligned?_eq (h : p.aligned? t u = some a) : a.nanos =
    (Date.clamped t.year (p.realignedField u .month t.month)
      (p.realignedField u .day t.day)).dayNumber * nanosPerDay +
        (p.realignedField u .hour t.hour * 3600 + p.realignedField u .minute t.minute * 60 +
          p.realignedField u .second t.second : Nat) * nanosPerSecond := by
  unfold aligned? Instant.ofFields? at h
  split at h
  · cases h
    rfl
  · cases h

theorem aligned?_of_isFixed (hfixed : i.IsFixed) (h : p.aligned? t i.base = some a) :
    a.nanos = i.unitNumber t * i.unitNanos + p.finerNanos i.base := by
  obtain ⟨-, -, -, -, hnumber⟩ := t.date_bounds
  rw [aligned?_eq h]
  unfold Interval.unitNumber Interval.unitNanos finerNanos
  rcases hfixed with hu | hu | hu | hu <;> rw [hu] <;>
    simp only [realignedField, TimeUnit.rank, Nat.lt_irrefl, Nat.reduceLT, if_true, if_false,
      t.clamped_date, hnumber, Instant.hour, Instant.minute, Instant.second, Instant.secondOfDay,
      TimeUnit.nominalSeconds, nanosPerDay, nanosPerSecond] <;>
    omega

theorem aligned?_of_not_isFixed (hfixed : ¬ i.IsFixed) (h : p.aligned? t i.base = some a) :
    a.nanos = (Date.clamped t.year (p.realignedField i.base .month t.month)
      (p.day.getD 1)).dayNumber * nanosPerDay + p.finerNanos i.base := by
  rw [aligned?_eq h]
  cases hu : i.base with
  | second | minute | hour | day => simp [Interval.IsFixed, hu] at hfixed
  | month | year => rfl

theorem IsProper.monthNumber_aligned? (h : p.IsProper) (ha : p.aligned? t u = some a) :
    a.date.monthNumber = 12 * t.year + p.realignedField u .month t.month - 1 := by
  obtain ⟨hlow, hhigh, hday, hlength, -⟩ := t.date_bounds
  obtain ⟨hhour, hminute, hsecond⟩ := t.clock_bounds
  have hmonth := h.realignedField_bounds u .month hlow hhigh
  have hday := (h.realignedField_bounds u .day hday (hlength.trans (daysInMonth_le _ _))).1
  have hhour := (h.realignedField_bounds u .hour (Nat.zero_le _) hhour).2
  have hminute := (h.realignedField_bounds u .minute (Nat.zero_le _) hminute).2
  have hsecond := (h.realignedField_bounds u .second (Nat.zero_le _) hsecond).2
  obtain ⟨hstart, hstop⟩ := Date.clamped_bounds t.year hmonth hday
  have hnanos := aligned?_eq ha
  simp only [highest] at hhour hminute hsecond
  have hbegun : 12 * t.year + p.realignedField u .month t.month - 1 ≤ a.date.monthNumber := by
    rw [← Instant.monthStart_le_iff, hnanos]
    unfold nanosPerDay nanosPerSecond
    omega
  have hnot : a.date.monthNumber < 12 * t.year + p.realignedField u .month t.month := by
    rw [← Instant.lt_monthStart_iff, hnanos]
    unfold nanosPerDay nanosPerSecond
    omega
  omega

theorem IsProper.isSome_aligned?_aligned? (h : p.IsProper) (ha : p.aligned? t u = some a) :
    (p.aligned? a u).isSome := by
  have hsome : (p.aligned? t u).isSome := by rw [ha]; rfl
  have hmonth := h.monthNumber_aligned? ha
  have hyear := a.year_eq
  obtain ⟨hlow, hhigh, -⟩ := t.date_bounds
  have hfield := h.realignedField_bounds u .month hlow hhigh
  have hfield' := hfield.1
  have hfield'' := hfield.2
  simp only [lowest, highest] at hfield' hfield''
  have hsame : a.year = t.year := by omega
  have hmonth' : a.month = p.realignedField u .month t.month := by
    rw [a.monthNumber_eq] at hmonth
    omega
  rw [isSome_aligned?_iff] at hsome ⊢
  rw [hsame]
  refine ⟨hsome.1, hsome.2.1, fun hend => hsome.2.2 ⟨hend.1, ?_⟩⟩
  by_cases hu : u = .year
  · rw [← hend.2, hu]
    exact p.realignedField_month_of_year _ _
  · rw [← hend.2, hmonth', realignedField_month_of_ne hu, realignedField_month_of_ne hu]

end Aligned

section Realign

theorem realign?_of_unaligned (h : p.aligned? t i.base = none) : p.realign? t i = some t := by
  rcases p.realign?_cases t i with hsame | ⟨a, ha, -⟩
  · exact hsame
  · cases h.symm.trans ha

/-- Moving onto the pattern never leads beyond the aligned instant. -/
theorem realign?_le_aligned? (ha : p.aligned? t i.base = some a) (hv : p.realign? t i = some v) :
    v = t ∨ v ≤ a := by
  rcases p.realign?_cases t i with hsame | ⟨a', ha', hend⟩
  · exact .inl (Option.some.inj (hv.symm.trans hsame))
  · cases ha.symm.trans ha'
    right
    rcases hend with hsame | ⟨-, hshift⟩
    · exact Instant.le_of_eq (Option.some.inj (hv.symm.trans hsame))
    · rw [Instant.le_def, Instant.shift_eq_some (hshift.symm.trans hv)]
      unfold nanosPerSecond
      omega

theorem IsProper.isSome_aligned?_realign? (h : p.IsProper) (hfirst : Instant.first ≤ v)
    (ht : (p.aligned? t i.base).isSome) (hv : p.realign? t i = some v) :
    (p.aligned? v i.base).isSome := by
  obtain ⟨a, ha⟩ := Option.isSome_iff_exists.mp ht
  rcases realign?_le_aligned? ha hv with rfl | hle
  · exact ht
  · exact isSome_aligned?_of_le hfirst hle (h.isSome_aligned?_aligned? ha)

/-- The slot of the pattern in the unit with a number. -/
def slot (p : TimePattern) (i : Interval) (n : Int) : Instant :=
  ⟨n * i.unitNanos + p.finerNanos i.base⟩

/-- How many units the grid of the pattern lies back from the unit with a number. -/
def back (p : TimePattern) (i : Interval) (n : Int) : Int :=
  match p.get i.base with
  | some phase => (n % i.base.perCycle - phase) % i.multiplier
  | none => 0

theorem back_of_get {phase : Nat} (hphase : p.get i.base = some phase) (n : Int) :
    p.back i n = (n % i.base.perCycle - phase) % i.multiplier := by
  unfold back
  rw [hphase]

theorem back_nonneg (p : TimePattern) (i : Interval) (n : Int) : 0 ≤ p.back i n := by
  have hpos := i.multiplier_pos
  unfold back
  split
  · exact Int.emod_nonneg _ (by omega)
  · exact Int.le_refl 0

theorem back_lt (p : TimePattern) (i : Interval) (n : Int) : p.back i n < i.multiplier := by
  have hpos := i.multiplier_pos
  unfold back
  split
  · exact Int.emod_lt_of_pos _ (by omega)
  · omega

theorem gridOffset_eq (hclock : i.base.IsClock) (t : Instant) :
    (p.gridOffset i t : Int) = p.back i (i.unitNumber t) := by
  have hpos := i.multiplier_pos
  unfold gridOffset back
  cases p.get i.base with
  | none => rfl
  | some phase =>
    dsimp only
    rw [Int.toNat_of_nonneg (Int.emod_nonneg _ (by omega)), TimeUnit.clockField_eq hclock]
    rfl

/-- On a clock, moving onto the pattern leads to the slot of a unit some units back. -/
theorem realign?_of_isClock (hclock : i.base.IsClock) (h : (p.aligned? t i.base).isSome) :
    p.realign? t i = (p.slot i (i.unitNumber t - p.back i (i.unitNumber t))).inRange? := by
  obtain ⟨a, ha⟩ := Option.isSome_iff_exists.mp h
  have hnanos := aligned?_of_isFixed (Interval.isFixed_of_isClock hclock) ha
  have hshift : p.realign? t i =
      a.shift (-(p.gridOffset i t * i.base.nominalSeconds : Nat)) := by
    unfold aligned? at ha
    unfold realign?
    dsimp only
    rw [ha]
    rcases hclock with hu | hu | hu <;> rw [hu]
  rw [hshift, Instant.shift, hnanos, slot, ← gridOffset_eq hclock]
  congr 2
  unfold Interval.unitNanos
  push_cast
  ring

/-- On a day, a month or a year it leads to the aligned instant. -/
theorem realign?_of_not_isClock (hclock : ¬ i.base.IsClock) (ha : p.aligned? t i.base = some a) :
    p.realign? t i = some a := by
  unfold aligned? at ha
  unfold realign?
  dsimp only
  rw [ha]
  cases hu : i.base with
  | second | minute | hour => simp [TimeUnit.IsClock, hu] at hclock
  | day | month | year => rfl

end Realign

end TimePattern
end SeriesAlarm
