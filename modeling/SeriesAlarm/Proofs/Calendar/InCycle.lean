import SeriesAlarm.Proofs.Calendar.SeasonBounds

/-!
# Moving onto a pattern stays in the cycle

What is finer than the unit of an interval is set to the pattern, and the unit stays that of the instant.
Only where the pattern names the unit of the clock too, and the interval has several of it, the grid of the
pattern may lie some units back, less than one interval. There is such an instant unless the grid lies more
hours back than the calendar has.
-/

namespace SeriesAlarm

namespace Instant

variable {t : Instant} {d : Date} {m : Nat}

theorem HasPlainYear.nonneg (h : t.HasPlainYear) : 0 ≤ t.nanos := by
  have hstart := t.month_bounds.1
  have hmonth : Date.monthStart 12 ≤ Date.monthStart t.date.monthNumber := by
    have hyear := t.year_eq
    have hlow := h.1
    exact Date.monthStart_le_iff.mpr (by omega)
  have hzero : Date.monthStart 12 = 0 := by decide
  unfold nanosPerDay at hstart
  omega

theorem secondOfDay_ofDate (hm : m < 86400) : (ofDate d m).secondOfDay = m := by
  simp only [secondOfDay, ofDate, nanosPerDay, nanosPerSecond]
  omega

theorem fraction_ofDate (d : Date) (m : Nat) : (ofDate d m).fraction = 0 := by
  simp only [fraction, ofDate, nanosPerDay, nanosPerSecond]
  omega

end Instant

namespace Interval

variable {i : Interval}

theorem truncate_of_isFixed (h : i.IsFixed) (t : Instant) :
    (t.truncate i.base).nanos = i.unitNumber t * i.unitNanos := by
  have hdiv := Int.mul_ediv_add_emod t.nanos i.unitNanos
  have htruncate : (t.truncate i.base).nanos = t.nanos - t.nanos % i.unitNanos := by
    unfold unitNanos
    rcases h with hu | hu | hu | hu <;> rw [hu] <;> rfl
  rw [htruncate, unitNumber, Int.mul_comm]
  omega

theorem unitNanos_dvd_first (h : i.IsFixed) : i.unitNanos ∣ Instant.first.nanos := by
  unfold unitNanos
  rcases h with hu | hu | hu | hu <;> rw [hu] <;> decide

end Interval

namespace TimePattern

variable {p : TimePattern} {i : Interval} {t v : Instant} {n : Int}

/-- All fields that are finer than a unit have the value of the pattern, or the least one where the pattern
is silent; the day is cut to the length of the month, and nothing is left of a second. -/
structure SetsFiner (p : TimePattern) (base : TimeUnit) (v : Instant) : Prop where
  month : TimeUnit.month.rank < base.rank → v.month = p.month.getD 1
  day : TimeUnit.day.rank < base.rank → v.day = min (p.day.getD 1) (daysInMonth v.year v.month)
  hour : TimeUnit.hour.rank < base.rank → v.hour = p.hour.getD 0
  minute : TimeUnit.minute.rank < base.rank → v.minute = p.minute.getD 0
  second : TimeUnit.second.rank < base.rank → v.second = p.second.getD 0
  fraction : v.fraction = 0

/-- The pattern names a slot for some, but not for each of the interval's units. -/
def Snaps (p : TimePattern) (i : Interval) : Prop :=
  i.base.IsClock ∧ 1 < i.multiplier ∧ (p.get i.base).isSome

instance (p : TimePattern) (i : Interval) : Decidable (p.Snaps i) :=
  inferInstanceAs (Decidable (_ ∧ _))

/-- Fits the pattern, within the unit of `t` or, where the pattern snaps, less than one interval of whole
units before it. -/
structure KeepsCycle (p : TimePattern) (i : Interval) (t v : Instant) : Prop where
  finer : p.SetsFiner i.base v
  same : ¬ p.Snaps i → v.truncate i.base = t.truncate i.base
  back : p.Snaps i → ∃ k < i.multiplier,
    (t.truncate i.base).nanos = (v.truncate i.base).nanos + k * i.unitNanos

/-- The grid lies more hours back than the calendar has before the instant: `t` comes before the hour of
the pattern, and the interval is too long. -/
def Overshoots (p : TimePattern) (i : Interval) (t : Instant) : Prop :=
  i.base = .hour ∧ ∃ phase ∈ p.hour, t.hour < phase ∧
    (t.truncate .hour).nanos - (i.multiplier - (phase - t.hour)) * i.unitNanos < Instant.first.nanos

section Clock

theorem setsFiner_of_isClock {u : TimeUnit} (hclock : u.IsClock)
    (minute : u = .hour → v.minute = p.minute.getD 0)
    (second : u ≠ .second → v.second = p.second.getD 0) (fraction : v.fraction = 0) :
    p.SetsFiner u v := by
  rcases hclock with rfl | rfl | rfl <;>
    constructor <;>
    simp_all [TimeUnit.rank]

theorem IsProper.setsFiner_slot (h : p.IsProper) (hclock : i.base.IsClock) (n : Int) :
    p.SetsFiner i.base (p.slot i n) := by
  have hminute := (h.realignedField_bounds .hour .minute (n := 0) (by decide) (by decide)).2
  have hsecond := (h.realignedField_bounds .hour .second (n := 0) (by decide) (by decide)).2
  change p.minute.getD 0 ≤ 59 at hminute
  change p.second.getD 0 ≤ 59 at hsecond
  have hnanos : (p.slot i n).nanos = n * i.unitNanos + p.finerNanos i.base := rfl
  unfold Interval.unitNanos finerNanos realignedField at hnanos
  refine setsFiner_of_isClock hclock (fun hu => ?_) (fun hu => ?_) ?_
  · rw [hu] at hnanos
    simp only [TimeUnit.rank, TimeUnit.nominalSeconds, lowest, get, Nat.lt_irrefl, Nat.reduceLT,
      if_true, if_false, nanosPerSecond] at hnanos
    simp only [Instant.minute, Instant.secondOfDay, nanosPerDay, nanosPerSecond, hnanos]
    omega
  · rcases hclock.resolve_left hu with hu | hu <;> rw [hu] at hnanos <;>
      simp only [TimeUnit.rank, TimeUnit.nominalSeconds, lowest, get, Nat.lt_irrefl, Nat.reduceLT,
        if_true, if_false, nanosPerSecond] at hnanos <;>
      simp only [Instant.second, Instant.secondOfDay, nanosPerDay, nanosPerSecond, hnanos] <;>
      omega
  · rw [Instant.fraction, hnanos, ← Int.mul_assoc, ← Int.add_mul, Int.mul_emod_left]
    rfl

theorem IsProper.truncate_slot (h : p.IsProper) (hclock : i.base.IsClock) (n : Int) :
    ((p.slot i n).truncate i.base).nanos = n * i.unitNanos := by
  have hfixed := Interval.isFixed_of_isClock hclock
  have hnonneg := p.finerNanos_nonneg i.base
  have hlt := h.finerNanos_lt hfixed
  have hnumber : i.unitNumber (p.slot i n) = n := by
    refine Interval.unitNumber_eq ?_ ?_ <;> rw [slot] <;> dsimp only
    · omega
    · rw [Int.add_mul, Int.one_mul]
      omega
  rw [Interval.truncate_of_isFixed hfixed, hnumber]

theorem back_of_not_snaps (hclock : i.base.IsClock) (h : ¬ p.Snaps i) (n : Int) :
    p.back i n = 0 := by
  have hpos := i.multiplier_pos
  have hnonneg := p.back_nonneg i n
  have hlt := p.back_lt i n
  by_cases hone : i.multiplier = 1
  · omega
  · have hget : p.get i.base = none :=
      Option.not_isSome_iff_eq_none.mp fun hsome => h ⟨hclock, by omega, hsome⟩
    rw [back, hget]

theorem IsProper.keepsCycle_slot (h : p.IsProper) (hclock : i.base.IsClock) (t : Instant) :
    p.KeepsCycle i t (p.slot i (i.unitNumber t - p.back i (i.unitNumber t))) := by
  have htruncate := Interval.truncate_of_isFixed (Interval.isFixed_of_isClock hclock) t
  have hslot := h.truncate_slot hclock (i.unitNumber t - p.back i (i.unitNumber t))
  have hnonneg := p.back_nonneg i (i.unitNumber t)
  have hlt := p.back_lt i (i.unitNumber t)
  refine ⟨h.setsFiner_slot hclock _, fun hsnap => ?_, fun _ => ?_⟩
  · rw [back_of_not_snaps hclock hsnap, Int.sub_zero] at hslot ⊢
    exact Instant.ext (hslot.trans htruncate.symm)
  · refine ⟨(p.back i (i.unitNumber t)).toNat, by omega, ?_⟩
    rw [hslot, htruncate, Int.toNat_of_nonneg hnonneg]
    ring

theorem IsProper.slot_sub_le_last (h : p.IsProper) (hclock : i.base.IsClock)
    (ht : (p.aligned? t i.base).isSome) (hn : 0 ≤ n) :
    p.slot i (i.unitNumber t - n) ≤ Instant.last := by
  obtain ⟨a, ha⟩ := Option.isSome_iff_exists.mp ht
  have hnanos := aligned?_of_isFixed (Interval.isFixed_of_isClock hclock) ha
  have hback := Int.mul_nonneg hn i.unitNanos_pos.le
  have hlast := (inRange_aligned? h ha).2
  rw [Instant.le_def] at hlast ⊢
  rw [slot, Int.sub_mul]
  dsimp only
  omega

theorem IsProper.inRange_slot_iff (h : p.IsProper) (hclock : i.base.IsClock)
    (hlast : p.slot i n ≤ Instant.last) :
    (p.slot i n).InRange ↔ Instant.first.nanos ≤ n * i.unitNanos := by
  have hfixed := Interval.isFixed_of_isClock hclock
  have hnonneg := p.finerNanos_nonneg i.base
  have hlt := h.finerNanos_lt hfixed
  obtain ⟨k, hk⟩ := Interval.unitNanos_dvd_first hfixed
  rw [Instant.InRange, and_iff_left hlast, Instant.le_def, slot, hk, Int.mul_comm i.unitNanos k]
  dsimp only
  constructor
  · intro hle
    have hless : k * i.unitNanos < (n + 1) * i.unitNanos := by
      rw [Int.add_mul, Int.one_mul]
      omega
    have hunit := Int.lt_of_mul_lt_mul_right hless i.unitNanos_pos.le
    exact Int.mul_le_mul_of_nonneg_right (by omega) i.unitNanos_pos.le
  · omega

/-- The grid lies some hours of a day back, or else, before the hour of the pattern, what the interval has
more than is missing to that hour. -/
theorem IsProper.back_of_hour (h : p.IsProper) (hu : i.base = .hour) {phase : Nat}
    (hphase : p.hour = some phase) (t : Instant) :
    t.hour < phase ∧ p.back i (i.unitNumber t) = i.multiplier - (phase - t.hour) ∨
      p.back i (i.unitNumber t) ≤ 23 ∧ (phase ≤ t.hour ∨ i.multiplier < phase - t.hour) := by
  have hclock : i.base.IsClock := .inr (.inr hu)
  have hless := p.back_lt i (i.unitNumber t)
  have hphaseHigh : phase ≤ 23 := (h .hour phase hphase).2
  have hhour := t.clock_bounds.1
  have hback : p.back i (i.unitNumber t) = (t.hour - phase) % i.multiplier := by
    have hfield := TimeUnit.clockField_eq hclock t
    rw [back_of_get (by rw [hu]; exact hphase), Interval.unitNumber, Interval.unitNanos, ← hfield, hu]
    rfl
  by_cases hahead : t.hour < phase
  · by_cases hshort : i.multiplier < phase - t.hour
    · exact .inr ⟨by omega, .inr hshort⟩
    · refine .inl ⟨hahead, ?_⟩
      rw [hback, ← Int.add_emod_right, Int.emod_eq_of_lt (by omega) (by omega)]
      omega
  · refine .inr ⟨?_, .inl (by omega)⟩
    by_cases hless' : (t.hour - phase : Int) < i.multiplier
    · rw [hback, Int.emod_eq_of_lt (by omega) hless']
      omega
    · omega

/-- Going back does not leave the calendar unless the pattern overshoots: it is by fewer seconds or minutes
than a word has, or by hours. -/
theorem IsProper.first_le_sub_back_iff (h : p.IsProper) (hclock : i.base.IsClock)
    (hyear : t.HasPlainYear) :
    Instant.first.nanos ≤ (i.unitNumber t - p.back i (i.unitNumber t)) * i.unitNanos ↔
      ¬ p.Overshoots i t := by
  have hword : i.multiplier < 4294967296 := i.multiplier_lt
  have hback := p.back_lt i (i.unitNumber t)
  have hfirst : Instant.first.nanos = -8272465632000 * nanosPerSecond := by decide
  have htruncate := Interval.truncate_of_isFixed (Interval.isFixed_of_isClock hclock) t
  have hnumber : 0 ≤ i.unitNumber t := Int.ediv_nonneg hyear.nonneg i.unitNanos_pos.le
  by_cases hu : i.base = .hour
  · have hunit : i.unitNanos = 3600 * nanosPerSecond := by rw [Interval.unitNanos, hu]; rfl
    rw [hu] at htruncate
    cases hphase : p.hour with
    | none =>
      have hzero : p.back i (i.unitNumber t) = 0 := by
        rw [back, hu, get, hphase]
      have hnot : ¬ p.Overshoots i t := by simp [Overshoots, hphase]
      refine iff_of_true ?_ hnot
      rw [hfirst, hzero, Int.sub_zero, hunit]
      unfold nanosPerSecond
      omega
    | some phase =>
      have hgrid := h.back_of_hour hu hphase t
      simp only [Overshoots, hu, hphase, Option.mem_some_iff, true_and, exists_eq_left', htruncate,
        hunit, hfirst, nanosPerSecond, not_and, not_lt]
      omega
  · have hunit : i.unitNanos = 1 * nanosPerSecond ∨ i.unitNanos = 60 * nanosPerSecond := by
      rcases hclock with hu' | hu' | hu'
      · left; rw [Interval.unitNanos, hu']; rfl
      · right; rw [Interval.unitNanos, hu']; rfl
      · exact absurd hu' hu
    refine iff_of_true ?_ fun hover => hu hover.1
    rcases hunit with hunit | hunit <;> rw [hunit, hfirst] <;> unfold nanosPerSecond <;> omega

end Clock

section Whole

theorem IsProper.realignedSecond_lt (h : p.IsProper) (u : TimeUnit) (t : Instant) :
    p.realignedField u .hour t.hour * 3600 + p.realignedField u .minute t.minute * 60 +
      p.realignedField u .second t.second < 86400 := by
  obtain ⟨hhour, hminute, hsecond⟩ := t.clock_bounds
  have hhour := (h.realignedField_bounds u .hour (Nat.zero_le _) hhour).2
  have hminute := (h.realignedField_bounds u .minute (Nat.zero_le _) hminute).2
  have hsecond := (h.realignedField_bounds u .second (Nat.zero_le _) hsecond).2
  simp only [highest] at hhour hminute hsecond
  omega

theorem IsProper.date_aligned? (h : p.IsProper) {u : TimeUnit} (ha : p.aligned? t u = some v) :
    v.date = Date.clamped t.year (p.realignedField u .month t.month) (p.realignedField u .day t.day) ∧
      v.secondOfDay = p.realignedField u .hour t.hour * 3600 +
        p.realignedField u .minute t.minute * 60 + p.realignedField u .second t.second ∧
      v.fraction = 0 := by
  obtain ⟨hlow, hhigh, hday, hlength, -⟩ := t.date_bounds
  have hmonth := h.realignedField_bounds u .month hlow hhigh
  have hday := (h.realignedField_bounds u .day hday (hlength.trans (daysInMonth_le _ _))).1
  have hv : v = .ofDate (Date.clamped t.year (p.realignedField u .month t.month)
      (p.realignedField u .day t.day)) (p.realignedField u .hour t.hour * 3600 +
        p.realignedField u .minute t.minute * 60 + p.realignedField u .second t.second) :=
    Instant.ext (aligned?_eq ha)
  have hsecond := h.realignedSecond_lt u t
  rw [hv]
  exact ⟨Instant.date_ofDate (Date.isDay_clamped _ hmonth hday) hsecond,
    Instant.secondOfDay_ofDate hsecond, Instant.fraction_ofDate _ _⟩

theorem IsProper.setsFiner_aligned? (h : p.IsProper) {u : TimeUnit} (ha : p.aligned? t u = some v) :
    p.SetsFiner u v := by
  obtain ⟨hdate, hsecond, hfraction⟩ := h.date_aligned? ha
  have hday : v.day = min (p.realignedField u .day t.day) (daysInMonth v.year v.month) := by
    simp only [Instant.day, Instant.year, Instant.month, hdate, Date.clamped]
  have hminute := (h.realignedField_bounds u .minute (Nat.zero_le _) t.clock_bounds.2.1).2
  have hsixty := (h.realignedField_bounds u .second (Nat.zero_le _) t.clock_bounds.2.2).2
  simp only [highest] at hminute hsixty
  have hset {f : TimeUnit} (hless : f.rank < u.rank) (n : Nat) :
      p.realignedField u f n = (p.get f).getD (lowest f) := if_pos hless
  refine ⟨fun hless => ?_, fun hless => ?_, fun hless => ?_, fun hless => ?_, fun hless => ?_,
    hfraction⟩
  · rw [Instant.month, hdate]
    exact hset hless _
  · rw [hday, hset hless]
    rfl
  · rw [← show p.realignedField u .hour t.hour = p.hour.getD 0 from hset hless _, Instant.hour, hsecond]
    omega
  · rw [← show p.realignedField u .minute t.minute = p.minute.getD 0 from hset hless _, Instant.minute,
      hsecond]
    omega
  · rw [← show p.realignedField u .second t.second = p.second.getD 0 from hset hless _, Instant.second,
      hsecond]
    omega

theorem IsProper.truncate_aligned? (h : p.IsProper) (hclock : ¬ i.base.IsClock)
    (ha : p.aligned? t i.base = some v) : v.truncate i.base = t.truncate i.base := by
  obtain ⟨hdate, -, -⟩ := h.date_aligned? ha
  cases hu : i.base with
  | second | minute | hour => simp [TimeUnit.IsClock, hu] at hclock
  | day =>
    rw [hu] at hdate
    have hsame : v.date = t.date := hdate.trans t.clamped_date
    have hv := v.date_bounds.2.2.2.2
    have ht := t.date_bounds.2.2.2.2
    rw [hsame, ht] at hv
    apply Instant.ext
    simp only [Instant.truncate]
    unfold nanosPerDay at hv ⊢
    omega
  | month =>
    rw [hu] at hdate
    simp only [Instant.truncate, Instant.year, Instant.month, hdate, Date.clamped]
    rfl
  | year =>
    simp only [Instant.truncate, Instant.year, hdate, Date.clamped]

/-- Days, months and years keep their unit, and every finer field is set. -/
theorem IsProper.keepsCycle_aligned? (h : p.IsProper) (hclock : ¬ i.base.IsClock)
    (ha : p.aligned? t i.base = some v) : p.KeepsCycle i t v :=
  ⟨h.setsFiner_aligned? ha, fun _ => h.truncate_aligned? hclock ha,
    fun hsnap => absurd hsnap.1 hclock⟩

end Whole

theorem not_overshoots_of_le (hyear : t.HasPlainYear) (hshort : i.multiplier ≤ 2147483648) :
    ¬ p.Overshoots i t := by
  rintro ⟨hu, phase, -, hahead, hover⟩
  have hclock : i.base.IsClock := .inr (.inr hu)
  have hunit : i.unitNanos = 3600 * nanosPerSecond := by rw [Interval.unitNanos, hu]; rfl
  have hfirst : Instant.first.nanos = -8272465632000 * nanosPerSecond := by decide
  have htruncate := Interval.truncate_of_isFixed (Interval.isFixed_of_isClock hclock) t
  have hnumber : 0 ≤ i.unitNumber t := Int.ediv_nonneg hyear.nonneg i.unitNanos_pos.le
  rw [hu, hunit] at htruncate
  rw [htruncate, hunit, hfirst] at hover
  unfold nanosPerSecond at hover
  omega

/-- Moving onto a pattern keeps the cycle. It fails only where the grid lies more hours back than the
calendar has, which takes more than half a word of them. -/
theorem realign?_keepsCycle (proper : p.IsProper) (hyear : t.HasPlainYear) :
    (∀ v, p.realign? t i = some v → p.KeepsCycle i t v) ∧
      (p.realign? t i = none ↔ p.Overshoots i t) ∧
      (p.Overshoots i t → wordSize 31 < i.multiplier) := by
  have haligned : (p.aligned? t i.base).isSome := by
    obtain ⟨hlow, hhigh⟩ := hyear
    rw [isSome_aligned?_iff]
    unfold Instant.firstYear Instant.lastYear
    omega
  have hlong : p.Overshoots i t → wordSize 31 < i.multiplier := fun hover =>
    Nat.lt_of_not_le fun hshort => not_overshoots_of_le hyear hshort hover
  by_cases hclock : i.base.IsClock
  · have hlast := proper.slot_sub_le_last hclock haligned (p.back_nonneg i (i.unitNumber t))
    rw [realign?_of_isClock hclock haligned]
    refine ⟨fun v hv => ?_, ?_, hlong⟩
    · obtain ⟨-, rfl⟩ := Instant.inRange?_eq_some_iff.mp hv
      exact proper.keepsCycle_slot hclock t
    · rw [← Option.not_isSome_iff_eq_none, Interval.isSome_inRange?_iff,
        proper.inRange_slot_iff hclock hlast, proper.first_le_sub_back_iff hclock hyear, not_not]
  · obtain ⟨a, ha⟩ := Option.isSome_iff_exists.mp haligned
    rw [realign?_of_not_isClock hclock ha]
    refine ⟨fun v hv => ?_, ?_, hlong⟩
    · cases hv
      exact proper.keepsCycle_aligned? hclock ha
    · exact iff_of_false (by simp) fun hover => hclock (.inr (.inr hover.1))

/-- From ten past two on the first of March, the grid of every five hours around half past eleven in the
evening lies four hours back, on the leap day. -/
theorem realign?_keepsCycle_beforeMarch :
    let p : TimePattern := { format := "HH:mm", hour := some 23, minute := some 30 }
    let i : Interval := { base := .hour, multiplier := 5 }
    let t := Instant.ofDate ⟨2004, 3, 1⟩ 7800
    let v := Instant.ofDate ⟨2004, 2, 29⟩ 81000
    p.IsProper ∧ t.HasPlainYear ∧ p.Snaps i ∧ p.realign? t i = some v ∧ p.KeepsCycle i t v ∧
      ¬ p.Overshoots i t := by
  intro p i t v
  have proper : p.IsProper := by decide
  have hyear : t.HasPlainYear := by decide +kernel
  have hv : p.realign? t i = some v := by decide +kernel
  have hkeeps := realign?_keepsCycle (i := i) proper hyear
  exact ⟨proper, hyear, by decide, hv, hkeeps.1 v hv,
    fun hover => absurd (hkeeps.2.2 hover) (by decide)⟩

/-- At two o'clock, three hours before the hour of the pattern, the grid of the longest interval in hours
lies so far back that there is no instant. -/
theorem not_keepsCycle_longestHours :
    let p : TimePattern := { format := "HH", hour := some 5 }
    let i : Interval := { base := .hour, multiplier := 4294967295 }
    let t := Instant.ofDate ⟨2006, 5, 20⟩ 7200
    p.IsProper ∧ t.HasPlainYear ∧ ¬ ∃ v, p.realign? t i = some v ∧ p.KeepsCycle i t v := by
  intro p i t
  have hnone : p.realign? t i = none := by decide +kernel
  refine ⟨by decide, by decide +kernel, ?_⟩
  rintro ⟨v, hv, -⟩
  cases hnone.symm.trans hv

end TimePattern
end SeriesAlarm
