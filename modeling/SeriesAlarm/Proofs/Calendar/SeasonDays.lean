import SeriesAlarm.Calendar.Season
import SeriesAlarm.Proofs.Calendar.Room
import SeriesAlarm.Proofs.Outcome

/-!
# Seasons of whole days

The bounds of a season may be days without a time of day. It is then a range of months and days, which
goes on over New Year if its last day comes before its first; but its end is the last whole second of
the last day, and what is left of that second belongs to no season.
-/

namespace SeriesAlarm

namespace Date

variable {d e : Date}

def NotAfter (d e : Date) : Prop := d.month < e.month ∨ d.month = e.month ∧ d.day ≤ e.day

instance (d e : Date) : Decidable (d.NotAfter e) := inferInstanceAs (Decidable (_ ∨ _))

/-- The fields are those of a day of the calendar. -/
structure IsDay (d : Date) : Prop where
  month : 1 ≤ d.month ∧ d.month ≤ 12
  day : 1 ≤ d.day ∧ d.day ≤ daysInMonth d.year d.month

theorem isDay_clamped (year : Int) {month day : Nat} (hmonth : 1 ≤ month ∧ month ≤ 12)
    (hday : 1 ≤ day) : (clamped year month day).IsDay :=
  ⟨hmonth, Nat.le_min.mpr ⟨hday, daysInMonth_pos year month⟩, Nat.min_le_right _ _⟩

theorem IsDay.monthNumber_bounds (h : d.IsDay) :
    12 * d.year ≤ d.monthNumber ∧ d.monthNumber < 12 * d.year + 12 := by
  have hmonth := h.month
  unfold monthNumber
  omega

theorem IsDay.month_bounds (h : d.IsDay) :
    monthStart d.monthNumber ≤ d.dayNumber ∧ d.dayNumber < monthStart (d.monthNumber + 1) := by
  have hbounds := clamped_bounds d.year h.month h.day.1
  have hsame : clamped d.year d.month d.day = d := by rw [clamped, Nat.min_eq_left h.day.2]
  rw [hsame] at hbounds
  simpa [monthNumber] using hbounds

theorem IsDay.dayNumber_le_iff (hd : d.IsDay) (he : e.IsDay) (hyear : d.year = e.year) :
    d.dayNumber ≤ e.dayNumber ↔ d.NotAfter e := by
  have hdm := hd.month_bounds
  have hem := he.month_bounds
  rcases Nat.lt_trichotomy d.month e.month with hlt | heq | hgt
  · have hstart : monthStart (d.monthNumber + 1) ≤ monthStart e.monthNumber :=
      monthStart_le_iff.mpr (by unfold monthNumber; omega)
    exact iff_of_true (by omega) (.inl hlt)
  · simp only [NotAfter, dayNumber, heq, hyear, lt_irrefl, true_and, false_or]
    omega
  · have hstart : monthStart (e.monthNumber + 1) ≤ monthStart d.monthNumber :=
      monthStart_le_iff.mpr (by unfold monthNumber; omega)
    refine iff_of_false (by omega) ?_
    unfold NotAfter
    omega

theorem IsDay.eq_iff (hd : d.IsDay) (he : e.IsDay) (hyear : d.year = e.year) :
    d = e ↔ d.dayNumber = e.dayNumber := by
  constructor
  · exact fun h => h ▸ rfl
  · intro h
    have hle := (hd.dayNumber_le_iff he hyear).mp h.le
    have hge := (he.dayNumber_le_iff hd hyear.symm).mp h.ge
    cases d
    cases e
    simp only [NotAfter] at hle hge
    simp only [mk.injEq]
    exact ⟨hyear, by omega, by omega⟩

end Date

theorem Instant.isDay_date (t : Instant) : t.date.IsDay := by
  obtain ⟨hlow, hhigh, hday, hlength, -⟩ := t.date_bounds
  exact ⟨⟨hlow, hhigh⟩, hday, hlength⟩

theorem Instant.monthNumber_of_isDay {t : Instant} {d : Date} (h : d.IsDay)
    (ht : t.nanos / nanosPerDay = d.dayNumber) : t.date.monthNumber = d.monthNumber := by
  rw [Instant.date, ht]
  exact Date.monthNumber_eq h.month_bounds.1 h.month_bounds.2

namespace TimePattern

variable {p q : TimePattern}

def dayIn (p : TimePattern) (year : Int) : Date := Date.clamped year (p.month.getD 1) (p.day.getD 1)

def secondOfDay (p : TimePattern) : Nat :=
  p.hour.getD 0 * 3600 + p.minute.getD 0 * 60 + p.second.getD 0

/-- The pattern stands for an instant of each year. -/
structure IsYearly (p : TimePattern) : Prop where
  proper : p.IsProper
  month : p.month.isSome = true

theorem IsYearly.isDay_dayIn (h : p.IsYearly) (year : Int) : (p.dayIn year).IsDay := by
  obtain ⟨month, hmonth⟩ := Option.isSome_iff_exists.mp h.month
  refine Date.isDay_clamped year (by rw [hmonth]; exact h.proper .month month hmonth) ?_
  cases hday : p.day with
  | none => simp
  | some day => exact (h.proper .day day hday).1

theorem IsYearly.monthNumber_dayIn (h : p.IsYearly) (year : Int) :
    12 * year ≤ (p.dayIn year).monthNumber ∧ (p.dayIn year).monthNumber < 12 * year + 12 :=
  (h.isDay_dayIn year).monthNumber_bounds

/-- Except for December of its last year, the instant lies in the calendar. -/
theorem IsYearly.inYear?_eq (h : p.IsYearly) (year : Int) : p.inYear? year =
    if Instant.firstYear ≤ year ∧ year ≤ Instant.lastYear ∧
      ¬ (year = Instant.lastYear ∧ p.month.getD 1 = 12) then
      some (.ofDate (p.dayIn year) p.secondOfDay) else none := by
  obtain ⟨month, hmonth⟩ := Option.isSome_iff_exists.mp h.month
  simp [inYear?, Instant.ofFields?, dayIn, secondOfDay, hmonth]

/-- The pattern stands for a day of each year. -/
structure NamesDay (p : TimePattern) : Prop extends p.IsYearly where
  day : p.hasTime = false

theorem NamesDay.inYear?_eq (h : p.NamesDay) (year : Int) : p.inYear? year =
    if Instant.firstYear ≤ year ∧ year ≤ Instant.lastYear ∧
      ¬ (year = Instant.lastYear ∧ p.month.getD 1 = 12) then
      some (.ofDate (p.dayIn year) 0) else none := by
  obtain ⟨⟨hhour, hminute⟩, hsecond⟩ : (p.hour = none ∧ p.minute = none) ∧ p.second = none := by
    simpa [hasTime] using h.day
  have hmidnight : p.secondOfDay = 0 := by simp [secondOfDay, hhour, hminute, hsecond]
  rw [h.toIsYearly.inYear?_eq, hmidnight]

theorem get_readPieces {pieces : List Piece} {text : List Char} {u : TimeUnit}
    (h : readPieces pieces p text = .ok q) (hu : .field u ∉ pieces) : q.get u = p.get u := by
  fun_induction readPieces pieces p text with
  | case1 p =>
    cases h
    rfl
  | case2 => cases h
  | case3 p c ps r ih => exact ih h (List.not_mem_of_not_mem_cons hu)
  | case4 => cases h
  | case5 => cases h
  | case6 => cases h
  | case7 => cases h
  | case8 v ps p value width hwidth n hn hrange ih =>
    have hne : u ≠ v := fun heq => hu (heq ▸ List.mem_cons_self)
    rw [ih h (List.not_mem_of_not_mem_cons hu), get_set_of_ne p n hne]
  | case9 => cases h

theorem hasTime_parse {value : String} (h : parse value "MM-dd" = .ok p) : p.hasTime = false := by
  have hpieces : pieces "MM-dd".toList = [.field .month, .literal '-', .field .day] := by decide
  rw [parse, hpieces] at h
  split at h
  · cases h
  · cases h
  next q hread =>
  split at h
  · cases h
  cases h
  have hhour : p.hour = none := get_readPieces (u := .hour) hread (by decide)
  have hminute : p.minute = none := get_readPieces (u := .minute) hread (by decide)
  have hsecond : p.second = none := get_readPieces (u := .second) hread (by decide)
  simp [hasTime, hhour, hminute, hsecond]

end TimePattern

namespace Season

variable {s : Season} {t first last : Instant} {year : Int}

/-- Both bounds are days of the year. -/
structure NamesDays (s : Season) : Prop where
  start : s.start.NamesDay
  finish : s.finish.NamesDay

/-- By month and day, the date is in the range from the first day to the last, over New Year if the last
comes before the first. -/
def Covers (s : Season) (d : Date) : Prop :=
  if (s.start.dayIn d.year).NotAfter (s.finish.dayIn d.year) then
    (s.start.dayIn d.year).NotAfter d ∧ d.NotAfter (s.finish.dayIn d.year)
  else d.NotAfter (s.finish.dayIn d.year) ∨ (s.start.dayIn d.year).NotAfter d

instance (s : Season) (d : Date) : Decidable (s.Covers d) := inferInstanceAs (Decidable (ite _ _ _))

/-- The instant is on the last day, within the second that begins at 23:59:59. -/
def IsInLastSecond (s : Season) (t : Instant) : Prop :=
  t.date = s.finish.dayIn t.year ∧ t.secondOfDay = 86399 ∧ 0 < t.fraction

/-- Both bounds stand for an instant of each year. -/
structure IsYearly (s : Season) : Prop where
  start : s.start.IsYearly
  finish : s.finish.IsYearly

theorem isYearly_of_checkBound {value format name : String} {p : TimePattern}
    (hparse : TimePattern.parse value format = .ok p) (hcheck : checkBound name p = .ok ()) :
    p.IsYearly := by
  refine ⟨TimePattern.isProper_parse hparse, ?_⟩
  by_contra hmonth
  simp [checkBound, Option.not_isSome_iff_eq_none.mp hmonth] at hcheck

theorem parse_bounds {start finish format : String} (h : parse start finish format = .ok s) :
    TimePattern.parse start format = .ok s.start ∧ TimePattern.parse finish format = .ok s.finish ∧
      s.IsYearly := by
  have hmap {value : String} {p : TimePattern}
      (h : (TimePattern.parse value format).mapError SeasonError.pattern = .ok p) :
      TimePattern.parse value format = .ok p := by
    cases hparse : TimePattern.parse value format <;> simp_all [Except.mapError]
  obtain ⟨first, hfirst, h⟩ := bind_eq_ok.mp h
  obtain ⟨last, hlast, h⟩ := bind_eq_ok.mp h
  obtain ⟨⟨⟩, hstart, h⟩ := bind_eq_ok.mp h
  obtain ⟨⟨⟩, hfinish, h⟩ := bind_eq_ok.mp h
  cases h
  exact ⟨hmap hfirst, hmap hlast, isYearly_of_checkBound (hmap hfirst) hstart,
    isYearly_of_checkBound (hmap hlast) hfinish⟩

theorem namesDays_parse {start finish : String} (h : parse start finish "MM-dd" = .ok s) :
    s.NamesDays := by
  obtain ⟨hstart, hfinish, hyearly⟩ := parse_bounds h
  exact ⟨⟨hyearly.start, TimePattern.hasTime_parse hstart⟩,
    ⟨hyearly.finish, TimePattern.hasTime_parse hfinish⟩⟩

theorem finishIn?_eq (h : s.finish.NamesDay) (year : Int) : s.finishIn? year =
    (s.finish.inYear? year).bind fun day => (day.shift 86400).bind (·.shift (-1)) := by
  simp only [finishIn?, h.day, Option.bind_eq_bind]
  congr 1
  funext day
  cases day.shift 86400 <;> simp

theorem nanos_finishIn? (h : s.finish.NamesDay) (hlast : s.finishIn? year = some last) :
    last.nanos = ((s.finish.dayIn year).dayNumber + 1) * nanosPerDay - nanosPerSecond := by
  simp only [finishIn?_eq h, h.inYear?_eq, Option.bind_eq_some_iff, Option.ite_none_right_eq_some,
    Option.some.injEq] at hlast
  obtain ⟨_, ⟨-, rfl⟩, next, hnext, hback⟩ := hlast
  have hday := Instant.shift_eq_some hnext
  have hsecond := Instant.shift_eq_some hback
  simp only [Instant.ofDate] at hday
  unfold nanosPerDay nanosPerSecond at *
  omega

theorem month_first (h : s.NamesDays) (hfirst : s.start.inYear? year = some first) :
    first.nanos = (s.start.dayIn year).dayNumber * nanosPerDay ∧
      first.date.monthNumber = (s.start.dayIn year).monthNumber := by
  simp only [h.start.inYear?_eq, Option.ite_none_right_eq_some, Option.some.injEq] at hfirst
  obtain ⟨-, rfl⟩ := hfirst
  have hnanos : (Instant.ofDate (s.start.dayIn year) 0).nanos =
      (s.start.dayIn year).dayNumber * nanosPerDay := by simp [Instant.ofDate]
  refine ⟨hnanos, Instant.monthNumber_of_isDay (h.start.isDay_dayIn year) ?_⟩
  rw [hnanos]
  exact Int.mul_ediv_cancel _ (by decide)

theorem month_last (h : s.NamesDays) (hlast : s.finishIn? year = some last) :
    last.nanos = ((s.finish.dayIn year).dayNumber + 1) * nanosPerDay - nanosPerSecond ∧
      last.date.monthNumber = (s.finish.dayIn year).monthNumber := by
  have hnanos := nanos_finishIn? h.finish hlast
  refine ⟨hnanos, Instant.monthNumber_of_isDay (h.finish.isDay_dayIn year) ?_⟩
  rw [hnanos]
  unfold nanosPerDay nanosPerSecond
  omega

/-- Moving a bound by a year brings it to the other side of the instant. -/
theorem contains_iff_of_isSome (h : s.NamesDays) (hfirst : s.start.inYear? t.year = some first)
    (hlast : s.finishIn? t.year = some last) (hsome : (s.bounds? t).isSome) :
    s.contains t = true ↔
      if last < first then t ≤ last ∨ first ≤ t else first ≤ t ∧ t ≤ last := by
  obtain ⟨bounds, hbounds⟩ := Option.isSome_iff_exists.mp hsome
  have hyear : 12 * t.year ≤ t.date.monthNumber ∧ t.date.monthNumber < 12 * t.year + 12 :=
    t.isDay_date.monthNumber_bounds
  simp only [contains, hbounds]
  simp only [bounds?, hfirst, hlast, Option.bind_eq_bind, Option.bind_some] at hbounds
  by_cases hwrap : last < first
  · by_cases hle : t ≤ last
    · simp only [hwrap, hle, if_true, Option.map_eq_some_iff] at hbounds
      obtain ⟨moved, hmoved, rfl⟩ := hbounds
      have hmonth := Instant.monthNumber_of_shiftMonths? hmoved
      rw [(month_first h hfirst).2] at hmonth
      have hstart := (h.start.monthNumber_dayIn t.year).2
      have hbefore : moved ≤ t := Int.le_of_lt (Instant.lt_of_monthNumber_lt (by omega))
      simp [hwrap, hle, hbefore]
    · simp only [hwrap, hle, if_true, if_false, Option.map_eq_some_iff] at hbounds
      obtain ⟨moved, hmoved, rfl⟩ := hbounds
      have hmonth := Instant.monthNumber_of_shiftMonths? hmoved
      rw [(month_last h hlast).2] at hmonth
      have hfinish := (h.finish.monthNumber_dayIn t.year).1
      have hafter : t ≤ moved := Int.le_of_lt (Instant.lt_of_monthNumber_lt (by omega))
      simp [hwrap, hle, hafter]
  · simp only [hwrap, if_false, Option.some.injEq] at hbounds
    simp [← hbounds, hwrap]

theorem isSome_finishIn? (h : s.finish.NamesDay) (hfirst : Instant.firstYear < year)
    (hlast : year < Instant.lastYear) : (s.finishIn? year).isSome := by
  generalize hd : s.finish.dayIn year = d
  have hday : d.IsDay := hd ▸ h.isDay_dayIn year
  have hmonth := hd ▸ h.monthNumber_dayIn year
  have hbounds := hday.month_bounds
  have hlow : Date.monthStart (12 * Instant.firstYear) ≤ Date.monthStart d.monthNumber :=
    Date.monthStart_le_iff.mpr (by omega)
  have hhigh : Date.monthStart (d.monthNumber + 1) < Date.monthStart (12 * (Instant.lastYear + 1)) :=
    Date.monthStart_lt_iff.mpr (by omega)
  have hinside (seconds : Int) (hpos : 0 ≤ seconds) (hle : seconds ≤ 86400) :
      Instant.InRange ⟨(Instant.ofDate d 0).nanos + seconds * nanosPerSecond⟩ := by
    simp only [Instant.InRange, Instant.le_def, Instant.first_eq, Instant.last_eq, Instant.ofDate]
    unfold nanosPerDay nanosPerSecond
    omega
  obtain ⟨next, hnext⟩ := Option.isSome_iff_exists.mp
    (Instant.isSome_shift_iff.mpr (hinside 86400 (by decide) (by decide)))
  have hback : next.nanos + -1 * nanosPerSecond =
      (Instant.ofDate d 0).nanos + 86399 * nanosPerSecond := by
    rw [Instant.shift_eq_some hnext]
    omega
  rw [finishIn?_eq h, h.inYear?_eq, if_pos (by omega), hd, Option.bind_some, hnext, Option.bind_some,
    Instant.isSome_shift_iff, hback]
  exact hinside 86399 (by decide) (by decide)

theorem isSome_bounds? (h : s.NamesDays) (hfirst : Instant.firstYear < t.year)
    (hlast : t.year < Instant.lastYear) : (s.bounds? t).isSome := by
  obtain ⟨first, hstart⟩ : ∃ first, s.start.inYear? t.year = some first :=
    ⟨_, by rw [h.start.inYear?_eq, if_pos (by omega)]⟩
  obtain ⟨last, hfinish⟩ := Option.isSome_iff_exists.mp (isSome_finishIn? h.finish hfirst hlast)
  have hmoved {d : Date} {u : Instant} {m : Int} (hd : d.IsDay) (hyear : d.year = t.year)
      (hu : u.date.monthNumber = d.monthNumber) (hm : m = -12 ∨ m = 12) :
      (u.shiftMonths? m).isSome := by
    have hmonth := hd.monthNumber_bounds
    have hinside : Instant.firstYear ≤ (d.monthNumber + m) / 12 ∧
        (d.monthNumber + m) / 12 ≤ Instant.lastYear := by omega
    simp [Instant.shiftMonths?, Date.shiftMonths_year, hu, hinside]
  have hbefore := hmoved (h.start.isDay_dayIn t.year) rfl (month_first h hstart).2 (.inl rfl)
  have hafter := hmoved (h.finish.isDay_dayIn t.year) rfl (month_last h hfinish).2 (.inr rfl)
  simp only [bounds?, hstart, hfinish, Option.bind_eq_bind, Option.bind_some]
  split
  · split <;> simpa
  · rfl

theorem isInLastSecond_iff : s.IsInLastSecond t ↔ t.date = s.finish.dayIn t.year ∧
    nanosPerDay - nanosPerSecond < t.nanos % nanosPerDay := by
  simp only [IsInLastSecond, Instant.secondOfDay, Instant.fraction, nanosPerDay, nanosPerSecond]
  refine and_congr_right fun _ => ?_
  omega

theorem contains_iff (h : s.NamesDays) : s.contains t = true ↔
    (s.bounds? t).isSome ∧ s.Covers t.date ∧ ¬ s.IsInLastSecond t := by
  by_cases hsome : (s.bounds? t).isSome
  · obtain ⟨bounds, hbounds⟩ := Option.isSome_iff_exists.mp hsome
    simp only [bounds?, Option.bind_eq_bind, Option.bind_eq_some_iff] at hbounds
    obtain ⟨first, hfirst, last, hlast, -⟩ := hbounds
    have hstart := h.start.isDay_dayIn t.year
    have hfinish := h.finish.isDay_dayIn t.year
    have hday : t.date.dayNumber = t.nanos / nanosPerDay := t.date_bounds.2.2.2.2
    have hyear : t.date.year = t.year := rfl
    rw [contains_iff_of_isSome h hfirst hlast hsome, isInLastSecond_iff]
    simp only [Covers, hyear, ← hstart.dayNumber_le_iff hfinish rfl,
      ← hstart.dayNumber_le_iff t.isDay_date rfl, ← t.isDay_date.dayNumber_le_iff hfinish rfl,
      t.isDay_date.eq_iff hfinish rfl, hday, hsome, true_and, Instant.lt_def, Instant.le_def,
      (month_first h hfirst).1, (month_last h hlast).1]
    unfold nanosPerDay nanosPerSecond
    split <;> split <;> omega
  · simp [contains, Option.not_isSome_iff_eq_none.mp hsome]

theorem IsInLastSecond.covers (h : s.IsInLastSecond t) : s.Covers t.date := by
  have hsame : t.date.NotAfter (s.finish.dayIn t.date.year) := by
    rw [← show t.date = s.finish.dayIn t.date.year from h.1]
    exact .inr ⟨rfl, Nat.le_refl _⟩
  rw [Covers]
  split
  · next hle => exact ⟨by rwa [← show t.date = s.finish.dayIn t.date.year from h.1] at hle, hsame⟩
  · exact .inl hsame

/-- A season of months and days contains the days of its range, but for the fraction after the last
whole second of the last day. -/
theorem contains_iff_covers {start finish : String} (parsed : parse start finish "MM-dd" = .ok s)
    (hfirst : Instant.firstYear < t.year) (hlast : t.year < Instant.lastYear) :
    (s.contains t = true ↔ s.Covers t.date ∧ ¬ s.IsInLastSecond t) ∧
      (s.IsInLastSecond t → s.Covers t.date) ∧
      ∀ u : Instant, u.date = t.date → ¬ s.IsInLastSecond t → ¬ s.IsInLastSecond u →
        s.contains u = s.contains t := by
  have hdays := namesDays_parse parsed
  have hcontains {u : Instant} (hdate : u.date = t.date) :
      s.contains u = true ↔ s.Covers t.date ∧ ¬ s.IsInLastSecond u := by
    have hyear : u.year = t.year := congrArg Date.year hdate
    rw [contains_iff hdays, hdate]
    simp [isSome_bounds? hdays (hyear ▸ hfirst) (hyear ▸ hlast)]
  refine ⟨hcontains rfl, IsInLastSecond.covers, fun u hdate ht hu => ?_⟩
  rw [Bool.eq_iff_iff, hcontains hdate, hcontains rfl]
  simp [ht, hu]

/-- A winter that ends on a leap day, at noon of its last day in another year. -/
theorem contains_iff_covers_leapDay :
    let noon := Instant.ofDate ⟨2006, 2, 28⟩ 43200
    ∃ s, parse "10-01" "02-29" "MM-dd" = .ok s ∧
      Instant.firstYear < noon.year ∧ noon.year < Instant.lastYear ∧
      (s.contains noon = true ↔ s.Covers noon.date ∧ ¬ s.IsInLastSecond noon) ∧
      (s.IsInLastSecond noon → s.Covers noon.date) ∧
      ∀ u : Instant, u.date = noon.date → ¬ s.IsInLastSecond noon → ¬ s.IsInLastSecond u →
        s.contains u = s.contains noon := by
  intro noon
  let s : Season := {
    start := { format := "MM-dd", month := some 10, day := some 1 }
    finish := { format := "MM-dd", month := some 2, day := some 29 } }
  have parsed : parse "10-01" "02-29" "MM-dd" = .ok s := by decide +kernel
  have hfirst : Instant.firstYear < noon.year := by decide +kernel
  have hlast : noon.year < Instant.lastYear := by decide +kernel
  exact ⟨s, parsed, hfirst, hlast, contains_iff_covers parsed hfirst hlast⟩

/-- Half a second before midnight the last day is over. -/
theorem not_contains_lastHalfSecond :
    let noon := Instant.ofDate ⟨2006, 4, 1⟩ 43200
    let late : Instant := ⟨(Instant.ofDate ⟨2006, 4, 1⟩ 86399).nanos + 500000000⟩
    ∃ s, parse "10-01" "04-01" "MM-dd" = .ok s ∧ late.date = noon.date ∧ s.Covers late.date ∧
      s.contains noon = true ∧ s.contains late = false := by
  intro noon late
  refine ⟨{
    start := { format := "MM-dd", month := some 10, day := some 1 }
    finish := { format := "MM-dd", month := some 4, day := some 1 } }, ?_, ?_, ?_, ?_, ?_⟩ <;>
    decide +kernel

end Season
end SeriesAlarm
